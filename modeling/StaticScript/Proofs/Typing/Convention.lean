import StaticScript.Proofs.Typing.Arguments
import Mathlib.Data.List.Perm.Basic

/-!
# The calling convention

Which calls fit the parameters of a function, and what each parameter gets, said without the
matching itself: a name addresses the first parameter that has it (`Addresses`), a call gives an
argument to a parameter by position or by name (`Given`), and a call is a `Misfit` if it gives an
argument to no parameter, two arguments to one, or none to a parameter that needs one.

The matching follows this convention in every case (`bindArguments_convention`).  The convention
mentions the arguments with a name as a collection only, so their order does not matter.
-/

namespace StaticScript.Typing

variable {α : Type}

/-! ### Names -/

/-- A name addresses the first parameter that has it. -/
def Addresses (params : List SignatureParam) (name : String) (i : Nat) : Prop :=
  (∃ p, params[i]? = some p ∧ p.name = name) ∧
    ∀ j < i, ∀ p, params[j]? = some p → p.name ≠ name

section

variable {params : List SignatureParam} {name : String} {i j : Nat}

theorem findIdx?_eq_some : params.findIdx? (fun p => p.name == name) = some i ↔
    Addresses params name i := by
  rw [List.findIdx?_eq_some_iff_getElem]
  constructor
  · rintro ⟨hi, hname, hbefore⟩
    refine ⟨⟨params[i], List.getElem?_eq_getElem hi, beq_iff_eq.1 hname⟩, ?_⟩
    intro j hj p hp heq
    obtain ⟨hlt, rfl⟩ := List.getElem?_eq_some_iff.1 hp
    exact hbefore j hj (beq_iff_eq.2 heq)
  · rintro ⟨⟨p, hp, hname⟩, hbefore⟩
    obtain ⟨hi, rfl⟩ := List.getElem?_eq_some_iff.1 hp
    refine ⟨hi, beq_iff_eq.2 hname, ?_⟩
    intro j hj heq
    exact hbefore j hj _ (List.getElem?_eq_getElem _) (beq_iff_eq.1 heq)

theorem findIdx?_eq_none : params.findIdx? (fun p => p.name == name) = none ↔
    ∀ i, ¬ Addresses params name i := by
  simp only [← findIdx?_eq_some, Option.eq_none_iff_forall_ne_some, ne_eq]

theorem Addresses.unique (hi : Addresses params name i) (hj : Addresses params name j) : i = j := by
  rw [← findIdx?_eq_some] at hi hj
  exact Option.some.inj (hi.symm.trans hj)

theorem Addresses.lt (h : Addresses params name i) : i < params.length := by
  obtain ⟨⟨p, hp, -⟩, -⟩ := h
  exact (List.getElem?_eq_some_iff.1 hp).1

end

/-! ### Calls -/

section

variable (params : List SignatureParam) (arguments : List α) (keywords : List (String × α))

/-- The call gives an argument to the parameter at a position. -/
inductive Given (i : Nat) (a : α) : Prop
  | positional (h : arguments[i]? = some a)
  | keyword {name : String} (h : (name, a) ∈ keywords) (hname : Addresses params name i)

/-- The call gives some argument to the parameter at a position. -/
def Supplied (i : Nat) : Prop := ∃ a, Given params arguments keywords i a

/-- The call does not fit the parameters. -/
inductive Misfit : Prop
  /-- There are more arguments than parameters. -/
  | tooMany (h : params.length < arguments.length)
  /-- A name addresses no parameter. -/
  | unknown {k : String × α} (hk : k ∈ keywords) (h : ∀ i, ¬ Addresses params k.1 i)
  /-- A name addresses a parameter that has an argument by its position. -/
  | taken {k : String × α} {i : Nat} (hk : k ∈ keywords) (hi : Addresses params k.1 i)
      (h : i < arguments.length)
  /-- Two names address one parameter. -/
  | twice {k k' : String × α} {i : Nat} (hk : [k, k'].Sublist keywords)
      (hi : Addresses params k.1 i) (hi' : Addresses params k'.1 i)
  /-- A parameter has neither an argument nor a default. -/
  | lacking {i : Nat} {p : SignatureParam} (hp : params[i]? = some p)
      (h : ¬ Supplied params arguments keywords i) (hnone : p.default = none)

/-- The slots reach up to the last parameter with an argument.  Each holds the argument of its
parameter or else the default. -/
structure Binds (found : List (Slot α)) : Prop where
  reach : (found = [] ∧ ∀ i, ¬ Supplied params arguments keywords i) ∨
    ∃ j, Supplied params arguments keywords j ∧
      (∀ i, Supplied params arguments keywords i → i ≤ j) ∧ found.length = j + 1
  slot : ∀ i < found.length,
    (∃ a, Given params arguments keywords i a ∧ found[i]? = some (.supplied a)) ∨
    ¬ Supplied params arguments keywords i ∧
      ∃ p v, params[i]? = some p ∧ p.default = some v ∧ found[i]? = some (.default v)

end

/-! ### Arguments with a name -/

/-- Every name addresses a free place of its own. -/
def Placeable (params : List SignatureParam) (keywords : List (String × α))
    (places : List (Option α)) : Prop :=
  (∀ k ∈ keywords, ∃ i, Addresses params k.1 i ∧ places[i]? = some none) ∧
    keywords.Pairwise fun k k' => ∀ i, Addresses params k.1 i → ¬ Addresses params k'.1 i

section

variable {params : List SignatureParam} {keywords : List (String × α)} {places : List (Option α)}

/-- One step: the first argument takes its place, and the others must do without it. -/
theorem placeable_cons {k : String × α} {i : Nat} (hi : Addresses params k.1 i)
    (hfree : places[i]? = some none) : Placeable params (k :: keywords) places ↔
      Placeable params keywords (places.set i (some k.2)) := by
  have hlt : i < places.length := (List.getElem?_eq_some_iff.1 hfree).1
  simp only [Placeable, List.forall_mem_cons, List.pairwise_cons]
  constructor
  · rintro ⟨⟨-, hplaces⟩, hfirst, hpairs⟩
    refine ⟨?_, hpairs⟩
    intro k' hk'
    obtain ⟨j, hj, hjfree⟩ := hplaces k' hk'
    have hij : i ≠ j := by
      rintro rfl
      exact hfirst k' hk' i hi hj
    exact ⟨j, hj, by rw [List.getElem?_set_ne hij, hjfree]⟩
  · rintro ⟨hplaces, hpairs⟩
    have hother : ∀ k' ∈ keywords, ∃ j, Addresses params k'.1 j ∧ i ≠ j ∧
        places[j]? = some none := by
      intro k' hk'
      obtain ⟨j, hj, hjfree⟩ := hplaces k' hk'
      have hij : i ≠ j := by
        rintro rfl
        rw [List.getElem?_set_self hlt] at hjfree
        cases hjfree
      rw [List.getElem?_set_ne hij] at hjfree
      exact ⟨j, hj, hij, hjfree⟩
    refine ⟨⟨⟨i, hi, hfree⟩, ?_⟩, ?_, hpairs⟩
    · intro k' hk'
      obtain ⟨j, hj, -, hjfree⟩ := hother k' hk'
      exact ⟨j, hj, hjfree⟩
    · intro k' hk' i' hi' hk'i
      obtain ⟨j, hj, hij, -⟩ := hother k' hk'
      exact hij ((hi.unique hi').trans (hk'i.unique hj))

/-- What is put into a free place is added to what the places hold. -/
theorem getElem?_set_free {i j : Nat} {a b : α} (hfree : places[i]? = some none) :
    (places.set i (some b))[j]? = some (some a) ↔
      places[j]? = some (some a) ∨ (b = a ∧ i = j) := by
  by_cases hij : i = j
  · subst hij
    rw [List.getElem?_set_self (List.getElem?_eq_some_iff.1 hfree).1, hfree]
    simp
  · rw [List.getElem?_set_ne hij]
    simp [hij]

/-- **The names are all placed, or there is an error.** -/
theorem fillKeywords_spec (params : List SignatureParam) (keywords : List (String × α))
    (places : List (Option α)) :
    (¬ Placeable params keywords places ∧
      fillKeywords params keywords places = .error .invalidMethodCall) ∨
    (Placeable params keywords places ∧
      ∃ filled, fillKeywords params keywords places = .ok filled ∧
        ∀ i a, filled[i]? = some (some a) ↔ places[i]? = some (some a) ∨
          ∃ name, (name, a) ∈ keywords ∧ Addresses params name i) := by
  induction keywords generalizing places with
  | nil => exact .inr ⟨⟨by simp, .nil⟩, places, rfl, by simp⟩
  | cons k keywords ih =>
    obtain ⟨name, argument⟩ := k
    simp only [fillKeywords]
    split
    · -- The name addresses no place.
      rename_i hnone
      refine .inl ⟨?_, rfl⟩
      rintro ⟨hplaces, -⟩
      obtain ⟨i, hi, -⟩ := hplaces _ List.mem_cons_self
      exact findIdx?_eq_none.1 hnone i hi
    · rename_i i hi
      rw [findIdx?_eq_some] at hi
      split
      · -- The place it addresses is free, and `placeable_cons` is the step.
        rename_i hfree
        rw [placeable_cons hi hfree]
        refine (ih (places.set i (some argument))).imp_right ?_
        rintro ⟨hplaceable, filled, hfilled, hmem⟩
        refine ⟨hplaceable, filled, hfilled, ?_⟩
        intro j a
        rw [hmem, getElem?_set_free hfree, or_assoc]
        refine or_congr_right ?_
        constructor
        · rintro (⟨rfl, rfl⟩ | ⟨name', hk, hj⟩)
          · exact ⟨name, List.mem_cons_self, hi⟩
          · exact ⟨name', List.mem_cons_of_mem _ hk, hj⟩
        · rintro ⟨name', hk, hj⟩
          rcases List.mem_cons.1 hk with heq | hk
          · obtain ⟨rfl, rfl⟩ := Prod.mk.inj heq
            exact .inl ⟨rfl, hi.unique hj⟩
          · exact .inr ⟨name', hk, hj⟩
      · -- The name addresses no other place than the one that is taken.
        rename_i htaken
        refine .inl ⟨?_, rfl⟩
        rintro ⟨hplaces, -⟩
        obtain ⟨j, hj, hfree⟩ := hplaces _ List.mem_cons_self
        rw [hj.unique hi] at hfree
        exact htaken hfree

theorem placeable_perm {keywords' : List (String × α)} (h : keywords'.Perm keywords) :
    Placeable params keywords' places ↔ Placeable params keywords places := by
  refine and_congr (by simp only [h.mem_iff]) (h.pairwise_iff ?_)
  intro k k' hk i hi' hi
  exact hk i hi hi'

/-- The order of the names does not matter. -/
theorem fillKeywords_perm {keywords' : List (String × α)} (h : keywords'.Perm keywords) :
    fillKeywords params keywords' places = fillKeywords params keywords places := by
  rcases fillKeywords_spec params keywords places with ⟨hnot, herror⟩ | ⟨hall, filled, hok, hmem⟩
  · rcases fillKeywords_spec params keywords' places with ⟨-, herror'⟩ | ⟨hall', -⟩
    · rw [herror, herror']
    · exact absurd ((placeable_perm h).1 hall') hnot
  · rcases fillKeywords_spec params keywords' places with ⟨hnot', -⟩ | ⟨-, filled', hok', hmem'⟩
    · exact absurd ((placeable_perm h).2 hall) hnot'
    · -- Both hold the same arguments in the same places.
      rw [hok, hok']
      refine congrArg _ (List.ext_getElem ?_ ?_)
      · rw [length_fillKeywords hok, length_fillKeywords hok']
      · intro i hi' hi
        refine Option.ext ?_
        intro a
        have hsame : filled'[i]? = some (some a) ↔ filled[i]? = some (some a) := by
          rw [hmem, hmem']
          simp only [h.mem_iff]
        simpa [hi, hi'] using hsame

end

/-! ### Slots -/

/-- What a parameter gets for its place. -/
def slotOf : SignatureParam × Option α → Option (Slot α)
  | (_, some a) => some (.supplied a)
  | (p, none) => p.default.map .default

/-- **The slots reach up to the last place that is filled**, or there is an error. -/
theorem slots_spec (ps : List (SignatureParam × Option α)) :
    ((∃ p ∈ ps, slotOf p = none) ∧ slots ps = .error .invalidMethodCall) ∨
    ((∀ p ∈ ps, slotOf p ≠ none) ∧ ∃ found, slots ps = .ok found ∧
      ∀ i, (i < found.length ↔ (ps.drop i).any (·.2.isSome) = true) ∧
        (i < found.length → found[i]? = ps[i]?.bind slotOf)) := by
  induction ps with
  | nil => exact .inr ⟨by simp, [], rfl, by simp⟩
  | cons p ps ih =>
    obtain ⟨param, place⟩ := p
    simp only [List.exists_mem_cons_iff, List.forall_mem_cons]
    cases place with
    | some a =>
      rcases ih with ⟨hlack, herror⟩ | ⟨hall, found, hfound, hspec⟩
      · simp only [slots, herror]
        exact .inl ⟨.inr hlack, rfl⟩
      · simp only [slots, hfound]
        refine .inr ⟨⟨Option.some_ne_none _, hall⟩, _, rfl, ?_⟩
        intro i
        cases i with
        | zero => simp [slotOf]
        | succ i => simpa using hspec i
    | none =>
      simp only [slots]
      cases hdefault : param.default with
      | none => exact .inl ⟨.inl (by simp [slotOf, hdefault]), rfl⟩
      | some v =>
        rcases ih with ⟨hlack, herror⟩ | ⟨hall, found, hfound, hspec⟩
        · simp only [herror]
          exact .inl ⟨.inr hlack, rfl⟩
        · simp only [hfound]
          refine .inr ⟨⟨by simp [slotOf, hdefault], hall⟩, _, rfl, ?_⟩
          intro i
          by_cases hany : ps.any (·.2.isSome) = true
          · rw [if_pos hany]
            cases i with
            | zero => simpa [slotOf, hdefault] using hany
            | succ i => simpa using hspec i
          · -- No argument follows, so there are no slots at all.
            rw [if_neg hany]
            obtain rfl : found = [] := by
              rw [← List.length_eq_zero_iff]
              exact Nat.eq_zero_of_not_pos fun hpos => hany ((hspec 0).1.1 hpos)
            cases i with
            | zero => simpa using hany
            | succ i => simpa using (hspec i).1

/-! ### The whole matching -/

/-- The places hold what the call gives. -/
structure Holds (params : List SignatureParam) (arguments : List α)
    (keywords : List (String × α)) (places : List (Option α)) : Prop where
  length : places.length = params.length
  given : ∀ i a, places[i]? = some (some a) ↔ Given params arguments keywords i a

section

variable {params : List SignatureParam} {arguments : List α} {keywords : List (String × α)}
  {places : List (Option α)}

theorem positionalPlaces_eq_given {n i : Nat} {a : α} :
    (positionalPlaces n arguments)[i]? = some (some a) ↔ arguments[i]? = some a := by
  rw [positionalPlaces, List.getElem?_append, List.length_map]
  split
  · simp
  · rename_i hle
    rw [List.getElem?_replicate, List.getElem?_eq_none (Nat.le_of_not_lt hle)]
    split <;> simp

theorem positionalPlaces_eq_free {n i : Nat} (h : arguments.length ≤ n) :
    (positionalPlaces n arguments)[i]? = some none ↔ arguments.length ≤ i ∧ i < n := by
  rw [positionalPlaces, List.getElem?_append, List.length_map]
  split
  · rename_i hlt
    simp [Nat.not_le.2 hlt]
  · rename_i hle
    have hn : i - arguments.length < n - arguments.length ↔ arguments.length ≤ i ∧ i < n := by
      omega
    rw [List.getElem?_replicate]
    by_cases hlt : i - arguments.length < n - arguments.length
    · rw [if_pos hlt]
      exact iff_of_true rfl (hn.1 hlt)
    · rw [if_neg hlt]
      exact iff_of_false (Option.some_ne_none _).symm (mt hn.2 hlt)

theorem holds_of_fillKeywords {filled : List (Option α)} (hle : arguments.length ≤ params.length)
    (hfilled : fillKeywords params keywords (positionalPlaces params.length arguments) =
      .ok filled)
    (hmem : ∀ i a, filled[i]? = some (some a) ↔
      (positionalPlaces params.length arguments)[i]? = some (some a) ∨
        ∃ name, (name, a) ∈ keywords ∧ Addresses params name i) :
    Holds params arguments keywords filled where
  length := by rw [length_fillKeywords hfilled, length_positionalPlaces hle]
  given := by
    intro i a
    rw [hmem, positionalPlaces_eq_given]
    constructor
    · rintro (h | ⟨name, hk, hi⟩)
      · exact .positional h
      · exact .keyword hk hi
    · rintro (h | ⟨hk, hi⟩)
      · exact .inl h
      · exact .inr ⟨_, hk, hi⟩

/-- Names that cannot be placed make a misfit of the call. -/
theorem misfit_of_not_placeable (hle : arguments.length ≤ params.length)
    (h : ¬ Placeable params keywords (positionalPlaces params.length arguments)) :
    Misfit params arguments keywords := by
  by_contra hfits
  refine h ⟨?_, ?_⟩
  · intro k hk
    by_cases hknown : ∃ i, Addresses params k.1 i
    · obtain ⟨i, hi⟩ := hknown
      have hi' : ¬ i < arguments.length := fun hlt => hfits (.taken hk hi hlt)
      exact ⟨i, hi, (positionalPlaces_eq_free hle).2 ⟨Nat.le_of_not_lt hi', hi.lt⟩⟩
    · exact absurd (.unknown hk (not_exists.1 hknown)) hfits
  · rw [List.pairwise_iff_forall_sublist]
    intro k k' hk i hi hi'
    exact hfits (.twice hk hi hi')

variable (H : Holds params arguments keywords places)

include H

theorem Holds.supplied_iff {i : Nat} :
    Supplied params arguments keywords i ↔ ∃ a, places[i]? = some (some a) := by
  simp only [Supplied, H.given]

theorem Holds.not_supplied_iff {i : Nat} (hi : i < params.length) :
    ¬ Supplied params arguments keywords i ↔ places[i]? = some none := by
  have hlt : i < places.length := H.length ▸ hi
  rw [H.supplied_iff, List.getElem?_eq_getElem hlt]
  cases places[i] <;> simp

theorem Holds.any_isNone : places.any Option.isNone = true ↔
    ∃ i < params.length, ¬ Supplied params arguments keywords i := by
  rw [List.any_eq_true]
  constructor
  · rintro ⟨place, hplace, hnone⟩
    obtain ⟨i, hi⟩ := List.mem_iff_getElem?.1 hplace
    have hlt : i < params.length := H.length ▸ (List.getElem?_eq_some_iff.1 hi).1
    refine ⟨i, hlt, (H.not_supplied_iff hlt).2 ?_⟩
    rw [hi, Option.isNone_iff_eq_none.1 hnone]
  · rintro ⟨i, hi, hnot⟩
    exact ⟨none, List.mem_of_getElem? ((H.not_supplied_iff hi).1 hnot), rfl⟩

theorem Holds.slotOf_eq {i : Nat} {p : SignatureParam × Option α}
    (hp : (params.zip places)[i]? = some p) :
    (∃ a, Given params arguments keywords i a ∧ slotOf p = some (.supplied a)) ∨
    ¬ Supplied params arguments keywords i ∧ params[i]? = some p.1 ∧
      slotOf p = p.1.default.map .default := by
  obtain ⟨param, place⟩ := p
  obtain ⟨hparam, hplace⟩ := List.getElem?_zip_eq_some.1 hp
  cases place with
  | some a => exact .inl ⟨a, (H.given i a).1 hplace, rfl⟩
  | none =>
    exact .inr ⟨(H.not_supplied_iff (List.getElem?_eq_some_iff.1 hparam).1).2 hplace, hparam, rfl⟩

theorem Holds.any_drop {i : Nat} : ((params.zip places).drop i).any (·.2.isSome) = true ↔
    ∃ j, i ≤ j ∧ Supplied params arguments keywords j := by
  rw [List.any_eq_true]
  constructor
  · rintro ⟨p, hp, hsome⟩
    obtain ⟨k, hk⟩ := List.mem_iff_getElem?.1 hp
    rw [List.getElem?_drop] at hk
    obtain ⟨a, ha⟩ := Option.isSome_iff_exists.1 hsome
    refine ⟨i + k, Nat.le_add_right i k, H.supplied_iff.2 ⟨a, ?_⟩⟩
    rw [← ha]
    exact (List.getElem?_zip_eq_some.1 hk).2
  · rintro ⟨j, hij, hj⟩
    obtain ⟨a, ha⟩ := H.supplied_iff.1 hj
    have hlt : j < params.length := H.length ▸ (List.getElem?_eq_some_iff.1 ha).1
    refine ⟨(params[j], some a), List.mem_iff_getElem?.2 ⟨j - i, ?_⟩, rfl⟩
    rw [List.getElem?_drop, Nat.add_sub_cancel' hij]
    exact List.getElem?_zip_eq_some.2 ⟨List.getElem?_eq_getElem hlt, ha⟩

theorem Holds.lacking_iff : (∃ p ∈ params.zip places, slotOf p = none) ↔
    ∃ i p, params[i]? = some p ∧ ¬ Supplied params arguments keywords i ∧ p.default = none := by
  constructor
  · rintro ⟨p, hp, hnone⟩
    obtain ⟨i, hi⟩ := List.mem_iff_getElem?.1 hp
    rcases H.slotOf_eq hi with ⟨a, -, ha⟩ | ⟨hnot, hparam, hslot⟩
    · rw [hnone] at ha
      cases ha
    · refine ⟨i, p.1, hparam, hnot, ?_⟩
      rw [hnone] at hslot
      exact Option.map_eq_none_iff.1 hslot.symm
  · rintro ⟨i, p, hp, hnot, hnone⟩
    have hplace := (H.not_supplied_iff (List.getElem?_eq_some_iff.1 hp).1).1 hnot
    refine ⟨(p, none), List.mem_of_getElem? (List.getElem?_zip_eq_some.2 ⟨hp, hplace⟩), ?_⟩
    rw [slotOf, hnone]
    rfl

theorem Holds.not_misfit (hle : arguments.length ≤ params.length)
    (hplaceable : Placeable params keywords (positionalPlaces params.length arguments))
    (hall : ∀ p ∈ params.zip places, slotOf p ≠ none) : ¬ Misfit params arguments keywords := by
  intro h
  cases h with
  | tooMany h => exact absurd h (Nat.not_lt.2 hle)
  | unknown hk h =>
    obtain ⟨i, hi, -⟩ := hplaceable.1 _ hk
    exact h i hi
  | taken hk hi h =>
    obtain ⟨j, hj, hfree⟩ := hplaceable.1 _ hk
    rw [hj.unique hi, positionalPlaces_eq_free hle] at hfree
    exact absurd h (Nat.not_lt.2 hfree.1)
  | twice hk hi hi' => exact List.pairwise_iff_forall_sublist.1 hplaceable.2 hk _ hi hi'
  | lacking hp h hnone =>
    obtain ⟨q, hq, hslot⟩ := H.lacking_iff.2 ⟨_, _, hp, h, hnone⟩
    exact hall q hq hslot

theorem Holds.binds {found : List (Slot α)} (hall : ∀ p ∈ params.zip places, slotOf p ≠ none)
    (hspec : ∀ i, (i < found.length ↔ ((params.zip places).drop i).any (·.2.isSome) = true) ∧
      (i < found.length → found[i]? = (params.zip places)[i]?.bind slotOf)) :
    Binds params arguments keywords found := by
  have hreach : ∀ i, i < found.length ↔ ∃ j, i ≤ j ∧ Supplied params arguments keywords j :=
    fun i => (hspec i).1.trans H.any_drop
  constructor
  · cases found with
    | nil =>
      refine .inl ⟨rfl, ?_⟩
      intro i hi
      exact absurd ((hreach i).2 ⟨i, Nat.le_refl i, hi⟩) (Nat.not_lt_zero i)
    | cons slot found =>
      have hle : ∀ i, Supplied params arguments keywords i → i ≤ found.length :=
        fun i hi => Nat.le_of_lt_succ ((hreach i).2 ⟨i, Nat.le_refl i, hi⟩)
      -- The last slot is there for an argument at its place or behind it, and behind it is none.
      obtain ⟨j, hj, hsupplied⟩ := (hreach found.length).1 (Nat.lt_succ_self _)
      obtain rfl := Nat.le_antisymm hj (hle j hsupplied)
      exact .inr ⟨found.length, hsupplied, hle, rfl⟩
  · intro i hi
    -- Every slot stands at the place of a parameter.
    obtain ⟨p, hp⟩ : ∃ p, (params.zip places)[i]? = some p := by
      cases hp : (params.zip places)[i]? with
      | some p => exact ⟨p, rfl⟩
      | none =>
        have hslot := (hspec i).2 hi
        rw [hp, List.getElem?_eq_getElem hi] at hslot
        cases hslot
    have hslot := (hspec i).2 hi
    rw [hp, Option.bind_some] at hslot
    rcases H.slotOf_eq hp with ⟨a, ha, hsupplied⟩ | ⟨hnot, hparam, hdefault⟩
    · exact .inl ⟨a, ha, hslot.trans hsupplied⟩
    · refine .inr ⟨hnot, p.1, ?_⟩
      cases hv : p.1.default with
      | none =>
        rw [hv] at hdefault
        exact absurd hdefault (hall p (List.mem_of_getElem? hp))
      | some v =>
        rw [hv] at hdefault
        exact ⟨v, hparam, rfl, hslot.trans hdefault⟩

end

section

variable (params : List SignatureParam) (arguments : List α) (keywords : List (String × α))
  (policy : DefaultPolicy)

/-- **A call is a misfit, or relies on defaults that are dropped, or is matched.** -/
theorem bindArguments_spec :
    (Misfit params arguments keywords ∧
      bindArguments params arguments keywords policy = .error .invalidMethodCall) ∨
    (¬ Misfit params arguments keywords ∧
      ((policy = .skip ∧ ∃ i < params.length, ¬ Supplied params arguments keywords i) ∧
        bindArguments params arguments keywords policy = .error .outOfScopeCall ∨
      ¬ (policy = .skip ∧ ∃ i < params.length, ¬ Supplied params arguments keywords i) ∧
        ∃ found, bindArguments params arguments keywords policy = .ok found ∧
          Binds params arguments keywords found)) := by
  by_cases hmany : params.length < arguments.length
  · exact .inl ⟨.tooMany hmany, by rw [bindArguments, if_pos hmany]⟩
  · have hle := Nat.le_of_not_lt hmany
    rcases fillKeywords_spec params keywords (positionalPlaces params.length arguments) with
      ⟨hnot, herror⟩ | ⟨hplaceable, places, hplaces, hmem⟩
    · refine .inl ⟨misfit_of_not_placeable hle hnot, ?_⟩
      rw [bindArguments, if_neg hmany, herror]
      rfl
    · have H := holds_of_fillKeywords hle hplaces hmem
      have hbind : bindArguments params arguments keywords policy =
          (slots (params.zip places)).bind fun found =>
            if policy = .skip ∧ places.any Option.isNone = true then .error .outOfScopeCall
            else .ok found := by
        rw [bindArguments, if_neg hmany, hplaces]
        rfl
      rw [hbind, ← H.any_isNone]
      rcases slots_spec (params.zip places) with ⟨hlack, herror⟩ | ⟨hall, found, hfound, hspec⟩
      · obtain ⟨i, p, hp, hnot, hnone⟩ := H.lacking_iff.1 hlack
        exact .inl ⟨.lacking hp hnot hnone, by rw [herror]; rfl⟩
      · refine .inr ⟨H.not_misfit hle hplaceable hall, ?_⟩
        rw [hfound]
        by_cases hskip : policy = .skip ∧ places.any Option.isNone = true
        · exact .inl ⟨hskip, if_pos hskip⟩
        · exact .inr ⟨hskip, found, if_neg hskip, H.binds hall hspec⟩

/-- **The matching of arguments with parameters follows the calling convention.**  A misfit is an
error, a call that relies on defaults where they are dropped is another, and every other call is
matched as the convention says.  The order of the arguments with a name does not matter. -/
theorem bindArguments_convention :
    (bindArguments params arguments keywords policy = .error .invalidMethodCall ↔
      Misfit params arguments keywords) ∧
    (bindArguments params arguments keywords policy = .error .outOfScopeCall ↔
      ¬ Misfit params arguments keywords ∧
        policy = .skip ∧ ∃ i < params.length, ¬ Supplied params arguments keywords i) ∧
    (¬ Misfit params arguments keywords →
      ¬ (policy = .skip ∧ ∃ i < params.length, ¬ Supplied params arguments keywords i) →
      ∃ found, bindArguments params arguments keywords policy = .ok found ∧
        Binds params arguments keywords found) ∧
    ∀ keywords' : List (String × α), keywords'.Perm keywords →
      bindArguments params arguments keywords' policy =
        bindArguments params arguments keywords policy := by
  refine ⟨?_, ?_, ?_, ?_⟩
  · rcases bindArguments_spec params arguments keywords policy with
      ⟨h, heq⟩ | ⟨h, ⟨-, heq⟩ | ⟨-, found, heq, -⟩⟩ <;> simp [h, heq]
  · rcases bindArguments_spec params arguments keywords policy with
      ⟨h, heq⟩ | ⟨h, ⟨hskip, heq⟩ | ⟨hskip, found, heq, -⟩⟩
    · simp [h, heq]
    · exact iff_of_true heq ⟨h, hskip⟩
    · simp [heq, h, hskip]
  · intro h hskip
    rcases bindArguments_spec params arguments keywords policy with
      ⟨h', -⟩ | ⟨-, ⟨hskip', -⟩ | ⟨-, hfound⟩⟩
    · exact absurd h' h
    · exact absurd hskip' hskip
    · exact hfound
  · intro keywords' hperm
    rw [bindArguments, bindArguments, fillKeywords_perm hperm]

end

/-- The call `f(1, d = 4, c = 3)` of a function `f(a, b = 2, c, d, e = 5)`: the default of `b` is
filled in, and there is no slot for `e`. -/
theorem bindArguments_convention_of_gap :
    ∃ params : List SignatureParam, params.map (·.name) = ["a", "b", "c", "d", "e"] ∧
      ¬ Misfit params [1] [("d", 4), ("c", 3)] ∧
      (∃ found, bindArguments params [1] [("d", 4), ("c", 3)] .keep = .ok found ∧
        Binds params [1] [("d", 4), ("c", 3)] found) ∧
      bindArguments params [1] [("c", 3), ("d", 4)] .keep =
        .ok [.supplied 1, .default (.ofInt 2), .supplied 3, .supplied 4] := by
  let params : List SignatureParam :=
    [⟨"a", .concrete .integer, none⟩, ⟨"b", .concrete .integer, some (.ofInt 2)⟩,
      ⟨"c", .concrete .integer, none⟩, ⟨"d", .concrete .integer, none⟩,
      ⟨"e", .concrete .integer, some (.ofInt 5)⟩]
  have hbind : bindArguments params [1] [("d", 4), ("c", 3)] .keep =
      .ok [.supplied 1, .default (.ofInt 2), .supplied 3, .supplied 4] := rfl
  obtain ⟨hmisfit, -, hfound, hperm⟩ :=
    bindArguments_convention params [1] [("d", 4), ("c", 3)] .keep
  have hfits : ¬ Misfit params [1] [("d", 4), ("c", 3)] := by
    intro h
    rw [← hmisfit, hbind] at h
    cases h
  refine ⟨params, rfl, hfits, hfound hfits ?_, ?_⟩
  · rintro ⟨⟨⟩, -⟩
  · rw [hperm _ (.swap ..), hbind]

end StaticScript.Typing
