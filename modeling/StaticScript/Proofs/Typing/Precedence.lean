import StaticScript.Proofs.Typing.Failure
import StaticScript.Source.Compose

/-!
# The first category counts

A construct with several parts fails if one of its parts does, whatever its own rule says of the
others.  Of all categories that its parts fail with, the first in the order of categories is the one
of the construct (`Category.ComesFirst`, `Checked.FailsFirst`).  The parts are joined in two ways,
two at a time (`FailsFirst.both`) and any number at a time (`failsFirst_all`), and joins are nested.
What counts for a join is what counts for its parts together, so the nesting does not matter, nor
does the order of the parts.

**Main theorem** (`check_of_failures`): an operation, a chain of comparisons or a call with failing
parts fails with the first of their categories, in whatever order the operands of `and` and `or` and
the arguments of a call are given.
-/

namespace StaticScript

/-! ### The first of several categories -/

namespace Category

/-- The category is one of several, and the first of them. -/
structure ComesFirst (c : Category) (cs : List Category) : Prop where
  mem : c ∈ cs
  le : ∀ d ∈ cs, c.rank ≤ d.rank

theorem eq_of_rank_eq {c d : Category} (h : c.rank = d.rank) : c = d := by
  cases c <;> cases d <;> simp [rank] at h <;> rfl

/-- Which category is the first depends only on which there are. -/
theorem ComesFirst.eq_of_mem_iff {c d : Category} {cs ds : List Category} (hc : c.ComesFirst cs)
    (hd : d.ComesFirst ds) (h : ∀ e, e ∈ cs ↔ e ∈ ds) : c = d :=
  eq_of_rank_eq (Nat.le_antisymm (hc.le d ((h d).2 hd.mem)) (hd.le c ((h c).1 hc.mem)))

theorem ComesFirst.congr {c : Category} {cs ds : List Category} (hc : c.ComesFirst cs)
    (h : ∀ e, e ∈ cs ↔ e ∈ ds) : c.ComesFirst ds :=
  ⟨(h c).1 hc.mem, fun d hd => hc.le d ((h d).2 hd)⟩

@[simp] theorem comesFirst_nil {c : Category} : ¬ c.ComesFirst [] := fun h => by simpa using h.mem

@[simp] theorem comesFirst_singleton {c d : Category} : c.ComesFirst [d] ↔ c = d := by
  constructor
  · intro h
    simpa using h.mem
  · rintro rfl
    exact ⟨by simp, by simp⟩

/-- The first of two groups together is the first of the two firsts. -/
theorem comesFirst_append {c d e : Category} {cs ds : List Category} (hc : c.ComesFirst cs)
    (hd : d.ComesFirst ds) : e.ComesFirst (cs ++ ds) ↔ e = c.mostSevere d := by
  -- There is only one first category, so it is enough that the more severe one is first.
  have hsevere : (c.mostSevere d).ComesFirst (cs ++ ds) := by
    unfold mostSevere
    by_cases hlt : d.rank < c.rank
    · rw [if_pos hlt]
      refine ⟨List.mem_append_right _ hd.mem, fun f hf => ?_⟩
      rcases List.mem_append.1 hf with hf | hf
      · exact Nat.le_trans (Nat.le_of_lt hlt) (hc.le f hf)
      · exact hd.le f hf
    · rw [if_neg hlt]
      refine ⟨List.mem_append_left _ hc.mem, fun f hf => ?_⟩
      rcases List.mem_append.1 hf with hf | hf
      · exact hc.le f hf
      · exact Nat.le_trans (Nat.le_of_not_lt hlt) (hd.le f hf)
  constructor
  · exact fun he => he.eq_of_mem_iff hsevere fun _ => Iff.rfl
  · rintro rfl
    exact hsevere

theorem exists_comesFirst {cs : List Category} (h : cs ≠ []) : ∃ c, ComesFirst c cs := by
  induction cs with
  | nil => exact absurd rfl h
  | cons d cs ih =>
    by_cases hcs : cs = []
    · exact ⟨d, by simp [hcs]⟩
    · obtain ⟨e, he⟩ := ih hcs
      exact ⟨_, (comesFirst_append (comesFirst_singleton.2 rfl) he).2 rfl⟩

end Category

/-! ### Joins of checks -/

namespace Checked

variable {α β : Type}

/-- The category that a check fails with. -/
def failure? : Checked α → Option Category
  | .ok _ => none
  | .error c => some c

/-- The check fails with the first of the categories, and only if there is one. -/
def FailsFirst (x : Checked α) (cs : List Category) : Prop := ∀ c, x = .error c ↔ c.ComesFirst cs

theorem failsFirst_failure? (x : Checked α) : x.FailsFirst x.failure?.toList := by
  intro c
  cases x with
  | ok a => simp [failure?]
  | error d => simp [failure?, eq_comm]

theorem FailsFirst.eq_nil {a : α} {cs : List Category} (h : FailsFirst (.ok a) cs) : cs = [] := by
  by_contra hne
  obtain ⟨c, hc⟩ := Category.exists_comesFirst hne
  simpa using (h c).2 hc

theorem FailsFirst.map {x : Checked α} {cs : List Category} (h : x.FailsFirst cs) (f : α → β) :
    FailsFirst (x.map f) cs := by
  intro c
  rw [← h c]
  cases x <;> simp [Except.map]

/-- Two checks together fail with the first category of both. -/
theorem FailsFirst.both {x : Checked α} {y : Checked β} {cs ds : List Category}
    (hx : x.FailsFirst cs) (hy : y.FailsFirst ds) : (x.both y).FailsFirst (cs ++ ds) := by
  intro e
  cases x with
  | ok a =>
    rw [hx.eq_nil, List.nil_append, ← hy e]
    cases y <;> simp [Checked.both]
  | error c =>
    cases y with
    | ok b =>
      rw [hy.eq_nil, List.append_nil, ← hx e]
      simp [Checked.both]
    | error d =>
      rw [Category.comesFirst_append ((hx c).1 rfl) ((hy d).1 rfl)]
      simp [Checked.both, eq_comm]

theorem filterMap_failure?_cons (r : Checked α) (rs : List (Checked α)) :
    (r :: rs).filterMap failure? = r.failure?.toList ++ rs.filterMap failure? := by
  cases r <;> rfl

/-- Any number of checks together fail with the first category of all. -/
theorem failsFirst_all (rs : List (Checked α)) :
    (Checked.all rs).FailsFirst (rs.filterMap failure?) := by
  induction rs with
  | nil => exact failsFirst_failure? (.ok [])
  | cons r rs ih =>
    rw [all_cons, filterMap_failure?_cons]
    exact ((failsFirst_failure? r).both ih).map _

theorem FailsFirst.bind {x : Checked α} {cs : List Category} (h : x.FailsFirst cs) {c : Category}
    (hc : c.ComesFirst cs) (f : α → Checked β) : (x >>= f) = .error c := by
  rw [(h c).2 hc]
  rfl

end Checked

/-! ### Expressions -/

/-- A chain of comparisons has an operator between any two neighbours. -/
def Source.Expr.hasOperators : Source.Expr → Bool
  | .compare _ _ ops comparators => !ops.isEmpty && ops.length == comparators.length
  | _ => true

/-- The operands of `and` and `or`, or the arguments of a call, are given in another order; the
arguments of a call may also be given with other names, or without. -/
inductive Source.Expr.Reordered : Source.Expr → Source.Expr → Prop
  | boolOp {site site' : Source.Site} {op : Source.BoolOp} {values values' : List Source.Expr}
      (h : values'.Perm values) : Reordered (.boolOp site op values) (.boolOp site' op values')
  | call {site site' : Source.Site} {function : Source.Expr}
      {arguments arguments' : List Source.Expr} {keywords keywords' : List Source.Keyword}
      (h : (arguments' ++ keywords'.map Prod.snd).Perm (arguments ++ keywords.map Prod.snd)) :
      Reordered (.call site function arguments keywords) (.call site' function arguments' keywords')

namespace Typing

open Source (Expr)

section

variable (env : Environment) (policy : Policy)

/-- The categories that some expressions fail with. -/
def failuresOf (ctx : Context) (es : List Expr) : List Category :=
  (es.map (check env policy ctx)).filterMap Checked.failure?

/-- The categories that the parts of an expression fail with: its operands, or what it calls and
the arguments of the call. -/
def failures (ctx : Context) : Expr → List Category
  | .binary _ _ left right => failuresOf env policy .value [left, right]
  | .boolOp _ _ values => failuresOf env policy ctx values
  | .compare _ left _ comparators => failuresOf env policy .value (left :: comparators)
  | .call _ function arguments keywords =>
    (callee env function).failure?.toList ++
      failuresOf env policy .value (arguments ++ keywords.map Prod.snd)
  | _ => []

end

variable {env : Environment} {policy : Policy} {ctx : Context}

/-- Failures of its parts come before those of an expression itself. -/
theorem check_of_comesFirst {e : Expr} {c : Category} (he : e.hasOperators = true)
    (hc : c.ComesFirst (failures env policy ctx e)) : check env policy ctx e = .error c := by
  cases e with
  | binary site op left right =>
    have hboth := (Checked.failsFirst_failure? (check env policy .value left)).both
      (Checked.failsFirst_failure? (check env policy .value right))
    simp only [failures, failuresOf, List.map_cons, Checked.filterMap_failure?_cons, List.map_nil,
      List.filterMap_nil, List.append_nil] at hc
    rw [check]
    exact hboth.bind hc _
  | boolOp site op values =>
    rw [check, checkList_eq_map]
    exact (Checked.failsFirst_all _).bind hc _
  | compare site left ops comparators =>
    rw [check, checkList_eq_map, ← List.map_cons, comparisonsType, if_neg]
    · exact (Checked.failsFirst_all _).bind hc _
    · simpa [Expr.hasOperators] using he
  | call site function arguments keywords =>
    have hresults : checkList env policy .value arguments ++
        (checkKeywords env policy keywords).map Prod.snd =
          (arguments ++ keywords.map Prod.snd).map (check env policy .value) := by
      simp [checkList_eq_map, checkKeywords_eq_map]
    rw [check, callType, hresults]
    exact ((Checked.failsFirst_failure? _).both (Checked.failsFirst_all _)).bind hc _
  | _ => exact absurd hc Category.comesFirst_nil

/-- The same parts fail in another order. -/
theorem mem_failures_iff {e e' : Expr} (h : e.Reordered e') (c : Category) :
    c ∈ failures env policy ctx e ↔ c ∈ failures env policy ctx e' := by
  cases h with
  | boolOp h => exact ((h.map _).filterMap _).mem_iff.symm
  | call h => exact (((h.map _).filterMap _).append_left _).mem_iff.symm

/-- **The first category counts.**  If some part of an operation, a chain of comparisons or a call
fails, the expression fails with the first category of all parts that fail, and it does so in
whatever order the operands of `and` and `or` and the arguments of a call are given. -/
theorem check_of_failures {e : Expr} (he : e.hasOperators = true)
    (hfailures : failures env policy ctx e ≠ []) :
    (∃ c, c.ComesFirst (failures env policy ctx e) ∧ check env policy ctx e = .error c) ∧
      ∀ e', e.Reordered e' → check env policy ctx e' = check env policy ctx e := by
  obtain ⟨c, hc⟩ := Category.exists_comesFirst hfailures
  have hcheck := check_of_comesFirst he hc
  refine ⟨⟨c, hc, hcheck⟩, fun e' h => ?_⟩
  have he' : e'.hasOperators = true := by cases h <;> rfl
  rw [hcheck, check_of_comesFirst he' (hc.congr (mem_failures_iff h))]

open Source.Compose in
/-- A call of a function that is not known, with a number that is too large and an assignment. -/
def mistaken : Expr := call (name "f") [int 3000000000] [("k", named "x" (int 1))]

open Source.Compose in
/-- The number counts, whatever the order of the arguments. -/
theorem mistaken_narrows :
    mistaken.hasOperators = true ∧
      failures .empty .standard .value mistaken =
        [.outOfScopeCall, .typeNarrowing, .chainedAssignment] ∧
      check .empty .standard .value mistaken = .error .typeNarrowing ∧
      check .empty .standard .value (call (name "f") [named "x" (int 1), int 3000000000] []) =
        .error .typeNarrowing := by
  have hfailures : failures .empty .standard .value mistaken =
      [.outOfScopeCall, .typeNarrowing, .chainedAssignment] := by decide +kernel
  obtain ⟨⟨c, hc, hcheck⟩, hreordered⟩ :=
    @check_of_failures .empty .standard .value mistaken rfl (by simp [hfailures])
  have hfirst : c = .typeNarrowing := by
    rw [hfailures] at hc
    exact hc.eq_of_mem_iff ⟨by simp, by simp [Category.rank]⟩ fun _ => Iff.rfl
  rw [hfirst] at hcheck
  exact ⟨rfl, hfailures, hcheck, (hreordered _ (.call (.swap _ _ []))).trans hcheck⟩

end Typing

end StaticScript
