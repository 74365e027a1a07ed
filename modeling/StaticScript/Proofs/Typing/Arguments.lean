import StaticScript.Typing.Arguments
import StaticScript.Proofs.Checked

/-!
# Where the arguments of a call go

Matching the arguments of a call with parameters loses none of them and invents none: what is
supplied to some parameter is exactly what the call gives (`supplied_mem_iff`).  The slots come in
the order of the parameters, what is filled in is the default of its parameter, and the parameters
without a slot are the last ones and have defaults (`fills_bindArguments`).  The matching does not
look at the arguments, so it commutes with any change of them (`bindArguments_map`).
-/

namespace StaticScript.Typing

variable {α β : Type}

/-- Changes the argument of a slot. -/
def Slot.map (f : α → β) : Slot α → Slot β
  | .supplied a => .supplied (f a)
  | .default v => .default v

/-! ### What is supplied -/

theorem mem_positionalPlaces {n : Nat} {arguments : List α} {a : α} :
    some a ∈ positionalPlaces n arguments ↔ a ∈ arguments := by
  simp [positionalPlaces, List.mem_replicate]

theorem length_positionalPlaces {n : Nat} {arguments : List α} (h : arguments.length ≤ n) :
    (positionalPlaces n arguments).length = n := by
  simp only [positionalPlaces, List.length_append, List.length_map, List.length_replicate]
  omega

theorem mem_fillKeywords {params : List SignatureParam} {keywords : List (String × α)}
    {places filled : List (Option α)} (h : fillKeywords params keywords places = .ok filled)
    {a : α} : some a ∈ filled ↔ some a ∈ places ∨ a ∈ keywords.map Prod.snd := by
  induction keywords generalizing places with
  | nil =>
    obtain rfl : places = filled := by simpa [fillKeywords] using h
    simp
  | cons keyword keywords ih =>
    obtain ⟨name, argument⟩ := keyword
    simp only [fillKeywords] at h
    split at h
    · cases h
    · rename_i i hi
      split at h
      · rename_i hfree
        rw [ih h]
        obtain ⟨hlt, hnone⟩ := List.getElem?_eq_some_iff.1 hfree
        -- The place was free, so setting it overwrites no argument.
        have hset : some a ∈ places.set i (some argument) ↔ some a ∈ places ∨ a = argument := by
          constructor
          · intro hmem
            rcases List.mem_or_eq_of_mem_set hmem with hmem | heq
            · exact .inl hmem
            · exact .inr (by simpa using heq)
          · rintro (hmem | rfl)
            · obtain ⟨j, hj, hja⟩ := List.getElem_of_mem hmem
              have hij : i ≠ j := by rintro rfl; rw [hnone] at hja; cases hja
              exact List.mem_of_getElem? (i := j) (by simp [hij, hj, hja])
            · exact List.mem_set hlt _
        rw [hset, List.map_cons, List.mem_cons, or_assoc]
      · cases h

theorem length_fillKeywords {params : List SignatureParam} {keywords : List (String × α)}
    {places filled : List (Option α)} (h : fillKeywords params keywords places = .ok filled) :
    filled.length = places.length := by
  induction keywords generalizing places with
  | nil =>
    obtain rfl : places = filled := by simpa [fillKeywords] using h
    rfl
  | cons keyword keywords ih =>
    obtain ⟨name, argument⟩ := keyword
    simp only [fillKeywords] at h
    split at h
    · cases h
    · split at h
      · rw [ih h, List.length_set]
      · cases h

theorem supplied_mem_slots {ps : List (SignatureParam × Option α)} {found : List (Slot α)}
    (h : slots ps = .ok found) {a : α} : .supplied a ∈ found ↔ some a ∈ ps.map Prod.snd := by
  induction ps generalizing found with
  | nil =>
    obtain rfl : [] = found := by simpa [slots] using h
    simp
  | cons p ps ih =>
    obtain ⟨param, place⟩ := p
    cases place with
    | some b =>
      simp only [slots, Checked.bind_eq_ok, Checked.pure_eq_ok] at h
      obtain ⟨rest, hrest, rfl⟩ := h
      simp [ih hrest]
    | none =>
      simp only [slots] at h
      split at h
      · cases h
      · simp only [Checked.bind_eq_ok, Checked.pure_eq_ok] at h
        obtain ⟨rest, hrest, rfl⟩ := h
        split <;> simp [ih hrest]

/-! ### Which parameters are filled -/

/-- The slots are those of the first parameters in order, and all further parameters have
defaults. -/
inductive Fills : List (Slot α) → List SignatureParam → Prop
  | rest {params : List SignatureParam} (h : ∀ p ∈ params, p.default.isSome = true) :
      Fills [] params
  | supplied {a : α} {p : SignatureParam} {found : List (Slot α)} {params : List SignatureParam}
      (hrest : Fills found params) : Fills (.supplied a :: found) (p :: params)
  | default {v : Target.Expr} {p : SignatureParam} {found : List (Slot α)}
      {params : List SignatureParam} (hp : p.default = some v) (hrest : Fills found params) :
      Fills (.default v :: found) (p :: params)

theorem Fills.length_le {found : List (Slot α)} {params : List SignatureParam}
    (h : Fills found params) : found.length ≤ params.length := by
  induction h with
  | rest => exact Nat.zero_le _
  | supplied _ ih | default _ _ ih => exact Nat.succ_le_succ ih

theorem fills_slots {ps : List (SignatureParam × Option α)} {found : List (Slot α)}
    (h : slots ps = .ok found) :
    Fills found (ps.map Prod.fst) ∧ (ps.any (·.2.isSome) = false → found = []) := by
  induction ps generalizing found with
  | nil =>
    obtain rfl : [] = found := by simpa [slots] using h
    exact ⟨.rest (by simp), fun _ => rfl⟩
  | cons p ps ih =>
    obtain ⟨param, place⟩ := p
    cases place with
    | some b =>
      simp only [slots, Checked.bind_eq_ok, Checked.pure_eq_ok] at h
      obtain ⟨rest, hrest, rfl⟩ := h
      exact ⟨(ih hrest).1.supplied, by simp⟩
    | none =>
      simp only [slots] at h
      split at h
      · cases h
      · rename_i value hvalue
        simp only [Checked.bind_eq_ok, Checked.pure_eq_ok] at h
        obtain ⟨rest, hrest, rfl⟩ := h
        obtain ⟨hfills, hnil⟩ := ih hrest
        by_cases hany : ps.any (·.2.isSome) = true
        · rw [if_pos hany]
          exact ⟨.default hvalue hfills, by simp [hany]⟩
        · -- No argument follows, so this parameter and all behind it are left to their defaults.
          rw [if_neg hany]
          obtain rfl := hnil (by simpa using hany)
          cases hfills with
          | rest hall =>
            refine ⟨.rest ?_, fun _ => rfl⟩
            simpa [hvalue] using hall

theorem length_slots {ps : List (SignatureParam × Option α)} {found : List (Slot α)}
    (h : slots ps = .ok found) (hps : ∀ p ∈ ps, p.2.isSome = true) : found.length = ps.length := by
  induction ps generalizing found with
  | nil =>
    obtain rfl : [] = found := by simpa [slots] using h
    rfl
  | cons p ps ih =>
    obtain ⟨param, place⟩ := p
    rw [List.forall_mem_cons] at hps
    obtain ⟨b, rfl⟩ := Option.isSome_iff_exists.1 hps.1
    simp only [slots, Checked.bind_eq_ok, Checked.pure_eq_ok] at h
    obtain ⟨rest, hrest, rfl⟩ := h
    rw [List.length_cons, List.length_cons, ih hrest hps.2]

/-! ### The whole matching -/

section

variable {params : List SignatureParam} {arguments : List α} {keywords : List (String × α)}
  {policy : DefaultPolicy} {found : List (Slot α)}

theorem bindArguments_eq_ok (h : bindArguments params arguments keywords policy = .ok found) :
    ∃ places, places.length = params.length ∧
      fillKeywords params keywords (positionalPlaces params.length arguments) = .ok places ∧
      slots (params.zip places) = .ok found ∧
      (policy = .skip → ∀ place ∈ places, place.isSome = true) := by
  simp only [bindArguments] at h
  split at h
  · cases h
  · rename_i hle
    simp only [Checked.bind_eq_ok] at h
    obtain ⟨places, hplaces, found', hfound, h⟩ := h
    have hlen : places.length = params.length := by
      rw [length_fillKeywords hplaces, length_positionalPlaces (by omega)]
    split at h
    · cases h
    · rename_i hskip
      obtain rfl : found' = found := by simpa using h
      refine ⟨places, hlen, hplaces, hfound, fun hpolicy place hplace => ?_⟩
      by_contra hnone
      exact hskip ⟨hpolicy, List.any_eq_true.2 ⟨place, hplace, by simpa using hnone⟩⟩

/-- **Nothing is lost and nothing is made up**: the arguments that are supplied to parameters are
those of the call. -/
theorem supplied_mem_iff (h : bindArguments params arguments keywords policy = .ok found) {a : α} :
    .supplied a ∈ found ↔ a ∈ arguments ++ keywords.map Prod.snd := by
  obtain ⟨places, hlen, hplaces, hfound, -⟩ := bindArguments_eq_ok h
  rw [supplied_mem_slots hfound, List.map_snd_zip (by omega), mem_fillKeywords hplaces,
    mem_positionalPlaces, List.mem_append]

/-- **Every parameter gets a slot or has a default**, and each slot is in the place of its
parameter. -/
theorem fills_bindArguments (h : bindArguments params arguments keywords policy = .ok found) :
    Fills found params := by
  obtain ⟨places, hlen, -, hfound, -⟩ := bindArguments_eq_ok h
  have hfills := (fills_slots hfound).1
  rwa [List.map_fst_zip (by omega)] at hfills

/-- Where defaults are not declared, every parameter gets a slot. -/
theorem length_bindArguments_of_skip
    (h : bindArguments params arguments keywords .skip = .ok found) :
    found.length = params.length := by
  obtain ⟨places, hlen, -, hfound, hall⟩ := bindArguments_eq_ok h
  rw [length_slots hfound fun p hp => hall rfl p.2 (List.of_mem_zip hp).2, List.length_zip]
  omega

end

theorem fillKeywords_map (f : α → β) (params : List SignatureParam) (keywords : List (String × α))
    (places : List (Option α)) :
    fillKeywords params (keywords.map (Prod.map id f)) (places.map (Option.map f)) =
      (fillKeywords params keywords places).map (List.map (Option.map f)) := by
  induction keywords generalizing places with
  | nil => rfl
  | cons keyword keywords ih =>
    obtain ⟨name, argument⟩ := keyword
    simp only [List.map_cons, Prod.map, id, fillKeywords, List.getElem?_map]
    cases params.findIdx? fun p => p.name == name with
    | none => rfl
    | some i =>
      rcases hp : places[i]? with _ | _ | b
      · simp only [hp]; rfl
      · simp only [hp, Option.map_some, Option.map_none, ← ih, List.map_set]
      · simp only [hp]; rfl

theorem slots_map (f : α → β) (ps : List (SignatureParam × Option α)) :
    slots (ps.map (Prod.map id (Option.map f))) = (slots ps).map (List.map (Slot.map f)) := by
  induction ps with
  | nil => rfl
  | cons p ps ih =>
    obtain ⟨param, place⟩ := p
    cases place with
    | some b =>
      simp only [List.map_cons, Prod.map, id, Option.map, slots] at ih ⊢
      rw [ih]
      cases slots ps <;> rfl
    | none =>
      simp only [List.map_cons, Prod.map, id, Option.map, slots] at ih ⊢
      cases param.default with
      | none => rfl
      | some value =>
        have hany : (ps.map (Prod.map id (Option.map f))).any (·.2.isSome) =
            ps.any (·.2.isSome) := by
          simp [List.any_map, Function.comp_def]
        simp only [ih, hany]
        cases slots ps with
        | error c => rfl
        | ok found => cases ps.any (·.2.isSome) <;> rfl

/-- **The matching does not look at the arguments.** -/
theorem bindArguments_map (f : α → β) (params : List SignatureParam) (arguments : List α)
    (keywords : List (String × α)) (policy : DefaultPolicy) :
    bindArguments params (arguments.map f) (keywords.map (Prod.map id f)) policy =
      (bindArguments params arguments keywords policy).map (List.map (Slot.map f)) := by
  have hplaces : positionalPlaces params.length (arguments.map f) =
      (positionalPlaces params.length arguments).map (Option.map f) := by
    simp [positionalPlaces, Function.comp_def]
  simp only [bindArguments, List.length_map, hplaces, fillKeywords_map]
  split
  · rfl
  · cases fillKeywords params keywords (positionalPlaces params.length arguments) with
    | error c => rfl
    | ok places =>
      have hzip : params.zip (places.map (Option.map f)) =
          (params.zip places).map (Prod.map id (Option.map f)) := by
        simp [List.zip_map_right]
      have hany : (places.map (Option.map f)).any Option.isNone = places.any Option.isNone := by
        simp [List.any_map, Function.comp_def]
      simp only [Except.map, bind, Except.bind, hzip, slots_map, hany]
      cases slots (params.zip places) with
      | error c => rfl
      | ok found =>
        simp only
        split <;> rfl

end StaticScript.Typing
