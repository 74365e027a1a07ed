import Mathlib.Data.List.Nodup
import StaticScript.Json.Record

/-!
# Reading records back

The parts of a document are read back as they were written: integers as long as they are in range,
and the fields of a record if no two of them have one name (`record?_ofFields`).

`Json.depth` counts the arrays and objects that are open at once.  What a reader with `n` levels
needs to know of a document is that its depth is at most `n`; then each value in it is within
`n - 1` levels (`depth_array_le`, `depth_ofFields_le`).
-/

namespace StaticScript.Json

/-! ### Nesting -/

mutual

/-- The number of arrays and objects that are open at once, where there are most. -/
def depth : Json → Nat
  | .array items => depthItems items + 1
  | .object fields => depthFields fields + 1
  | _ => 0

/-- The depth of the deepest item. -/
def depthItems : List Json → Nat
  | [] => 0
  | item :: items => max item.depth (depthItems items)

/-- The depth of the deepest field. -/
def depthFields : List (Content × Json) → Nat
  | [] => 0
  | (_, value) :: fields => max value.depth (depthFields fields)

end

theorem depthItems_le {items : List Json} {n : Nat} :
    depthItems items ≤ n ↔ ∀ j ∈ items, j.depth ≤ n := by
  induction items with
  | nil => simp [depthItems]
  | cons item items ih => rw [depthItems, Nat.max_le, ih, List.forall_mem_cons]

theorem depthFields_le {fields : List (Content × Json)} {n : Nat} :
    depthFields fields ≤ n ↔ ∀ f ∈ fields, f.2.depth ≤ n := by
  induction fields with
  | nil => simp [depthFields]
  | cons f fields ih => rw [depthFields, Nat.max_le, ih, List.forall_mem_cons]

/-- An array within `n` levels takes one of them. -/
theorem depth_array_le {items : List Json} {n : Nat} (h : (array items).depth ≤ n) :
    ∃ k, n = k + 1 ∧ ∀ j ∈ items, j.depth ≤ k := by
  cases n with
  | zero => exact absurd h (Nat.not_succ_le_zero _)
  | succ k => exact ⟨k, rfl, depthItems_le.1 (Nat.le_of_succ_le_succ h)⟩

theorem ofFields_eq (fields : List (String × Json)) :
    ofFields fields = .object (fields.map fun f => (some f.1, f.2)) := rfl

/-- An object within `n` levels takes one of them. -/
theorem depth_ofFields_le {fields : List (String × Json)} {n : Nat}
    (h : (ofFields fields).depth ≤ n) : ∃ k, n = k + 1 ∧ ∀ f ∈ fields, f.2.depth ≤ k := by
  cases n with
  | zero => exact absurd h (Nat.not_succ_le_zero _)
  | succ k =>
    refine ⟨k, rfl, ?_⟩
    have hk := depthFields_le.1 (Nat.le_of_succ_le_succ h)
    rwa [List.forall_mem_map] at hk

/-! ### Scalars -/

@[simp] theorem toText?_ofText (s : String) : (ofText s).toText? = some s := rfl

@[simp] theorem toInt?_ofInt (n : Int) : (ofInt n).toInt? = some n := by
  rw [ofInt, Json.toInt?, Number.ofInt]
  by_cases hn : n < 0
  · obtain ⟨m, hm⟩ : ∃ m, n.natAbs = m + 1 := ⟨n.natAbs - 1, by omega⟩
    rw [decide_eq_true hn, hm, Number.toInt?]
    · exact congrArg some (by omega)
    · exact fun h => by cases h
  · rw [decide_eq_false hn, Number.toInt?]
    exact congrArg some (by omega)

@[simp] theorem toUInt32?_ofNat (n : UInt32) : (ofNat n.toNat).toUInt32? = some n := by
  have hrange : (0 : Int) ≤ n.toNat ∧ (n.toNat : Int) < UInt32.size :=
    ⟨Int.natCast_nonneg _, Int.ofNat_lt.2 n.toNat_lt_size⟩
  rw [toUInt32?, ofNat, toInt?_ofInt, Option.bind_eq_bind, Option.bind_some, if_pos hrange,
    Int.toNat_natCast, UInt32.ofNat_toNat]

@[simp] theorem toInt64?_ofInt (n : Int64) : (ofInt n.toInt).toInt64? = some n := by
  have hrange : Int64.minValue.toInt ≤ n.toInt ∧ n.toInt ≤ Int64.maxValue.toInt :=
    ⟨n.minValue_le_toInt, n.toInt_le⟩
  simp only [toInt64?, toInt?_ofInt, Option.bind_eq_bind, Option.bind_some, if_pos hrange,
    Int64.ofInt_toInt]

/-! ### Lists -/

/-- What is written item by item is read item by item. -/
theorem mapM_map_eq_some {α β : Type} {write : α → β} {read? : β → Option α} {xs : List α}
    (h : ∀ x ∈ xs, read? (write x) = some x) : (xs.map write).mapM read? = some xs := by
  induction xs with
  | nil => rfl
  | cons x xs ih =>
    rw [List.forall_mem_cons] at h
    rw [List.map_cons, List.mapM_cons, h.1, ih h.2]
    rfl

@[simp] theorem textsWithin?_ofList (k : Nat) (ss : List String) :
    (ofList ofText ss).textsWithin? (k + 1) = some ss :=
  mapM_map_eq_some fun s _ => toText?_ofText s

/-! ### Records -/

theorem fieldValues_of_mem {fields : List (String × Json)} (h : (fields.map Prod.fst).Nodup)
    {f : String × Json} (hf : f ∈ fields) :
    fieldValues f.1 (fields.map fun g => (some g.1, g.2)) = [f.2] := by
  have hvalues : ∀ fields : List (String × Json),
      fieldValues f.1 (fields.map fun g => (some g.1, g.2)) =
        fields.filterMap fun g => if g.1 = f.1 then some g.2 else none := by
    intro fields
    rw [fieldValues, List.filterMap_map]
    simp
  rw [hvalues]
  induction fields with
  | nil => cases hf
  | cons g fields ih =>
    rw [List.map_cons, List.nodup_cons] at h
    by_cases hg : g.1 = f.1
    · -- then it is the field, and no other has its name
      have hothers : ∀ f' ∈ fields, ¬ f'.1 = f.1 :=
        fun f' hf' hname => h.1 (List.mem_map.2 ⟨f', hf', hname.trans hg.symm⟩)
      obtain rfl : f = g := by
        rcases List.mem_cons.1 hf with rfl | hf
        · rfl
        · exact absurd rfl (hothers f hf)
      simp only [List.filterMap_cons, if_pos]
      rw [List.filterMap_eq_nil_iff.2 fun f' hf' => if_neg (hothers f' hf')]
    · simp only [List.filterMap_cons, if_neg hg]
      rcases List.mem_cons.1 hf with rfl | hf
      · exact absurd rfl hg
      · exact ih h.2 hf

/-- **The fields of a record are read back**, if no two of them have one name. -/
theorem record?_ofFields {names : List String} (values : List Json) (hnames : names.Nodup)
    (hlength : names.length = values.length) :
    (ofFields (names.zip values)).record? names = some (values.map some) := by
  have hfst : (names.zip values).map Prod.fst = names := List.map_fst_zip (Nat.le_of_eq hlength)
  have hsnd : (names.zip values).map Prod.snd = values :=
    List.map_snd_zip (Nat.le_of_eq hlength.symm)
  have hvalues : ∀ f ∈ names.zip values, fieldValues f.1 _ = [f.2] :=
    fun f hf => fieldValues_of_mem (hfst.symm ▸ hnames) hf
  generalize names.zip values = fields at hfst hsnd hvalues
  subst hfst hsnd
  rw [ofFields_eq, record?, if_pos, List.map_map, List.map_map]
  · refine congrArg some (List.map_congr_left fun f hf => ?_)
    rw [Function.comp_apply, hvalues f hf, List.head?_cons]
    rfl
  · rw [Bool.and_eq_true, List.all_map, List.all_map, List.all_eq_true, List.all_eq_true]
    refine ⟨fun f _ => rfl, fun f hf => ?_⟩
    rw [Function.comp_apply, hvalues f hf]
    rfl

end StaticScript.Json
