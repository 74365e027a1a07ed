import StaticScript.Proofs.Preservation.Expression
import StaticScript.Proofs.Typing.Environment

/-!
# One store and a stack of variables

A script keeps all names in one store, while a program has a variable only for the names in scope.
`Related scope s m` says that the variables of the memory `m` are those of `scope`, each with the
value that its name has in the state `s`, and that the same has been written.  Names that are no
longer in scope may have values in the store, but no variable.

No name is declared while a variable of that name is in scope, so no variable hides another
(`Related.nodup`), and a block that forgets the variables declared in it leaves those around it
related (`Related.leave`).
-/

namespace StaticScript.Machine

variable {M : Machine} {scope : Frame} {s : Script.State} {m : Memory}

/-- The variable of a name that has the given value. -/
def cellOf (x : String) (v : Script.Value) : Cell := ⟨x, v.type, image v⟩

/-- The variables in scope have the values of their names, and the same has been written. -/
structure Related (M : Machine) (scope : Frame) (s : Script.State) (m : Memory) : Prop where
  nodup : (m.cells.map Cell.name).Nodup
  scope : m.cells.map (fun c => (c.name, c.type)) = scope
  holds : ∀ c ∈ m.cells, ∃ v, s.store c.name = some v ∧ c = cellOf c.name v ∧ M.Holds v
  output : m.output = s.output

/-- A run of the program ends as a run of the script does. -/
structure Ends (M : Machine) (scope : Frame) (r : Signal × Script.State) (q : Signal × Memory) :
    Prop where
  signal : q.1 = r.1
  related : M.Related scope r.2 q.2

/-- Whatever `body` does in a script is done by `block`, which may declare further variables. -/
def Follows (M : Machine) (scope : Frame) (body : Script.State → Option (Signal × Script.State))
    (block : Nat → Memory → Except Fault (Signal × Memory)) : Prop :=
  ∀ ⦃s : Script.State⦄ ⦃r : Signal × Script.State⦄ ⦃m : Memory⦄, M.Related scope s m →
    body s = some r → M.Settles (fun n => block n m) fun q => ∃ inner, M.Ends (inner ++ scope) r q

/-! ### Looking up -/

theorem lookup_cells (cells : List Cell) (x : String) :
    (cells.map fun c => (c.name, c.type)).lookup x = (cells.find? (·.name = x)).map Cell.type := by
  induction cells with
  | nil => rfl
  | cons c cells ih =>
    rw [List.map_cons, List.lookup_cons, List.find?_cons, ih]
    by_cases h : c.name = x
    · simp [h]
    · simp [h, beq_false_of_ne (Ne.symm h)]

namespace Related

theorem length_cells (h : M.Related scope s m) : m.cells.length = scope.length := by
  rw [← h.scope, List.length_map]

/-- The variable of a name in scope. -/
theorem find?_of_lookup (h : M.Related scope s m) {x : String} {t : StaticType}
    (hx : scope.lookup x = some t) : ∃ v, s.store x = some v ∧ v.type = t ∧ M.Holds v ∧
      m.cells.find? (·.name = x) = some (cellOf x v) := by
  rw [← h.scope, lookup_cells, Option.map_eq_some_iff] at hx
  obtain ⟨c, hc, rfl⟩ := hx
  obtain ⟨v, hv, hcell, hholds⟩ := h.holds c (List.mem_of_find?_eq_some hc)
  have hname : c.name = x := by simpa using List.find?_some hc
  rw [hname] at hv hcell
  exact ⟨v, hv, by rw [hcell]; rfl, hholds, hcell ▸ hc⟩

theorem mirrors {env : Environment} (h : M.Related env.scope s m) :
    M.Mirrors env s.store m.cells := by
  intro x t hx
  rw [Environment.lookup_eq] at hx
  obtain ⟨v, hv, htype, hholds, hfind⟩ := h.find?_of_lookup hx
  exact ⟨v, hv, htype, by rw [load, hfind]; rfl, hholds⟩

/-! ### Declaring, assigning, printing and leaving a block -/

theorem name_ne_of_lookup (h : M.Related scope s m) {x : String} (hx : scope.lookup x = none) :
    ∀ c ∈ m.cells, c.name ≠ x := by
  rw [← h.scope, lookup_cells, Option.map_eq_none_iff, List.find?_eq_none] at hx
  simpa using hx

theorem declare (h : M.Related scope s m) {x : String} {v : Script.Value}
    (hx : scope.lookup x = none) (hv : M.Holds v) :
    M.Related ((x, v.type) :: scope) (s.set x v) (m.declare x v.type (image v)) where
  nodup := by
    refine List.nodup_cons.2 ⟨?_, h.nodup⟩
    simpa using h.name_ne_of_lookup hx
  scope := by simp [Memory.declare, h.scope]
  holds c hc := by
    rcases List.mem_cons.1 hc with rfl | hc
    · exact ⟨v, by simp [Script.State.set], rfl, hv⟩
    · obtain ⟨w, hw, hcell⟩ := h.holds c hc
      exact ⟨w, by rw [Script.store_set_of_ne (h.name_ne_of_lookup hx c hc), hw], hcell⟩
  output := h.output

theorem storeCell_eq_map {cells : List Cell} (h : (cells.map Cell.name).Nodup) (x : String)
    (w : Value) :
    storeCell x w cells = cells.map fun c => if c.name = x then { c with value := w } else c := by
  induction cells with
  | nil => rfl
  | cons c cells ih =>
    obtain ⟨hc, hcells⟩ := List.nodup_cons.1 h
    rw [storeCell, List.map_cons]
    split
    · rename_i hx
      congr 1
      refine (List.map_id _).symm.trans (List.map_congr_left fun d hd => ?_)
      have hne : d.name ≠ x := fun hd' => hc (by rw [hx, ← hd']; exact List.mem_map_of_mem hd)
      rw [if_neg hne]
      rfl
    · rw [ih hcells]

theorem assign (h : M.Related scope s m) {x : String} {v : Script.Value}
    (hx : scope.lookup x = some v.type) (hv : M.Holds v) :
    M.Related scope (s.set x v) { m with cells := storeCell x (image v) m.cells } := by
  obtain ⟨v₀, hv₀, htype, -, -⟩ := h.find?_of_lookup hx
  refine ⟨?_, ?_, ?_, h.output⟩
  · rw [map_storeCell fun _ _ => rfl]
    exact h.nodup
  · rw [map_storeCell fun _ _ => rfl]
    exact h.scope
  · intro c hc
    simp only [storeCell_eq_map h.nodup x (image v), List.mem_map] at hc
    obtain ⟨d, hd, rfl⟩ := hc
    obtain ⟨w, hw, hcell, hholds⟩ := h.holds d hd
    split
    · rename_i hname
      -- The variable has the type of its old value, which is the type of the new one.
      have hw' : w = v₀ := by
        rw [hname] at hw
        exact Option.some.inj (hw.symm.trans hv₀)
      refine ⟨v, by simp [Script.State.set, hname], ?_, hv⟩
      rw [hcell, cellOf, hw', htype]
      rfl
    · rename_i hname
      exact ⟨w, by rw [Script.store_set_of_ne hname, hw], hcell, hholds⟩

/-- The variables of an outer scope, after those declared in an inner one are forgotten. -/
theorem leave {inner : Frame} (h : M.Related (inner ++ scope) s m) :
    M.Related scope s (m.leave scope.length) := by
  have hdrop : m.cells.length - scope.length = inner.length := by
    rw [h.length_cells, List.length_append]
    omega
  refine ⟨?_, ?_, fun c hc => h.holds c (List.mem_of_mem_drop hc), h.output⟩
  · simp only [Memory.leave, List.map_drop]
    exact h.nodup.sublist (List.drop_sublist _ _)
  · simp [Memory.leave, List.map_drop, h.scope, hdrop]

end Related

end StaticScript.Machine
