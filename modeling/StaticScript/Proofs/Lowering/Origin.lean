import StaticScript.Proofs.Lowering.Emission

/-!
# Where emitted statements come from

Every statement of an emitted block, at any depth, has been emitted for some statement of the
script (`EmitsBlock.origin`).  If nothing was left out, every statement of the script, at any depth,
has been emitted in turn (`EmitsBlock.emitted`); only an `else if` is no statement of its own.

What was known at the start of the block is still known where such a statement is reached.
-/

namespace StaticScript

namespace Target.Stmt

theorem nestedBlock_append (b bs : List Stmt) :
    nestedBlock (b ++ bs) = nestedBlock b ++ nestedBlock bs := by
  simp only [nestedBlock_eq, List.flatMap_append]

@[simp] theorem nestedBlock_singleton (s : Stmt) : nestedBlock [s] = s.nested := by
  simp [nestedBlock]

theorem mem_nestedBlock_of_mem {s : Stmt} {b : List Stmt} (h : s ∈ b) : s ∈ nestedBlock b := by
  rw [nestedBlock_eq]
  exact List.mem_flatMap.2 ⟨s, h, s.mem_nested_self⟩

end Target.Stmt

namespace Lowering

open Source (Stmt)
open Target.Stmt (nestedBlock nestedBranches nestedElse)

variable {policy : Policy}

/-! ### What is known inside -/

/-- What is known in the first state is known in the second: the functions, and the types of the
names in scope. -/
structure State.Within (st st' : State) : Prop where
  functions : st'.env.globals.functions = st.env.globals.functions
  lookup : ∀ x t, st.env.lookup x = some t → st'.env.lookup x = some t

namespace State

variable {st st₁ st₂ : State}

theorem Within.refl (st : State) : st.Within st := ⟨rfl, fun _ _ h => h⟩

theorem Within.trans (h : st.Within st₁) (h' : st₁.Within st₂) : st.Within st₂ :=
  ⟨h'.functions.trans h.functions, fun x t hx => h'.lookup x t (h.lookup x t hx)⟩

theorem within_push (st : State) : st.Within st.push := ⟨rfl, fun _ _ h => h⟩

theorem within_declare {x : String} {t : StaticType} (h : st.env.lookup x = none) :
    st.Within (st.declare x t) := by
  refine ⟨rfl, fun y u hy => ?_⟩
  have hne : y ≠ x := by
    rintro rfl
    rw [h] at hy
    cases hy
  rw [State.declare, Environment.lookup_declare, if_neg hne, hy]

theorem SameScope.within (h : st.SameScope st₁) : st.Within st₁ :=
  ⟨h.functions, fun x t hx => by rw [Environment.lookup_of_frames h.frames, hx]⟩

end State

/-- What is known around a loop is known in its body. -/
theorem Counts.within {st : State} {target iter : Source.Expr} {body : List Stmt}
    {r : Typing.Range} {head : LoopHead} (h : Counts policy st.env target iter body r head) :
    st.Within (st.push.declare head.counter .integer) :=
  st.within_push.trans (State.within_declare h.fresh)

theorem Emits.within {st st' : State} {s : Stmt} {b : Block} (h : Emits policy st s b st') :
    st.Within st' := by
  cases h with
  | skipped r hsame => exact hsame.within
  | declare _ _ _ hfresh => exact State.within_declare hfresh
  | ifElse _ _ hbody horelse => exact (hbody.keeps.pop.trans horelse.sameScope).within
  | whileLoop _ _ hbody => exact hbody.keeps.pop.within
  | forLoop _ hbody => exact ((st.push.keeps_declare _ _).trans hbody.keeps).pop.within
  | ret => exact ⟨rfl, fun _ _ h => h⟩
  | imports _ hf => exact ⟨(hf _).functions, fun _ _ h => h⟩
  | _ => exact .refl st

/-! ### From the program to the script -/

/-- The statement has been emitted for one of the statements `ss`, where all that is known in `st`
was known. -/
def Originates (policy : Policy) (st : State) (ss : List Stmt) (t : Target.Stmt) : Prop :=
  ∃ s ∈ ss, ∃ st₁ b st₂, st.Within st₁ ∧ Emits policy st₁ s b st₂ ∧ t ∈ b

theorem Originates.mono {st st₁ : State} {ss ss₁ : List Stmt} {t : Target.Stmt}
    (h : Originates policy st₁ ss₁ t) (hst : st.Within st₁) (hss : ∀ s ∈ ss₁, s ∈ ss) :
    Originates policy st ss t := by
  obtain ⟨s, hs, st₂, b, st₃, hwithin, hemits, ht⟩ := h
  exact ⟨s, hss s hs, st₂, b, st₃, hst.trans hwithin, hemits, ht⟩

theorem Emits.originates {st st' : State} {s : Stmt} {b : Block} (h : Emits policy st s b st')
    {t : Target.Stmt} (ht : t ∈ b) : Originates policy st s.nested t :=
  ⟨s, s.mem_nested_self, st, b, st', .refl st, h, ht⟩

/-- A statement that holds no others. -/
theorem Emits.originates_leaf {st st' : State} {s : Stmt} {t₀ : Target.Stmt}
    (h : Emits policy st s [t₀] st') (hleaf : t₀.nested = [t₀]) :
    ∀ t ∈ nestedBlock [t₀], Originates policy st s.nested t := by
  rw [Target.Stmt.nestedBlock_singleton, hleaf]
  exact fun t ht => h.originates ht

mutual

theorem Emits.origin {st st' : State} {s : Stmt} {b : Block} :
    Emits policy st s b st' → ∀ t ∈ nestedBlock b, Originates policy st s.nested t
  | h@(.skipped _ _ _ _) => h.originates_leaf rfl
  | h@(.doc _) => h.originates_leaf rfl
  | h@(.print _ _ _) => h.originates_leaf rfl
  | h@(.call _ _) => h.originates_leaf rfl
  | h@(.declare _ _ _ _ _) => h.originates_leaf rfl
  | h@(.store _ _ _ _) => h.originates_leaf rfl
  | h@(.ifElse _ _ hbody horelse) => by
    intro t ht
    simp only [Target.Stmt.nestedBlock_singleton, Target.Stmt.nested, nestedBranches,
      List.mem_cons, List.append_assoc, List.mem_append (s := nestedBlock _)] at ht
    rcases ht with rfl | ht | ht
    · exact h.originates (by simp)
    · exact (hbody.origin t ht).mono st.within_push (by simp +contextual [Stmt.nested])
    · exact (horelse.origin t ht).mono hbody.keeps.pop.within (by simp +contextual [Stmt.nested])
  | h@(.whileLoop _ _ hbody) => by
    intro t ht
    simp only [Target.Stmt.nestedBlock_singleton, Target.Stmt.nested, List.mem_cons] at ht
    rcases ht with rfl | ht
    · exact h.originates (by simp)
    · exact (hbody.origin t ht).mono st.within_push (by simp +contextual [Stmt.nested])
  | h@(.forLoop hhead hbody) => by
    intro t ht
    simp only [Target.Stmt.nestedBlock_singleton, Target.Stmt.nested, List.mem_cons] at ht
    rcases ht with rfl | ht
    · exact h.originates (by simp)
    · exact (hbody.origin t ht).mono hhead.within (by simp +contextual [Stmt.nested])
  | h@(.ret _ _) => h.originates_leaf rfl
  | h@.brk => h.originates_leaf rfl
  | h@.cont => h.originates_leaf rfl
  | .pass | .imports _ _ => by simp [nestedBlock]

theorem EmitsBlock.origin {st st' : State} {ss : List Stmt} {b : Block} :
    EmitsBlock policy st ss b st' →
      ∀ t ∈ nestedBlock b, Originates policy st (Stmt.nestedBlock ss) t
  | .nil => by simp [nestedBlock]
  | .cons hfirst hrest => by
    intro t ht
    rw [Target.Stmt.nestedBlock_append, List.mem_append] at ht
    rcases ht with ht | ht
    · exact (hfirst.origin t ht).mono (.refl st) (by simp +contextual [Stmt.nestedBlock])
    · exact (hrest.origin t ht).mono hfirst.within (by simp +contextual [Stmt.nestedBlock])

theorem EmitsElse.origin {st st' : State} {ss : List Stmt}
    {branches : List (Target.Expr × Block)} {last : Option Block} :
    EmitsElse policy st ss branches last st' →
      ∀ t ∈ nestedBranches branches ++ nestedElse last,
        Originates policy st (Stmt.nestedBlock ss) t
  | .none => by simp [nestedBranches, nestedElse]
  | .elseIf _ _ hbody horelse => by
    intro t ht
    simp only [nestedBranches, List.append_assoc, List.mem_append (s := nestedBlock _)] at ht
    rcases ht with ht | ht
    · exact (hbody.origin t ht).mono st.within_push
        (by simp +contextual [Stmt.nestedBlock, Stmt.nested])
    · exact (horelse.origin t ht).mono hbody.keeps.pop.within
        (by simp +contextual [Stmt.nestedBlock, Stmt.nested])
  | .block hbody => fun t ht => (hbody.origin t ht).mono st.within_push fun _ h => h

end

/-! ### From the script to the program -/

theorem State.Keeps.records_eq_nil {st st' : State} (h : st.Keeps st') (h' : st'.records = []) :
    st.records = [] := List.prefix_nil.1 (h' ▸ h.records)

/-- The statement is a conditional, or it has been emitted among the statements `ts`, where all that
is known in `st` was known. -/
def Reaches (policy : Policy) (st : State) (s : Stmt) (ts : List Target.Stmt) : Prop :=
  (∃ site c body orelse, s = .ifElse site c body orelse) ∨
    ∃ st₁ b st₂, st.Within st₁ ∧ Emits policy st₁ s b st₂ ∧ st₂.records = [] ∧ ∀ t ∈ b, t ∈ ts

theorem Reaches.mono {st st₁ : State} {s : Stmt} {ts ts₁ : List Target.Stmt}
    (h : Reaches policy st₁ s ts₁) (hst : st.Within st₁) (hts : ∀ t ∈ ts₁, t ∈ ts) :
    Reaches policy st s ts := by
  rcases h with hif | ⟨st₂, b, st₃, hwithin, hemits, hrecords, ht⟩
  · exact .inl hif
  · exact .inr ⟨st₂, b, st₃, hst.trans hwithin, hemits, hrecords, fun t h => hts t (ht t h)⟩

theorem Emits.reaches {st st' : State} {s : Stmt} {b : Block} (h : Emits policy st s b st')
    (hrecords : st'.records = []) : Reaches policy st s (nestedBlock b) :=
  .inr ⟨st, b, st', .refl st, h, hrecords, fun _ ht => Target.Stmt.mem_nestedBlock_of_mem ht⟩

/-- A statement of the script that holds no others. -/
theorem Emits.reaches_leaf {st st' : State} {s : Stmt} {b : Block} (h : Emits policy st s b st')
    (hleaf : s.nested = [s]) (hrecords : st'.records = []) :
    ∀ s' ∈ s.nested, Reaches policy st s' (nestedBlock b) := by
  rw [hleaf]
  simpa using h.reaches hrecords

theorem nested_of_isDoc {s : Stmt} (h : s.isDoc = true) : s.nested = [s] := by
  cases s <;> simp [Stmt.isDoc] at h <;> rfl

theorem nested_of_isImport {s : Stmt} (h : isImport s = true) : s.nested = [s] := by
  cases s <;> simp [isImport] at h <;> rfl

theorem nested_of_binding? {s : Stmt} {x : String} {e : Source.Expr}
    (h : binding? s = some (x, e)) : s.nested = [s] := by
  cases s <;> simp [binding?] at h <;> rfl

mutual

theorem Emits.emitted {st st' : State} {s : Stmt} {b : Block} :
    Emits policy st s b st' → st'.records = [] →
      ∀ s' ∈ s.nested, Reaches policy st s' (nestedBlock b)
  | .skipped _ _ hne _, hrecords => absurd hrecords hne
  | h@(.doc hs), hrecords => h.reaches_leaf (nested_of_isDoc hs) hrecords
  | h@(.print _ _ _), hrecords => h.reaches_leaf rfl hrecords
  | h@(.call _ _), hrecords => h.reaches_leaf rfl hrecords
  | h@(.declare hs _ _ _ _), hrecords => h.reaches_leaf (nested_of_binding? hs) hrecords
  | h@(.store hs _ _ _), hrecords => h.reaches_leaf (nested_of_binding? hs) hrecords
  | h@(.ifElse _ _ hbody horelse), hrecords => by
    -- Records are only added, so there were none after the body either.
    have hafter := horelse.sameScope.toKeeps.records_eq_nil hrecords
    intro s' hs'
    simp only [Stmt.nested, List.mem_cons, List.mem_append] at hs'
    rcases hs' with rfl | hs' | hs'
    · exact h.reaches hrecords
    · exact (hbody.emitted hafter s' hs').mono st.within_push
        (by simp +contextual [Target.Stmt.nested, nestedBranches])
    · exact (horelse.emitted hrecords s' hs').mono hbody.keeps.pop.within
        (by simp +contextual [Target.Stmt.nested, nestedBranches])
  | h@(.whileLoop _ _ hbody), hrecords => by
    intro s' hs'
    simp only [Stmt.nested, List.mem_cons, List.mem_append] at hs'
    rcases hs' with rfl | hs' | hs'
    · exact h.reaches hrecords
    · exact (hbody.emitted hrecords s' hs').mono st.within_push
        (by simp +contextual [Target.Stmt.nested])
    · -- A loop with an `else` has no counterpart.
      cases hs'
  | h@(.forLoop hhead hbody), hrecords => by
    intro s' hs'
    simp only [Stmt.nested, List.mem_cons, List.mem_append] at hs'
    rcases hs' with rfl | hs' | hs'
    · exact h.reaches hrecords
    · exact (hbody.emitted hrecords s' hs').mono hhead.within
        (by simp +contextual [Target.Stmt.nested])
    · cases hs'
  | h@(.ret _ _), hrecords => h.reaches_leaf rfl hrecords
  | h@.brk, hrecords => h.reaches_leaf rfl hrecords
  | h@.cont, hrecords => h.reaches_leaf rfl hrecords
  | h@.pass, hrecords => h.reaches_leaf rfl hrecords
  | h@(.imports hs _), hrecords => h.reaches_leaf (nested_of_isImport hs) hrecords

theorem EmitsBlock.emitted {st st' : State} {ss : List Stmt} {b : Block} :
    EmitsBlock policy st ss b st' → st'.records = [] →
      ∀ s' ∈ Stmt.nestedBlock ss, Reaches policy st s' (nestedBlock b)
  | .nil, _ => by simp [Stmt.nestedBlock]
  | .cons hfirst hrest, hrecords => by
    intro s' hs'
    rw [Stmt.nestedBlock, List.mem_append] at hs'
    rcases hs' with hs' | hs'
    · exact (hfirst.emitted (hrest.keeps.records_eq_nil hrecords) s' hs').mono (.refl st)
        (by simp +contextual [Target.Stmt.nestedBlock_append])
    · exact (hrest.emitted hrecords s' hs').mono hfirst.within
        (by simp +contextual [Target.Stmt.nestedBlock_append])

theorem EmitsElse.emitted {st st' : State} {ss : List Stmt}
    {branches : List (Target.Expr × Block)} {last : Option Block} :
    EmitsElse policy st ss branches last st' → st'.records = [] →
      ∀ s' ∈ Stmt.nestedBlock ss,
        Reaches policy st s' (nestedBranches branches ++ nestedElse last)
  | .none, _ => by simp [Stmt.nestedBlock]
  | .elseIf _ _ hbody horelse, hrecords => by
    have hafter := horelse.sameScope.toKeeps.records_eq_nil hrecords
    intro s' hs'
    simp only [Stmt.nestedBlock, Stmt.nested, List.append_nil, List.mem_cons, List.mem_append]
      at hs'
    rcases hs' with rfl | hs' | hs'
    · exact .inl ⟨_, _, _, _, rfl⟩
    · exact (hbody.emitted hafter s' hs').mono st.within_push
        (by simp +contextual [nestedBranches])
    · exact (horelse.emitted hrecords s' hs').mono hbody.keeps.pop.within
        (by simp +contextual [nestedBranches])
  | .block hbody, hrecords => fun s' hs' =>
    (hbody.emitted hrecords s' hs').mono st.within_push fun _ h => h

end

end Lowering

end StaticScript
