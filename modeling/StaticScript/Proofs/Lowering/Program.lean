import StaticScript.Proofs.Lowering.Functions

/-!
# What scripts become

`EmitsItems` says of a whole script what `EmitsBlock` says of a block: each of its statements
becomes a function, whose body is emitted in the scope of its parameters, or statements of `main`.
The functions of the script are known throughout (`emitsItems_emit`).
-/

namespace StaticScript.Lowering

open Source (Stmt)

variable {policy : Policy}

/-! ### Items -/

theorem globals_functionEnv (globals : Globals) (s : Signature) :
    (functionEnv globals s).globals = globals := by
  have hfold : ∀ (params : List SignatureParam) (env : Environment),
      (params.foldl (fun env p => (env.bind p.name p.type.static).2) env).globals =
        env.globals := by
    intro params
    induction params with
    | nil => exact fun env => rfl
    | cons p params ih => exact fun env => (ih _).trans (env.globals_bind _ _)
  exact hfold s.params _

/-- The state at the start of a function. -/
def functionStart (globals : Globals) (records : List SkipRecord) (s : Signature) : State :=
  ⟨functionEnv globals s, some (returnSlot s), records⟩

/-- The body of a function is emitted in the scope of its parameters. -/
theorem emits_emitFunction (policy : Policy) (globals : Globals) (records : List SkipRecord)
    (s : Signature) (body : List Stmt) : ∃ stop,
      EmitsBlock policy (functionStart globals records s) body
        (emitFunction policy globals records s body).1.body stop ∧
      (emitFunction policy globals records s body).1.returns =
        stop.returns.elim .void (·.type) ∧
      (emitFunction policy globals records s body).2 = stop.records :=
  ⟨_, emits_lowerBlock _ _, rfl, rfl⟩

section

variable (policy : Policy) (globals : Globals)

/-- The statements of a script become functions and statements of `main`. -/
inductive EmitsItems : State → List Stmt → List Target.Item → State → Prop
  | nil {st : State} : EmitsItems st [] [] st
  | function {st st' : State} {d : Stmt} {ss body : List Stmt} {s : Signature}
      {items : List Target.Item} (hd : declared? globals d = some (s, body))
      (hrest : EmitsItems { st with records := (emitFunction policy globals st.records s body).2 }
        ss items st') :
      EmitsItems st (d :: ss)
        (.function (emitFunction policy globals st.records s body).1 :: items) st'
  | stmt {st st₁ st' : State} {d : Stmt} {ss : List Stmt} {b : Block} {items : List Target.Item}
      (hd : declared? globals d = none) (hfirst : Emits policy st d b st₁)
      (hrest : EmitsItems st₁ ss items st') :
      EmitsItems st (d :: ss) (b.map .stmt ++ items) st'

end

theorem emitsItems_emitItems (globals : Globals) (st : State) (ss : List Stmt) :
    EmitsItems policy globals st ss (emitItems policy globals st ss).1
      (emitItems policy globals st ss).2 := by
  induction ss generalizing st with
  | nil => exact .nil
  | cons d ss ih =>
    cases hd : declared? globals d with
    | none =>
      simp only [emitItems, emitItem, hd]
      exact .stmt hd (emits_emitStmt true st d) (ih _)
    | some found =>
      obtain ⟨s, body⟩ := found
      simp only [emitItems, emitItem, hd]
      exact .function hd (ih _)

theorem EmitsItems.records {globals : Globals} {st st' : State} {ss : List Stmt}
    {items : List Target.Item} (h : EmitsItems policy globals st ss items st') :
    st.records <+: st'.records := by
  induction h with
  | nil => exact List.prefix_rfl
  | @function st _ _ _ body s _ _ _ ih =>
    obtain ⟨stop, hbody, -, hrecords⟩ := emits_emitFunction policy globals st.records s body
    exact (hrecords ▸ hbody.keeps.records).trans ih
  | stmt _ hfirst _ ih => exact hfirst.keeps.records.trans ih

/-- The state at the start of `main`, where the functions are known but no import is. -/
def mainStart (globals : Globals) : State :=
  ⟨.ofGlobals { Globals.empty with functions := globals.functions }, none, []⟩

/-- **What a script becomes.** -/
theorem emitsItems_emit (policy : Policy) (m : Source.Module) : ∃ stop,
    EmitsItems policy (programGlobals policy m.body) (mainStart (programGlobals policy m.body))
      m.body (emit policy m).program.items stop ∧ (emit policy m).records = stop.records :=
  ⟨_, emitsItems_emitItems _ _ _, rfl⟩

end StaticScript.Lowering
