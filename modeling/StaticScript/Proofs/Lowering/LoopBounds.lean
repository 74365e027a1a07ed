import StaticScript.Proofs.Lowering.Origin
import StaticScript.Proofs.Lowering.Program
import StaticScript.Source.Compose

/-!
# Bounds of counting loops

The bound of a counting loop is evaluated before every round, while the `range` that it stands for
is evaluated once.  A bound that contains a call is refused, but not one that the body of the loop
stores into: `shrinking` is a script with such a loop, and it is emitted (`shrinking_unsteady`).

That is the one way to get such a loop.  Every bound of an emitted program is steady if no loop of
the script stores into a name that its own bound mentions, and if nothing of the script was left out
the two are the same (`steady_emit`).
-/

namespace StaticScript

/-! ### Steady bounds -/

namespace Target

/-- The variable occurs in the expression. -/
def Expr.mentions (name : String) (e : Expr) : Bool :=
  e.nodes.any fun
    | .var x _ => x == name
    | _ => false

/-- The statement itself is an assignment to a variable of the expression. -/
def Stmt.assignsInto (e : Expr) : Stmt → Bool
  | .assign x _ => e.mentions x
  | _ => false

/-- If the statement is a counting loop, no assignment in its body is to a variable of its bound. -/
def Stmt.steady : Stmt → Bool
  | .forLoop _ _ stop _ body => (nestedBlock body).all fun s => !s.assignsInto stop
  | _ => true

/-- The bounds of all counting loops in functions and in `main` are steady. -/
def Program.steady (p : Program) : Bool :=
  p.functions.all (fun f => (Stmt.nestedBlock f.body).all (·.steady)) &&
    (Stmt.nestedBlock p.mainBody).all (·.steady)

theorem Expr.mentions_eq_false {x : String} {e : Expr} :
    e.mentions x = false ↔ e.Each fun n => ∀ t, n ≠ .var x t := by
  simp only [mentions, List.any_eq_false, Each]
  refine forall₂_congr fun n _ => ?_
  cases n <;> simp

end Target

namespace Source

/-- The bound of a `range`. -/
def Expr.rangeStop? : Expr → Option Expr
  | .call _ function arguments _ =>
    if function.asName = some "range" then (Typing.rangeOfArguments? arguments).map (·.stop)
    else Option.none
  | _ => Option.none

/-- The statement itself stores into a name that the expression mentions. -/
def Stmt.storesInto (e : Expr) (s : Stmt) : Bool :=
  (Lowering.binding? s).any fun b => e.mentions b.1

/-- If the statement is a loop over a `range`, its body does not store into a name that the bound
mentions. -/
def Stmt.steady : Stmt → Bool
  | .forLoop _ _ iter body _ =>
    iter.rangeStop?.all fun stop => (nestedBlock body).all fun s => !s.storesInto stop
  | _ => true

end Source

namespace Lowering

open Source (Stmt)

variable {policy : Policy}

theorem mentions_lower {env : Environment} (hd : env.globals.LiteralDefaults)
    {ctx : Typing.Context} {e : Source.Expr} {t : Target.Expr}
    (h : lower env policy ctx e = .ok t) (hcalls : e.containsCall = false) (x : String) :
    t.mentions x = e.mentions x := by
  have hplain : Plain fun n => ∀ u, n ≠ .var x u := by
    refine ⟨?_, ?_, ?_, ?_, ?_⟩
    · rintro e he u rfl
      cases he
    all_goals simp [Target.Expr.castTo]
  rw [Bool.eq_iff_iff, ← not_iff_not, Bool.not_eq_true, Bool.not_eq_true,
    Target.Expr.mentions_eq_false]
  constructor
  · intro ht
    by_contra hx
    obtain ⟨u, -, hu⟩ := var_of_each_lower hplain h hcalls ht (by simpa using hx)
    exact hu u rfl
  · intro hx
    refine each_lower hplain hd (by simp) h fun y u hy _ v heq => ?_
    obtain ⟨rfl, -⟩ := Target.Expr.var.inj heq
    rw [hx] at hy
    cases hy

theorem rangeStop?_of_range? {env : Environment} {iter : Source.Expr} {r : Typing.Range}
    (h : Typing.range? env iter = some r) : iter.rangeStop? = some r.stop := by
  unfold Typing.range? at h
  split at h
  · split at h
    · rename_i hrange
      simp [Source.Expr.rangeStop?, hrange.1, h]
    · cases h
  · cases h

/-! ### From the script to the program -/

/-- A loop whose body has been emitted is steady if the loop of the script is. -/
theorem steady_of_counts {st st₁ : State} {site : Source.Site} {target iter : Source.Expr}
    {body : List Stmt} {r : Typing.Range} {head : LoopHead} {b : Block}
    (hd : st.env.globals.LiteralDefaults) (hhead : Counts policy st.env target iter body r head)
    (hbody : EmitsBlock policy (st.push.declare head.counter .integer) body b st₁)
    (hsteady : (Stmt.forLoop site target iter body []).steady = true) :
    (Target.Stmt.forLoop head.counter head.start head.stop head.step b).steady = true := by
  simp only [Source.Stmt.steady, rangeStop?_of_range? hhead.range, Option.all_some,
    List.all_eq_true, Bool.not_eq_true'] at hsteady
  simp only [Target.Stmt.steady, List.all_eq_true, Bool.not_eq_true']
  intro t ht
  cases t with
  | assign x v =>
    -- An assignment has been emitted for a statement that stores into the same name.
    obtain ⟨s, hs, st₂, b₂, st₃, -, hemits, hmem⟩ := hbody.origin _ ht
    obtain ⟨e, hbinding⟩ : ∃ e, binding? s = some (x, e) := by
      cases hemits with
      | store hs _ _ _ =>
        obtain ⟨rfl, -⟩ : x = _ ∧ v = _ := by simpa using hmem
        exact ⟨_, hs⟩
      | _ => simp [SkipRecord.comment] at hmem
    have hstores := hsteady s hs
    simp only [Source.Stmt.storesInto, hbinding, Option.any_some] at hstores
    rw [Target.Stmt.assignsInto, mentions_lower hd hhead.stop hhead.stopCalls, hstores]
  | _ => rfl

theorem steady_of_emitsBlock {st st' : State} {ss : List Stmt} {b : Block}
    (h : EmitsBlock policy st ss b st') (hd : st.env.globals.LiteralDefaults)
    (hsteady : ∀ s ∈ Stmt.nestedBlock ss, s.steady = true) :
    ∀ t ∈ Target.Stmt.nestedBlock b, t.steady = true := by
  intro t ht
  obtain ⟨s, hs, st₁, b₁, st₂, hwithin, hemits, hmem⟩ := h.origin t ht
  cases hemits with
  | forLoop hhead hbody =>
    obtain rfl := List.mem_singleton.1 hmem
    exact steady_of_counts (hd.congr hwithin.functions) hhead hbody (hsteady _ hs)
  | pass | imports => cases hmem
  | _ =>
    obtain rfl := List.mem_singleton.1 hmem
    rfl

/-! ### From the program to the script -/

/-- A name that is in scope is stored into by an assignment, not by a declaration. -/
theorem Emits.assign_of_binding {st st' : State} {s : Stmt} {b : Block} {x : String}
    {e : Source.Expr} {u : StaticType} (h : Emits policy st s b st') (hrecords : st'.records = [])
    (hs : binding? s = some (x, e)) (hx : st.env.lookup x = some u) : ∃ t, .assign x t ∈ b := by
  cases h with
  | skipped _ _ hne => exact absurd hrecords hne
  | store hs' _ _ _ =>
    obtain ⟨rfl, rfl⟩ := Prod.mk.inj (Option.some.inj (hs.symm.trans hs'))
    exact ⟨_, List.mem_singleton_self _⟩
  | declare hs' _ _ hfresh =>
    obtain ⟨rfl, rfl⟩ := Prod.mk.inj (Option.some.inj (hs.symm.trans hs'))
    rw [hfresh] at hx
    cases hx
  | doc hdoc => cases s <;> simp [Stmt.isDoc, binding?] at hdoc hs
  | imports himport => cases s <;> simp [isImport, binding?] at himport hs
  | _ => cases hs

/-- A loop of the script is steady if the loop that it became is, and nothing in it was left
out. -/
theorem counts_of_steady {st st₁ : State} {site : Source.Site} {target iter : Source.Expr}
    {body : List Stmt} {r : Typing.Range} {head : LoopHead} {b : Block}
    (hd : st.env.globals.LiteralDefaults) (hhead : Counts policy st.env target iter body r head)
    (hbody : EmitsBlock policy (st.push.declare head.counter .integer) body b st₁)
    (hrecords : st₁.records = [])
    (hsteady : (Target.Stmt.forLoop head.counter head.start head.stop head.step b).steady = true) :
    (Stmt.forLoop site target iter body []).steady = true := by
  simp only [Target.Stmt.steady, List.all_eq_true, Bool.not_eq_true'] at hsteady
  simp only [Source.Stmt.steady, rangeStop?_of_range? hhead.range, Option.all_some,
    List.all_eq_true, Bool.not_eq_true']
  intro s hs
  rw [Source.Stmt.storesInto]
  cases hbinding : binding? s with
  | none => rfl
  | some binding =>
    obtain ⟨x, e⟩ := binding
    rw [Option.any_some, ← mentions_lower hd hhead.stop hhead.stopCalls]
    by_contra hx
    rw [Bool.not_eq_false] at hx
    -- What the bound mentions is in scope, so what stores into it is an assignment.
    obtain ⟨u, hu⟩ := lookup_of_mentions hhead.stop hhead.stopCalls
      (by rwa [mentions_lower hd hhead.stop hhead.stopCalls] at hx)
    rcases hbody.emitted hrecords s hs with ⟨_, _, _, _, rfl⟩ | ⟨st₂, b₂, st₃, hin, h, hnil, hmem⟩
    · cases hbinding
    · obtain ⟨t, ht⟩ := h.assign_of_binding hnil hbinding ((hhead.within.trans hin).lookup x u hu)
      have hnot := hsteady _ (hmem _ ht)
      rw [Target.Stmt.assignsInto, hx] at hnot
      cases hnot

theorem steady_of_emitted {st st' : State} {ss : List Stmt} {b : Block}
    (h : EmitsBlock policy st ss b st') (hd : st.env.globals.LiteralDefaults)
    (hrecords : st'.records = []) (hsteady : ∀ t ∈ Target.Stmt.nestedBlock b, t.steady = true) :
    ∀ s ∈ Stmt.nestedBlock ss, s.steady = true := by
  intro s hs
  rcases h.emitted hrecords s hs with ⟨_, _, _, _, rfl⟩ | ⟨st₁, b₁, st₂, hin, hemits, hnil, hmem⟩
  · rfl
  · cases hemits with
    | forLoop hhead hbody =>
      exact counts_of_steady (hd.congr hin.functions) hhead hbody hnil
        (hsteady _ (hmem _ (List.mem_singleton_self _)))
    | skipped _ _ hne => exact absurd hnil hne
    | doc hdoc => cases s <;> simp [Stmt.isDoc] at hdoc <;> rfl
    | imports himport => cases s <;> simp [isImport] at himport <;> rfl
    | declare hbinding | store hbinding => cases s <;> simp [binding?] at hbinding <;> rfl
    | _ => rfl

/-! ### Whole scripts -/

theorem steady_function {is : List Target.Include} {f : Target.Function}
    {items : List Target.Item} :
    Target.Program.steady ⟨is, .function f :: items⟩ = true ↔
      (∀ t ∈ Target.Stmt.nestedBlock f.body, t.steady = true) ∧
        Target.Program.steady ⟨is, items⟩ = true := by
  simp [Target.Program.steady, and_assoc]

theorem steady_stmts {is : List Target.Include} {b : Block} {items : List Target.Item} :
    Target.Program.steady ⟨is, b.map .stmt ++ items⟩ = true ↔
      (∀ t ∈ Target.Stmt.nestedBlock b, t.steady = true) ∧
        Target.Program.steady ⟨is, items⟩ = true := by
  simp only [Target.Program.steady, Target.Program.functions_stmts, Target.Program.mainBody_stmts,
    Target.Stmt.nestedBlock_append, List.all_append, Bool.and_eq_true, List.all_eq_true]
  tauto

theorem literalDefaults_functionStart {globals : Globals} (hd : globals.LiteralDefaults)
    (records : List SkipRecord) (s : Signature) :
    (functionStart globals records s).env.globals.LiteralDefaults := by
  rw [functionStart, globals_functionEnv]
  exact hd

theorem EmitsItems.steady {globals : Globals} (hd : globals.LiteralDefaults) {st st' : State}
    {ss : List Stmt} {items : List Target.Item} (h : EmitsItems policy globals st ss items st')
    (hst : st.env.globals.functions = globals.functions) (is : List Target.Include)
    (hsteady : ∀ s ∈ Stmt.nestedBlock ss, s.steady = true) :
    Target.Program.steady ⟨is, items⟩ = true := by
  induction h with
  | nil => rfl
  | @function st _ d ss body s _ hdecl _ ih =>
    obtain ⟨-, _, _, _, _, _, rfl⟩ := declared?_eq_some hdecl
    obtain ⟨stop, hbody, -⟩ := emits_emitFunction policy globals st.records s body
    rw [steady_function]
    refine ⟨steady_of_emitsBlock hbody (literalDefaults_functionStart hd _ _) ?_, ih hst ?_⟩
    · exact fun s hs => hsteady s (by simp [Stmt.nestedBlock, Stmt.nested, hs])
    · exact fun s hs => hsteady s (by simp [Stmt.nestedBlock, hs])
  | stmt hdecl hfirst hrest ih =>
    have hblock := EmitsBlock.cons hfirst .nil
    rw [List.append_nil] at hblock
    rw [steady_stmts]
    refine ⟨steady_of_emitsBlock hblock (hd.congr hst) ?_,
      ih (hfirst.keeps.functions.trans hst) ?_⟩
    · intro s hs
      rw [Stmt.nestedBlock, Stmt.nestedBlock, List.append_nil] at hs
      exact hsteady s (List.mem_append_left _ hs)
    · exact fun s hs => hsteady s (by simp [Stmt.nestedBlock, hs])

theorem EmitsItems.steady_of_emitted {globals : Globals} (hd : globals.LiteralDefaults)
    {st st' : State} {ss : List Stmt} {items : List Target.Item}
    (h : EmitsItems policy globals st ss items st')
    (hst : st.env.globals.functions = globals.functions) (hrecords : st'.records = [])
    (is : List Target.Include) (hsteady : Target.Program.steady ⟨is, items⟩ = true) :
    ∀ s ∈ Stmt.nestedBlock ss, s.steady = true := by
  induction h with
  | nil => simp [Stmt.nestedBlock]
  | @function st _ d ss body s _ hdecl hrest ih =>
    obtain ⟨-, _, _, _, _, _, rfl⟩ := declared?_eq_some hdecl
    obtain ⟨stop, hbody, -, hstop⟩ := emits_emitFunction policy globals st.records s body
    rw [steady_function] at hsteady
    have hnil : stop.records = [] :=
      List.prefix_nil.1 (hrecords ▸ hstop ▸ hrest.records)
    have hin := Lowering.steady_of_emitted hbody (literalDefaults_functionStart hd _ _) hnil
      hsteady.1
    simp only [Stmt.nestedBlock, Stmt.nested, List.forall_mem_append, List.forall_mem_cons]
    exact ⟨⟨rfl, hin⟩, ih hst hrecords hsteady.2⟩
  | stmt hdecl hfirst hrest ih =>
    have hblock := EmitsBlock.cons hfirst .nil
    rw [List.append_nil] at hblock
    rw [steady_stmts] at hsteady
    have hin := Lowering.steady_of_emitted hblock (hd.congr hst)
      (List.prefix_nil.1 (hrecords ▸ hrest.records)) hsteady.1
    simp only [Stmt.nestedBlock, List.append_nil, List.forall_mem_append] at hin ⊢
    exact ⟨hin, ih (hfirst.keeps.functions.trans hst) hrecords hsteady.2⟩

/-- **The bounds of an emitted program are steady if those of the script are**, and only then if
nothing of the script was left out. -/
theorem steady_emit (policy : Policy) (m : Source.Module) :
    ((∀ s ∈ Stmt.nestedBlock m.body, s.steady = true) → (emit policy m).program.steady = true) ∧
    ((emit policy m).records = [] → (emit policy m).program.steady = true →
      ∀ s ∈ Stmt.nestedBlock m.body, s.steady = true) := by
  obtain ⟨stop, hitems, hrecords⟩ := emitsItems_emit policy m
  have hd : (programGlobals policy m.body).LiteralDefaults := literalDefaults_programGlobals m.body
  refine ⟨hitems.steady hd rfl _, fun hnil => hitems.steady_of_emitted hd rfl ?_ _⟩
  rw [← hrecords, hnil]

end Lowering

open Source.Compose in
/-- A loop that stores into its own bound. -/
def Source.shrinking : Source.Module :=
  script
    [assign "n" (int 1),
     forLoop "i" (call (name "range") [name "n"] []) [assign "n" (int 0)]]

/-- A loop that stores into its own bound is emitted, and nothing is said about it. -/
theorem Lowering.shrinking_unsteady :
    (emit ⟨.template, .keep⟩ Source.shrinking).records = [] ∧
      (emit ⟨.template, .keep⟩ Source.shrinking).program.steady = false := by
  decide +kernel

end StaticScript
