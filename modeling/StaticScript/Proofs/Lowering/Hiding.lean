import StaticScript.Proofs.Lowering.Callees
import StaticScript.Source.Compose

/-!
# Functions hidden by variables

A call names the function that it calls, and in C++ the name denotes a variable instead where one of
this name is in scope.  `Program.resolves g` says that this happens to no call of `g`: it follows
the scopes of the program, where a variable is in scope from its declaration to the end of the
block, a counter in the head and the body of its loop, and a parameter in its function.

No declaration hides a function, since a name that is a function's is not assigned to
(`Emits.declares_eq_false`).  But nothing keeps a counter or a parameter from having the name of a
function: `recounting` is a script with such a loop, and it is emitted (`recounting_hides`).

**Main theorem** (`resolves_emit`): all calls of a function denote it if the function is called
neither in a loop that counts in its name nor in a function with a parameter of its name
(`Unhidden`), and only then if nothing of the script was left out.
-/

namespace StaticScript

/-! ### Scopes of programs -/

namespace Target

/-- The expression does not call `g` where `g` is hidden. -/
def Expr.resolves (g : String) (hidden : Bool) (e : Expr) : Bool :=
  !hidden || !e.callees.contains g

/-- The statement declares the variable in the block that it stands in. -/
def Stmt.declares (x : String) : Stmt → Bool
  | .decl y _ _ => y == x
  | _ => false

/-- The statement is a loop that counts in the variable. -/
def Stmt.counts (x : String) : Stmt → Bool
  | .forLoop y _ _ _ _ => y == x
  | _ => false

namespace Stmt

mutual

/-- No call of `g` in the statement stands where a variable `g` is in scope; `hidden` says whether
one is in scope around the statement. -/
def resolves (g : String) (hidden : Bool) : Stmt → Bool
  | .decl x _ e => e.resolves g (hidden || x == g)
  | .assign _ e | .expr e | .ret (some e) => e.resolves g hidden
  | .print es => es.all (·.resolves g hidden)
  | .ifElse branches orelse =>
    resolvesBranches g hidden branches && resolvesElse g hidden orelse
  | .whileLoop condition body => condition.resolves g hidden && resolvesBlock g hidden body
  | .forLoop x start stop _ body =>
    start.resolves g (hidden || x == g) && stop.resolves g (hidden || x == g) &&
      resolvesBlock g (hidden || x == g) body
  | .ret none | .brk | .cont | .comment _ => true

/-- No call of `g` in the block stands where a variable `g` is in scope. -/
def resolvesBlock (g : String) (hidden : Bool) : List Stmt → Bool
  | [] => true
  | s :: ss => s.resolves g hidden && resolvesBlock g (hidden || s.declares g) ss

/-- No call of `g` in the branches stands where a variable `g` is in scope. -/
def resolvesBranches (g : String) (hidden : Bool) : List (Expr × List Stmt) → Bool
  | [] => true
  | (condition, body) :: branches =>
    condition.resolves g hidden && resolvesBlock g hidden body &&
      resolvesBranches g hidden branches

/-- No call of `g` in the `else` stands where a variable `g` is in scope. -/
def resolvesElse (g : String) (hidden : Bool) : Option (List Stmt) → Bool
  | none => true
  | some body => resolvesBlock g hidden body

end

end Stmt

/-- No call of `g` in the function stands where a variable `g` is in scope. -/
def Function.resolves (g : String) (f : Function) : Bool :=
  let hidden := f.params.any (·.name == g)
  f.params.all (fun p => p.default.all (·.resolves g hidden)) &&
    Stmt.resolvesBlock g hidden f.body

/-- No call of `g` in the program stands where a variable `g` is in scope. -/
def Program.resolves (g : String) (p : Program) : Bool :=
  p.functions.all (·.resolves g) && Stmt.resolvesBlock g false p.mainBody

theorem Expr.resolves_iff {g : String} {hidden : Bool} {e : Expr} :
    e.resolves g hidden = true ↔ (hidden = true → g ∉ e.callees) := by
  cases hidden <;> simp [resolves]

namespace Stmt

variable {g : String}

mutual

/-- Without declarations of `g`, only loops can hide it. -/
theorem resolves_iff (hidden : Bool) : (s : Stmt) → (∀ t ∈ s.nested, t.declares g = false) →
    (s.resolves g hidden = true ↔
      (hidden = true → g ∉ s.callees) ∧ ∀ t ∈ s.nested, t.counts g = true → g ∉ t.callees)
  | .decl x type e, h => by
    have hx : (x == g) = false := h _ List.mem_cons_self
    rw [resolves, hx, Bool.or_false, Expr.resolves_iff]
    simp [nested, counts, callees, exprNodes, Expr.callees]
  | .assign .., _ | .expr _, _ | .ret (some _), _ => by
    simp [resolves, Expr.resolves_iff, nested, counts, callees, exprNodes, Expr.callees]
  | .print es, _ => by
    simp only [resolves, List.all_eq_true, Expr.resolves_iff, callees_print, Expr.mem_calleesList,
      nested, counts]
    grind
  | .ifElse branches orelse, h => by
    simp only [nested, List.forall_mem_cons, List.forall_mem_append] at h ⊢
    rw [resolves, Bool.and_eq_true, resolvesBranches_iff hidden branches h.2.1,
      resolvesElse_iff hidden orelse h.2.2, callees_ifElse, List.mem_append]
    simp only [counts]
    tauto
  | .whileLoop condition body, h => by
    simp only [nested, List.forall_mem_cons] at h ⊢
    rw [resolves, Bool.and_eq_true, Expr.resolves_iff, resolvesBlock_iff hidden body h.2,
      callees_whileLoop, List.mem_append]
    simp only [counts]
    tauto
  | .forLoop x start stop step body, h => by
    simp only [nested, List.forall_mem_cons] at h ⊢
    -- the counter hides `g` in the whole loop, or nothing more is hidden than around it
    rw [resolves, Bool.and_eq_true, Bool.and_eq_true, Expr.resolves_iff, Expr.resolves_iff,
      resolvesBlock_iff _ body h.2, callees_forLoop, List.mem_append, List.mem_append,
      Bool.or_eq_true, counts]
    tauto
  | .ret none, _ | .brk, _ | .cont, _ | .comment _, _ => by
    simp [resolves, nested, counts, callees, exprNodes]

theorem resolvesBlock_iff (hidden : Bool) : (b : List Stmt) →
    (∀ t ∈ nestedBlock b, t.declares g = false) →
    (resolvesBlock g hidden b = true ↔
      (hidden = true → g ∉ calleesBlock b) ∧
        ∀ t ∈ nestedBlock b, t.counts g = true → g ∉ t.callees)
  | [], _ => by simp [resolvesBlock, calleesBlock, exprNodesBlock, nestedBlock]
  | s :: b, h => by
    simp only [nestedBlock, List.forall_mem_append] at h ⊢
    have hs : s.declares g = false := h.1 s (by cases s <;> simp [nested])
    rw [resolvesBlock, hs, Bool.or_false, Bool.and_eq_true, resolves_iff hidden s h.1,
      resolvesBlock_iff hidden b h.2, calleesBlock_cons, List.mem_append]
    tauto

theorem resolvesBranches_iff (hidden : Bool) : (branches : List (Expr × List Stmt)) →
    (∀ t ∈ nestedBranches branches, t.declares g = false) →
    (resolvesBranches g hidden branches = true ↔
      (hidden = true → g ∉ calleesBranches branches) ∧
        ∀ t ∈ nestedBranches branches, t.counts g = true → g ∉ t.callees)
  | [], _ => by simp [resolvesBranches, calleesBranches, exprNodesBranches, nestedBranches]
  | (c, b) :: branches, h => by
    simp only [nestedBranches, List.forall_mem_append] at h ⊢
    rw [resolvesBranches, Bool.and_eq_true, Bool.and_eq_true, Expr.resolves_iff,
      resolvesBlock_iff hidden b h.1, resolvesBranches_iff hidden branches h.2,
      calleesBranches_cons, List.mem_append, List.mem_append]
    tauto

theorem resolvesElse_iff (hidden : Bool) : (orelse : Option (List Stmt)) →
    (∀ t ∈ nestedElse orelse, t.declares g = false) →
    (resolvesElse g hidden orelse = true ↔
      (hidden = true → g ∉ calleesElse orelse) ∧
        ∀ t ∈ nestedElse orelse, t.counts g = true → g ∉ t.callees)
  | none, _ => by simp [resolvesElse, calleesElse, exprNodesElse, nestedElse]
  | some b, h => resolvesBlock_iff hidden b h

end

end Stmt

end Target

namespace Source

/-- The statement is a loop that counts in the name. -/
def Stmt.counts (x : String) : Stmt → Bool
  | .forLoop _ target _ _ _ => target.asName == some x
  | _ => false

end Source

namespace Lowering

open Source (Stmt)
open Target.Stmt (nestedBlock calleesBlock resolvesBlock)

variable {policy : Policy} {g : String}

/-! ### Blocks -/

/-- **A name that is a function's is not declared.** -/
theorem Emits.declares_eq_false {st st' : State} {s : Stmt} {b : Block}
    (h : Emits policy st s b st') (hg : Callable st.env.globals g) :
    ∀ t ∈ b, t.declares g = false := by
  cases h with
  | @declare _ _ x _ _ _ _ _ _ hname =>
    rintro t ht
    obtain rfl := List.mem_singleton.1 ht
    refine beq_eq_false_iff_ne.2 ?_
    rintro rfl
    exact Option.not_isSome_iff_eq_none.2 hname hg.known
  | pass | imports => exact fun t ht => by cases ht
  | _ =>
    intro t ht
    obtain rfl := List.mem_singleton.1 ht
    rfl

/-- A loop that counts in the name of a function stands for one that does, and calls what that
calls. -/
theorem Emits.counts {st st' : State} {s : Stmt} {b : Block} (h : Emits policy st s b st')
    (hg : Callable st.env.globals g) {t : Target.Stmt} (ht : t ∈ b) (hcounts : t.counts g = true) :
    s.counts g = true ∧ (g ∈ t.callees → g ∈ s.callees) := by
  have hcalls := h.sameCalls hg
  cases h with
  | forLoop hhead hbody =>
    obtain rfl := List.mem_singleton.1 ht
    rw [Target.Stmt.calleesBlock_singleton] at hcalls
    refine ⟨?_, hcalls.sound⟩
    simpa [Stmt.counts, hhead.target, Target.Stmt.counts] using hcounts
  | pass | imports => cases ht
  | _ =>
    obtain rfl := List.mem_singleton.1 ht
    cases hcounts

/-- A loop of the script that counts in the name of a function becomes one that does, and calls what
that calls, if nothing was left out. -/
theorem Emits.counts_of_emitted {st st' : State} {s : Stmt} {b : Block}
    (h : Emits policy st s b st') (hg : Callable st.env.globals g) (hnil : st'.records = [])
    (hcounts : s.counts g = true) :
    ∃ t ∈ b, t.counts g = true ∧ (g ∈ s.callees → g ∈ t.callees) := by
  have hcalls := h.sameCalls hg
  cases s with
  | forLoop =>
    cases h with
    | forLoop hhead hbody =>
      rw [Target.Stmt.calleesBlock_singleton] at hcalls
      refine ⟨_, List.mem_singleton_self _, ?_, hcalls.complete hnil⟩
      simpa [Stmt.counts, hhead.target, Target.Stmt.counts] using hcounts
    | skipped _ _ hne => exact absurd hnil hne
    | doc hs | declare hs | store hs | imports hs => cases hs
  | _ => cases hcounts

/-- No loop that counts in `g` calls `g`. -/
def LoopsResolve (g : String) (ss : List Stmt) : Prop :=
  ∀ s ∈ ss, s.counts g = true → g ∉ s.callees

/-- What was emitted for statements whose loops resolve `g` does not hide it. -/
theorem Originates.resolve {st : State} {ss : List Stmt} {t : Target.Stmt}
    (h : Originates policy st ss t) (hg : Callable st.env.globals g) :
    t.declares g = false ∧
      (LoopsResolve g ss → t.counts g = true → g ∉ t.callees) := by
  obtain ⟨s, hs, st₁, b, st₂, hwithin, hemits, ht⟩ := h
  have hg₁ := hg.congr hwithin.functions
  refine ⟨hemits.declares_eq_false hg₁ t ht, fun hloops hcounts hcall => ?_⟩
  obtain ⟨hsource, hcalls⟩ := hemits.counts hg₁ ht hcounts
  exact hloops s hs hsource (hcalls hcall)

/-- A loop that was emitted resolves `g` if what it became does. -/
theorem Reaches.resolve {st : State} {s : Stmt} {ts : List Target.Stmt}
    (h : Reaches policy st s ts) (hg : Callable st.env.globals g)
    (hts : ∀ t ∈ ts, t.counts g = true → g ∉ t.callees) (hcounts : s.counts g = true) :
    g ∉ s.callees := by
  rcases h with ⟨site, c, body, orelse, rfl⟩ | ⟨st₁, b, st₂, hwithin, hemits, hnil, hmem⟩
  · cases hcounts
  · obtain ⟨t, ht, htcounts, hcalls⟩ :=
      hemits.counts_of_emitted (hg.congr hwithin.functions) hnil hcounts
    exact fun hcall => hts t (hmem t ht) htcounts (hcalls hcall)

theorem EmitsBlock.resolves {st st' : State} {ss : List Stmt} {b : Block}
    (h : EmitsBlock policy st ss b st') (hg : Callable st.env.globals g) {hidden : Bool}
    (hhidden : hidden = true → g ∉ ss.flatMap Stmt.callees)
    (hloops : LoopsResolve g (Stmt.nestedBlock ss)) : resolvesBlock g hidden b = true := by
  have horigin := fun t ht => (h.origin t ht).resolve hg
  rw [Target.Stmt.resolvesBlock_iff hidden b fun t ht => (horigin t ht).1]
  exact ⟨fun hh hcall => hhidden hh ((h.sameCalls hg).sound hcall),
    fun t ht => (horigin t ht).2 hloops⟩

theorem EmitsBlock.of_resolves {st st' : State} {ss : List Stmt} {b : Block}
    (h : EmitsBlock policy st ss b st') (hg : Callable st.env.globals g) (hnil : st'.records = [])
    {hidden : Bool} (hresolves : resolvesBlock g hidden b = true) :
    (hidden = true → g ∉ ss.flatMap Stmt.callees) ∧ LoopsResolve g (Stmt.nestedBlock ss) := by
  rw [Target.Stmt.resolvesBlock_iff hidden b fun t ht => ((h.origin t ht).resolve hg).1]
    at hresolves
  refine ⟨fun hh hcall => hresolves.1 hh ((h.sameCalls hg).complete hnil hcall), ?_⟩
  exact fun s hs => (h.emitted hnil s hs).resolve hg hresolves.2

/-! ### Functions -/

theorem Callable.functionStart {globals : Globals} (hg : Callable globals g)
    (records : List SkipRecord) (s : Signature) :
    Callable (functionStart globals records s).env.globals g := by
  rw [Lowering.functionStart, globals_functionEnv]
  exact hg

theorem callees_of_isLiteral {e : Target.Expr} (h : e.isLiteral = true) : e.callees = [] := by
  rw [Target.Expr.callees, nodes_of_isLiteral h]
  cases e <;> first | rfl | cases h

/-- Parameters hide the functions of their names in the body of a function, and nowhere else. -/
theorem resolves_emitFunction {globals : Globals} (hg : Callable globals g)
    {records : List SkipRecord} {s : Signature} {body : List Stmt}
    (hs : globals.function? s.name = some s) :
    (emitFunction policy globals records s body).1.resolves g = true ↔
      resolvesBlock g (s.params.any (·.name == g))
        (emitFunction policy globals records s body).1.body = true := by
  have hparams : (functionParams policy s).any (·.name == g) = s.params.any (·.name == g) := by
    simp [functionParams, Function.comp_def]
  have hdefaults : ∀ hidden, (functionParams policy s).all
      (fun p => p.default.all (·.resolves g hidden)) = true := by
    intro hidden
    simp only [functionParams, List.all_map, List.all_eq_true, Function.comp_def]
    intro p hp
    cases hd : p.default with
    | none => cases policy.defaults <;> rfl
    | some v =>
      have hliteral := hg.defaults s (List.mem_of_find?_eq_some hs) p hp v hd
      cases policy.defaults with
      | skip => rfl
      | keep => simp [Target.Expr.resolves_iff, callees_of_isLiteral hliteral]
  have hhead : (emitFunction policy globals records s body).1.params = functionParams policy s :=
    rfl
  unfold Target.Function.resolves
  dsimp only
  rw [hhead, hparams, hdefaults, Bool.true_and]

/-! ### Whole scripts -/

section

variable {globals : Globals} {st st' : State} {ss : List Stmt} {items : List Target.Item}

theorem State.within_records (st : State) (records : List SkipRecord) :
    st.Within { st with records } := ⟨rfl, fun _ _ h => h⟩

/-- The statements of `main` have been emitted for statements of the script. -/
theorem EmitsItems.origin (h : EmitsItems policy globals st ss items st')
    (is : List Target.Include) : ∀ t ∈ nestedBlock (Target.Program.mainBody ⟨is, items⟩),
      Originates policy st (Stmt.nestedBlock ss) t := by
  induction h with
  | nil => simp [nestedBlock]
  | function hd hrest ih =>
    exact fun t ht => (ih t ht).mono (State.within_records _ _)
      (by simp +contextual [Stmt.nestedBlock])
  | @stmt st _ _ _ _ _ _ hd hfirst hrest ih =>
    rw [Target.Program.mainBody_stmts, Target.Stmt.nestedBlock_append, List.forall_mem_append]
    constructor
    · exact fun t ht => (hfirst.origin t ht).mono (.refl st)
        (by simp +contextual [Stmt.nestedBlock])
    · exact fun t ht => (ih t ht).mono hfirst.within (by simp +contextual [Stmt.nestedBlock])

/-- If nothing was left out, the statements that define no function have been emitted. -/
theorem EmitsItems.emitted (h : EmitsItems policy globals st ss items st')
    (hnil : st'.records = []) (is : List Target.Include) :
    ∀ d ∈ ss, declared? globals d = none → ∀ s ∈ d.nested,
      Reaches policy st s (nestedBlock (Target.Program.mainBody ⟨is, items⟩)) := by
  induction h with
  | nil => simp
  | function hd hrest ih =>
    rw [List.forall_mem_cons]
    refine ⟨fun hnone => ?_, fun d hmem hnone s hs => ?_⟩
    · rw [hd] at hnone
      cases hnone
    · exact (ih hnil d hmem hnone s hs).mono (State.within_records _ _) fun _ ht => ht
  | @stmt st _ _ _ _ _ _ hd hfirst hrest ih =>
    rw [Target.Program.mainBody_stmts, Target.Stmt.nestedBlock_append, List.forall_mem_cons]
    have hfirstNil := List.prefix_nil.1 (hnil ▸ hrest.records)
    refine ⟨fun _ s hs => ?_, fun d hmem hnone s hs => ?_⟩
    · exact (hfirst.emitted hfirstNil s hs).mono (.refl st) fun t ht => List.mem_append_left _ ht
    · exact (ih hnil d hmem hnone s hs).mono hfirst.within fun t ht => List.mem_append_right _ ht

/-- If nothing was left out, nothing was left out of the functions. -/
theorem EmitsItems.records_emitFunction (h : EmitsItems policy globals st ss items st')
    (hnil : st'.records = []) : ∀ d ∈ ss, ∀ s b, declared? globals d = some (s, b) →
      (emitFunction policy globals [] s b).2 = [] := by
  induction h with
  | nil => simp
  | @function st _ d _ body s _ hd hrest ih =>
    rw [List.forall_mem_cons]
    refine ⟨fun s' b hsome => ?_, ih hnil⟩
    obtain ⟨rfl, rfl⟩ := Prod.mk.inj (Option.some.inj (hd.symm.trans hsome))
    obtain ⟨stop, hbody, -, hstop⟩ := emits_emitFunction policy globals st.records s body
    have hafter : (emitFunction policy globals st.records s body).2 = [] :=
      List.prefix_nil.1 (hnil ▸ hrest.records)
    have hbefore : st.records = [] :=
      hbody.keeps.records_eq_nil (hstop.symm.trans hafter)
    rwa [hbefore] at hafter
  | stmt hd hfirst hrest ih =>
    rw [List.forall_mem_cons]
    refine ⟨fun s b hsome => ?_, ih hnil⟩
    rw [hd] at hsome
    cases hsome

end

/-- The function `g` is called neither in a loop that counts in `g` nor in a function with a
parameter `g`. -/
structure Unhidden (policy : Policy) (m : Source.Module) (g : String) : Prop where
  loops : LoopsResolve g (Stmt.nestedBlock m.body)
  params : ∀ d ∈ m.body, ∀ s b, declared? (programGlobals policy m.body) d = some (s, b) →
    s.params.any (·.name == g) = true → g ∉ b.flatMap Stmt.callees

/-- A definition is unhidden, and so are the loops in it, exactly if the function that it becomes
resolves its calls; the second only if nothing was left out of it. -/
theorem resolves_declared {globals : Globals} (hg : Callable globals g) {d : Stmt} {s : Signature}
    {b : List Stmt} (hd : declared? globals d = some (s, b)) :
    ((s.params.any (·.name == g) = true → g ∉ b.flatMap Stmt.callees) ∧
        LoopsResolve g (Stmt.nestedBlock b) →
      (emitFunction policy globals [] s b).1.resolves g = true) ∧
    ((emitFunction policy globals [] s b).2 = [] →
      (emitFunction policy globals [] s b).1.resolves g = true →
      (s.params.any (·.name == g) = true → g ∉ b.flatMap Stmt.callees) ∧
        LoopsResolve g (Stmt.nestedBlock b)) := by
  obtain ⟨stop, hbody, -, hstop⟩ := emits_emitFunction policy globals [] s b
  have hstart := hg.functionStart [] s
  rw [resolves_emitFunction hg (declared?_eq_some hd).1, hstop]
  exact ⟨fun h => hbody.resolves hstart h.1 h.2, fun hnil => hbody.of_resolves hstart hnil⟩

/-- The loops of a script are those of the functions and those of `main`. -/
theorem loopsResolve_iff (globals : Globals) {ss : List Stmt} :
    LoopsResolve g (Stmt.nestedBlock ss) ↔
      (∀ d ∈ ss, ∀ s b, declared? globals d = some (s, b) → LoopsResolve g (Stmt.nestedBlock b)) ∧
      ∀ d ∈ ss, declared? globals d = none → LoopsResolve g d.nested := by
  constructor
  · intro h
    refine ⟨fun d hd s b hsome t ht => ?_, fun d hd _ t ht => ?_⟩
    · obtain ⟨-, site, x, ps, returns, ds, rfl⟩ := declared?_eq_some hsome
      exact h t (Stmt.nested_subset_of_mem hd (List.mem_cons_of_mem _ ht))
    · exact h t (Stmt.nested_subset_of_mem hd ht)
  · rintro ⟨hfunctions, hmain⟩ t ht
    obtain ⟨d, hd, ht⟩ := Stmt.exists_of_mem_nestedBlock ht
    cases hdeclared : declared? globals d with
    | none => exact hmain d hd hdeclared t ht
    | some found =>
      obtain ⟨s, b⟩ := found
      obtain ⟨-, site, x, ps, returns, ds, rfl⟩ := declared?_eq_some hdeclared
      rcases List.mem_cons.1 ht with rfl | ht
      · exact fun hcounts => absurd hcounts Bool.false_ne_true
      · exact hfunctions _ hd s b hdeclared t ht

theorem callable_of_mem_functions {m : Source.Module} {f : Target.Function}
    (hf : f ∈ (emit policy m).program.functions) (hname : ¬ Target.IsLibrary f.name) :
    Callable (programGlobals policy m.body) f.name := by
  obtain ⟨stop, hitems, -⟩ := emitsItems_emit policy m
  obtain ⟨d, -, s, b, hd, rfl⟩ := hitems.mem_functions.1 hf
  refine ⟨?_, literalDefaults_programGlobals m.body, hname⟩
  exact Option.isSome_iff_exists.2 ⟨s, (declared?_eq_some hd).1⟩

/-- The program resolves `g` exactly if its functions do and no loop of `main` hides it. -/
theorem resolves_emit_iff {m : Source.Module} (hg : Callable (programGlobals policy m.body) g) :
    (emit policy m).program.resolves g = true ↔
      (∀ d ∈ m.body, ∀ s b, declared? (programGlobals policy m.body) d = some (s, b) →
        (emitFunction policy (programGlobals policy m.body) [] s b).1.resolves g = true) ∧
      ∀ t ∈ nestedBlock (emit policy m).program.mainBody, t.counts g = true → g ∉ t.callees := by
  obtain ⟨stop, hitems, -⟩ := emitsItems_emit policy m
  have hstart : Callable (mainStart (programGlobals policy m.body)).env.globals g := hg.congr rfl
  have hmain : resolvesBlock g false (emit policy m).program.mainBody = true ↔ _ :=
    Target.Stmt.resolvesBlock_iff false _ fun t ht => ((hitems.origin _ t ht).resolve hstart).1
  have hfunctions : (∀ f ∈ (emit policy m).program.functions, f.resolves g = true) ↔
      ∀ d ∈ m.body, ∀ s b, declared? (programGlobals policy m.body) d = some (s, b) →
        (emitFunction policy (programGlobals policy m.body) [] s b).1.resolves g = true := by
    constructor
    · exact fun h d hd s b hdeclared =>
        h _ (hitems.mem_functions.2 ⟨d, hd, s, b, hdeclared, rfl⟩)
    · intro h f hf
      obtain ⟨d, hd, s, b, hdeclared, rfl⟩ := hitems.mem_functions.1 hf
      exact h d hd s b hdeclared
  rw [Target.Program.resolves, Bool.and_eq_true, List.all_eq_true, hfunctions, hmain]
  simp

/-- **All calls of a function denote it if the function is unhidden**, and only then if nothing of
the script was left out. -/
theorem resolves_emit (policy : Policy) (m : Source.Module) (g : String)
    (hfunction : ∃ f ∈ (emit policy m).program.functions, f.name = g)
    (hname : ¬ Target.IsLibrary g) :
    (Unhidden policy m g → (emit policy m).program.resolves g = true) ∧
    ((emit policy m).records = [] → (emit policy m).program.resolves g = true →
      Unhidden policy m g) := by
  obtain ⟨stop, hitems, hrecords⟩ := emitsItems_emit policy m
  have hg : Callable (programGlobals policy m.body) g := by
    obtain ⟨f, hf, rfl⟩ := hfunction
    exact callable_of_mem_functions hf hname
  have hstart : Callable (mainStart (programGlobals policy m.body)).env.globals g := hg.congr rfl
  rw [resolves_emit_iff hg]
  constructor
  · intro hunhidden
    have hloops := (loopsResolve_iff (programGlobals policy m.body)).1 hunhidden.loops
    constructor
    · exact fun d hd s b hdeclared => (resolves_declared hg hdeclared).1
        ⟨hunhidden.params d hd s b hdeclared, hloops.1 d hd s b hdeclared⟩
    · exact fun t ht => ((hitems.origin _ t ht).resolve hstart).2 hunhidden.loops
  · rintro hnil ⟨hfunctions, hmain⟩
    rw [hrecords] at hnil
    -- nothing was left out of any function either, so the bodies can be read back
    have hdeclared := fun d hd s b hsome => (resolves_declared hg hsome).2
      (hitems.records_emitFunction hnil d hd s b hsome) (hfunctions d hd s b hsome)
    constructor
    case params => exact fun d hd s b hsome => (hdeclared d hd s b hsome).1
    case loops =>
      refine (loopsResolve_iff _).2 ⟨fun d hd s b hsome => (hdeclared d hd s b hsome).2, ?_⟩
      exact fun d hd hnone s hs => (hitems.emitted hnil _ d hd hnone s hs).resolve hstart hmain

end Lowering

namespace Source

open Compose

/-- A loop that counts in the name of a function and calls the function. -/
def recounting : Module :=
  script
    [functionDef "f" [] Option.none [ret (some (int 1))],
     forLoop "f" (call (name "range") [int 3] [])
       [expr (call (name "print") [call (name "f") [] []] [])]]

/-- A loop that counts in the name of a function, and another that calls the function. -/
def recalling : Module :=
  script
    [functionDef "f" [] Option.none [ret (some (int 1))],
     forLoop "f" (call (name "range") [int 3] []) [expr (call (name "print") [name "f"] [])],
     forLoop "i" (call (name "range") [call (name "f") [] [], int 3] [])
       [expr (call (name "print") [call (name "f") [] []] [])]]

end Source

namespace Lowering

/-- A counter with the name of a function does no harm outside its loop. -/
theorem recalling_unhidden :
    ((∃ f ∈ (emit ⟨.template, .keep⟩ Source.recalling).program.functions, f.name = "f") ∧
      ¬ Target.IsLibrary "f" ∧ (emit ⟨.template, .keep⟩ Source.recalling).records = [] ∧
      (emit ⟨.template, .keep⟩ Source.recalling).program.resolves "f" = true) ∧
    Unhidden ⟨.template, .keep⟩ Source.recalling "f" := by
  have hfunction : ∃ f ∈ (emit ⟨.template, .keep⟩ Source.recalling).program.functions,
      f.name = "f" := ⟨_, List.mem_cons_self, rfl⟩
  have hname : ¬ Target.IsLibrary "f" := by
    rintro ⟨name, h⟩
    have hlist := congrArg String.toList h
    rw [String.toList_append] at hlist
    cases hlist
  have hrecords : (emit ⟨.template, .keep⟩ Source.recalling).records = [] := by decide +kernel
  have hresolves : (emit ⟨.template, .keep⟩ Source.recalling).program.resolves "f" = true := by
    decide +kernel
  exact ⟨⟨hfunction, hname, hrecords, hresolves⟩,
    (resolves_emit _ _ _ hfunction hname).2 hrecords hresolves⟩

/-- A loop that counts in the name of the function that it calls is emitted, and nothing is said
about it. -/
theorem recounting_hides :
    (emit ⟨.template, .keep⟩ Source.recounting).program.functions.map (·.name) = ["f"] ∧
      (emit ⟨.template, .keep⟩ Source.recounting).records = [] ∧
      (emit ⟨.template, .keep⟩ Source.recounting).program.resolves "f" = false := by
  decide +kernel

end Lowering

end StaticScript
