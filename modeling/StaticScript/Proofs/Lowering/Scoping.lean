import StaticScript.Proofs.Lowering.Program

/-!
# Scopes and types of emitted programs

A check of C++ programs that goes through the statements in order, with the names in scope and
their types: `Program.wellScoped`.  Every name is declared once, before it is used, and used with
the type that it was declared with; conditions, bounds and printed values have types that their
place admits.

**Every emitted program passes the check** (`wellScoped_emit`): the names that are in scope for the
check are those that were in scope when the statement was lowered (`Emits.scope`).
-/

namespace StaticScript

/-! ### The check -/

namespace Target

/-- The type of a name in the innermost scope that declares it. -/
def visible (frames : List Frame) (name : String) : Option StaticType :=
  frames.findSome? fun f => f.lookup name

/-- Every variable in the expression is in scope, with the type that it carries. -/
def Expr.scoped (frames : List Frame) (e : Expr) : Bool :=
  e.nodes.all fun
    | .var x t => visible frames x == some t
    | _ => true

/-- An expression that can be tested for truth. -/
def Expr.scopedTest (frames : List Frame) (e : Expr) : Bool :=
  e.scoped frames && e.type != .string && e.type != .void

/-- An expression that can be printed. -/
def Expr.scopedPrint (frames : List Frame) (e : Expr) : Bool :=
  e.scoped frames && e.type != .void && e.type != .floating

/-- An expression that can be the bound of a counting loop. -/
def Expr.scopedBound (frames : List Frame) (e : Expr) : Bool :=
  e.scoped frames && (e.type == .integer || e.type == .boolean)

namespace Stmt

mutual

/-- The innermost scope after a statement, if the statement is well scoped. -/
def scope (outer : List Frame) (inner : Frame) : Stmt → Option Frame
  | .decl x t e =>
    if e.scoped (inner :: outer) && visible (inner :: outer) x == none && e.type == t && t != .void
    then some ((x, t) :: inner) else none
  | .assign x e => do
    let t ← visible (inner :: outer) x
    if e.scoped (inner :: outer) && (e.type == t || t == .floating && e.type == .integer)
    then some inner else none
  | .expr e => if e.scoped (inner :: outer) then some inner else none
  | .print es => if es.all (·.scopedPrint (inner :: outer)) then some inner else none
  | .ifElse branches orelse =>
    if scopedBranches (inner :: outer) branches && scopedElse (inner :: outer) orelse
    then some inner else none
  | .whileLoop c body =>
    if c.scopedTest (inner :: outer) && (blockScope (inner :: outer) [] body).isSome
    then some inner else none
  | .forLoop x start stop _ body =>
    if start.scopedBound (inner :: outer) && stop.scopedBound (inner :: outer) &&
      visible (inner :: outer) x == none &&
      (blockScope (inner :: outer) [(x, .integer)] body).isSome
    then some inner else none
  | .ret e => if e.all (·.scoped (inner :: outer)) then some inner else none
  | .brk | .cont | .comment _ => some inner

/-- The innermost scope after the statements of a block. -/
def blockScope (outer : List Frame) (inner : Frame) : List Stmt → Option Frame
  | [] => some inner
  | s :: ss => do
    let inner ← s.scope outer inner
    blockScope outer inner ss

/-- The branches of a conditional are well scoped, each in a scope of its own. -/
def scopedBranches (frames : List Frame) : List (Expr × List Stmt) → Bool
  | [] => true
  | (c, body) :: branches =>
    c.scopedTest frames && (blockScope frames [] body).isSome && scopedBranches frames branches

/-- The `else` of a conditional is well scoped. -/
def scopedElse (frames : List Frame) : Option (List Stmt) → Bool
  | none => true
  | some body => (blockScope frames [] body).isSome

end

end Stmt

/-- The scope of the parameters of a function, of which the first of a name counts. -/
def paramFrame (params : List Param) : Frame :=
  params.foldl (fun f p => if (f.lookup p.name).isSome then f else (p.name, p.type.static) :: f) []

/-- The body of a function is well scoped. -/
def Function.wellScoped (f : Function) : Bool :=
  (Stmt.blockScope [] (paramFrame f.params) f.body).isSome

/-- All functions and `main` are well scoped. -/
def Program.wellScoped (p : Program) : Bool :=
  p.functions.all (·.wellScoped) && (Stmt.blockScope [] [] p.mainBody).isSome

theorem Stmt.blockScope_append (outer : List Frame) (inner : Frame) (b bs : List Stmt) :
    blockScope outer inner (b ++ bs) =
      (blockScope outer inner b).bind fun inner => blockScope outer inner bs := by
  induction b generalizing inner with
  | nil => rfl
  | cons s b ih =>
    simp only [List.cons_append, blockScope, Option.bind_eq_bind, Option.bind_assoc, ih]

@[simp] theorem Stmt.blockScope_singleton (outer : List Frame) (inner : Frame) (s : Stmt) :
    blockScope outer inner [s] = s.scope outer inner := by
  simp [blockScope]

end Target

namespace Lowering

open Source (Stmt)
open Target (visible)
open Target.Stmt (blockScope scopedBranches scopedElse)

variable {policy : Policy}

/-! ### Expressions -/

theorem scoped_of_lower {env : Environment} (hd : env.globals.LiteralDefaults)
    {ctx : Typing.Context} {e : Source.Expr} {t : Target.Expr}
    (h : lower env policy ctx e = .ok t) : t.scoped env.frames = true := by
  have heach : t.Each fun n => ∀ x u, n = .var x u → visible env.frames x = some u := by
    -- The property speaks of variables only, so no other node can break it.
    refine each_lower ⟨?_, ?_, ?_, ?_, ?_⟩ hd ?_ h ?_
    · rintro e he x u rfl
      cases he
    · rintro op l r t x u ⟨⟩
    · rintro op e t x u ⟨⟩
    · rintro e t x u ⟨⟩
    · rintro name - es t x u ⟨⟩
    · rintro name s - es - x u ⟨⟩
    · rintro x u - hu y v ⟨⟩
      exact hu
  simp only [Target.Expr.scoped, List.all_eq_true]
  intro n hn
  cases n with
  | var x u => simpa using heach _ hn x u rfl
  | _ => rfl

theorem scopedTest_of_lower {env : Environment} (hd : env.globals.LiteralDefaults)
    {e : Source.Expr} {t : Target.Expr} (h : lower env policy .condition e = .ok t)
    (htest : Typing.conditionType t.type = .ok t.type) : t.scopedTest env.frames = true := by
  simp only [Target.Expr.scopedTest, scoped_of_lower hd h, Bool.true_and, Bool.and_eq_true,
    bne_iff_ne]
  revert htest
  cases t.type <;> simp [Typing.conditionType]

theorem scopedBound_of_lower {env : Environment} (hd : env.globals.LiteralDefaults)
    {e : Option Source.Expr} {t : Target.Expr}
    (h : e.elim (.ok (.ofInt 0)) (lower env policy .value) = .ok t)
    (htype : t.type.isIntegral = true) : t.scopedBound env.frames = true := by
  have hscoped : t.scoped env.frames = true := by
    cases e with
    | none =>
      obtain rfl := Except.ok.inj h
      rfl
    | some e => exact scoped_of_lower hd h
  simp only [Target.Expr.scopedBound, hscoped, Bool.true_and, Bool.or_eq_true, beq_iff_eq]
  revert htype
  cases t.type <;> simp [StaticType.isIntegral]

theorem scopedPrint_of_lowerArguments {env : Environment} (hd : env.globals.LiteralDefaults)
    {es : List Source.Expr} {ts : List Target.Expr} {u : StaticType}
    (h : lowerArguments env policy es = .ok ts)
    (htype : Typing.builtinCallType .print (ts.map (·.type)) = .ok u) :
    ∀ t ∈ ts, t.scopedPrint env.frames = true := by
  intro t ht
  obtain ⟨e, -, he⟩ := exists_of_mem_lowerArguments h ht
  have hscoped := scoped_of_lower hd he
  have hmem : t.type ∈ ts.map (·.type) := List.mem_map_of_mem ht
  simp only [Typing.builtinCallType] at htype
  split at htype
  · cases htype
  · rename_i hvoid
    split at htype
    · cases htype
    · rename_i hfloating
      simp only [Target.Expr.scopedPrint, hscoped, Bool.true_and, Bool.and_eq_true, bne_iff_ne]
      exact ⟨fun h => hvoid (h ▸ hmem), fun h => hfloating (h ▸ hmem)⟩

theorem scoped_of_returnValue {env : Environment} (hd : env.globals.LiteralDefaults)
    {e : Option Source.Expr} {t : Option Target.Expr} (h : returnValue policy env e = .ok t) :
    t.all (·.scoped env.frames) = true := by
  cases t with
  | none => rfl
  | some t =>
    obtain ⟨e', -, he'⟩ := lower_of_returnValue h
    exact scoped_of_lower hd he'

theorem assignable_iff {t u : StaticType} :
    t.assignable u = (t == u || u == .floating && t == .integer) := by
  cases t <;> cases u <;> rfl

/-! ### Statements -/

mutual

/-- **What is in scope when a statement is lowered is in scope where it stands.** -/
theorem Emits.scope {st st' : State} {s : Stmt} {b : Block} :
    Emits policy st s b st' → st.env.globals.LiteralDefaults →
      blockScope st.env.outer st.env.innermost b = some st'.env.innermost
  | .skipped r hsame _ _, _ => by
    rw [Target.Stmt.blockScope_singleton, hsame.innermost]
    rfl
  | .doc _, _ => rfl
  | .print _ hvalues htype, hd => by
    rw [Target.Stmt.blockScope_singleton]
    exact if_pos (List.all_eq_true.2 (scopedPrint_of_lowerArguments hd hvalues htype))
  | .call _ hvalue, hd => by
    rw [Target.Stmt.blockScope_singleton]
    exact if_pos (scoped_of_lower hd hvalue)
  | .declare _ hvalue htype hfresh _, hd => by
    rw [Target.Stmt.blockScope_singleton]
    refine if_pos ?_
    simp only [Bool.and_eq_true, beq_iff_eq, bne_iff_ne]
    exact ⟨⟨⟨scoped_of_lower hd hvalue, hfresh⟩, trivial⟩, htype⟩
  | .store _ hvalue hbound hfits, hd => by
    rw [assignable_iff] at hfits
    rw [Target.Stmt.blockScope_singleton, Target.Stmt.scope]
    refine Option.bind_eq_some_iff.2 ⟨_, hbound, if_pos ?_⟩
    rw [hfits, Bool.and_true]
    exact scoped_of_lower hd hvalue
  | .ifElse hc htest hbody horelse, hd => by
    -- The branches behind the body are lowered in the scope that the body was entered from.
    have hsame := hbody.keeps.pop
    obtain ⟨hbranches, hlast⟩ := horelse.scope (hd.congr hsame.functions)
    rw [hsame.frames] at hbranches hlast
    rw [Target.Stmt.blockScope_singleton, (hsame.trans horelse.sameScope).innermost]
    refine if_pos ?_
    simp only [scopedBranches, Bool.and_eq_true]
    exact ⟨⟨⟨scopedTest_of_lower hd hc htest,
      Option.isSome_iff_exists.2 ⟨_, hbody.scope hd⟩⟩, hbranches⟩, hlast⟩
  | .whileLoop hc htest hbody, hd => by
    rw [Target.Stmt.blockScope_singleton, hbody.keeps.pop.innermost]
    exact if_pos (Bool.and_eq_true_iff.2
      ⟨scopedTest_of_lower hd hc htest, Option.isSome_iff_exists.2 ⟨_, hbody.scope hd⟩⟩)
  | .forLoop hhead hbody, hd => by
    have hkeeps := (st.push.keeps_declare _ _).trans hbody.keeps
    rw [Target.Stmt.blockScope_singleton, hkeeps.pop.innermost]
    refine if_pos ?_
    simp only [Bool.and_eq_true, beq_iff_eq]
    exact ⟨⟨⟨scopedBound_of_lower hd hhead.start hhead.startType,
      scopedBound_of_lower (e := some _) hd hhead.stop hhead.stopType⟩, hhead.fresh⟩,
      Option.isSome_iff_exists.2 ⟨_, hbody.scope hd⟩⟩
  | .ret hvalue _, hd => by
    rw [Target.Stmt.blockScope_singleton]
    exact if_pos (scoped_of_returnValue hd hvalue)
  | .brk, _ | .cont, _ | .pass, _ | .imports _ _, _ => rfl

theorem EmitsBlock.scope {st st' : State} {ss : List Stmt} {b : Block} :
    EmitsBlock policy st ss b st' → st.env.globals.LiteralDefaults →
      blockScope st.env.outer st.env.innermost b = some st'.env.innermost
  | .nil, _ => rfl
  | .cons hfirst hrest, hd => by
    have hkeeps := hfirst.keeps
    have hscope := hrest.scope (hd.congr hkeeps.functions)
    rw [hkeeps.outer] at hscope
    rw [Target.Stmt.blockScope_append, hfirst.scope hd, Option.bind_some, hscope]

theorem EmitsElse.scope {st st' : State} {ss : List Stmt} {branches : List (Target.Expr × Block)}
    {last : Option Block} :
    EmitsElse policy st ss branches last st' → st.env.globals.LiteralDefaults →
      scopedBranches st.env.frames branches = true ∧ scopedElse st.env.frames last = true
  | .none, _ => ⟨rfl, rfl⟩
  | .elseIf hc htest hbody horelse, hd => by
    have hsame := hbody.keeps.pop
    obtain ⟨hbranches, hlast⟩ := horelse.scope (hd.congr hsame.functions)
    rw [hsame.frames] at hbranches hlast
    refine ⟨?_, hlast⟩
    simp only [scopedBranches, Bool.and_eq_true]
    exact ⟨⟨scopedTest_of_lower hd hc htest, Option.isSome_iff_exists.2 ⟨_, hbody.scope hd⟩⟩,
      hbranches⟩
  | .block hbody, hd => ⟨rfl, Option.isSome_iff_exists.2 ⟨_, hbody.scope hd⟩⟩

end

/-! ### Programs -/

theorem innermost_bind (env : Environment) (x : String) (t : StaticType) :
    (env.bind x t).2.innermost =
      if (env.innermost.lookup x).isSome then env.innermost else (x, t) :: env.innermost := by
  unfold Environment.bind
  cases env.innermost.lookup x <;> rfl

/-- A function starts in the scope of its parameters. -/
theorem functionEnv_eq (globals : Globals) (s : Signature) :
    functionEnv globals s = ⟨Target.paramFrame (functionParams policy s), [], globals⟩ := by
  -- Both keep the first of two parameters with one name.
  have hfold : ∀ (params : List SignatureParam) (env : Environment),
      params.foldl (fun env p => (env.bind p.name p.type.static).2) env =
        ⟨params.foldl (fun f p => if (f.lookup p.name).isSome then f
          else (p.name, p.type.static) :: f) env.innermost, env.outer, env.globals⟩ := by
    intro params
    induction params with
    | nil => exact fun env => rfl
    | cons p params ih =>
      intro env
      rw [List.foldl_cons, ih, innermost_bind, List.foldl_cons, Environment.outer_bind,
        Environment.globals_bind]
  rw [functionEnv, hfold, Target.paramFrame, functionParams, List.foldl_map]
  rfl

theorem wellScoped_emitFunction {globals : Globals} (hd : globals.LiteralDefaults)
    (records : List SkipRecord) (s : Signature) (body : List Stmt) :
    (emitFunction policy globals records s body).1.wellScoped = true := by
  obtain ⟨stop, hbody, -⟩ := emits_emitFunction policy globals records s body
  have henv : (functionStart globals records s).env =
      ⟨Target.paramFrame (functionParams policy s), [], globals⟩ := functionEnv_eq globals s
  have hscope := hbody.scope (by rw [henv]; exact hd)
  rw [henv] at hscope
  exact Option.isSome_iff_exists.2 ⟨_, hscope⟩

theorem EmitsItems.scope {globals : Globals} (hd : globals.LiteralDefaults) {st st' : State}
    {ss : List Stmt} {items : List Target.Item} (h : EmitsItems policy globals st ss items st')
    (houter : st.env.outer = []) (hst : st.env.globals.functions = globals.functions)
    (is : List Target.Include) :
    (∀ f ∈ Target.Program.functions ⟨is, items⟩, f.wellScoped = true) ∧
      (blockScope [] st.env.innermost (Target.Program.mainBody ⟨is, items⟩)).isSome = true := by
  induction h with
  | nil => simp [blockScope]
  | function hdecl hrest ih =>
    obtain ⟨hfunctions, hmain⟩ := ih houter hst
    simp only [Target.Program.functions_function, List.forall_mem_cons,
      Target.Program.mainBody_function]
    exact ⟨⟨wellScoped_emitFunction hd _ _ _, hfunctions⟩, hmain⟩
  | stmt hdecl hfirst hrest ih =>
    have hkeeps := hfirst.keeps
    have hscope := hfirst.scope (hd.congr hst)
    rw [houter] at hscope
    rw [Target.Program.functions_stmts, Target.Program.mainBody_stmts,
      Target.Stmt.blockScope_append, hscope]
    exact ih (hkeeps.outer.trans houter) (hkeeps.functions.trans hst)

/-- **Every emitted program is well scoped and well typed**, function by function and in `main`. -/
theorem wellScoped_emit (policy : Policy) (m : Source.Module) :
    (emit policy m).program.wellScoped = true := by
  obtain ⟨stop, hitems, -⟩ := emitsItems_emit policy m
  obtain ⟨hfunctions, hmain⟩ := hitems.scope (literalDefaults_programGlobals m.body) rfl rfl
    (emit policy m).program.includes
  exact Bool.and_eq_true_iff.2 ⟨List.all_eq_true.2 hfunctions, hmain⟩

end Lowering

end StaticScript
