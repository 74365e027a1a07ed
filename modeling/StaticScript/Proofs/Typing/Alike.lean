import StaticScript.Proofs.Source.Shape
import StaticScript.Proofs.Typing.Environment
import StaticScript.Proofs.Typing.Failure

/-!
# Checks that come out the same

What a check comes to depends on little: on the shape of what is checked and not on its sites, and
on the environment only through the types of the names in scope, the imports, the headers of
functions and the return types of those that are called.  Which scope a name is bound in does not
matter.  Environments that agree on this much are `Environment.Alike`, and checks in them come out
the same (`check_congr`, `checkStmt_congr`).
-/

namespace StaticScript

/-- The signatures have one header, and one return type if the function is in `C`. -/
structure Signature.Alike (C : Set String) (s s' : Signature) : Prop where
  name : s'.name = s.name
  params : s'.params = s.params
  annotated : s'.annotated = s.annotated
  returns : s.name ∈ C → s'.returns = s.returns

/-- The same is imported and the same functions are known, which have the same headers, and the same
return types if they are in `C`. -/
structure Globals.Alike (C : Set String) (g g' : Globals) : Prop where
  functions : ∀ name, (g.function? name = none ∧ g'.function? name = none) ∨
    ∃ s s', g.function? name = some s ∧ g'.function? name = some s' ∧ s.Alike C s'
  mathModule : g'.mathModule = g.mathModule
  mathFunctions : g'.mathFunctions = g.mathFunctions

/-- The same names are in scope with the same types, and what the scopes share is alike. -/
structure Environment.Alike (C : Set String) (env env' : Environment) : Prop where
  lookup : ∀ x, env'.lookup x = env.lookup x
  globals : env.globals.Alike C env'.globals

/-- The statement defines a function. -/
def Source.Stmt.isDefinition : Source.Stmt → Bool
  | .functionDef .. => true
  | _ => false

variable {C : Set String}

theorem Signature.Alike.refl (C : Set String) (s : Signature) : s.Alike C s :=
  ⟨rfl, rfl, rfl, fun _ => rfl⟩

theorem Globals.Alike.refl (C : Set String) (g : Globals) : g.Alike C g where
  functions name := by
    cases g.function? name with
    | none => exact .inl ⟨rfl, rfl⟩
    | some s => exact .inr ⟨s, s, rfl, rfl, .refl C s⟩
  mathModule := rfl
  mathFunctions := rfl

theorem Globals.Alike.declare {g g' : Globals} (h : g.Alike C g') {s s' : Signature}
    (hs : s.Alike C s') : (g.declare s).Alike C (g'.declare s') where
  functions name := by
    rw [function?_declare, function?_declare, hs.name]
    split
    · exact .inr ⟨s, s', rfl, rfl, hs⟩
    · exact h.functions name
  mathModule := h.mathModule
  mathFunctions := h.mathFunctions

theorem Globals.Alike.setReturns {g g' : Globals} (h : g.Alike C g') (name : String)
    (type : StaticType) : (g.setReturns name type).Alike C (g'.setReturns name type) where
  functions other := by
    rw [function?_setReturns, function?_setReturns]
    rcases h.functions other with ⟨hs, hs'⟩ | ⟨s, s', hs, hs', halike⟩
    · exact .inl ⟨by rw [hs, Option.map_none], by rw [hs', Option.map_none]⟩
    · refine .inr ⟨_, _, by rw [hs, Option.map_some], by rw [hs', Option.map_some], ?_⟩
      rw [halike.name]
      split
      · exact ⟨rfl, halike.params, halike.annotated, fun _ => rfl⟩
      · exact halike
  mathModule := h.mathModule
  mathFunctions := h.mathFunctions

/-- Storing the return type of a function changes nothing for those that do not call it. -/
theorem Globals.alike_setReturns (g : Globals) (name : String) (type : StaticType) :
    g.Alike {other | other ≠ name} (g.setReturns name type) where
  functions other := by
    rw [function?_setReturns]
    cases g.function? other with
    | none => exact .inl ⟨rfl, rfl⟩
    | some s =>
      refine .inr ⟨s, _, rfl, rfl, ?_⟩
      dsimp only
      split
      · exact ⟨rfl, rfl, rfl, fun hne => absurd ‹s.name = name› hne⟩
      · exact .refl _ s
  mathModule := rfl
  mathFunctions := rfl

theorem Globals.Alike.isSome {g g' : Globals} (h : g.Alike C g') (name : String) :
    (g'.function? name).isSome = (g.function? name).isSome := by
  rcases h.functions name with ⟨hs, hs'⟩ | ⟨s, s', hs, hs', -⟩
  · rw [hs, hs']
  · rw [hs, hs', Option.isSome_some, Option.isSome_some]

theorem Globals.Alike.importMath {g g' : Globals} (h : g.Alike C g') :
    g.importMath.Alike C g'.importMath := ⟨h.functions, rfl, h.mathFunctions⟩

theorem Globals.Alike.importFunctions {g g' : Globals} (h : g.Alike C g') (names : List String) :
    (names.foldl Globals.importFunction g).Alike C (names.foldl Globals.importFunction g') := by
  induction names generalizing g g' with
  | nil => exact h
  | cons name names ih =>
    refine ih ?_
    unfold Globals.importFunction
    rw [h.mathFunctions]
    split
    · exact h
    · exact ⟨h.functions, h.mathModule, rfl⟩

/-- A scope in which no name is bound makes no difference. -/
theorem Environment.alike_push (C : Set String) (env : Environment) : env.Alike C env.push :=
  ⟨fun _ => lookup_push, .refl C _⟩

namespace Environment.Alike

variable {env env' : Environment} (h : env.Alike C env')
include h

theorem push : env.push.Alike C env'.push := ⟨h.lookup, h.globals⟩

theorem declare (x : String) (t : StaticType) :
    (env.declare x t).Alike C (env'.declare x t) := by
  refine ⟨fun y => ?_, h.globals⟩
  rw [lookup_declare, lookup_declare, h.lookup]

/-- Environments are alike again when the scopes that were entered from them are left. -/
theorem leave {inner inner' : Environment} (hinner : inner.Alike C inner')
    (houter : inner.outer = env.frames) (houter' : inner'.outer = env'.frames) :
    inner.pop.Alike C inner'.pop := by
  rw [pop_of_outer houter, pop_of_outer houter']
  exact ⟨h.lookup, hinner.globals⟩

end Environment.Alike

namespace Typing

open Source (Site Expr Stmt)

variable {env env' : Environment} {policy : Policy} (g : Site → Site)

/-! ### Headers -/

@[simp] theorem literal?_mapSite (e : Expr) : literal? (e.mapSite g) = literal? e := by
  cases e with
  | unary site op e => cases op <;> cases e <;> simp [literal?]
  | _ => simp [literal?]

@[simp] theorem signatureParams_mapSite (p : GenericPolicy) (n : Nat) (ps : List Source.Parameter) :
    signatureParams p n (ps.map (Source.Parameter.mapSite g)) = signatureParams p n ps := by
  have hdefault : ∀ e : Option Expr,
      defaultValue (e.map (Expr.mapSite g)) = defaultValue e := by
    intro e
    cases e <;> simp [defaultValue]
  induction ps generalizing n with
  | nil => rfl
  | cons q ps ih =>
    simp only [List.map_cons, signatureParams, Source.Parameter.mapSite, hdefault, ih]

/-- The signature depends on the site of the definition only in its number. -/
theorem signature_mapSite (d : Stmt) : signature policy (d.mapSite g) =
    (signature policy d).map fun s => { s with id := (g d.site).id } := by
  cases d with
  | functionDef site x ps returns ds body =>
    simp only [Stmt.mapSite_functionDef, signature, signatureParams_mapSite, List.isEmpty_map]
    split
    · rfl
    · cases signatureParams policy.generics 0 ps with
      | error c => rfl
      | ok params =>
        cases returnType returns with
        | error c => rfl
        | ok t => rfl
  | _ => simp [signature, Except.map]

/-! ### Calls -/

theorem callee_congr (h : env.Alike C env') (e : Expr) :
    callee env' (e.mapSite g) = callee env e := by
  have hbuiltin : ∀ name, builtinCallee? env'.globals name = builtinCallee? env.globals name := by
    intro name
    simp only [builtinCallee?, h.globals.mathFunctions]
  cases e with
  | name site x =>
    have hsome : (env'.function? x).isSome = (env.function? x).isSome := h.globals.isSome x
    simp only [Source.Expr.mapSite_name, callee, hsome, h.lookup, hbuiltin]
  | attr site object x =>
    simp only [Source.Expr.mapSite_attr, callee, Source.Expr.asName_mapSite, h.lookup,
      h.globals.mathModule]
  | _ => simp [callee]

theorem asName_of_callee {e : Expr} {name : String} (h : callee env e = .ok (.user name)) :
    e.asName = some name := by
  cases e with
  | name site x =>
    simp only [callee] at h
    split at h
    · obtain rfl := Callee.user.inj (Except.ok.inj h)
      rfl
    · split at h
      · cases h
      · simp only [Checked.ofOption_eq_ok, builtinCallee?] at h
        split at h <;> simp at h
  | attr site object x =>
    simp only [callee] at h
    split at h <;> simp at h
  | _ => simp [callee] at h

theorem callType_congr (h : env.Alike C env') {e : Expr} (he : ∀ x, e.asName = some x → x ∈ C)
    (arguments : List (Checked StaticType)) (keywords : List (String × Checked StaticType)) :
    callType env' policy (e.mapSite g) arguments keywords =
      callType env policy e arguments keywords := by
  unfold callType
  rw [callee_congr g h]
  cases hcallee : callee env e with
  | error c => cases Checked.all (arguments ++ keywords.map Prod.snd) <;> rfl
  | ok target =>
    cases Checked.all (arguments ++ keywords.map Prod.snd) with
    | error c => rfl
    | ok types =>
      cases target with
      | user name =>
        have hname := he name (asName_of_callee hcallee)
        simp only [Checked.both, bind, Except.bind, Environment.function?]
        rcases h.globals.functions name with ⟨hs, hs'⟩ | ⟨s, s', hs, hs', halike⟩
        · rw [hs, hs']
        · have hreturns := halike.returns (by rwa [Globals.name_of_function? hs])
          simp only [hs, hs', Checked.ofOption, userCallType, halike.params, hreturns]
      | _ => rfl

/-! ### Expressions -/

theorem comparisonsType_mapSite (ops : List Source.CompareOp) (comparators : List Expr)
    (operands : List (Checked StaticType)) :
    comparisonsType ops (comparators.map (Expr.mapSite g)) operands =
      comparisonsType ops comparators operands := by
  simp only [comparisonsType, List.length_map, ← List.map_dropLast, List.any_map,
    Function.comp_def, Source.Expr.containsCall_mapSite]

/-- **Expressions of one shape have one type** in environments that are alike. -/
theorem check_congr (h : env.Alike C env') {e : Expr} (hC : ∀ f ∈ e.callees, f ∈ C)
    (ctx : Context) : check env' policy ctx (e.mapSite g) = check env policy ctx e := by
  induction e using Source.Expr.induction generalizing ctx with
  | step e ih =>
    -- What a part calls, the whole expression calls.
    have ih : ∀ c ∈ e.children, ∀ ctx,
        check env' policy ctx (c.mapSite g) = check env policy ctx c :=
      fun c hc ctx => ih c hc (fun f hf => hC f (Source.Expr.callees_of_mem_children hc hf)) ctx
    have ihs : ∀ ctx, ∀ es : List Expr, (∀ c ∈ es, c ∈ e.children) →
        checkList env' policy ctx (es.map (Expr.mapSite g)) = checkList env policy ctx es := by
      intro ctx es hes
      rw [checkList_eq_map, checkList_eq_map, List.map_map]
      exact List.map_congr_left fun c hc => ih c (hes c hc) ctx
    cases e with
    | int | float | bool | str | none | other => simp [check]
    | name => simp [check, h.lookup]
    | named => simp [check]
    | attr => simp [check]
    | binary site op left right =>
      simp only [Source.Expr.mapSite_binary, check, Source.Expr.containsCall_mapSite,
        ih left (by simp [Source.Expr.children]), ih right (by simp [Source.Expr.children])]
    | boolOp site op es =>
      simp only [Source.Expr.mapSite_boolOp, check, ihs ctx es fun _ hc => hc]
    | unary site op operand =>
      simp only [Source.Expr.mapSite_unary, check, ih operand (by simp [Source.Expr.children])]
    | compare site left ops comparators =>
      simp only [Source.Expr.mapSite_compare, check, comparisonsType_mapSite,
        ih left (by simp [Source.Expr.children]),
        ihs .value comparators fun _ hc => by simp [Source.Expr.children, hc]]
    | call site function arguments keywords =>
      have hkeywords : checkKeywords env' policy (keywords.map (Prod.map id (Expr.mapSite g))) =
          checkKeywords env policy keywords := by
        rw [checkKeywords_eq_map, checkKeywords_eq_map, List.map_map]
        refine List.map_congr_left fun k hk => ?_
        have hchild : k.2 ∈ (Source.Expr.call site function arguments keywords).children := by
          simp only [Source.Expr.children, List.mem_append, List.mem_map]
          exact .inr ⟨k, hk, rfl⟩
        exact Prod.ext rfl (ih k.2 hchild .value)
      simp only [Source.Expr.mapSite_call, check, hkeywords,
        ihs .value arguments fun _ hc => by simp [Source.Expr.children, hc]]
      exact callType_congr g h (fun x hx => hC x (Source.Expr.mem_callees_call hx)) _ _
    | list site es | tuple site es | set site es =>
      simp only [Source.Expr.mapSite_list, Source.Expr.mapSite_tuple, Source.Expr.mapSite_set,
        check, ihs .value es fun _ hc => hc]
    | dict site keys values =>
      simp only [Source.Expr.mapSite_dict, check,
        ihs .value keys fun _ hc => by simp [Source.Expr.children, hc],
        ihs .value values fun _ hc => by simp [Source.Expr.children, hc]]

theorem checkCondition_congr (h : env.Alike C env') {e : Expr} (hC : ∀ f ∈ e.callees, f ∈ C) :
    checkCondition env' policy (e.mapSite g) = checkCondition env policy e := by
  simp only [checkCondition, check_congr g h hC]

/-! ### Statements -/

/-- Replaces every site in the bounds of a `range`. -/
def Range.mapSite (r : Range) : Range :=
  ⟨r.start.map (Expr.mapSite g), r.stop.mapSite g, r.step⟩

theorem rangeOfArguments?_mapSite (es : List Expr) :
    rangeOfArguments? (es.map (Expr.mapSite g)) = (rangeOfArguments? es).map (Range.mapSite g) := by
  have hstep : ∀ e : Expr, stepLiteral? (e.mapSite g) = stepLiteral? e := by
    intro e
    cases e with
    | unary site op e => cases op <;> cases e <;> simp [stepLiteral?]
    | _ => simp [stepLiteral?]
  obtain - | ⟨start, - | ⟨stop, - | ⟨step, - | ⟨more, es⟩⟩⟩⟩ := es
  case cons.cons.cons.nil =>
    simp only [List.map_cons, List.map_nil, rangeOfArguments?, hstep]
    cases stepLiteral? step with
    | none => rfl
    | some n =>
      simp only [Option.bind_eq_bind, Option.bind_some]
      split <;> simp [Range.mapSite]
  all_goals simp [rangeOfArguments?, Range.mapSite]

theorem range?_congr (h : env.Alike C env') (e : Expr) :
    range? env' (e.mapSite g) = (range? env e).map (Range.mapSite g) := by
  cases e with
  | call site function arguments keywords =>
    have hsome := h.globals.isSome "range"
    have hnone : (env'.function? "range").isNone = (env.function? "range").isNone := by
      rw [← Option.not_isSome, ← Option.not_isSome]
      exact congrArg not hsome
    simp only [Source.Expr.mapSite_call, range?, Source.Expr.asName_mapSite, List.isEmpty_map,
      h.lookup, hnone, rangeOfArguments?_mapSite]
    split <;> rfl
  | _ => simp [range?]

theorem mem_of_rangeOfArguments? {es : List Expr} {r : Range}
    (h : rangeOfArguments? es = some r) : r.stop ∈ es ∧ ∀ e, r.start = some e → e ∈ es := by
  unfold rangeOfArguments? at h
  split at h
  · obtain rfl := Option.some.inj h
    simp
  · obtain rfl := Option.some.inj h
    simp
  · simp only [Option.bind_eq_bind, Option.bind_eq_some_iff, Option.ite_none_left_eq_some,
      Option.some.injEq] at h
    obtain ⟨_, -, -, rfl⟩ := h
    simp
  · cases h

/-- The bounds of a `range` are among its arguments. -/
theorem mem_children_of_range? {iter : Expr} {r : Range} (h : range? env iter = some r) :
    ∀ e ∈ r.start.toList ++ [r.stop], e ∈ iter.children := by
  unfold range? at h
  split at h
  · split at h
    · obtain ⟨hstop, hstart⟩ := mem_of_rangeOfArguments? h
      intro e he
      have hargument := he
      simp only [List.mem_append, Option.mem_toList, List.mem_singleton] at hargument
      have hmem := hargument.elim (hstart e) fun heq => heq ▸ hstop
      simp [Source.Expr.children, hmem]
    · cases h
  · cases h

/-- What the bounds of a `range` call, the loop calls. -/
theorem callees_of_range? {e : Expr} {r : Range} (h : range? env e = some r) :
    r.stop.callees ⊆ e.callees ∧ ∀ s, r.start = some s → s.callees ⊆ e.callees := by
  have hmem := mem_children_of_range? h
  exact ⟨Source.Expr.callees_of_mem_children (hmem r.stop (by simp)),
    fun s hs => Source.Expr.callees_of_mem_children (hmem s (by simp [hs]))⟩

theorem checkBinding_congr (h : env.Alike C env') (x : String) (t : StaticType) :
    checkBinding env' x t = checkBinding env x t := by
  have hsome : (env'.function? x).isSome = (env.function? x).isSome := h.globals.isSome x
  simp only [checkBinding, hsome, h.lookup]

theorem checkExprStmt_congr (h : env.Alike C env') {e : Expr} (hC : ∀ f ∈ e.callees, f ∈ C) :
    checkExprStmt env' policy (e.mapSite g) = checkExprStmt env policy e := by
  have hcheck : check env' policy .value (e.mapSite g) = check env policy .value e :=
    check_congr g h hC .value
  unfold checkExprStmt
  -- Only a call can pass, and anything else is refused for what it contains.
  rw [Source.Expr.containsNamed_mapSite]
  cases e with
  | call site function arguments keywords =>
    rw [Source.Expr.mapSite_call] at hcheck ⊢
    simp only [callee_congr g h, hcheck]
  | _ => rfl

theorem checkRangeLoop_congr (h : env.Alike C env') {target iter : Expr} {body : List Stmt}
    (hC : ∀ f ∈ iter.callees, f ∈ C) :
    checkRangeLoop env' policy (target.mapSite g) (iter.mapSite g) (body.map (Stmt.mapSite g)) =
      checkRangeLoop env policy target iter body := by
  simp only [checkRangeLoop, Source.Expr.asName_mapSite, range?_congr g h, h.lookup]
  cases target.asName with
  | none => rfl
  | some name =>
    cases hrange : range? env iter with
    | none => rfl
    | some r =>
      obtain ⟨hstop, hstart⟩ := callees_of_range? hrange
      have hlimits :
          ((r.mapSite g).start.toList ++ [(r.mapSite g).stop]).map (check env' policy .value) =
            (r.start.toList ++ [r.stop]).map (check env policy .value) := by
        rw [List.map_append, List.map_append]
        congr 1
        · cases hs : r.start with
          | none => simp [Range.mapSite, hs]
          | some e =>
            simp [Range.mapSite, hs, check_congr g h (fun f hf => hC f (hstart e hs hf)) .value]
        · simp [Range.mapSite, check_congr g h (fun f hf => hC f (hstop hf)) .value]
      have hstores : (body.map (Stmt.mapSite g)).any (·.assignsTo name) =
          body.any (·.assignsTo name) := by
        simp [List.any_map, Function.comp_def]
      have hcalls : (r.mapSite g).stop.containsCall = r.stop.containsCall :=
        Source.Expr.containsCall_mapSite g r.stop
      simp only [Option.map_some, Checked.ofOption, bind, Except.bind, hlimits, hstores, hcalls]
      rfl

/-- **Statements of one shape have one category** in environments that are alike, apart from
definitions at the level of the module, where the number counts. -/
theorem checkStmt_congr (h : env.Alike C env') {s : Stmt} (hC : ∀ f ∈ s.callees, f ∈ C)
    {moduleLevel : Bool} (hlevel : moduleLevel = true → s.isDefinition = false)
    (slot : Option ReturnSlot) :
    checkStmt env' policy moduleLevel slot (s.mapSite g) =
      checkStmt env policy moduleLevel slot s := by
  have hcheck : ∀ e ∈ s.expressions,
      check env' policy .value (e.mapSite g) = check env policy .value e :=
    fun e he => check_congr g h (fun f hf => hC f (Stmt.callees_of_mem_expressions he hf)) .value
  have hcondition : ∀ e ∈ s.expressions,
      checkCondition env' policy (e.mapSite g) = checkCondition env policy e :=
    fun e he => checkCondition_congr g h fun f hf => hC f (Stmt.callees_of_mem_expressions he hf)
  cases s with
  | expr site e =>
    exact checkExprStmt_congr g h fun f hf =>
      hC f (Stmt.callees_of_mem_expressions (by simp [Stmt.expressions]) hf)
  | assign site targets value =>
    obtain - | ⟨target, - | ⟨second, targets⟩⟩ := targets
    · simp [checkStmt]
    · simp only [Stmt.mapSite_assign, List.map_cons, List.map_nil, checkStmt,
        Source.Expr.asName_mapSite, hcheck value (by simp [Stmt.expressions]), checkBinding_congr h]
    · simp [checkStmt]
  | augAssign site target op value =>
    simp only [Stmt.mapSite_augAssign, checkStmt, Source.Expr.asName_mapSite,
      hcheck value (by simp [Stmt.expressions]), h.lookup, checkBinding_congr h]
  | ifElse site c body orelse =>
    simp only [Stmt.mapSite_ifElse, checkStmt, hcondition c (by simp [Stmt.expressions])]
  | whileLoop site c body orelse =>
    simp only [Stmt.mapSite_whileLoop, checkStmt, hcondition c (by simp [Stmt.expressions]),
      List.isEmpty_map]
  | forLoop site target iter body orelse =>
    have hiter : checkRangeLoop env' policy (target.mapSite g) (iter.mapSite g)
        (body.map (Stmt.mapSite g)) = checkRangeLoop env policy target iter body :=
      checkRangeLoop_congr g h fun f hf =>
        hC f (Stmt.callees_of_mem_expressions (by simp [Stmt.expressions]) hf)
    simp only [Stmt.mapSite_forLoop, checkStmt, List.isEmpty_map, hiter]
  | functionDef site x ps returns ds body =>
    cases moduleLevel with
    | false => rfl
    | true => cases hlevel rfl
  | ret site value =>
    cases value with
    | none => rfl
    | some e =>
      simp only [Stmt.mapSite_ret, Option.map_some, checkStmt,
        hcheck e (by simp [Stmt.expressions])]
  | _ => rfl

end Typing

end StaticScript
