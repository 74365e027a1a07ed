import StaticScript.Lowering.Program
import StaticScript.Proofs.Lowering.Emission
import StaticScript.Proofs.Typing.Alike

/-!
# Runs that come out the same

Two runs of lowering are compared: the second starts in a state that is alike, and on statements of
the same shape whose sites were changed (`Comparison`).  It makes the same of them, up to the texts
of what is left out, and leaves out the same (`lowerBlock_congr`).  So nothing depends on sites, on
what was left out before, on the scopes that the names at hand are bound in, or on the return types
of functions that are not called, and a function becomes the same whether its body is lowered to
find its return type or to be emitted (`emitFunction_records`).
-/

namespace StaticScript

/-! ### Texts of what is left out -/

namespace Target.Stmt

variable (f : String → String)

mutual

/-- Changes the texts of what is left out. -/
def mapSource : Stmt → Stmt
  | .comment (.skipped reason source) => .comment (.skipped reason (f source))
  | .ifElse branches orelse => .ifElse (mapSourceBranches branches) (mapSourceElse orelse)
  | .whileLoop condition body => .whileLoop condition (mapSourceBlock body)
  | .forLoop counter start stop step body => .forLoop counter start stop step (mapSourceBlock body)
  | s => s

/-- Changes the texts of what is left out of a block. -/
def mapSourceBlock : List Stmt → List Stmt
  | [] => []
  | s :: ss => s.mapSource :: mapSourceBlock ss

/-- Changes the texts of what is left out of the branches of a conditional. -/
def mapSourceBranches : List (Expr × List Stmt) → List (Expr × List Stmt)
  | [] => []
  | (condition, body) :: branches => (condition, mapSourceBlock body) :: mapSourceBranches branches

/-- Changes the texts of what is left out of the `else` of a conditional. -/
def mapSourceElse : Option (List Stmt) → Option (List Stmt)
  | none => none
  | some body => some (mapSourceBlock body)

end

theorem mapSourceBlock_eq (b : List Stmt) : mapSourceBlock f b = b.map (mapSource f) := by
  induction b with
  | nil => rfl
  | cons s b ih => rw [mapSourceBlock, List.map_cons, ih]

mutual

theorem mapSource_id : (s : Stmt) → s.mapSource id = s
  | .comment c => by cases c <;> simp [mapSource]
  | .ifElse branches orelse => by
    simp [mapSource, mapSourceBranches_id branches, mapSourceElse_id orelse]
  | .whileLoop _ body | .forLoop _ _ _ _ body => by simp [mapSource, mapSourceBlock_id body]
  | .decl .. | .assign .. | .expr _ | .print _ | .ret _ | .brk | .cont => by simp [mapSource]

theorem mapSourceBlock_id : (b : List Stmt) → mapSourceBlock id b = b
  | [] => rfl
  | s :: b => by simp [mapSourceBlock, mapSource_id s, mapSourceBlock_id b]

theorem mapSourceBranches_id : (bs : List (Expr × List Stmt)) → mapSourceBranches id bs = bs
  | [] => rfl
  | (c, b) :: bs => by simp [mapSourceBranches, mapSourceBlock_id b, mapSourceBranches_id bs]

theorem mapSourceElse_id : (b : Option (List Stmt)) → mapSourceElse id b = b
  | none => rfl
  | some b => by simp [mapSourceElse, mapSourceBlock_id b]

end

end Target.Stmt

/-- Changes the texts of what is left out of a function. -/
def Target.Function.mapSource (f : String → String) (function : Function) : Function :=
  { function with body := Stmt.mapSourceBlock f function.body }

@[simp] theorem Target.Function.mapSource_id (function : Function) :
    function.mapSource id = function := by
  rw [mapSource, Stmt.mapSourceBlock_id]

/-- Changes the site of what is left out. -/
def SkipRecord.mapSite (g : Source.Site → Source.Site) (r : SkipRecord) : SkipRecord :=
  let site := g ⟨r.id, r.span, r.source⟩
  { r with id := site.id, span := site.span, source := site.text }

namespace Lowering

open Source (Site Stmt)
open Typing (Context)

/-! ### Expressions -/

section

variable {C : Set String} {env env' : Environment} {policy : Policy} (g : Site → Site)

theorem callExpr_congr (h : env.Alike C env') {e : Source.Expr}
    (he : ∀ x, e.asName = some x → x ∈ C) (arguments : List (Checked Target.Expr))
    (keywords : List (String × Checked Target.Expr)) :
    callExpr env' policy (e.mapSite g) arguments keywords =
      callExpr env policy e arguments keywords := by
  unfold callExpr
  rw [Typing.callee_congr g h]
  cases hcallee : Typing.callee env e with
  | error c => rfl
  | ok target =>
    cases target with
    | user name =>
      have hname := he name (Typing.asName_of_callee hcallee)
      simp only [bind, Except.bind, Environment.function?]
      rcases h.globals.functions name with ⟨hs, hs'⟩ | ⟨s, s', hs, hs', halike⟩
      · rw [hs, hs']
      · have hreturns := halike.returns (by rwa [Globals.name_of_function? hs])
        simp only [hs, hs', Checked.ofOption, userCall, halike.name, halike.params, hreturns]
    | _ => rfl

theorem comparisonExpr_mapSite (ops : List Source.CompareOp) (comparators : List Source.Expr)
    (operands : List (Checked Target.Expr)) :
    comparisonExpr ops (comparators.map (Source.Expr.mapSite g)) operands =
      comparisonExpr ops comparators operands := by
  simp only [comparisonExpr, List.length_map, ← List.map_dropLast, List.any_map,
    Function.comp_def, Source.Expr.containsCall_mapSite]

/-- **Expressions of one shape become one expression** in environments that are alike. -/
theorem lower_congr (h : env.Alike C env') {e : Source.Expr} (hC : ∀ f ∈ e.callees, f ∈ C)
    (ctx : Context) : lower env' policy ctx (e.mapSite g) = lower env policy ctx e := by
  induction e using Source.Expr.induction generalizing ctx with
  | step e ih =>
    have ih : ∀ c ∈ e.children, ∀ ctx,
        lower env' policy ctx (c.mapSite g) = lower env policy ctx c :=
      fun c hc ctx => ih c hc (fun f hf => hC f (Source.Expr.callees_of_mem_children hc hf)) ctx
    have ihs : ∀ ctx, ∀ es : List Source.Expr, (∀ c ∈ es, c ∈ e.children) →
        lowerList env' policy ctx (es.map (Source.Expr.mapSite g)) =
          lowerList env policy ctx es := by
      intro ctx es hes
      rw [lowerList_eq_map, lowerList_eq_map, List.map_map]
      exact List.map_congr_left fun c hc => ih c (hes c hc) ctx
    cases e with
    | name => simp [lower, h.lookup]
    | binary site op left right =>
      simp only [Source.Expr.mapSite_binary, lower, Source.Expr.containsCall_mapSite,
        ih left (by simp [Source.Expr.children]), ih right (by simp [Source.Expr.children])]
    | boolOp site op es =>
      simp only [Source.Expr.mapSite_boolOp, lower, ihs ctx es fun _ hc => hc]
    | unary site op operand =>
      simp only [Source.Expr.mapSite_unary, lower, ih operand (by simp [Source.Expr.children])]
    | compare site left ops comparators =>
      simp only [Source.Expr.mapSite_compare, lower, comparisonExpr_mapSite,
        ih left (by simp [Source.Expr.children]),
        ihs .value comparators fun _ hc => by simp [Source.Expr.children, hc]]
    | call site function arguments keywords =>
      have hkeywords :
          lowerKeywords env' policy (keywords.map (Prod.map id (Source.Expr.mapSite g))) =
            lowerKeywords env policy keywords := by
        rw [lowerKeywords_eq_map, lowerKeywords_eq_map, List.map_map]
        refine List.map_congr_left fun k hk => ?_
        have hchild : k.2 ∈ (Source.Expr.call site function arguments keywords).children := by
          simp only [Source.Expr.children, List.mem_append, List.mem_map]
          exact .inr ⟨k, hk, rfl⟩
        exact Prod.ext rfl (ih k.2 hchild .value)
      simp only [Source.Expr.mapSite_call, lower, hkeywords,
        ihs .value arguments fun _ hc => by simp [Source.Expr.children, hc]]
      exact callExpr_congr g h (fun x hx => hC x (Source.Expr.mem_callees_call hx)) _ _
    | _ => simp [lower]

theorem lowerArguments_congr (h : env.Alike C env') {es : List Source.Expr}
    (hC : ∀ e ∈ es, ∀ f ∈ e.callees, f ∈ C) :
    lowerArguments env' policy (es.map (Source.Expr.mapSite g)) =
      lowerArguments env policy es := by
  rw [lowerArguments, lowerArguments, lowerList_eq_map, lowerList_eq_map, List.map_map]
  exact congrArg _ (List.map_congr_left fun e he => lower_congr g h (hC e he) .value)

theorem exprStmt_congr (h : env.Alike C env') {e : Source.Expr} (hC : ∀ f ∈ e.callees, f ∈ C) :
    exprStmt policy env' (e.mapSite g) = exprStmt policy env e := by
  have hlower : lower env' policy .value (e.mapSite g) = lower env policy .value e :=
    lower_congr g h hC .value
  cases e with
  | call site function arguments keywords =>
    have harguments : lowerArguments env' policy (arguments.map (Source.Expr.mapSite g)) =
        lowerArguments env policy arguments :=
      lowerArguments_congr g h fun e he f hf =>
        hC f (Source.Expr.callees_of_mem_children (by simp [Source.Expr.children, he]) hf)
    rw [Source.Expr.mapSite_call] at hlower ⊢
    simp only [exprStmt, Typing.callee_congr g h, harguments, hlower]
  | _ =>
    simp only [exprStmt, hlower]
    rfl

theorem returnValue_congr (h : env.Alike C env') {e : Option Source.Expr}
    (hC : ∀ v, e = some v → ∀ f ∈ v.callees, f ∈ C) :
    returnValue policy env' (e.map (Source.Expr.mapSite g)) = returnValue policy env e := by
  cases e with
  | none => rfl
  | some e =>
    have hlower : lower env' policy .value (e.mapSite g) = lower env policy .value e :=
      lower_congr g h (hC e rfl) .value
    cases e with
    | none => rfl
    | _ => simp [returnValue, ← hlower]

theorem loopHead_congr (h : env.Alike C env') {target iter : Source.Expr}
    (hC : ∀ f ∈ iter.callees, f ∈ C) :
    loopHead policy env' (target.mapSite g) (iter.mapSite g) =
      loopHead policy env target iter := by
  simp only [loopHead, Source.Expr.asName_mapSite, Typing.range?_congr g h, h.lookup]
  cases target.asName with
  | none => rfl
  | some name =>
    cases hrange : Typing.range? env iter with
    | none => rfl
    | some r =>
      obtain ⟨hstop, hstart⟩ := Typing.callees_of_range? hrange
      have hstop : lower env' policy .value (r.mapSite g).stop = lower env policy .value r.stop :=
        lower_congr g h (fun f hf => hC f (hstop hf)) .value
      simp only [Option.map_some, Checked.ofOption, bind, Except.bind, hstop]
      cases hs : r.start with
      | none => simp only [Typing.Range.mapSite, hs, Option.map_none]
      | some e =>
        have hstart : lower env' policy .value (e.mapSite g) = lower env policy .value e :=
          lower_congr g h (fun f hf => hC f (hstart e hs hf)) .value
        simp only [Typing.Range.mapSite, hs, Option.map_some, hstart]

end

/-! ### States -/

/-- What the second of two runs has in common with the first. -/
structure Comparison where
  /-- The functions that have the same return types. -/
  called : Set String
  /-- How the sites are changed. -/
  site : Site → Site
  /-- How the texts are changed, which depends on nothing else of the sites. -/
  text : String → String
  text_site : ∀ s, (site s).text = text s.text
  /-- What the first run had left out before. -/
  before : List SkipRecord
  /-- What the second run had left out before. -/
  before' : List SkipRecord

variable (K : Comparison)

/-- In both states the same is known, and the same was left out since the start. -/
structure Comparison.Alike (st st' : State) : Prop where
  env : st.env.Alike K.called st'.env
  returns : st'.returns = st.returns
  records : ∃ new, st.records = K.before ++ new ∧
    st'.records = K.before' ++ new.map (SkipRecord.mapSite K.site)

namespace Comparison.Alike

variable {K} {st st' : State}

theorem push (h : K.Alike st st') : K.Alike st.push st'.push := ⟨h.env.push, h.returns, h.records⟩

/-- The states behind two blocks are alike if those before them and those at their ends are. -/
theorem leave (h : K.Alike st st') {inner inner' : State} (hinner : K.Alike inner inner')
    (hkeeps : st.push.Keeps inner) (hkeeps' : st'.push.Keeps inner') :
    K.Alike inner.pop inner'.pop :=
  ⟨h.env.leave hinner.env hkeeps.outer hkeeps'.outer, hinner.returns, hinner.records⟩

theorem append (h : K.Alike st st') (new : List SkipRecord) :
    K.Alike { st with records := st.records ++ new }
      { st' with records := st'.records ++ new.map (SkipRecord.mapSite K.site) } := by
  obtain ⟨old, hold, hold'⟩ := h.records
  refine ⟨h.env, h.returns, old ++ new, ?_, ?_⟩
  · simp [hold]
  · simp [hold']

theorem skip (h : K.Alike st st') (s : Stmt) (c : Category) :
    (st'.skip (s.mapSite K.site) c).1 =
        Target.Stmt.mapSourceBlock K.text (st.skip s c).1 ∧
      K.Alike (st.skip s c).2 (st'.skip (s.mapSite K.site) c).2 := by
  constructor
  · simp [State.skip, SkipRecord.comment, SkipRecord.ofSite, Target.Stmt.mapSourceBlock,
      Target.Stmt.mapSource, K.text_site]
  · have hrecord : SkipRecord.ofSite (s.mapSite K.site).site c =
        SkipRecord.mapSite K.site (.ofSite s.site c) := by
      rw [Stmt.site_mapSite]
      rfl
    unfold State.skip
    rw [hrecord]
    exact h.append [.ofSite s.site c]

end Comparison.Alike

/-- The second result is the first one changed, and the states behind them are alike. -/
structure Comparison.Same {α : Type} (change : α → α) (r r' : α × State) : Prop where
  result : r'.1 = change r.1
  state : K.Alike r.2 r'.2

variable {K} {policy : Policy}

/-- Both fail alike, or both succeed alike. -/
theorem Comparison.Same.cases {α : Type} {change : α → α} {r r' : Checked α × State}
    (h : K.Same (Except.map change) r r') :
    (∃ c st st', r = (.error c, st) ∧ r' = (.error c, st') ∧ K.Alike st st') ∨
      ∃ a st st', r = (.ok a, st) ∧ r' = (.ok (change a), st') ∧ K.Alike st st' := by
  obtain ⟨r | a, st⟩ := r
  · obtain ⟨r', st'⟩ := r'
    obtain ⟨rfl, h⟩ := h
    exact .inl ⟨_, st, st', rfl, rfl, h⟩
  · obtain ⟨r', st'⟩ := r'
    obtain ⟨rfl, h⟩ := h
    exact .inr ⟨a, st, st', rfl, rfl, h⟩

variable {st st' : State}

/-- How a block is changed. -/
abbrev Comparison.changeBlock (K : Comparison) : Checked Block → Checked Block :=
  Except.map (Target.Stmt.mapSourceBlock K.text)

/-- How what stands behind an `if` is changed. -/
abbrev Comparison.changeElse (K : Comparison) :
    Checked (List (Target.Expr × Block) × Option Block) →
      Checked (List (Target.Expr × Block) × Option Block) :=
  Except.map (Prod.map (Target.Stmt.mapSourceBranches K.text) (Target.Stmt.mapSourceElse K.text))

theorem same_assign (h : K.Alike st st') (x : String) (t : Target.Expr) :
    K.Same K.changeBlock (assign st x t) (assign st' x t) := by
  unfold assign
  cases hx : st.env.lookup x with
  | none =>
    have hx' : st'.env.lookup x = none := by rw [h.env.lookup, hx]
    simp only [hx', Environment.bind_of_lookup hx, Environment.bind_of_lookup hx']
    exact ⟨rfl, h.env.declare x t.type, h.returns, h.records⟩
  | some previous =>
    have hx' : st'.env.lookup x = some previous := by rw [h.env.lookup, hx]
    simp only [hx']
    split <;> exact ⟨rfl, h⟩

theorem same_returnStmt (h : K.Alike st st') {e : Option Source.Expr}
    (hC : ∀ v, e = some v → ∀ f ∈ v.callees, f ∈ K.called) :
    K.Same K.changeBlock (returnStmt policy st e)
      (returnStmt policy st' (e.map (Source.Expr.mapSite K.site))) := by
  unfold returnStmt
  rw [returnValue_congr K.site h.env hC, h.returns]
  cases returnValue policy st.env e with
  | error c => exact ⟨rfl, h⟩
  | ok value =>
    cases st.returns with
    | none => exact ⟨rfl, h⟩
    | some slot =>
      dsimp only
      split
      · exact ⟨rfl, h⟩
      · exact ⟨rfl, h.env, rfl, h.records⟩

theorem same_settle (h : K.Alike st st') {level : Bool} {s : Stmt}
    (hlevel : level = true → s.isDefinition = false) (hC : ∀ f ∈ s.callees, f ∈ K.called)
    (hs : K.Same K.changeBlock (lowerStmt policy st s)
      (lowerStmt policy st' (s.mapSite K.site))) :
    K.Same (Target.Stmt.mapSourceBlock K.text)
      (settle policy level st s fun _ => lowerStmt policy st s)
      (settle policy level st' (s.mapSite K.site) fun _ =>
        lowerStmt policy st' (s.mapSite K.site)) := by
  have hclassify : Typing.classify st'.env policy level st'.returns (s.mapSite K.site) =
      Typing.classify st.env policy level st.returns s := by
    rw [Typing.classify, Typing.classify, Typing.checkStmt_congr K.site h.env hC hlevel, h.returns]
  unfold settle
  rw [hclassify]
  split
  · rcases hs.cases with ⟨c, st₁, st₁', hr, hr', h₁⟩ | ⟨b, st₁, st₁', hr, hr', h₁⟩
    · rw [hr, hr']
      exact ⟨(h₁.skip s c).1, (h₁.skip s c).2⟩
    · rw [hr, hr']
      exact ⟨rfl, h₁⟩
  · rename_i hdoc
    refine ⟨?_, h⟩
    have hisDoc := (Typing.classify_eq_docOnly_iff _ _).1 hdoc
    cases s with
    | docString | comment => rfl
    | _ => cases hisDoc
  · exact ⟨(h.skip s _).1, (h.skip s _).2⟩

/-! ### Statements -/

/-- The expressions of a statement become the same in both runs. -/
theorem Comparison.Alike.lower_eq (h : K.Alike st st') {s : Stmt}
    (hC : ∀ f ∈ s.callees, f ∈ K.called) {e : Source.Expr} (he : e ∈ s.expressions)
    (ctx : Context) :
    lower st'.env policy ctx (e.mapSite K.site) = lower st.env policy ctx e :=
  lower_congr K.site h.env (fun f hf => hC f (Stmt.callees_of_mem_expressions he hf)) ctx

theorem mapSource_of_exprStmt {env : Environment} {e : Source.Expr} {t : Target.Stmt}
    (h : exprStmt policy env e = .ok t) (f : String → String) : t.mapSource f = t := by
  rcases exprStmt_eq_ok h with ⟨values, rfl⟩ | ⟨v, rfl⟩ <;> rfl

mutual

theorem lowerStmt_congr {st st' : State} (h : K.Alike st st') : (s : Stmt) →
    (∀ f ∈ s.callees, f ∈ K.called) →
    K.Same K.changeBlock (lowerStmt policy st s) (lowerStmt policy st' (s.mapSite K.site))
  | .expr _ e, hC => by
    have hexpr : exprStmt policy st'.env (e.mapSite K.site) = exprStmt policy st.env e :=
      exprStmt_congr K.site h.env fun f hf =>
        hC f (Stmt.callees_of_mem_expressions (by simp [Stmt.expressions]) hf)
    simp only [Stmt.mapSite_expr, lowerStmt, hexpr]
    refine ⟨?_, h⟩
    cases ht : exprStmt policy st.env e with
    | error c => rfl
    | ok t =>
      simp only [Except.map, Target.Stmt.mapSourceBlock, mapSource_of_exprStmt ht]
  | .assign site [target] value, hC => by
    have hvalue : lower st'.env policy .value (value.mapSite K.site) =
        lower st.env policy .value value := h.lower_eq hC (by simp [Stmt.expressions]) .value
    simp only [Stmt.mapSite_assign, List.map_cons, List.map_nil, lowerStmt,
      Source.Expr.asName_mapSite, hvalue]
    repeat' split
    · exact ⟨rfl, h⟩
    · exact ⟨rfl, h⟩
    · exact same_assign h _ _
  | .assign _ [] _, _ | .assign _ (_ :: _ :: _) _, _ => by
    simp only [Stmt.mapSite_assign, List.map_cons, List.map_nil, lowerStmt]
    exact ⟨rfl, h⟩
  | .augAssign site target op value, hC => by
    have hdesugared : lower st'.env policy .value
        (desugared (target.mapSite K.site) op (value.mapSite K.site)) =
          lower st.env policy .value (desugared target op value) := by
      have hparts : ∀ e ∈ [target, value], lower st'.env policy .value (e.mapSite K.site) =
          lower st.env policy .value e := fun e he => h.lower_eq hC he .value
      simp only [desugared, lower, Source.Expr.containsCall_mapSite, hparts target (by simp),
        hparts value (by simp)]
    simp only [Stmt.mapSite_augAssign, lowerStmt, Source.Expr.asName_mapSite, hdesugared]
    repeat' split
    · exact ⟨rfl, h⟩
    · exact ⟨rfl, h⟩
    · exact same_assign h _ _
  | .ifElse site c body orelse, hC => by
    have hc : lower st'.env policy .condition (c.mapSite K.site) =
        lower st.env policy .condition c := h.lower_eq hC (by simp [Stmt.expressions]) .condition
    have hbody := lowerBlock_congr h.push body fun s hs f hf =>
      hC f (Stmt.callees_of_mem_blocks (by simp [Stmt.blocks]) hs hf)
    have hafter := h.leave hbody.state (emits_lowerBlock _ _).keeps (emits_lowerBlock _ _).keeps
    have horelse := lowerElse_congr hafter orelse fun s hs f hf =>
      hC f (Stmt.callees_of_mem_blocks (by simp [Stmt.blocks]) hs hf)
    simp only [Stmt.mapSite_ifElse, lowerStmt, hc]
    split
    · exact ⟨rfl, h⟩
    · rcases horelse.cases with
        ⟨d, st₁, st₁', hr, hr', h₁⟩ | ⟨⟨branches, last⟩, st₁, st₁', hr, hr', h₁⟩
      · simp only [hr, hr']
        exact ⟨rfl, h₁⟩
      · simp only [hr, hr', hbody.result]
        exact ⟨rfl, h₁⟩
  | .whileLoop site c body orelse, hC => by
    have hc : lower st'.env policy .condition (c.mapSite K.site) =
        lower st.env policy .condition c := h.lower_eq hC (by simp [Stmt.expressions]) .condition
    have hbody := lowerBlock_congr h.push body fun s hs f hf =>
      hC f (Stmt.callees_of_mem_blocks (by simp [Stmt.blocks]) hs hf)
    have hafter := h.leave hbody.state (emits_lowerBlock _ _).keeps (emits_lowerBlock _ _).keeps
    simp only [Stmt.mapSite_whileLoop, lowerStmt, hc, hbody.result]
    split
    · exact ⟨rfl, h⟩
    · exact ⟨rfl, hafter⟩
  | .forLoop site target iter body orelse, hC => by
    have hhead : loopHead policy st'.env (target.mapSite K.site) (iter.mapSite K.site) =
        loopHead policy st.env target iter :=
      loopHead_congr K.site h.env fun f hf =>
        hC f (Stmt.callees_of_mem_expressions (by simp [Stmt.expressions]) hf)
    simp only [Stmt.mapSite_forLoop, lowerStmt, hhead]
    split
    · exact ⟨rfl, h⟩
    · rename_i head hok
      -- The counter is bound in neither run, so both declare it.
      obtain ⟨-, -, -, hfresh, -⟩ := loopHead_eq_ok hok
      have hfresh' : st'.env.push.lookup head.counter = none := by
        rw [Environment.lookup_push, h.env.lookup, hfresh]
      rw [← Environment.lookup_push] at hfresh
      simp only [Environment.bind_of_lookup hfresh, Environment.bind_of_lookup hfresh']
      have hstart : K.Alike (st.push.declare head.counter .integer)
          (st'.push.declare head.counter .integer) :=
        ⟨h.env.push.declare _ _, h.returns, h.records⟩
      have hbody := lowerBlock_congr hstart body fun s hs f hf =>
        hC f (Stmt.callees_of_mem_blocks (by simp [Stmt.blocks]) hs hf)
      have hafter := h.leave hbody.state
        ((st.push.keeps_declare _ _).trans (emits_lowerBlock _ _).keeps)
        ((st'.push.keeps_declare _ _).trans (emits_lowerBlock _ _).keeps)
      refine ⟨?_, hafter⟩
      show Except.ok [Target.Stmt.forLoop head.counter head.start head.stop head.step
        (lowerBlock policy (st'.push.declare head.counter .integer) _).1] = _
      rw [hbody.result]
      rfl
  | .ret site value, hC => by
    simp only [Stmt.mapSite_ret, lowerStmt]
    refine same_returnStmt h fun v hv f hf => hC f (Stmt.callees_of_mem_expressions ?_ hf)
    simp [Stmt.expressions, hv]
  | .brk _, _ | .cont _, _ | .pass _, _ => by
    simp only [Stmt.mapSite_brk, Stmt.mapSite_cont, Stmt.mapSite_pass, lowerStmt]
    exact ⟨rfl, h⟩
  | .importNames .., _ => by
    simp only [Stmt.mapSite_importNames, lowerStmt]
    exact ⟨rfl, ⟨h.env.lookup, h.env.globals.importMath⟩, h.returns, h.records⟩
  | .importFrom _ _ names, _ => by
    simp only [Stmt.mapSite_importFrom, lowerStmt]
    exact ⟨rfl, ⟨h.env.lookup, h.env.globals.importFunctions names⟩, h.returns, h.records⟩
  | .functionDef .., _ | .docString .., _ | .comment .., _ | .other .., _ => by
    simp only [Stmt.mapSite_functionDef, Stmt.mapSite_docString, Stmt.mapSite_comment,
      Stmt.mapSite_other, lowerStmt]
    exact ⟨rfl, h⟩

theorem lowerBlock_congr {st st' : State} (h : K.Alike st st') : (ss : List Stmt) →
    (∀ s ∈ ss, ∀ f ∈ s.callees, f ∈ K.called) →
    K.Same (Target.Stmt.mapSourceBlock K.text) (lowerBlock policy st ss)
      (lowerBlock policy st' (ss.map (Stmt.mapSite K.site)))
  | [], _ => ⟨rfl, h⟩
  | s :: ss, hC => by
    rw [List.forall_mem_cons] at hC
    have hfirst : K.Same _ (settle policy false st s _) (settle policy false st' _ _) :=
      same_settle h (by simp) hC.1 (lowerStmt_congr h s hC.1)
    have hrest := lowerBlock_congr hfirst.state ss hC.2
    simp only [List.map_cons, lowerBlock, hfirst.result, hrest.result]
    refine ⟨?_, hrest.state⟩
    simp [Target.Stmt.mapSourceBlock_eq]

theorem lowerElse_congr {st st' : State} (h : K.Alike st st') : (ss : List Stmt) →
    (∀ s ∈ ss, ∀ f ∈ s.callees, f ∈ K.called) →
    K.Same K.changeElse (lowerElse policy st ss)
      (lowerElse policy st' (ss.map (Stmt.mapSite K.site)))
  | [], _ => by
    simp only [List.map_nil, lowerElse]
    exact ⟨rfl, h⟩
  | s :: ss, hC => by
    rw [List.forall_mem_cons] at hC
    have hfirst : K.Same _ (settle policy false st.push s _) (settle policy false st'.push _ _) :=
      same_settle h.push (by simp) hC.1 (lowerStmt_congr h.push s hC.1)
    have hrest := lowerBlock_congr hfirst.state ss hC.2
    have hlast := h.leave hrest.state
      ((emits_emitStmt false st.push s).keeps.trans (emits_lowerBlock _ _).keeps)
      ((emits_emitStmt false st'.push _).keeps.trans (emits_lowerBlock _ _).keeps)
    have happend : ∀ b b' : Block, Target.Stmt.mapSourceBlock K.text (b ++ b') =
        Target.Stmt.mapSourceBlock K.text b ++ Target.Stmt.mapSourceBlock K.text b' := by
      simp [Target.Stmt.mapSourceBlock_eq]
    cases s with
    | ifElse site c body orelse =>
      cases ss with
      | nil =>
        have hCc : ∀ f ∈ c.callees, f ∈ K.called := fun f hf =>
          hC.1 f (Stmt.callees_of_mem_expressions (by simp [Stmt.expressions]) hf)
        have hc : lower st'.env policy .condition (c.mapSite K.site) =
            lower st.env policy .condition c := lower_congr K.site h.env hCc .condition
        have htest : Typing.checkCondition st'.env policy (c.mapSite K.site) =
            Typing.checkCondition st.env policy c := Typing.checkCondition_congr K.site h.env hCc
        have hbody := lowerBlock_congr h.push body fun s hs f hf =>
          hC.1 f (Stmt.callees_of_mem_blocks (by simp [Stmt.blocks]) hs hf)
        have hafter := h.leave hbody.state (emits_lowerBlock _ _).keeps (emits_lowerBlock _ _).keeps
        have horelse := lowerElse_congr hafter orelse fun s hs f hf =>
          hC.1 f (Stmt.callees_of_mem_blocks (by simp [Stmt.blocks]) hs hf)
        -- A lone `if` is an `else if` in both runs if its condition passes the check.
        simp only [List.map_cons, List.map_nil, Stmt.mapSite_ifElse] at hfirst hrest hlast ⊢
        simp only [lowerElse, htest, hc]
        split
        · split
          · exact ⟨rfl, h⟩
          · rcases horelse.cases with
              ⟨d, st₁, st₁', hr, hr', h₁⟩ | ⟨⟨branches, last⟩, st₁, st₁', hr, hr', h₁⟩
            · simp only [hr, hr']
              exact ⟨rfl, h₁⟩
            · simp only [hr, hr', hbody.result]
              exact ⟨rfl, h₁⟩
        · simp only [hfirst.result, hrest.result, ← happend]
          exact ⟨rfl, hlast⟩
      | cons s ss =>
        simp only [List.map_cons, Stmt.mapSite_ifElse] at hfirst hrest hlast ⊢
        simp only [lowerElse, hfirst.result, hrest.result, ← happend]
        exact ⟨rfl, hlast⟩
    | _ =>
      simp only [List.map_cons, Stmt.mapSite_expr, Stmt.mapSite_assign, Stmt.mapSite_augAssign,
        Stmt.mapSite_whileLoop, Stmt.mapSite_forLoop, Stmt.mapSite_functionDef, Stmt.mapSite_ret,
        Stmt.mapSite_brk, Stmt.mapSite_cont, Stmt.mapSite_pass, Stmt.mapSite_importNames,
        Stmt.mapSite_importFrom, Stmt.mapSite_docString, Stmt.mapSite_comment,
        Stmt.mapSite_other] at hfirst hrest hlast ⊢
      simp only [lowerElse, hfirst.result, hrest.result, ← happend]
      exact ⟨rfl, hlast⟩

end

/-! ### Functions -/

section

variable {C : Set String} {globals globals' : Globals} {s s' : Signature}

theorem functionEnv_congr (h : globals.Alike C globals') (hs : s.Alike C s') :
    (functionEnv globals s).Alike C (functionEnv globals' s') := by
  -- Not only the types of the names agree but the scopes themselves, which is what `bind` looks at.
  have hfold : ∀ (ps : List SignatureParam) (env env' : Environment), env'.frames = env.frames →
      env.globals.Alike C env'.globals →
      (ps.foldl (fun env p => (env.bind p.name p.type.static).2) env).Alike C
        (ps.foldl (fun env p => (env.bind p.name p.type.static).2) env') := by
    intro ps
    induction ps with
    | nil => exact fun env env' hframes hglobals =>
        ⟨fun x => Environment.lookup_of_frames hframes, hglobals⟩
    | cons p ps ih =>
      intro env env' hframes hglobals
      refine ih _ _ (Environment.frames_bind hframes _ _) ?_
      rwa [Environment.globals_bind, Environment.globals_bind]
  rw [functionEnv, functionEnv, hs.params]
  exact hfold s.params _ _ rfl h

theorem returnSlot_congr (hs : s.Alike C s') (hannotated : s.annotated = true → s.name ∈ C) :
    returnSlot s' = returnSlot s := by
  unfold returnSlot
  rw [hs.annotated]
  split
  · rename_i h
    rw [hs.returns (hannotated h)]
  · rfl

/-- **Bodies of one shape become one function**, where the functions they call have the same return
types. -/
theorem emitFunction_congr (policy : Policy) (h : globals.Alike K.called globals')
    (hs : s.Alike K.called s') (hannotated : s.annotated = true → s.name ∈ K.called)
    {body : List Stmt} (hC : ∀ d ∈ body, ∀ f ∈ d.callees, f ∈ K.called) :
    let r := emitFunction policy globals K.before s body
    let r' := emitFunction policy globals' K.before' s' (body.map (Stmt.mapSite K.site))
    r'.1 = r.1.mapSource K.text ∧ ∃ new, r.2 = K.before ++ new ∧
      r'.2 = K.before' ++ new.map (SkipRecord.mapSite K.site) := by
  have hstart : K.Alike ⟨functionEnv globals s, some (returnSlot s), K.before⟩
      ⟨functionEnv globals' s', some (returnSlot s'), K.before'⟩ :=
    ⟨functionEnv_congr h hs, congrArg some (returnSlot_congr hs hannotated), [], by simp⟩
  have hbody : K.Same _ (lowerBlock policy _ body) (lowerBlock policy _ _) :=
    lowerBlock_congr hstart body hC
  refine ⟨?_, hbody.state.records⟩
  simp only [emitFunction, Target.Function.mapSource, functionParams, hs.name, hs.params,
    hbody.result, hbody.state.returns]

/-- What a function becomes depends on the globals only through what its body calls, and not on what
was left out before it. -/
theorem emitFunction_of_alike (h : globals.Alike C globals') (hs : s.Alike C s')
    (hannotated : s.annotated = true → s.name ∈ C) {body : List Stmt}
    (hC : ∀ d ∈ body, ∀ f ∈ d.callees, f ∈ C) (records records' : List SkipRecord) :
    (emitFunction policy globals' records' s' body).1 =
      (emitFunction policy globals records s body).1 := by
  let first : Comparison := ⟨C, id, id, fun _ => rfl, records, []⟩
  let second : Comparison := ⟨C, id, id, fun _ => rfl, records', []⟩
  have hs' : s'.annotated = true → s'.name ∈ C := by rwa [hs.annotated, hs.name]
  calc (emitFunction policy globals' records' s' body).1
      = (emitFunction policy globals' [] s' (body.map (Stmt.mapSite id))).1 := by
        rw [← Target.Function.mapSource_id (emitFunction policy globals' records' s' body).1]
        exact (emitFunction_congr (K := second) policy (.refl C globals') (.refl C s')
          hs' hC).1.symm
    _ = (emitFunction policy globals records s body).1 := by
        rw [← Target.Function.mapSource_id (emitFunction policy globals records s body).1]
        exact (emitFunction_congr (K := first) policy h hs hannotated hC).1

/-- What a function becomes does not depend on what was left out before it. -/
theorem emitFunction_records (globals : Globals) (records : List SkipRecord) (s : Signature)
    (body : List Stmt) :
    (emitFunction policy globals records s body).1 = (emitFunction policy globals [] s body).1 :=
  emitFunction_of_alike (.refl Set.univ globals) (.refl Set.univ s) (fun _ => trivial)
    (fun _ _ _ _ => trivial) [] records

end

end Lowering

end StaticScript
