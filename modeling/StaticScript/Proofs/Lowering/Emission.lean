import StaticScript.Lowering.Statement
import StaticScript.Proofs.Lowering.Completeness
import StaticScript.Proofs.Typing.Environment

/-!
# What statements become

`Emits st s b st'` says all that can happen when the statement `s` is reached in the state `st`: it
becomes the statements `b`, and `st'` is known after it.  There is one rule for each way in which a
statement has a counterpart, with what was checked before it was lowered, and one for a statement
that is left out.  `EmitsBlock` and `EmitsElse` say the same of the statements of a block and of
what stands behind an `if`.

The rules cover what lowering does (`emits_settle`, `emits_lowerBlock`), so what holds of every
emitted block is shown by going through them.  No rule touches the scopes around a statement, the
functions of the program or a declared return type, and none forgets a construct that was left out
(`Emits.keeps`).

A statement is left out before anything in it is emitted, so nothing but its record is known after
it.  There is one exception: the condition of an `else if` may turn out to have no counterpart after
the branches before it have been emitted.  That takes an operator without operands, since any other
condition has been checked to have one (`lower_of_check`).
-/

namespace StaticScript.Lowering

open Source (Stmt)
open Typing (Context conditionType checkStmt)

/-! ### States -/

namespace State

/-- Declares a name in the innermost scope. -/
def declare (st : State) (name : String) (type : StaticType) : State :=
  { st with env := st.env.declare name type }

/-- What every statement leaves as it was: the scopes around its own, the functions of the program
and what was imported, a declared return type, and the constructs that were left out before. -/
structure Keeps (st st' : State) : Prop where
  outer : st'.env.outer = st.env.outer
  globals : st.env.globals.Grows st'.env.globals
  declared : st'.returns.map (·.declared) = st.returns.map (·.declared)
  records : st.records <+: st'.records

/-- The names in scope are the same, too. -/
structure SameScope (st st' : State) : Prop extends Keeps st st' where
  innermost : st'.env.innermost = st.env.innermost

variable {st st₁ st₂ st₃ : State}

theorem Keeps.refl (st : State) : st.Keeps st := ⟨rfl, .refl _, rfl, List.prefix_rfl⟩

theorem Keeps.functions (h : st₁.Keeps st₂) :
    st₂.env.globals.functions = st₁.env.globals.functions := h.globals.functions

theorem Keeps.trans (h : st₁.Keeps st₂) (h' : st₂.Keeps st₃) : st₁.Keeps st₃ where
  outer := h'.outer.trans h.outer
  globals := h.globals.trans h'.globals
  declared := h'.declared.trans h.declared
  records := h.records.trans h'.records

theorem SameScope.refl (st : State) : st.SameScope st := ⟨.refl st, rfl⟩

theorem SameScope.trans (h : st₁.SameScope st₂) (h' : st₂.SameScope st₃) : st₁.SameScope st₃ :=
  ⟨h.toKeeps.trans h'.toKeeps, h'.innermost.trans h.innermost⟩

theorem SameScope.frames (h : st₁.SameScope st₂) : st₂.env.frames = st₁.env.frames := by
  simp only [Environment.frames, h.innermost, h.outer]

/-- A block gives back the scope that it was entered from. -/
theorem Keeps.pop (h : st.push.Keeps st₁) : st.SameScope st₁.pop := by
  have hpop := Environment.pop_of_outer h.outer
  refine ⟨⟨?_, ?_, h.declared, h.records⟩, ?_⟩
  · simp [State.pop, hpop]
  · simp only [State.pop, hpop]
    exact h.globals
  · simp [State.pop, hpop]

theorem keeps_declare (st : State) (x : String) (t : StaticType) : st.Keeps (st.declare x t) :=
  ⟨rfl, .refl _, rfl, List.prefix_rfl⟩

end State

/-! ### Rules -/

/-- The name that a statement stores into, and the expression whose value it stores. -/
def binding? : Stmt → Option (String × Source.Expr)
  | .assign _ [target] value => target.asName.map (·, value)
  | .augAssign _ target op value => target.asName.map (·, desugared target op value)
  | _ => none

/-- Only assignments store, plain and augmented ones. -/
theorem exists_of_binding? {s : Stmt} {x : String} {e : Source.Expr}
    (h : binding? s = some (x, e)) :
    (∃ site target, target.asName = some x ∧ s = .assign site [target] e) ∨
      ∃ site target op value, target.asName = some x ∧ s = .augAssign site target op value ∧
        e = desugared target op value := by
  unfold binding? at h
  split at h
  · obtain ⟨_, hx, heq⟩ := Option.map_eq_some_iff.1 h
    obtain ⟨rfl, rfl⟩ := Prod.mk.inj heq
    exact .inl ⟨_, _, hx, rfl⟩
  · obtain ⟨_, hx, heq⟩ := Option.map_eq_some_iff.1 h
    obtain ⟨rfl, rfl⟩ := Prod.mk.inj heq
    exact .inr ⟨_, _, _, _, hx, rfl, rfl⟩
  · cases h

/-- The statement is an import. -/
def isImport : Stmt → Bool
  | .importNames .. | .importFrom .. => true
  | _ => false

section

variable (policy : Policy)

/-- A loop over a `range` counts as its head says. -/
structure Counts (env : Environment) (target iter : Source.Expr) (body : List Stmt)
    (r : Typing.Range) (head : LoopHead) : Prop where
  target : target.asName = some head.counter
  range : Typing.range? env iter = some r
  stopCalls : r.stop.containsCall = false
  unassigned : ∀ s ∈ body, s.assignsTo head.counter = false
  fresh : env.lookup head.counter = none
  start : r.start.elim (.ok (.ofInt 0)) (lower env policy .value) = .ok head.start
  stop : lower env policy .value r.stop = .ok head.stop
  startType : head.start.type.isIntegral = true
  stopType : head.stop.type.isIntegral = true
  step : head.step = r.step
  stepFits : Typing.fitsInt head.step = true

mutual

/-- A statement becomes statements. -/
inductive Emits : State → Stmt → Block → State → Prop
  /-- The statement is left out, and nothing of it remains but its record, if all operators have
  operands. -/
  | skipped {st st' : State} {s : Stmt} (r : SkipRecord) (hsame : st.SameScope st')
      (hrecords : st'.records ≠ [])
      (hatomic : s.hasOperands = true →
        (∃ c, r = .ofSite s.site c) ∧ st' = { st with records := st.records ++ [r] }) :
      Emits st s [r.comment] st'
  | doc {st : State} {s : Stmt} (hs : s.isDoc = true) : Emits st s [.comment (docComment s)] st
  | print {st : State} {site site' : Source.Site} {function : Source.Expr}
      {arguments : List Source.Expr} {values : List Target.Expr} {t : StaticType}
      (hcallee : Typing.callee st.env function = .ok .print)
      (hvalues : lowerArguments st.env policy arguments = .ok values)
      (htype : Typing.builtinCallType .print (values.map (·.type)) = .ok t) :
      Emits st (.expr site (.call site' function arguments [])) [.print values] st
  | call {st : State} {site site' : Source.Site} {function : Source.Expr}
      {arguments : List Source.Expr} {keywords : List (String × Source.Expr)} {t : Target.Expr}
      {name : String} (hcallee : Typing.callee st.env function = .ok (.user name))
      (hvalue : lower st.env policy .value (.call site' function arguments keywords) = .ok t) :
      Emits st (.expr site (.call site' function arguments keywords)) [.expr t] st
  | declare {st : State} {s : Stmt} {x : String} {e : Source.Expr} {t : Target.Expr}
      (hs : binding? s = some (x, e)) (hvalue : lower st.env policy .value e = .ok t)
      (htype : t.type ≠ .void) (hfresh : st.env.lookup x = none)
      (hname : st.env.function? x = none) :
      Emits st s [.decl x t.type t] (st.declare x t.type)
  | store {st : State} {s : Stmt} {x : String} {e : Source.Expr} {t : Target.Expr} {u : StaticType}
      (hs : binding? s = some (x, e)) (hvalue : lower st.env policy .value e = .ok t)
      (hbound : st.env.lookup x = some u) (hfits : t.type.assignable u = true) :
      Emits st s [.assign x t] st
  | ifElse {st st₁ st₂ : State} {site : Source.Site} {c : Source.Expr} {body orelse : List Stmt}
      {t : Target.Expr} {b : Block} {branches : List (Target.Expr × Block)} {last : Option Block}
      (hc : lower st.env policy .condition c = .ok t)
      (htest : conditionType t.type = .ok t.type)
      (hbody : EmitsBlock st.push body b st₁)
      (horelse : EmitsElse st₁.pop orelse branches last st₂) :
      Emits st (.ifElse site c body orelse) [.ifElse ((t, b) :: branches) last] st₂
  | whileLoop {st st₁ : State} {site : Source.Site} {c : Source.Expr} {body : List Stmt}
      {t : Target.Expr} {b : Block}
      (hc : lower st.env policy .condition c = .ok t)
      (htest : conditionType t.type = .ok t.type)
      (hbody : EmitsBlock st.push body b st₁) :
      Emits st (.whileLoop site c body []) [.whileLoop t b] st₁.pop
  | forLoop {st st₁ : State} {site : Source.Site} {target iter : Source.Expr} {body : List Stmt}
      {r : Typing.Range} {head : LoopHead} {b : Block}
      (hhead : Counts policy st.env target iter body r head)
      (hbody : EmitsBlock (st.push.declare head.counter .integer) body b st₁) :
      Emits st (.forLoop site target iter body [])
        [.forLoop head.counter head.start head.stop head.step b] st₁.pop
  | ret {st : State} {site : Source.Site} {e : Option Source.Expr} {t : Option Target.Expr}
      {slot : Typing.ReturnSlot} (hvalue : returnValue policy st.env e = .ok t)
      (hslot : st.returns = some slot) :
      Emits st (.ret site e) [.ret t]
        { st with returns := some (slot.record (t.elim .void (·.type))) }
  | brk {st : State} {site : Source.Site} : Emits st (.brk site) [.brk] st
  | cont {st : State} {site : Source.Site} : Emits st (.cont site) [.cont] st
  | pass {st : State} {site : Source.Site} : Emits st (.pass site) [] st
  | imports {st : State} {s : Stmt} {f : Globals → Globals} (hs : isImport s = true)
      (hf : ∀ g : Globals, g.Grows (f g)) :
      Emits st s [] { st with env := st.env.mapGlobals f }

/-- The statements of a block become statements. -/
inductive EmitsBlock : State → List Stmt → Block → State → Prop
  | nil {st : State} : EmitsBlock st [] [] st
  | cons {st st₁ st₂ : State} {s : Stmt} {ss : List Stmt} {b bs : Block}
      (hfirst : Emits st s b st₁) (hrest : EmitsBlock st₁ ss bs st₂) :
      EmitsBlock st (s :: ss) (b ++ bs) st₂

/-- What stands behind an `if` and its body becomes further branches and an `else`. -/
inductive EmitsElse :
    State → List Stmt → List (Target.Expr × Block) → Option Block → State → Prop
  | none {st : State} : EmitsElse st [] [] none st
  | elseIf {st st₁ st₂ : State} {site : Source.Site} {c : Source.Expr} {body orelse : List Stmt}
      {t : Target.Expr} {b : Block} {branches : List (Target.Expr × Block)} {last : Option Block}
      (hc : lower st.env policy .condition c = .ok t)
      (htest : conditionType t.type = .ok t.type)
      (hbody : EmitsBlock st.push body b st₁)
      (horelse : EmitsElse st₁.pop orelse branches last st₂) :
      EmitsElse st [.ifElse site c body orelse] ((t, b) :: branches) last st₂
  | block {st st₁ : State} {s : Stmt} {ss : List Stmt} {b : Block}
      (hbody : EmitsBlock st.push (s :: ss) b st₁) : EmitsElse st (s :: ss) [] (some b) st₁.pop

end

end

variable {policy : Policy}

/-! ### What every rule keeps -/

mutual

/-- **No statement reaches beyond its scope.** -/
theorem Emits.keeps {st st' : State} {s : Stmt} {b : Block} :
    Emits policy st s b st' → st.Keeps st'
  | .skipped _ hsame _ _ => hsame.toKeeps
  | .declare .. => st.keeps_declare _ _
  | .ifElse _ _ hbody horelse => (hbody.keeps.pop.trans horelse.sameScope).toKeeps
  | .whileLoop _ _ hbody => hbody.keeps.pop.toKeeps
  | .forLoop _ hbody => ((st.push.keeps_declare _ _).trans hbody.keeps).pop.toKeeps
  | .ret _ hslot => by
    refine ⟨rfl, .refl _, ?_, List.prefix_rfl⟩
    simp only [hslot, Option.map_some, Typing.ReturnSlot.record]
    split <;> rfl
  | .imports _ hf => ⟨rfl, hf _, rfl, List.prefix_rfl⟩
  | .doc .. | .print .. | .call .. | .store .. | .brk | .cont | .pass => .refl st

theorem EmitsBlock.keeps {st st' : State} {ss : List Stmt} {b : Block} :
    EmitsBlock policy st ss b st' → st.Keeps st'
  | .nil => .refl st
  | .cons hfirst hrest => hfirst.keeps.trans hrest.keeps

theorem EmitsElse.sameScope {st st' : State} {ss : List Stmt}
    {branches : List (Target.Expr × Block)} {last : Option Block} :
    EmitsElse policy st ss branches last st' → st.SameScope st'
  | .none => .refl st
  | .elseIf _ _ hbody horelse => hbody.keeps.pop.trans horelse.sameScope
  | .block hbody => hbody.keeps.pop

end

/-! ### The rules cover lowering -/

theorem exists_of_mem_lowerArguments {env : Environment} {es : List Source.Expr}
    {ts : List Target.Expr} (h : lowerArguments env policy es = .ok ts) {t : Target.Expr}
    (ht : t ∈ ts) : ∃ e ∈ es, lower env policy .value e = .ok t := by
  rw [lowerArguments, Checked.sequence_eq_ok] at h
  exact exists_of_mem_lowerList h ht

theorem lower_of_returnValue {env : Environment} {e : Option Source.Expr} {t : Target.Expr}
    (h : returnValue policy env e = .ok (some t)) :
    ∃ e', e = some e' ∧ lower env policy .value e' = .ok t := by
  unfold returnValue at h
  split at h
  · cases h
  · cases h
  · simp only [Checked.bind_eq_ok, Checked.pure_eq_ok, Option.some.injEq] at h
    obtain ⟨v, hv, rfl⟩ := h
    exact ⟨_, rfl, hv⟩

theorem conditionType_of_lower {env : Environment} {e : Source.Expr} {t : Target.Expr}
    {u : StaticType} (hcheck : Typing.checkCondition env policy e = .ok u)
    (h : lower env policy .condition e = .ok t) : conditionType t.type = .ok t.type := by
  obtain ⟨v, hv, hagree⟩ := check_of_lower h
  simp only [Typing.checkCondition, hv, Checked.bind_eq_ok, Except.ok.injEq,
    exists_eq_left'] at hcheck
  refine hagree.conditionType ?_
  revert hcheck
  cases v <;> simp [conditionType]

/-- A condition that passes its check has a counterpart. -/
theorem lower_of_checkCondition {env : Environment} {e : Source.Expr} {u : StaticType}
    (hops : e.hasOperands = true) (h : Typing.checkCondition env policy e = .ok u) :
    ∃ t, lower env policy .condition e = .ok t := by
  simp only [Typing.checkCondition, Checked.bind_eq_ok] at h
  obtain ⟨v, hv, hu⟩ := h
  rcases lower_of_check hops hv with ⟨t, ht, -⟩ | ⟨-, rfl⟩
  · exact ⟨t, ht⟩
  · exact absurd rfl (ne_void_of_conditionType hu)

theorem emits_assign {st st' : State} {s : Stmt} {x : String} {e : Source.Expr} {t : Target.Expr}
    {b : Block} (hs : binding? s = some (x, e)) (hvalue : lower st.env policy .value e = .ok t)
    (hcheck : Typing.checkBinding st.env x t.type = .ok ()) (h : assign st x t = (.ok b, st')) :
    Emits policy st s b st' := by
  unfold Typing.checkBinding at hcheck
  split at hcheck
  · cases hcheck
  · rename_i hok
    unfold assign at h
    split at h
    · rename_i hfresh
      rw [Environment.bind_of_lookup hfresh] at h
      obtain ⟨⟨rfl⟩, rfl⟩ := Prod.mk.inj h
      have hname : st.env.function? x = none := by
        simpa using fun hfunction => hok (.inr (.inr hfunction))
      exact .declare hs hvalue (fun hvoid => hok (.inl hvoid)) hfresh hname
    · rename_i u hbound
      split at h
      · rename_i hfits
        obtain ⟨⟨rfl⟩, rfl⟩ := Prod.mk.inj h
        exact .store hs hvalue hbound hfits
      · cases h

theorem eq_of_assign_error {st st' : State} {x : String} {t : Target.Expr} {c : Category}
    (h : assign st x t = (.error c, st')) : st' = st := by
  unfold assign at h
  repeat' split at h
  · cases h
  · exact (Prod.mk.inj h).2.symm
  · cases h
  · exact (Prod.mk.inj h).2.symm

/-- A statement that is an expression prints values or has one. -/
theorem exprStmt_eq_ok {env : Environment} {e : Source.Expr} {t : Target.Stmt}
    (h : exprStmt policy env e = .ok t) : (∃ values, t = .print values) ∨ ∃ v, t = .expr v := by
  unfold exprStmt at h
  split at h
  · simp only [Checked.bind_eq_ok] at h
    obtain ⟨callee, -, h⟩ := h
    split at h
    · simp only [Checked.bind_eq_ok, Checked.pure_eq_ok] at h
      obtain ⟨values, -, u, -, rfl⟩ := h
      exact .inl ⟨values, rfl⟩
    · simp only [Checked.bind_eq_ok, Checked.pure_eq_ok] at h
      obtain ⟨v, -, rfl⟩ := h
      exact .inr ⟨v, rfl⟩
  · simp only [Checked.bind_eq_ok, Checked.pure_eq_ok] at h
    obtain ⟨v, -, rfl⟩ := h
    exact .inr ⟨v, rfl⟩

/-- Printing takes no keywords. -/
theorem keywords_of_check_print {env : Environment} {site : Source.Site} {function : Source.Expr}
    {arguments : List Source.Expr} {keywords : List (String × Source.Expr)} {t : StaticType}
    (hcallee : Typing.callee env function = .ok .print)
    (h : Typing.check env policy .value (.call site function arguments keywords) = .ok t) :
    keywords = [] := by
  simp only [Typing.check, Typing.callType, hcallee, Checked.bind_eq_ok, Checked.both_eq_ok] at h
  obtain ⟨⟨callee, types⟩, ⟨hprint, -⟩, h⟩ := h
  obtain rfl : .print = callee := Except.ok.inj hprint
  dsimp only at h
  split at h
  · rename_i hempty
    simpa [Typing.checkKeywords_eq_map] using hempty
  · simp at h

theorem emits_exprStmt {st : State} {site : Source.Site} {e : Source.Expr} {t : Target.Stmt}
    (hcheck : Typing.checkExprStmt st.env policy e = .ok ())
    (h : exprStmt policy st.env e = .ok t) : Emits policy st (.expr site e) [t] st := by
  cases e with
  | call site' function arguments keywords =>
    simp only [exprStmt, Checked.bind_eq_ok] at h
    obtain ⟨callee, hcallee, h⟩ := h
    simp only [Typing.checkExprStmt, hcallee] at hcheck
    cases callee with
    | print =>
      simp only [if_true, Checked.bind_eq_ok, Checked.pure_eq_ok] at h hcheck
      obtain ⟨values, hvalues, u, hu, rfl⟩ := h
      obtain ⟨v, hv, -⟩ := hcheck
      obtain rfl := keywords_of_check_print hcallee hv
      exact .print hcallee hvalues hu
    | user name =>
      simp only [reduceCtorEq, if_false, Checked.bind_eq_ok, Checked.pure_eq_ok] at h
      obtain ⟨v, hv, rfl⟩ := h
      exact .call hcallee hv
    | cast | abs | pow | math => cases hcheck
  | _ => simp [Typing.checkExprStmt] at hcheck

theorem loopHead_eq_ok {env : Environment} {target iter : Source.Expr} {head : LoopHead}
    (h : loopHead policy env target iter = .ok head) :
    ∃ r, target.asName = some head.counter ∧ Typing.range? env iter = some r ∧
      env.lookup head.counter = none ∧
      r.start.elim (.ok (.ofInt 0)) (lower env policy .value) = .ok head.start ∧
      lower env policy .value r.stop = .ok head.stop ∧ head.step = r.step := by
  simp only [loopHead, Checked.bind_eq_ok, Checked.ofOption_eq_ok, Checked.guard_eq_ok] at h
  obtain ⟨x, hx, r, hr, hfresh, h⟩ := h
  have hnone : env.lookup x = none := by simpa using hfresh
  refine ⟨r, ?_⟩
  cases hs : r.start <;>
    simp only [hs, Checked.bind_eq_ok, Checked.pure_eq_ok, exists_eq_left'] at h
  · obtain ⟨stop, hstop, rfl⟩ := h
    exact ⟨hx, hr, hnone, rfl, hstop, rfl⟩
  · obtain ⟨start, hstart, stop, hstop, rfl⟩ := h
    exact ⟨hx, hr, hnone, hstart, hstop, rfl⟩

theorem counts_of_loopHead {env : Environment} {target iter : Source.Expr} {body : List Stmt}
    {head : LoopHead} (hcheck : Typing.checkRangeLoop env policy target iter body = .ok ())
    (h : loopHead policy env target iter = .ok head) :
    ∃ r, Counts policy env target iter body r head := by
  obtain ⟨r, hx, hr, hfresh, hstart, hstop, hstep⟩ := loopHead_eq_ok h
  simp only [Typing.checkRangeLoop, hx, hr, Checked.bind_eq_ok, Checked.ofOption_eq_ok,
    Option.some.injEq, exists_eq_left', Checked.guard_eq_ok, Checked.all_eq_ok] at hcheck
  obtain ⟨hbody, types, htypes, hintegral, hfits, -⟩ := hcheck
  simp only [Bool.or_eq_true, not_or, Bool.not_eq_true, List.any_eq_false] at hbody
  have hlimits : ∀ e ∈ r.start.toList ++ [r.stop], ∀ t, lower env policy .value e = .ok t →
      t.type.isIntegral = true := by
    intro e he t ht
    have hmem := List.mem_map_of_mem (f := Typing.check env policy .value) he
    rw [htypes, check_value_of_lower ht] at hmem
    obtain ⟨u, hu, heq⟩ := List.mem_map.1 hmem
    obtain rfl := Except.ok.inj heq
    simp only [Bool.not_eq_true, Bool.not_eq_false', List.all_eq_true] at hintegral
    exact hintegral _ hu
  refine ⟨r, hx, hr, hbody.1, hbody.2, hfresh, hstart, hstop, ?_, hlimits _ (by simp) _ hstop,
    hstep, by simpa [hstep] using hfits⟩
  cases hs : r.start with
  | none =>
    rw [hs] at hstart
    rw [← Except.ok.inj hstart]
    rfl
  | some e =>
    rw [hs] at hstart
    exact hlimits e (by simp [hs]) _ hstart

/-- What holds of a statement that has been lowered, or could not be. -/
structure LowerSpec (policy : Policy) (st : State) (s : Stmt) : Prop where
  ok : ∀ b st', lowerStmt policy st s = (.ok b, st') →
    ∀ level, checkStmt st.env policy level st.returns s = .ok () → Emits policy st s b st'
  error : ∀ c st', lowerStmt policy st s = (.error c, st') →
    st.SameScope st' ∧ (s.hasOperands = true → st' = st)

theorem emits_settle {st : State} {s : Stmt} (hs : LowerSpec policy st s) (level : Bool) :
    Emits policy st s (settle policy level st s fun _ => lowerStmt policy st s).1
      (settle policy level st s fun _ => lowerStmt policy st s).2 := by
  -- Either the check or the lowering leaves the statement out, the latter in a state of its own.
  have hskip : ∀ st₁ c, st.SameScope st₁ → (s.hasOperands = true → st₁ = st) →
      Emits policy st s (st₁.skip s c).1 (st₁.skip s c).2 := by
    intro st₁ c hsame hatomic
    refine .skipped (.ofSite s.site c) ⟨⟨hsame.outer, hsame.globals, hsame.declared, ?_⟩,
      hsame.innermost⟩ (by simp [State.skip]) fun hops => ⟨⟨c, rfl⟩, ?_⟩
    · exact hsame.records.trans (List.prefix_append _ _)
    · rw [← hatomic hops]
      rfl
  unfold settle
  split
  · rename_i hdirect
    rw [Typing.classify_eq_direct_iff] at hdirect
    split
    · rename_i b st' h
      exact hs.ok b st' h level hdirect
    · rename_i c st' h
      exact hskip st' c (hs.error c st' h).1 (hs.error c st' h).2
  · rename_i hdoc
    rw [Typing.classify_eq_docOnly_iff] at hdoc
    exact .doc hdoc
  · exact hskip st _ (.refl st) fun _ => rfl

/-- What holds of what stands behind an `if`, lowered or not. -/
structure ElseSpec (policy : Policy) (st : State) (ss : List Stmt) : Prop where
  ok : ∀ branches last st', lowerElse policy st ss = (.ok (branches, last), st') →
    EmitsElse policy st ss branches last st'
  error : ∀ c st', lowerElse policy st ss = (.error c, st') →
    st.SameScope st' ∧ ¬ ∀ s ∈ ss, s.hasOperands = true

theorem LowerSpec.of_failed {st st' : State} {s : Stmt} {c : Category}
    (h : lowerStmt policy st s = (.error c, st')) (hsame : st.SameScope st')
    (hatomic : s.hasOperands = true → st' = st) : LowerSpec policy st s where
  ok b st₁ h₁ := by rw [h] at h₁; cases h₁
  error c₁ st₁ h₁ := by
    rw [h] at h₁
    obtain ⟨-, rfl⟩ := Prod.mk.inj h₁
    exact ⟨hsame, hatomic⟩

theorem LowerSpec.of_error {st : State} {s : Stmt} {c : Category}
    (h : lowerStmt policy st s = (.error c, st)) : LowerSpec policy st s :=
  .of_failed h (.refl st) fun _ => rfl

theorem ElseSpec.of_error {st st' : State} {ss : List Stmt} {c : Category}
    (h : lowerElse policy st ss = (.error c, st')) (hsame : st.SameScope st')
    (hops : ¬ ∀ s ∈ ss, s.hasOperands = true) : ElseSpec policy st ss where
  ok branches last st₁ h₁ := by rw [h] at h₁; cases h₁
  error c₁ st₁ h₁ := by
    rw [h] at h₁
    obtain ⟨-, rfl⟩ := Prod.mk.inj h₁
    exact ⟨hsame, hops⟩

theorem ElseSpec.of_ok {st st' : State} {ss : List Stmt} {branches : List (Target.Expr × Block)}
    {last : Option Block} (h : lowerElse policy st ss = (.ok (branches, last), st'))
    (hss : EmitsElse policy st ss branches last st') : ElseSpec policy st ss where
  ok branches₁ last₁ st₁ h₁ := by
    rw [h] at h₁
    simp only [Prod.mk.injEq, Except.ok.injEq] at h₁
    obtain ⟨⟨rfl, rfl⟩, rfl⟩ := h₁
    exact hss
  error c st₁ h₁ := by rw [h] at h₁; cases h₁

theorem LowerSpec.of_ok {st st' : State} {s : Stmt} {b : Block}
    (h : lowerStmt policy st s = (.ok b, st'))
    (hs : ∀ level, checkStmt st.env policy level st.returns s = .ok () → Emits policy st s b st') :
    LowerSpec policy st s where
  ok b₁ st₁ h₁ := by
    rw [h] at h₁
    obtain ⟨⟨rfl⟩, rfl⟩ := Prod.mk.inj h₁
    exact hs
  error c st₁ h₁ := by rw [h] at h₁; cases h₁

/-- A statement that stores the value of an expression into a name. -/
theorem LowerSpec.of_binding {st : State} {s : Stmt} {x : String} {e : Source.Expr}
    (hs : binding? s = some (x, e))
    (herror : ∀ c, lower st.env policy .value e = .error c → lowerStmt policy st s = (.error c, st))
    (hlower : ∀ t, lower st.env policy .value e = .ok t → lowerStmt policy st s = assign st x t)
    (hcheck : ∀ t level, lower st.env policy .value e = .ok t →
      checkStmt st.env policy level st.returns s = .ok () →
      Typing.checkBinding st.env x t.type = .ok ()) :
    LowerSpec policy st s := by
  cases hvalue : lower st.env policy .value e with
  | error c => exact .of_error (herror c hvalue)
  | ok t =>
    refine ⟨fun b st' h level hok => ?_, fun c st' h => ?_⟩
    · rw [hlower t hvalue] at h
      exact emits_assign hs hvalue (hcheck t level hvalue hok) h
    · rw [hlower t hvalue] at h
      obtain rfl := eq_of_assign_error h
      exact ⟨.refl _, fun _ => rfl⟩

theorem lowerSpec_assign (st : State) (site : Source.Site) (target value : Source.Expr) :
    LowerSpec policy st (.assign site [target] value) := by
  cases hx : target.asName with
  | none => exact .of_error (c := .unsupported) (by simp only [lowerStmt, hx])
  | some x =>
    refine .of_binding (x := x) (e := value) (by simp [binding?, hx])
      (fun c hc => by simp only [lowerStmt, hx, hc]) (fun t ht => by simp only [lowerStmt, hx, ht])
      fun t level ht hok => ?_
    simp only [checkStmt, hx, check_value_of_lower ht, Checked.bind_eq_ok, Checked.both_eq_ok,
      Checked.ofOption_eq_ok] at hok
    obtain ⟨⟨y, u⟩, ⟨hy, hu⟩, hok⟩ := hok
    obtain rfl := Option.some.inj hy
    obtain rfl := Except.ok.inj hu
    exact hok

theorem lowerSpec_augAssign (st : State) (site : Source.Site) (target value : Source.Expr)
    (op : Source.BinaryOp) : LowerSpec policy st (.augAssign site target op value) := by
  cases hx : target.asName with
  | none => exact .of_error (c := .unsupported) (by simp only [lowerStmt, hx])
  | some x =>
    refine .of_binding (x := x) (e := desugared target op value) (by simp [binding?, hx])
      (fun c hc => by simp only [lowerStmt, hx, hc]) (fun t ht => by simp only [lowerStmt, hx, ht])
      fun t level ht hok => ?_
    obtain ⟨site', rfl⟩ := Source.Expr.eq_name_of_asName hx
    -- The operands are checked one by one, and the expression that is lowered as a whole.
    have hdesugared := check_value_of_lower ht
    simp only [desugared, Typing.check, Checked.bind_eq_ok, Checked.both_eq_ok,
      Checked.ofOption_eq_ok, Checked.guard_eq_ok, Checked.pure_eq_ok] at hdesugared
    obtain ⟨⟨u, v⟩, ⟨hu, hv⟩, w, hw, -, rfl⟩ := hdesugared
    simp only [checkStmt, Source.Expr.asName, hv, Checked.bind_eq_ok, Checked.both_eq_ok,
      Checked.ofOption_eq_ok, Option.some.injEq, Except.ok.injEq] at hok
    obtain ⟨⟨y, v'⟩, ⟨rfl, rfl⟩, u', hu', w', hw', hok⟩ := hok
    obtain rfl := Option.some.inj (hu.symm.trans hu')
    obtain rfl := Except.ok.inj (hw.symm.trans hw')
    exact hok

theorem lowerSpec_expr (st : State) (site : Source.Site) (e : Source.Expr) :
    LowerSpec policy st (.expr site e) := by
  cases h : exprStmt policy st.env e with
  | error c => exact .of_error (by simp only [lowerStmt, h]; rfl)
  | ok t => exact .of_ok (by simp only [lowerStmt, h]; rfl) fun _ hok => emits_exprStmt hok h

theorem lowerSpec_ret (st : State) (site : Source.Site) (value : Option Source.Expr) :
    LowerSpec policy st (.ret site value) := by
  cases hvalue : returnValue policy st.env value with
  | error c => exact .of_error (by simp only [lowerStmt, returnStmt, hvalue]; rfl)
  | ok t =>
    cases hslot : st.returns with
    | none =>
      exact .of_error (c := .unsupported) (by simp only [lowerStmt, returnStmt, hvalue, hslot])
    | some slot =>
      cases haccept : slot.accept (t.elim .void (·.type)) with
      | none =>
        exact .of_error (c := .typeNarrowing)
          (by simp only [lowerStmt, returnStmt, hvalue, hslot, haccept])
      | some u =>
        exact .of_ok (by simp only [lowerStmt, returnStmt, hvalue, hslot, haccept])
          fun _ _ => .ret hvalue hslot

mutual

theorem lowerSpec (st : State) : (s : Stmt) → LowerSpec policy st s
  | .expr site e => lowerSpec_expr st site e
  | .assign site [target] value => lowerSpec_assign st site target value
  | .assign site [] value => .of_error (by simp only [lowerStmt]; rfl)
  | .assign site (_ :: _ :: _) value => .of_error (by simp only [lowerStmt]; rfl)
  | .augAssign site target op value => lowerSpec_augAssign st site target value op
  | .ifElse site c body orelse => by
    cases hc : lower st.env policy .condition c with
    | error d => exact .of_error (by simp only [lowerStmt, hc]; rfl)
    | ok t =>
      have hbody := emits_lowerBlock st.push body
      have horelse := elseSpec (lowerBlock policy st.push body).2.pop orelse
      rcases h : lowerElse policy (lowerBlock policy st.push body).2.pop orelse with
        ⟨d | ⟨branches, last⟩, st₂⟩
      · -- The body has been emitted by now, so its records stay behind.
        obtain ⟨hsame, hfails⟩ := horelse.error _ _ h
        exact .of_failed (by simp only [lowerStmt, hc, h]; rfl) (hbody.keeps.pop.trans hsame)
          fun hops => absurd (Stmt.hasOperands_ifElse.1 hops).2.2 hfails
      · refine .of_ok (by simp only [lowerStmt, hc, h]; rfl) fun level hok => ?_
        simp only [checkStmt, Checked.bind_eq_ok, Checked.pure_eq_ok] at hok
        obtain ⟨u, hu, -⟩ := hok
        exact .ifElse hc (conditionType_of_lower hu hc) hbody (horelse.ok _ _ _ h)
  | .whileLoop site c body orelse => by
    cases hc : lower st.env policy .condition c with
    | error d => exact .of_error (by simp only [lowerStmt, hc]; rfl)
    | ok t =>
      have hbody := emits_lowerBlock st.push body
      refine .of_ok (by simp only [lowerStmt, hc]; rfl) fun level hok => ?_
      simp only [checkStmt, Checked.guard_eq_ok, Checked.bind_eq_ok, Checked.pure_eq_ok] at hok
      obtain ⟨horelse, u, hu, -⟩ := hok
      obtain rfl : orelse = [] := by simpa using horelse
      exact .whileLoop hc (conditionType_of_lower hu hc) hbody
  | .forLoop site target iter body orelse => by
    cases hhead : loopHead policy st.env target iter with
    | error d => exact .of_error (by simp only [lowerStmt, hhead]; rfl)
    | ok head =>
      obtain ⟨-, -, -, hfresh, -⟩ := loopHead_eq_ok hhead
      rw [← Environment.lookup_push] at hfresh
      have hbody := emits_lowerBlock (st.push.declare head.counter .integer) body
      refine .of_ok (by simp only [lowerStmt, hhead, Environment.bind_of_lookup hfresh]; rfl)
        fun level hok => ?_
      simp only [checkStmt, Checked.guard_eq_ok] at hok
      obtain ⟨horelse, hloop⟩ := hok
      obtain rfl : orelse = [] := by simpa using horelse
      obtain ⟨r, hr⟩ := counts_of_loopHead hloop hhead
      exact .forLoop hr hbody
  | .ret site value => lowerSpec_ret st site value
  | .brk _ => .of_ok (by simp only [lowerStmt]) fun _ _ => .brk
  | .cont _ => .of_ok (by simp only [lowerStmt]) fun _ _ => .cont
  | .pass _ => .of_ok (by simp only [lowerStmt]) fun _ _ => .pass
  | .importNames site names => by
    have h : lowerStmt policy st (.importNames site names) =
        (.ok [], { st with env := st.env.mapGlobals .importMath }) := by simp only [lowerStmt]
    exact .of_ok h fun _ _ => .imports rfl Globals.grows_importMath
  | .importFrom site package names => by
    have h : lowerStmt policy st (.importFrom site package names) = (.ok [],
        { st with env := st.env.mapGlobals fun g => names.foldl Globals.importFunction g }) := by
      simp only [lowerStmt]
    exact .of_ok h fun _ _ => .imports rfl (Globals.grows_importFunctions names)
  | .functionDef .. | .docString .. | .comment .. | .other .. =>
    .of_error (by simp only [lowerStmt]; rfl)

theorem emits_lowerBlock (st : State) : (ss : List Stmt) →
    EmitsBlock policy st ss (lowerBlock policy st ss).1 (lowerBlock policy st ss).2
  | [] => .nil
  | s :: ss => by
    rw [lowerBlock]
    exact .cons (emits_settle (lowerSpec st s) false) (emits_lowerBlock _ ss)

theorem elseSpec (st : State) : (ss : List Stmt) → ElseSpec policy st ss
  | [] => .of_ok (by simp only [lowerElse]) .none
  | s :: ss => by
    have hblock : EmitsBlock policy st.push (s :: ss) _ _ :=
      .cons (emits_settle (lowerSpec st.push s) false) (emits_lowerBlock _ ss)
    cases s with
    | ifElse site c body orelse =>
      cases ss with
      | nil =>
        have hbody := emits_lowerBlock st.push body
        have horelse := elseSpec (lowerBlock policy st.push body).2.pop orelse
        cases hcheck : (Typing.checkCondition st.env policy c).isOk with
        | false => exact .of_ok (by simp only [lowerElse, hcheck]; rfl) (.block hblock)
        | true =>
          obtain ⟨u, hu⟩ := Checked.isOk_iff.1 hcheck
          cases hc : lower st.env policy .condition c with
          | error d =>
            -- With operands throughout, the check would have been enough.
            refine .of_error (by simp only [lowerElse, hcheck, hc]; rfl) (.refl st) fun hops => ?_
            rw [List.forall_mem_singleton, Stmt.hasOperands_ifElse] at hops
            obtain ⟨t, ht⟩ := lower_of_checkCondition hops.1 hu
            rw [hc] at ht
            cases ht
          | ok t =>
            rcases h : lowerElse policy (lowerBlock policy st.push body).2.pop orelse with
              ⟨d | ⟨branches, last⟩, st₂⟩
            · obtain ⟨hsame, hfails⟩ := horelse.error _ _ h
              refine .of_error (by simp only [lowerElse, hcheck, hc, h]; rfl)
                (hbody.keeps.pop.trans hsame) fun hops => hfails ?_
              rw [List.forall_mem_singleton, Stmt.hasOperands_ifElse] at hops
              exact hops.2.2
            · exact .of_ok (by simp only [lowerElse, hcheck, hc, h]; rfl)
                (.elseIf hc (conditionType_of_lower hu hc) hbody (horelse.ok _ _ _ h))
      | cons s ss => exact .of_ok (by simp only [lowerElse]) (.block hblock)
    | _ => exact .of_ok (by simp only [lowerElse]) (.block hblock)

end

theorem emits_emitStmt (level : Bool) (st : State) (s : Stmt) :
    Emits policy st s (emitStmt policy level st s).1 (emitStmt policy level st s).2 :=
  emits_settle (lowerSpec st s) level

end StaticScript.Lowering
