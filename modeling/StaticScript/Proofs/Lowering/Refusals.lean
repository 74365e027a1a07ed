import StaticScript.Proofs.Lowering.Agreement
import StaticScript.Proofs.Lowering.Emission
import StaticScript.Proofs.Typing.Alike

/-!
# Statements that are refused late

A statement is checked before anything of it is lowered, and lowering finds the types, the names and
the bounds once more.  The two agree but for three kinds of statements, which pass their check and
are refused all the same (`RefusedLate`): the definition of a function, which is emitted elsewhere;
`x %= e` with a call in `e`, whose check does not look at the expression that the statement is short
for; and the `return` of a call of `print`, which is checked like the `return` of no value.

Every other statement that passes its check has a counterpart (`exists_lowerStmt`): what its check
says of its parts is what lowering asks of them, and the conditions of the `elif`s behind an `if`
are checked before they are lowered (`ElseSpec.error`).  No counterpart is a comment
(`comment_notMem_of_lowerStmt`), so the statement is not left out.

**Main theorem** (`lowerStmt_refuses_iff`): of the statements that pass their check exactly these
three kinds are refused.  The operators in them must have operands.
-/

namespace StaticScript

namespace Source.Stmt

theorem hasOperands_of_mem_expressions {s : Stmt} {e : Expr} (hs : s.hasOperands = true)
    (he : e ∈ s.expressions) : e.hasOperands = true := by
  rw [hasOperands, List.all_eq_true] at hs
  exact List.all_eq_true.1 (hs s s.mem_nested_self) e he

end Source.Stmt

namespace Lowering

open Source (Stmt)
open Typing (check checkStmt)

/-- The statement is refused when it is lowered, although it may pass its check. -/
def RefusedLate (env : Environment) : Stmt → Prop
  | .functionDef .. => True
  | .augAssign _ _ .mod value => value.containsCall = true
  | .ret _ (some (.call _ function _ _)) => Typing.callee env function = .ok .print
  | _ => False

variable {policy : Policy} {level : Bool} {st st' : State} {s : Stmt} {b : Block}

/-! ### The three refusals -/

/-- A remainder is not lowered if its divisor contains a call. -/
theorem lower_ne_ok_of_mod {env : Environment} {site : Source.Site} {left right : Source.Expr}
    (hcalls : right.containsCall = true) (ctx : Typing.Context) (t : Target.Expr) :
    lower env policy ctx (.binary site .mod left right) ≠ .ok t := by
  intro h
  cases becomes_of_lower h with
  | binary _ _ ht =>
    have hnone := (binaryExpr_eq_ok ht).2 rfl
    rw [hcalls] at hnone
    cases hnone

theorem lowerStmt_of_refusedLate (h : RefusedLate st.env s) :
    ∃ c, lowerStmt policy st s = (.error c, st) := by
  unfold RefusedLate at h
  split at h
  · exact ⟨.unsupported, by simp only [lowerStmt]⟩
  · rename_i site target value
    cases hx : target.asName with
    | none => exact ⟨.unsupported, by simp only [lowerStmt, hx]⟩
    | some x =>
      cases hvalue : lower st.env policy .value (desugared target .mod value) with
      | error c => exact ⟨c, by simp only [lowerStmt, hx, hvalue]⟩
      | ok t => exact absurd hvalue (lower_ne_ok_of_mod h .value t)
  · rename_i site site' function arguments keywords
    cases hvalue : lower st.env policy .value (.call site' function arguments keywords) with
    | error c =>
      refine ⟨c, ?_⟩
      simp only [lowerStmt, returnStmt, returnValue, hvalue]
      rfl
    | ok t =>
      have hnone : Typing.Valueless st.env (.call site' function arguments keywords) := h
      exact absurd hvalue (lower_ne_ok_of_valueless hnone .value t)
  · exact h.elim

/-! ### What passes its check is lowered -/

/-- An expression that is checked to have a value has a counterpart of that type. -/
theorem exists_lower_value {env : Environment} {e : Source.Expr} {u : StaticType}
    (hops : e.hasOperands = true) (h : check env policy .value e = .ok u) (hvoid : u ≠ .void) :
    ∃ t, lower env policy .value e = .ok t ∧ t.type = u := by
  rcases lower_of_check hops h with ⟨t, ht, hagree⟩ | ⟨-, rfl⟩
  · exact ⟨t, ht, (agrees_value.1 hagree).symm⟩
  · exact absurd rfl hvoid

theorem exists_assign {x : String} {t : Target.Expr}
    (h : Typing.checkBinding st.env x t.type = .ok ()) :
    ∃ b st', assign st x t = (.ok b, st') := by
  unfold Typing.checkBinding at h
  split at h
  · cases h
  · split at h
    · rename_i hfresh
      exact ⟨_, _, by simp only [assign, hfresh, Environment.bind_of_lookup hfresh]; rfl⟩
    · rename_i u hbound
      split at h
      · rename_i hfits
        exact ⟨_, _, by simp only [assign, hbound, hfits, if_true]; rfl⟩
      · cases h

theorem ne_void_of_checkBinding {env : Environment} {x : String} {u : StaticType}
    (h : Typing.checkBinding env x u = .ok ()) : u ≠ .void := by
  rintro rfl
  simp [Typing.checkBinding] at h

theorem exists_lowerStmt_assign {site : Source.Site} {targets : List Source.Expr}
    {value : Source.Expr} (hops : (Stmt.assign site targets value).hasOperands = true)
    (h : checkStmt st.env policy level st.returns (.assign site targets value) = .ok ()) :
    ∃ b st', lowerStmt policy st (.assign site targets value) = (.ok b, st') := by
  rcases targets with _ | ⟨target, _ | ⟨second, rest⟩⟩
  · simp [checkStmt] at h
  · simp only [checkStmt, Checked.bind_eq_ok, Checked.both_eq_ok, Checked.ofOption_eq_ok] at h
    obtain ⟨⟨x, u⟩, ⟨hx, hu⟩, hbinding⟩ := h
    have hvalue : value.hasOperands = true :=
      Stmt.hasOperands_of_mem_expressions hops (by simp [Stmt.expressions])
    obtain ⟨t, ht, rfl⟩ := exists_lower_value hvalue hu (ne_void_of_checkBinding hbinding)
    obtain ⟨b, st', hassign⟩ := exists_assign hbinding
    exact ⟨b, st', by simp only [lowerStmt, hx, ht, hassign]⟩
  · simp [checkStmt] at h

/-- The value of `x op= e` is that of `x op e`. -/
theorem exists_lower_desugared {env : Environment} {target value : Source.Expr}
    {op : Source.BinaryOp} {x : String} {current u v : StaticType} (hx : target.asName = some x)
    (hcurrent : env.lookup x = some current) (hops : value.hasOperands = true)
    (hu : check env policy .value value = .ok u) (hv : Typing.binaryType op current u = .ok v)
    (hcalls : op = .mod → value.containsCall = false) :
    ∃ t, lower env policy .value (desugared target op value) = .ok t ∧ t.type = v := by
  obtain ⟨site, rfl⟩ := Source.Expr.eq_name_of_asName hx
  obtain ⟨t, ht, rfl⟩ := exists_lower_value hops hu (ne_void_of_binaryType hv).2
  have hleft : Typing.binaryType op (Target.Expr.var x current).type t.type = .ok v := hv
  obtain ⟨e, he⟩ := exists_binaryExpr value.containsCall hleft hcalls
  refine ⟨e, ?_, Except.ok.inj ((binaryExpr_eq_ok he).1.symm.trans hv)⟩
  simp only [desugared, lower, Checked.bind_eq_ok, Checked.ofOption_eq_ok, Checked.pure_eq_ok]
  exact ⟨_, ⟨current, hcurrent, rfl⟩, t, ht, he⟩

theorem exists_lowerStmt_augAssign {site : Source.Site} {target value : Source.Expr}
    {op : Source.BinaryOp} (hops : (Stmt.augAssign site target op value).hasOperands = true)
    (h : checkStmt st.env policy level st.returns (.augAssign site target op value) = .ok ())
    (hcalls : op = .mod → value.containsCall = false) :
    ∃ b st', lowerStmt policy st (.augAssign site target op value) = (.ok b, st') := by
  simp only [checkStmt, Checked.bind_eq_ok, Checked.both_eq_ok, Checked.ofOption_eq_ok] at h
  obtain ⟨⟨x, u⟩, ⟨hx, hu⟩, current, hcurrent, v, hv, hbinding⟩ := h
  have hvalue : value.hasOperands = true :=
    Stmt.hasOperands_of_mem_expressions hops (by simp [Stmt.expressions])
  obtain ⟨t, ht, rfl⟩ := exists_lower_desugared hx hcurrent hvalue hu hv hcalls
  obtain ⟨b, st', hassign⟩ := exists_assign hbinding
  exact ⟨b, st', by simp only [lowerStmt, hx, ht, hassign]⟩

/-- A call of `print` that passes its check is a statement, although it is no expression. -/
theorem exists_exprStmt_print {env : Environment} {site : Source.Site} {function : Source.Expr}
    {arguments : List Source.Expr} {keywords : List (String × Source.Expr)} {u : StaticType}
    (hops : (Source.Expr.call site function arguments keywords).hasOperands = true)
    (hcallee : Typing.callee env function = .ok .print)
    (h : check env policy .value (.call site function arguments keywords) = .ok u) :
    ∃ t, exprStmt policy env (.call site function arguments keywords) = .ok t := by
  obtain rfl := keywords_of_check_print hcallee h
  simp only [check, Typing.callType, hcallee, Checked.bind_eq_ok, Checked.both_eq_ok,
    Checked.all_eq_ok, Typing.checkKeywords, List.map_nil, List.append_nil] at h
  obtain ⟨⟨callee, types⟩, ⟨hprint, htypes⟩, h⟩ := h
  obtain rfl : .print = callee := Except.ok.inj hprint
  have hprints : Typing.builtinCallType .print types = .ok u := by simpa using h
  have harguments : ∀ e ∈ arguments, Lowers env policy e := by
    intro e he ctx v hv hvoid
    have hmem : e ∈ (Source.Expr.call site function arguments []).children := by
      simp [Source.Expr.children, he]
    rcases lower_of_check (Source.Expr.hasOperands_of_mem_children hops hmem) hv with
      ⟨t, ht, -⟩ | ⟨-, rfl⟩
    · exact ⟨t, ht⟩
    · exact absurd rfl hvoid
  obtain ⟨ts, hts, hagree⟩ :=
    lowerList_of_checkList harguments (ne_void_of_builtinCallType hprints) htypes
  rw [forall₂_agrees_value] at hagree
  subst hagree
  refine ⟨.print ts, ?_⟩
  simp only [exprStmt, hcallee, Checked.bind_eq_ok, Except.ok.injEq, exists_eq_left', if_true,
    lowerArguments, Checked.sequence_eq_ok, Checked.pure_eq_ok]
  exact ⟨ts, hts, u, hprints, rfl⟩

theorem exists_exprStmt {env : Environment} {e : Source.Expr} (hops : e.hasOperands = true)
    (h : Typing.checkExprStmt env policy e = .ok ()) :
    ∃ t, exprStmt policy env e = .ok t := by
  cases e with
  | call site function arguments keywords =>
    cases hcallee : Typing.callee env function with
    | error c =>
      simp [Typing.checkExprStmt, hcallee, check, Typing.callType] at h
    | ok callee =>
      simp only [Typing.checkExprStmt, hcallee] at h
      cases callee with
      | print =>
        simp only [Checked.bind_eq_ok, Checked.pure_eq_ok] at h
        obtain ⟨u, hu, -⟩ := h
        exact exists_exprStmt_print hops hcallee hu
      | user name =>
        simp only [Checked.bind_eq_ok, Checked.pure_eq_ok] at h
        obtain ⟨u, hu, -⟩ := h
        -- The function may return nothing, so it is the callee that tells the call from `print`.
        rcases lower_of_check hops hu with ⟨t, ht, -⟩ | ⟨hprint, -⟩
        · exact ⟨.expr t, by simp [exprStmt, hcallee, ht]⟩
        · rw [Typing.Valueless, hcallee] at hprint
          cases hprint
      | cast | abs | pow | math => cases h
  | _ => simp [Typing.checkExprStmt] at h

/-- The conditions behind an `if` are checked before they are lowered. -/
theorem exists_lowerElse (policy : Policy) (st : State) {ss : List Stmt}
    (hops : ∀ s ∈ ss, s.hasOperands = true) :
    ∃ branches last st', lowerElse policy st ss = (.ok (branches, last), st') := by
  rcases h : lowerElse policy st ss with ⟨c | ⟨branches, last⟩, st'⟩
  · exact absurd hops ((elseSpec st ss).error c st' h).2
  · exact ⟨branches, last, st', rfl⟩

theorem exists_loopHead {env : Environment} {target iter : Source.Expr} {body : List Stmt}
    (hops : iter.hasOperands = true)
    (h : Typing.checkRangeLoop env policy target iter body = .ok ()) :
    ∃ head, loopHead policy env target iter = .ok head := by
  simp only [Typing.checkRangeLoop, Checked.bind_eq_ok, Checked.ofOption_eq_ok,
    Checked.guard_eq_ok, Checked.all_eq_ok] at h
  obtain ⟨x, hx, r, hr, -, types, htypes, hintegral, -, -, hfresh⟩ := h
  have hfresh : env.lookup x = none := by
    split at hfresh
    · assumption
    · simp at hfresh
    · simp at hfresh
  -- Both bounds are integers, so neither is without a value.
  have hlimits : ∀ e ∈ r.start.toList ++ [r.stop], ∃ t, lower env policy .value e = .ok t := by
    intro e he
    have hmem := List.mem_map_of_mem (f := check env policy .value) he
    rw [htypes] at hmem
    obtain ⟨u, hu, hcheck⟩ := List.mem_map.1 hmem
    have hvoid : u ≠ .void := by
      rintro rfl
      simp only [Bool.not_eq_true, Bool.not_eq_false', List.all_eq_true] at hintegral
      cases hintegral _ hu
    have hmem := Typing.mem_children_of_range? hr e he
    obtain ⟨t, ht, -⟩ :=
      exists_lower_value (Source.Expr.hasOperands_of_mem_children hops hmem) hcheck.symm hvoid
    exact ⟨t, ht⟩
  obtain ⟨stop, hstop⟩ := hlimits r.stop (by simp)
  cases hstart : r.start with
  | none => exact ⟨_, by simp [loopHead, hx, hr, hfresh, hstart, hstop]; rfl⟩
  | some e =>
    obtain ⟨start, hstart'⟩ := hlimits e (by simp [hstart])
    exact ⟨_, by simp [loopHead, hx, hr, hfresh, hstart, hstart', hstop]; rfl⟩

/-- What is returned by a `return` that passes its check has the type that was checked, unless it
prints. -/
theorem exists_returnValue {env : Environment} {site : Source.Site} {e : Source.Expr}
    {u : StaticType} (hops : e.hasOperands = true) (h : check env policy .value e = .ok u)
    (hprint : ¬ RefusedLate env (.ret site (some e))) :
    ∃ v, returnValue policy env (some e) = .ok v ∧ v.elim .void (·.type) = u := by
  rcases lower_of_check hops h with ⟨t, ht, hagree⟩ | ⟨hnone, rfl⟩
  · refine ⟨some t, ?_, (agrees_value.1 hagree).symm⟩
    cases e with
    | none site => simp [lower] at ht
    | _ => simp [returnValue, ht]
  · cases e with
    | none site => exact ⟨none, rfl, rfl⟩
    | call site function arguments keywords => exact absurd hnone hprint
    | _ => exact hnone.elim

theorem exists_lowerStmt_ret {site : Source.Site} {value : Option Source.Expr}
    (hops : (Stmt.ret site value).hasOperands = true)
    (h : checkStmt st.env policy level st.returns (.ret site value) = .ok ())
    (hprint : ¬ RefusedLate st.env (.ret site value)) :
    ∃ b st', lowerStmt policy st (.ret site value) = (.ok b, st') := by
  have hvalue : ∃ slot v, st.returns = some slot ∧ returnValue policy st.env value = .ok v ∧
      ∃ accepted, slot.accept (v.elim .void (·.type)) = some accepted := by
    cases value with
    | none =>
      simp only [checkStmt, Checked.bind_eq_ok, Checked.ofOption_eq_ok, Checked.pure_eq_ok,
        exists_eq_left'] at h
      obtain ⟨slot, hslot, accepted, haccept, -⟩ := h
      exact ⟨slot, none, hslot, rfl, accepted, haccept⟩
    | some e =>
      simp only [checkStmt, Checked.bind_eq_ok, Checked.ofOption_eq_ok] at h
      obtain ⟨slot, hslot, u, hu, accepted, haccept, -⟩ := h
      have hops := Stmt.hasOperands_of_mem_expressions hops (e := e) (by simp [Stmt.expressions])
      obtain ⟨v, hv, rfl⟩ := exists_returnValue hops hu hprint
      exact ⟨slot, v, hslot, hv, accepted, haccept⟩
  obtain ⟨slot, v, hslot, hv, accepted, haccept⟩ := hvalue
  exact ⟨_, _, by simp only [lowerStmt, returnStmt, hv, hslot, haccept]; rfl⟩

/-- **What passes its check has a counterpart**, unless it is refused late. -/
theorem exists_lowerStmt (hops : s.hasOperands = true)
    (h : checkStmt st.env policy level st.returns s = .ok ()) (hlate : ¬ RefusedLate st.env s) :
    ∃ b st', lowerStmt policy st s = (.ok b, st') := by
  cases s with
  | expr site e =>
    have he := Stmt.hasOperands_of_mem_expressions hops (e := e) (by simp [Stmt.expressions])
    obtain ⟨t, ht⟩ := exists_exprStmt he h
    exact ⟨[t], st, by simp only [lowerStmt, ht]; rfl⟩
  | assign site targets value => exact exists_lowerStmt_assign hops h
  | augAssign site target op value =>
    refine exists_lowerStmt_augAssign hops h ?_
    rintro rfl
    exact Bool.eq_false_iff.2 hlate
  | ifElse site c body orelse =>
    obtain ⟨hc, -, horelse⟩ := Stmt.hasOperands_ifElse.1 hops
    simp only [checkStmt, Checked.bind_eq_ok] at h
    obtain ⟨u, hu, -⟩ := h
    obtain ⟨t, ht⟩ := lower_of_checkCondition hc hu
    obtain ⟨branches, last, st', helse⟩ :=
      exists_lowerElse policy (lowerBlock policy st.push body).2.pop horelse
    exact ⟨_, _, by simp only [lowerStmt, ht, helse]; rfl⟩
  | whileLoop site c body orelse =>
    simp only [checkStmt, Checked.guard_eq_ok, Checked.bind_eq_ok] at h
    obtain ⟨-, u, hu, -⟩ := h
    obtain ⟨t, ht⟩ := lower_of_checkCondition (Stmt.hasOperands_whileLoop.1 hops).1 hu
    exact ⟨_, _, by simp only [lowerStmt, ht]; rfl⟩
  | forLoop site target iter body orelse =>
    simp only [checkStmt, Checked.guard_eq_ok] at h
    obtain ⟨head, hhead⟩ := exists_loopHead (Stmt.hasOperands_forLoop.1 hops).1.2 h.2
    obtain ⟨-, -, -, hfresh, -⟩ := loopHead_eq_ok hhead
    rw [← Environment.lookup_push] at hfresh
    exact ⟨_, _, by simp only [lowerStmt, hhead, Environment.bind_of_lookup hfresh]; rfl⟩
  | ret site value => exact exists_lowerStmt_ret hops h hlate
  | brk | cont | pass | importNames | importFrom => exact ⟨_, _, by simp only [lowerStmt]; rfl⟩
  | functionDef => exact absurd trivial hlate
  | docString | comment | other => simp [checkStmt] at h

/-! ### Counterparts are no comments -/

theorem comment_notMem_of_assign {x : String} {t : Target.Expr}
    (h : assign st x t = (.ok b, st')) (comment : Target.Comment) : .comment comment ∉ b := by
  unfold assign at h
  repeat' split at h
  all_goals cases h
  all_goals simp

theorem comment_notMem_of_returnStmt {value : Option Source.Expr}
    (h : returnStmt policy st value = (.ok b, st')) (comment : Target.Comment) :
    .comment comment ∉ b := by
  unfold returnStmt at h
  dsimp only at h
  repeat' split at h
  all_goals cases h
  simp

/-- A statement that is lowered is not annotated in the place where it stands. -/
theorem comment_notMem_of_lowerStmt (h : lowerStmt policy st s = (.ok b, st'))
    (comment : Target.Comment) : .comment comment ∉ b := by
  cases s with
  | expr site e =>
    simp only [lowerStmt, Prod.mk.injEq, Checked.map_eq_ok] at h
    obtain ⟨⟨t, ht, rfl⟩, -⟩ := h
    rcases exprStmt_eq_ok ht with ⟨values, rfl⟩ | ⟨v, rfl⟩ <;> simp
  | assign site targets value =>
    rcases targets with _ | ⟨target, _ | _⟩
    · simp [lowerStmt] at h
    · simp only [lowerStmt] at h
      split at h
      · cases h
      · split at h
        · cases h
        · exact comment_notMem_of_assign h comment
    · simp [lowerStmt] at h
  | augAssign site target op value =>
    simp only [lowerStmt] at h
    split at h
    · cases h
    · split at h
      · cases h
      · exact comment_notMem_of_assign h comment
  | ret site value =>
    simp only [lowerStmt] at h
    exact comment_notMem_of_returnStmt h comment
  | ifElse | whileLoop | forLoop =>
    simp only [lowerStmt] at h
    repeat' split at h
    all_goals cases h
    simp
  | brk | cont | pass | importNames | importFrom =>
    simp only [lowerStmt] at h
    cases h
    simp
  | functionDef | docString | comment | other => simp [lowerStmt] at h

/-- **Which statements are refused late.**  Of the statements that pass their check exactly the
definitions of functions, the remainders `x %= e` with a call in `e` and the returns of a call of
`print` are refused; every other one is emitted as it is lowered, and not as a comment. -/
theorem lowerStmt_refuses_iff (policy : Policy) (level : Bool) (st : State) (s : Stmt)
    (hops : s.hasOperands = true)
    (hdirect : Typing.classify st.env policy level st.returns s = .direct) :
    ((∃ c st', lowerStmt policy st s = (.error c, st')) ↔ RefusedLate st.env s) ∧
    (¬ RefusedLate st.env s → ∃ b st', lowerStmt policy st s = (.ok b, st') ∧
      emitStmt policy level st s = (b, st') ∧ ∀ comment, .comment comment ∉ b) := by
  have hcheck := (Typing.classify_eq_direct_iff _ _).1 hdirect
  refine ⟨⟨?_, fun hlate => ?_⟩, fun hlate => ?_⟩
  · rintro ⟨c, st', herror⟩
    by_contra hlate
    obtain ⟨b, st₁, hok⟩ := exists_lowerStmt hops hcheck hlate
    rw [herror] at hok
    cases hok
  · obtain ⟨c, h⟩ : ∃ c, lowerStmt policy st s = (.error c, st) := lowerStmt_of_refusedLate hlate
    exact ⟨c, st, h⟩
  · obtain ⟨b, st', h⟩ := exists_lowerStmt hops hcheck hlate
    exact ⟨b, st', h, by simp only [emitStmt, settle, hdirect, h], comment_notMem_of_lowerStmt h⟩

end Lowering

namespace Source

open Compose

/-- `n %= scale(n)`, which evaluates the divisor more than once. -/
def reduced : Stmt := augAssign "n" .mod (call (name "scale") [name "n"] [])

/-- An `elif` with a call in its condition, behind a branch that returns. -/
def branching : Stmt :=
  ifElse (name "n") [ret (some (name "n"))] [ifElse guarded [augAssign "n" .add (int 1)] []]

end Source

namespace Lowering

/-- Both statements pass their check in a function; the first is refused, and the second becomes
a conditional. -/
theorem reduced_refused_branching_lowered :
    let st : State := ⟨.scaled, some .empty, []⟩
    (Source.reduced.hasOperands = true ∧
      Typing.classify st.env ⟨.template, .keep⟩ false st.returns Source.reduced = .direct ∧
      ∃ c st', lowerStmt ⟨.template, .keep⟩ st Source.reduced = (.error c, st')) ∧
    Source.branching.hasOperands = true ∧
      Typing.classify st.env ⟨.template, .keep⟩ false st.returns Source.branching = .direct ∧
      ∃ b st', lowerStmt ⟨.template, .keep⟩ st Source.branching = (.ok b, st') ∧
        emitStmt ⟨.template, .keep⟩ false st Source.branching = (b, st') ∧
        ∀ comment, .comment comment ∉ b := by
  intro st
  have hreduced : Typing.classify st.env ⟨.template, .keep⟩ false st.returns Source.reduced =
      .direct := by decide +kernel
  have hbranching : Typing.classify st.env ⟨.template, .keep⟩ false st.returns Source.branching =
      .direct := by decide +kernel
  have hcalls : RefusedLate st.env Source.reduced := rfl
  refine ⟨⟨rfl, hreduced, ?_⟩, by decide +kernel, hbranching, ?_⟩
  · exact (lowerStmt_refuses_iff _ _ st _ rfl hreduced).1.2 hcalls
  · exact (lowerStmt_refuses_iff _ _ st _ (by decide +kernel) hbranching).2 id

end Lowering

end StaticScript
