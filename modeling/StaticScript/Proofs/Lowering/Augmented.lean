import StaticScript.Proofs.Lowering.Refusals

/-!
# Augmented assignments

`x op= e` is short for `x = x op e`.  The two are lowered to the same statement in the same way, but
they are checked by different rules, which ask for the same with one exception: the check of the
remainder `x % e` refuses a call in `e`, and that of `x %= e` does not.  Their categories differ
exactly where this is what decides (`ChecksLess`).

The rules take the parts in different order too.  This cannot be seen, because a name that is not
bound fails with the last of all categories (`Checked.both_ofOption_unsupported`).
-/

namespace StaticScript

/-- A failure with the last category counts only if nothing else fails. -/
theorem Checked.both_ofOption_unsupported {α β : Type} (o : Option α) (y : Checked β) :
    (Checked.ofOption .unsupported o).both y =
      y >>= fun b => (Checked.ofOption .unsupported o).map fun a => (a, b) := by
  rcases o with _ | a <;> rcases y with d | b
  · cases d <;> rfl
  · rfl
  · rfl
  · rfl

theorem Checked.category_eq_unsupported {α : Type} {y : Checked α} :
    y.category = .unsupported ↔ y = .error .unsupported := by
  cases y <;> simp [Checked.category]

namespace Typing

variable (env : Environment) (policy : Policy)

/-- The type of `x op value` for a name `x`, whatever is asked of remainders. -/
def operationType (x : String) (op : Source.BinaryOp) (value : Source.Expr) :
    Checked StaticType := do
  let type ← check env policy .value value
  let current ← Checked.ofOption .unsupported (env.lookup x)
  binaryType op current type

/-- `x op= value` has another category than `x = x op value`: it is a remainder with a call in its
divisor, and the name could hold its value, or only the type of the value keeps it from that. -/
def ChecksLess (x : String) (op : Source.BinaryOp) (value : Source.Expr) : Prop :=
  (op = .mod ∧ value.containsCall = true) ∧
    ∃ result, operationType env policy x op value = .ok result ∧
      checkBinding env x result ≠ .error .unsupported

section

variable {env policy} {level : Bool} {slot : Option ReturnSlot} {site : Source.Site}
  {target value : Source.Expr} {op : Source.BinaryOp} {x : String}

theorem operationType_eq_ok {result : StaticType} :
    operationType env policy x op value = .ok result ↔
      ∃ type, check env policy .value value = .ok type ∧
        ∃ current, env.lookup x = some current ∧ binaryType op current type = .ok result := by
  simp only [operationType, Checked.bind_eq_ok, Checked.ofOption_eq_ok]

theorem check_binary_name (nameSite : Source.Site) :
    check env policy .value (.binary site op (.name nameSite x) value) =
      operationType env policy x op value >>= fun result =>
        if op = .mod ∧ value.containsCall = true then .error .unsupported else .ok result := by
  simp only [check, Checked.both_ofOption_unsupported, operationType]
  cases check env policy .value value with
  | error d => rfl
  | ok type =>
    cases env.lookup x with
    | none => rfl
    | some current =>
      -- Both operands have types, and only the operation itself can fail.
      change binaryType op current type >>= _ = binaryType op current type >>= _
      cases binaryType op current type with
      | error d => rfl
      | ok result =>
        by_cases hcall : op = .mod ∧ value.containsCall = true
        · simp only [bind, Except.bind, if_pos hcall]
          rfl
        · simp only [bind, Except.bind, if_neg hcall]
          rfl

theorem checkStmt_augAssign (hx : target.asName = some x) :
    checkStmt env policy level slot (.augAssign site target op value) =
      operationType env policy x op value >>= checkBinding env x := by
  simp only [checkStmt, hx, operationType]
  cases check env policy .value value with
  | error d => rfl
  | ok type =>
    simp only [Checked.ofOption, Checked.both, bind, Except.bind]
    cases env.lookup x <;> rfl

theorem checkStmt_assign_desugared (hx : target.asName = some x) :
    checkStmt env policy level slot (.assign site [target] (Lowering.desugared target op value)) =
      operationType env policy x op value >>= fun result =>
        if op = .mod ∧ value.containsCall = true then .error .unsupported
        else checkBinding env x result := by
  obtain ⟨nameSite, rfl⟩ := Source.Expr.eq_name_of_asName hx
  simp only [checkStmt, Lowering.desugared, check_binary_name, hx]
  cases operationType env policy x op value with
  | error d => rfl
  | ok result =>
    by_cases hcall : op = .mod ∧ value.containsCall = true
    · simp only [bind, Except.bind, if_pos hcall]
      rfl
    · simp only [bind, Except.bind, if_neg hcall]
      rfl

/-- **The two checks agree but for calls in divisors.** -/
theorem classify_augAssign_eq_iff {site' : Source.Site} (hx : target.asName = some x) :
    classify env policy level slot (.augAssign site target op value) =
        classify env policy level slot
          (.assign site' [target] (Lowering.desugared target op value)) ↔
      ¬ ChecksLess env policy x op value := by
  rw [classify, classify, checkStmt_augAssign hx, checkStmt_assign_desugared hx, ChecksLess]
  cases operationType env policy x op value with
  | error d => simp [bind, Except.bind]
  | ok result =>
    by_cases hcall : op = .mod ∧ value.containsCall = true
    · simp only [bind, Except.bind, if_pos hcall]
      change _ = Category.unsupported ↔ _
      simp [Checked.category_eq_unsupported, hcall]
    · simp [bind, Except.bind, hcall]

end

end Typing

open Source.Compose in
/-- `scale(n)` -/
def Source.scaledValue : Source.Expr := call (name "scale") [name "n"] []

namespace Lowering

open Source.Compose (name augAssign)
open Typing (classify)

section

variable {policy : Policy} {level : Bool} {slot : Option Typing.ReturnSlot} {st : State}
  {site site' : Source.Site} {target value : Source.Expr} {op : Source.BinaryOp} {x : String}

/-- A name that is bound is assigned to and not declared. -/
theorem assign_of_checkBinding {t : Target.Expr} {current : StaticType}
    (hlookup : st.env.lookup x = some current)
    (h : Typing.checkBinding st.env x t.type = .ok ()) :
    assign st x t = (.ok [.assign x t], st) := by
  unfold Typing.checkBinding at h
  split at h
  · cases h
  · rw [hlookup] at h
    by_cases hfits : t.type.assignable current = true
    · simp only [assign, hlookup, hfits, if_true]
    · simp [hfits] at h

theorem lowerStmt_augAssign : lowerStmt policy st (.augAssign site target op value) =
    lowerStmt policy st (.assign site' [target] (desugared target op value)) := by
  simp only [lowerStmt]

theorem exists_lowerStmt_desugared (hx : target.asName = some x) (hops : value.hasOperands = true)
    (h : Typing.checkStmt st.env policy level slot
      (.assign site [target] (desugared target op value)) = .ok ()) :
    ∃ t, lowerStmt policy st (.assign site [target] (desugared target op value)) =
      (.ok [.assign x t], st) := by
  rw [Typing.checkStmt_assign_desugared hx, Checked.bind_eq_ok] at h
  obtain ⟨result, hresult, h⟩ := h
  obtain ⟨hcall, hbinding⟩ := Checked.ite_error_eq_ok.1 h
  obtain ⟨type, htype, current, hcurrent, hbinary⟩ := Typing.operationType_eq_ok.1 hresult
  have hcalls : op = .mod → value.containsCall = false := by
    intro hop
    exact Bool.eq_false_iff.2 fun hc => hcall ⟨hop, hc⟩
  obtain ⟨t, ht, rfl⟩ := exists_lower_desugared hx hcurrent hops htype hbinary hcalls
  exact ⟨t, by simp only [lowerStmt, hx, ht, assign_of_checkBinding hcurrent hbinding]⟩

end

/-- **Augmented assignment follows the rules of assignment.**  `x op= e` and `x = x op e` are
lowered alike from every state, and where the second is `direct` both become one assignment.  Their
categories are the same, except where a call in the divisor of a remainder decides. -/
theorem augAssign_follows_assign (policy : Policy) (level : Bool)
    (slot : Option Typing.ReturnSlot) (st : State) (site site' : Source.Site)
    (target value : Source.Expr) (op : Source.BinaryOp) (x : String)
    (hx : target.asName = some x) :
    (classify st.env policy level slot (.augAssign site target op value) =
        classify st.env policy level slot (.assign site' [target] (desugared target op value)) ↔
      ¬ Typing.ChecksLess st.env policy x op value) ∧
    lowerStmt policy st (.augAssign site target op value) =
      lowerStmt policy st (.assign site' [target] (desugared target op value)) ∧
    (value.hasOperands = true →
      classify st.env policy level slot (.assign site' [target] (desugared target op value)) =
        .direct →
      ∃ t, lowerStmt policy st (.augAssign site target op value) = (.ok [.assign x t], st)) := by
  refine ⟨Typing.classify_augAssign_eq_iff hx, lowerStmt_augAssign, ?_⟩
  intro hops hdirect
  have hcheck := (Typing.classify_eq_direct_iff _ _).1 hdirect
  obtain ⟨t, ht⟩ := exists_lowerStmt_desugared hx hops hcheck
  exact ⟨t, lowerStmt_augAssign.trans ht⟩

/-- `n += scale(n)` has a call in its value, but it is not a remainder. -/
theorem increased_follows :
    let st : State := ⟨.scaled, some .empty, []⟩
    let s := augAssign "n" .add Source.scaledValue
    let s' := Source.Compose.assign "n" (desugared (name "n") .add Source.scaledValue)
    classify st.env ⟨.template, .keep⟩ false st.returns s =
      classify st.env ⟨.template, .keep⟩ false st.returns s' ∧
    lowerStmt ⟨.template, .keep⟩ st s = lowerStmt ⟨.template, .keep⟩ st s' ∧
    ∃ t, lowerStmt ⟨.template, .keep⟩ st s = (.ok [.assign "n" t], st) := by
  intro st s s'
  obtain ⟨hcategory, hlower, hassign⟩ := augAssign_follows_assign ⟨.template, .keep⟩ false
    st.returns st s.site s'.site (name "n") Source.scaledValue .add "n" rfl
  refine ⟨hcategory.2 ?_, hlower, hassign (by decide +kernel) (by decide +kernel)⟩
  rintro ⟨⟨hmod, -⟩, -⟩
  cases hmod

/-- `n %= scale(n)` is `direct`, and `n = n % scale(n)` is not. -/
theorem reduced_classified_apart :
    classify .scaled ⟨.template, .keep⟩ false none (augAssign "n" .mod Source.scaledValue) =
      .direct ∧
    classify .scaled ⟨.template, .keep⟩ false none
      (Source.Compose.assign "n" (desugared (name "n") .mod Source.scaledValue)) =
        .unsupported := by
  decide +kernel

end Lowering

end StaticScript
