import StaticScript.Typing.Statement
import StaticScript.Proofs.Source.Query
import StaticScript.Proofs.Typing.Arguments

/-!
# Failures of checks

A check that fails gives a category that says why.  `direct` is not one of those, so the category of
a statement is `direct` only if its check succeeds (`classify_eq_direct_iff`), and `docOnly` is left
to the statements of documentation (`classify_eq_docOnly_iff`).
-/

namespace StaticScript

/-- The category says that something has no counterpart. -/
@[simp] def Category.isFailure : Category → Bool
  | .direct | .docOnly => false
  | _ => true

/-- The statement is documentation. -/
def Source.Stmt.isDoc : Source.Stmt → Bool
  | .docString .. | .comment .. => true
  | _ => false

namespace Checked

variable {α β : Type}

/-- The check does not fail for no reason. -/
def Proper (x : Checked α) : Prop := ∀ c, x = .error c → c.isFailure = true

@[simp] theorem proper_ok (a : α) : Proper (.ok a : Checked α) := by simp [Proper]

@[simp] theorem proper_pure (a : α) : Proper (pure a : Checked α) := proper_ok a

@[simp] theorem proper_error {c : Category} :
    Proper (.error c : Checked α) ↔ c.isFailure = true := by
  simp [Proper]

@[simp] theorem proper_throw {c : Category} :
    Proper (throw c : Checked α) ↔ c.isFailure = true := proper_error

@[simp] theorem proper_throw_bind {c : Category} {f : α → Checked β} :
    ((throw c : Checked α) >>= f).Proper ↔ c.isFailure = true := proper_error

/-- A condition that is refused with a category, and what follows it. -/
theorem Proper.guard {p : Prop} [Decidable p] {c : Category} {f : Unit → Checked α}
    (hc : c.isFailure = true) (hf : ∀ u, (f u).Proper) :
    (if p then (throw c : Checked Unit) >>= f else f ()).Proper := by
  split
  · exact proper_throw_bind.2 hc
  · exact hf ()

theorem Proper.bind {x : Checked α} {f : α → Checked β} (hx : x.Proper)
    (hf : ∀ a, x = .ok a → (f a).Proper) : (x >>= f).Proper := by
  cases x with
  | error c => simpa [Proper, Bind.bind, Except.bind] using hx
  | ok a => exact hf a rfl

theorem proper_ofOption {c : Category} (h : c.isFailure = true) (o : Option α) :
    (ofOption c o).Proper := by
  cases o with
  | none => simpa [ofOption] using h
  | some a => exact proper_ok a

theorem Proper.both {x : Checked α} {y : Checked β} (hx : x.Proper) (hy : y.Proper) :
    (x.both y).Proper := by
  cases x with
  | ok a =>
    cases y with
    | ok b => exact proper_ok _
    | error d => simpa [Checked.both, Proper] using hy
  | error c =>
    cases y with
    | ok b => simpa [Checked.both, Proper] using hx
    | error d =>
      simp only [proper_error] at hx hy
      simp only [Checked.both, proper_error, Category.mostSevere]
      split
      · exact hy
      · exact hx

theorem Proper.all {rs : List (Checked α)} (h : ∀ r ∈ rs, r.Proper) : (Checked.all rs).Proper := by
  induction rs with
  | nil => exact proper_ok []
  | cons r rs ih =>
    rw [all_cons]
    have hboth := (h r List.mem_cons_self).both (ih fun s hs => h s (List.mem_cons_of_mem _ hs))
    cases hb : Checked.both r (Checked.all rs) with
    | error c => simpa [hb, Proper, Except.map] using hboth
    | ok p => exact proper_ok _

end Checked

namespace Typing

open Checked

/-! ### Rules -/

theorem proper_intLiteralType (n : Int64) : (intLiteralType n).Proper := by
  unfold intLiteralType; split <;> simp

theorem proper_arithmetic (left right : StaticType) (result : Option StaticType) :
    (arithmetic left right result).Proper := by
  unfold arithmetic
  split
  · exact proper_ofOption (by simp) _
  · simp

theorem proper_bitwiseType (left right : StaticType) : (bitwiseType left right).Proper := by
  unfold bitwiseType
  dsimp only
  repeat' split
  all_goals simp

theorem proper_binaryType (op : Source.BinaryOp) (left right : StaticType) :
    (binaryType op left right).Proper := by
  unfold binaryType
  split
  · simp
  · cases op with
    | add => exact proper_ofOption (by simp) _
    | sub | mult | div | pow => exact proper_arithmetic _ _ _
    | floorDiv | mod =>
      dsimp only
      split
      · exact proper_ofOption (by simp) _
      · simp
    | leftShift | rightShift | bitOr | bitAnd | bitXor => exact proper_bitwiseType _ _
    | matMult => simp

theorem proper_unaryType (op : Source.UnaryOp) (t : StaticType) : (unaryType op t).Proper := by
  cases op <;> cases t <;> simp [unaryType]

theorem proper_comparisonType (op : Source.CompareOp) (left right : StaticType) :
    (comparisonType op left right).Proper := by
  unfold comparisonType
  split
  · simp
  · cases left <;> cases right <;> simp

theorem proper_conditionType (t : StaticType) : (conditionType t).Proper := by
  cases t <;> simp [conditionType]

theorem proper_boolOpType (ctx : Context) (ts : List StaticType) : (boolOpType ctx ts).Proper := by
  cases ctx with
  | condition =>
    simp only [boolOpType]
    induction ts with
    | nil => simp [conditionTypes]
    | cons t ts ih => exact (proper_conditionType t).bind fun _ _ => ih
  | value =>
    simp only [boolOpType]
    split <;> simp

theorem proper_castType (target t : StaticType) : (castType target t).Proper := by
  cases target <;> cases t <;> simp [castType]

theorem isFailure_of_argumentCategory? {t : StaticType} {param : Target.ParamType} {c : Category}
    (h : argumentCategory? t param = some c) : c.isFailure = true := by
  unfold argumentCategory? at h
  split at h
  · simp [← Option.some.inj h]
  · cases param with
    | generic name => simp at h
    | concrete u =>
      dsimp only at h
      repeat' split at h
      · simp at h
      · simp [← Option.some.inj h]
      · simp [← Option.some.inj h]

theorem proper_callee (env : Environment) (function : Source.Expr) :
    (callee env function).Proper := by
  unfold callee
  split
  · split
    · simp
    · split
      · simp
      · exact proper_ofOption (by simp) _
  · split <;> simp
  · simp

theorem proper_builtinCallType (callee : Callee) (ts : List StaticType) :
    (builtinCallType callee ts).Proper := by
  unfold builtinCallType
  split
  · repeat' split
    all_goals simp
  · exact proper_castType _ _
  · split
    · exact proper_unaryType _ _
    · simp
  · exact proper_binaryType _ _ _
  · split <;> simp
  · simp
  · simp

/-! ### Arguments -/

section

variable {α : Type}

theorem proper_fillKeywords (params : List SignatureParam) (keywords : List (String × α))
    (places : List (Option α)) : (fillKeywords params keywords places).Proper := by
  induction keywords generalizing places with
  | nil => exact proper_ok places
  | cons keyword keywords ih =>
    simp only [fillKeywords]
    repeat' split
    · simp
    · exact ih _
    · simp

theorem proper_slots (ps : List (SignatureParam × Option α)) : (slots ps).Proper := by
  induction ps with
  | nil => exact proper_ok []
  | cons p ps ih =>
    obtain ⟨param, _ | argument⟩ := p
    · simp only [slots]
      split
      · simp
      · exact ih.bind fun _ _ => proper_pure _
    · exact ih.bind fun _ _ => proper_pure _

theorem proper_bindArguments (params : List SignatureParam) (arguments : List α)
    (keywords : List (String × α)) (policy : DefaultPolicy) :
    (bindArguments params arguments keywords policy).Proper := by
  unfold bindArguments
  split
  · simp
  · refine (proper_fillKeywords _ _ _).bind fun places _ => ?_
    refine (proper_slots _).bind fun found _ => ?_
    split <;> simp

end

/-- The arguments of a call fail as the first of them does, and a misfit is a failure too. -/
theorem proper_argumentsFit {ps : List (Slot (Checked StaticType) × SignatureParam)}
    (h : ∀ r, ∀ p ∈ ps, p.1 = .supplied r → r.Proper) :
    (argumentsFit ps).Proper ∧ ∀ c, argumentsFit ps = .ok (some c) → c.isFailure = true := by
  induction ps with
  | nil => simp [argumentsFit]
  | cons p ps ih =>
    have ih := ih fun r q hq => h r q (List.mem_cons_of_mem _ hq)
    obtain ⟨result | value, param⟩ := p
    · have hresult := h result _ List.mem_cons_self rfl
      refine ⟨hresult.bind fun t _ => ih.1.bind fun _ _ => proper_pure _, ?_⟩
      intro c hc
      simp only [argumentsFit, bind_eq_ok, pure_eq_ok] at hc
      obtain ⟨t, -, later, hlater, hc⟩ := hc
      rcases hfit : argumentCategory? t param.type with _ | d
      · rw [hfit] at hc
        exact ih.2 c (hc ▸ hlater)
      · rw [hfit] at hc
        have hd := isFailure_of_argumentCategory? hfit
        rcases later with _ | e
        · exact Option.some.inj hc ▸ hd
        · rw [← Option.some.inj hc, Category.mostSevere]
          split
          · exact ih.2 e hlater
          · exact hd
    · exact ih

theorem proper_userCallType {policy : Policy} {s : Signature}
    {arguments : List (Checked StaticType)} {keywords : List (String × Checked StaticType)}
    (h : ∀ r ∈ arguments ++ keywords.map Prod.snd, r.Proper) :
    (userCallType policy s arguments keywords).Proper := by
  refine (proper_bindArguments _ _ _ _).bind fun found hfound => ?_
  have hfit : ∀ r, ∀ p ∈ found.zip s.params, p.1 = .supplied r → r.Proper := by
    rintro r ⟨slot, param⟩ hp rfl
    exact h r ((supplied_mem_iff hfound).1 (List.of_mem_zip hp).1)
  obtain ⟨hproper, hne⟩ := proper_argumentsFit hfit
  refine hproper.bind fun misfit hmisfit => ?_
  rcases misfit with _ | c
  · simp
  · exact proper_throw.2 (hne c hmisfit)

theorem proper_callType {env : Environment} {policy : Policy} {function : Source.Expr}
    {arguments : List (Checked StaticType)} {keywords : List (String × Checked StaticType)}
    (h : ∀ r ∈ arguments ++ keywords.map Prod.snd, r.Proper) :
    (callType env policy function arguments keywords).Proper := by
  refine ((proper_callee env function).both (Proper.all h)).bind fun p _ => ?_
  obtain ⟨target, types⟩ := p
  have hbuiltin : ∀ c : Callee, (if keywords.isEmpty then builtinCallType c types
      else throw .unsupported : Checked StaticType).Proper := by
    intro c
    split
    · exact proper_builtinCallType _ _
    · simp
  cases target with
  | user name =>
    refine (proper_ofOption (by simp) _).bind fun s _ => ?_
    exact proper_userCallType h
  | print | abs | pow => exact hbuiltin _
  | cast t => exact hbuiltin _
  | math name => exact hbuiltin _

/-! ### Expressions -/

theorem proper_chainType (ops : List Source.CompareOp) (first : StaticType)
    (rest : List StaticType) : (chainType ops first rest).Proper := by
  induction rest generalizing ops first with
  | nil => cases ops <;> simp [chainType]
  | cons t rest ih =>
    cases ops with
    | nil => simp [chainType]
    | cons op ops => exact (proper_comparisonType op first t).bind fun _ _ => ih _ _

theorem proper_comparisonsType {ops : List Source.CompareOp} {comparators : List Source.Expr}
    {operands : List (Checked StaticType)} (h : ∀ r ∈ operands, r.Proper) :
    (comparisonsType ops comparators operands).Proper := by
  unfold comparisonsType
  refine Proper.guard (by simp) fun _ => (Proper.all h).bind fun types _ => ?_
  cases types with
  | nil => simp
  | cons first rest => exact Proper.guard (by simp) fun _ => proper_chainType _ _ _

section

variable (env : Environment) (policy : Policy)

theorem checkList_eq_map (ctx : Context) (es : List Source.Expr) :
    checkList env policy ctx es = es.map (check env policy ctx) := by
  induction es with
  | nil => rfl
  | cons e es ih => simp [checkList, ih]

theorem checkKeywords_eq_map (ks : List (String × Source.Expr)) :
    checkKeywords env policy ks = ks.map (Prod.map id (check env policy .value)) := by
  induction ks with
  | nil => rfl
  | cons k ks ih =>
    obtain ⟨name, value⟩ := k
    simp [checkKeywords, ih, Prod.map]

theorem proper_check (ctx : Context) (e : Source.Expr) : (check env policy ctx e).Proper := by
  induction e using Source.Expr.induction generalizing ctx with
  | step e ih =>
    cases e with
    | int site n => exact proper_intLiteralType n
    | float | bool | str | none => simp [check]
    | name site id => exact proper_ofOption (by simp) _
    | binary site op left right =>
      refine ((ih left (by simp [Source.Expr.children]) .value).both
        (ih right (by simp [Source.Expr.children]) .value)).bind fun p _ => ?_
      exact (proper_binaryType _ _ _).bind fun t _ => Proper.guard (by simp) fun _ => proper_ok t
    | boolOp site op values =>
      refine Proper.bind (Proper.all fun r hr => ?_) fun types _ => proper_boolOpType _ _
      rw [checkList_eq_map] at hr
      obtain ⟨e, he, rfl⟩ := List.mem_map.1 hr
      exact ih e he ctx
    | unary site op operand =>
      exact (ih operand (by simp [Source.Expr.children]) _).bind fun t _ => proper_unaryType _ _
    | compare site left ops comparators =>
      refine proper_comparisonsType fun r hr => ?_
      rw [checkList_eq_map, ← List.map_cons] at hr
      obtain ⟨e, he, rfl⟩ := List.mem_map.1 hr
      exact ih e he .value
    | call site function arguments keywords =>
      refine proper_callType fun r hr => ?_
      rw [checkList_eq_map, checkKeywords_eq_map, List.map_map] at hr
      simp only [List.mem_append, List.mem_map] at hr
      rcases hr with ⟨e, he, rfl⟩ | ⟨k, hk, rfl⟩
      · exact ih e (by simp [Source.Expr.children, he]) .value
      · refine ih k.2 ?_ .value
        simp only [Source.Expr.children, List.mem_append, List.mem_map]
        exact .inr ⟨k, hk, rfl⟩
    | list | tuple | set | dict =>
      simp only [check, proper_error, collectionCategory]
      split <;> simp
    | named | attr | other => simp [check]

/-! ### Statements -/

theorem proper_checkCondition (e : Source.Expr) : (checkCondition env policy e).Proper :=
  (proper_check env policy .condition e).bind fun t _ => proper_conditionType t

theorem proper_checkBinding (name : String) (t : StaticType) :
    (checkBinding env name t).Proper := by
  unfold checkBinding
  split
  · simp
  · split
    · simp
    · split <;> simp

theorem proper_checkExprStmt (e : Source.Expr) : (checkExprStmt env policy e).Proper := by
  unfold checkExprStmt
  extract_lets unused
  have hunused : unused.isFailure = true := by simp only [unused]; split <;> simp
  split
  · split
    · exact (proper_check env policy .value _).bind fun _ _ => proper_pure _
    · exact (proper_check env policy .value _).bind fun _ _ => proper_pure _
    · exact (proper_check env policy .value _).bind fun _ _ => proper_pure _
    · exact proper_error.2 hunused
  · exact proper_error.2 hunused

theorem proper_checkRangeLoop (target iter : Source.Expr) (body : List Source.Stmt) :
    (checkRangeLoop env policy target iter body).Proper := by
  unfold checkRangeLoop
  refine (proper_ofOption (by simp) _).bind fun name _ => ?_
  refine (proper_ofOption (by simp) _).bind fun range _ => ?_
  -- The guards nest, so they are taken from the innermost outwards.
  extract_lets limits free unreserved small integral
  have hfree : ∀ u, (free u).Proper := by
    intro u
    simp only [free]
    split <;> simp
  have hunreserved : ∀ u, (unreserved u).Proper := fun _ => Proper.guard (by simp) hfree
  have hsmall : ∀ u, (small u).Proper := fun _ => Proper.guard (by simp) hunreserved
  have hintegral : ∀ u, (integral u).Proper := by
    intro u
    refine Proper.bind (Proper.all fun r hr => ?_) fun types _ => Proper.guard (by simp) hsmall
    obtain ⟨e, -, rfl⟩ := List.mem_map.1 hr
    exact proper_check env policy .value e
  exact Proper.guard (by simp) hintegral

theorem proper_defaultValue (e : Option Source.Expr) : (defaultValue e).Proper := by
  cases e with
  | none => exact proper_ok _
  | some e =>
    refine (proper_ofOption (by simp) _).bind fun value _ => ?_
    split
    · exact (proper_intLiteralType _).bind fun _ _ => proper_pure _
    · exact proper_pure _

theorem proper_hintedType (hint : String) (default : Option Target.Expr) :
    (hintedType hint default).Proper := by
  unfold hintedType
  extract_lets t
  repeat' split
  all_goals simp

theorem proper_signatureParams (generic : GenericPolicy) (n : Nat) (ps : List Source.Parameter) :
    (signatureParams generic n ps).Proper := by
  induction ps generalizing n with
  | nil => exact proper_ok []
  | cons p ps ih =>
    unfold signatureParams
    refine Proper.guard (by simp) fun _ => (proper_defaultValue _).bind fun default _ => ?_
    split
    · exact (proper_hintedType _ _).bind fun _ _ => (ih _).bind fun _ _ => proper_pure _
    · exact (ih _).bind fun _ _ => proper_pure _
    · split
      · exact (ih _).bind fun _ _ => proper_pure _
      · simp

theorem proper_returnType (hint : Option String) : (returnType hint).Proper := by
  unfold returnType
  split
  · simp
  · dsimp only
    split <;> simp

theorem proper_signature (s : Source.Stmt) : (signature policy s).Proper := by
  unfold signature
  split
  · refine Proper.guard (by simp) fun _ => (proper_signatureParams _ _ _).bind fun params _ => ?_
    exact (proper_returnType _).bind fun _ _ => proper_pure _
  · simp

theorem proper_checkStmt (moduleLevel : Bool) (slot : Option ReturnSlot) {s : Source.Stmt}
    (hs : s.isDoc = false) : (checkStmt env policy moduleLevel slot s).Proper := by
  have hbound : ∀ (target value : Source.Expr),
      ((Checked.ofOption .unsupported target.asName).both (check env policy .value value)).Proper :=
    fun target value => (proper_ofOption (by simp) _).both (proper_check env policy .value value)
  unfold checkStmt
  -- One case for each kind of statement, and the two kinds of documentation are excluded by `hs`.
  split
  · exact proper_checkExprStmt env policy _
  · exact (hbound _ _).bind fun p _ => proper_checkBinding env _ _
  · simp
  · refine (hbound _ _).bind fun p _ => (proper_ofOption (by simp) _).bind fun current _ => ?_
    exact (proper_binaryType _ _ _).bind fun t _ => proper_checkBinding env _ _
  · exact (proper_checkCondition env policy _).bind fun _ _ => proper_pure _
  · refine Proper.guard (by simp) fun _ => ?_
    exact (proper_checkCondition env policy _).bind fun _ _ => proper_pure _
  · exact Proper.guard (by simp) fun _ => proper_checkRangeLoop env policy _ _ _
  · refine Proper.guard (by simp) fun _ => (proper_signature policy _).bind fun found _ => ?_
    split
    · split <;> simp
    · simp
  · refine (proper_ofOption (by simp) _).bind fun slot _ => ?_
    split
    · exact (proper_ofOption (by simp) _).bind fun _ _ => proper_pure _
    · refine (proper_check env policy .value _).bind fun t _ => ?_
      exact (proper_ofOption (by simp) _).bind fun _ _ => proper_pure _
  · simp
  · simp
  · simp
  · split <;> simp
  · split <;> simp
  · cases hs
  · cases hs
  · simp

/-- **A statement has a counterpart exactly if its check succeeds.** -/
theorem classify_eq_direct_iff {moduleLevel : Bool} {slot : Option ReturnSlot} {s : Source.Stmt} :
    classify env policy moduleLevel slot s = .direct ↔
      checkStmt env policy moduleLevel slot s = .ok () := by
  unfold classify
  cases h : checkStmt env policy moduleLevel slot s with
  | ok u => simp [category]
  | error c =>
    simp only [category, reduceCtorEq, iff_false]
    rintro rfl
    cases hs : s.isDoc with
    | false => simpa using proper_checkStmt env policy moduleLevel slot hs _ h
    | true => cases s <;> simp [Source.Stmt.isDoc, checkStmt] at hs h

theorem classify_ifElse_eq_direct_iff {moduleLevel : Bool} {slot : Option ReturnSlot}
    {site : Source.Site} {c : Source.Expr} {body orelse : List Source.Stmt} :
    classify env policy moduleLevel slot (.ifElse site c body orelse) = .direct ↔
      (checkCondition env policy c).isOk = true := by
  rw [classify_eq_direct_iff, Checked.isOk_iff]
  simp [checkStmt]

theorem classify_eq_docOnly_iff {moduleLevel : Bool} {slot : Option ReturnSlot}
    {s : Source.Stmt} :
    classify env policy moduleLevel slot s = .docOnly ↔ s.isDoc = true := by
  constructor
  · intro h
    by_contra hs
    have hproper := proper_checkStmt env policy moduleLevel slot (Bool.eq_false_iff.2 hs)
    unfold classify at h
    cases hc : checkStmt env policy moduleLevel slot s with
    | ok u => simp [hc, category] at h
    | error c =>
      rw [hc, category] at h
      subst h
      simpa using hproper _ hc
  · intro h
    cases s <;> simp [Source.Stmt.isDoc] at h <;> rfl

end

end Typing

end StaticScript
