import StaticScript.Proofs.Lowering.CallSites

/-!
# Lowered expressions are well typed

The types that a C++ expression carries have to fit one another in every node: an integer division
or an addition of two pointers would pass for the operation of the script and compute something
else.  `Target.Expr.WellTyped` says what a node asks of the nodes right below it.  It speaks of C++
only, in terms of the types that are written down in the tree.

The expansions that lowering makes are where this could go wrong, since they put types on nodes that
stand for nothing in the script: the division below a rounded quotient, the sum that corrects the
sign of a remainder, the links of a chain of comparisons, and the conversions.  There is one lemma
for each of them.

**Main theorem** (`wellTyped_lower`): every node of a lowered expression is well typed.  Defaults of
parameters are copied to calls, so they must come from headers that were accepted
(`Globals.AcceptedDefaults`); those of a script do (`acceptedDefaults_programGlobals`).
-/

namespace StaticScript

namespace Target

/-- An operator takes these operands, and `t` is the type of its result. -/
def BinaryOp.Fits (op : BinaryOp) (left right : Expr) (t : StaticType) : Prop :=
  match op with
  -- A literal is a pointer, and no operator adds to it.
  | .add => left.type.promote right.type = some t ∧ left.isText = false
  | .sub | .mul =>
    left.type.promote right.type = some t ∧
      left.type.isArithmetic = true ∧ right.type.isArithmetic = true
  -- Two integers would be divided as integers.
  | .div => t = .floating ∧ (left.type = .floating ∨ right.type = .floating)
  | .mod => t = .integer ∧ left.type.isIntegral = true ∧ right.type.isIntegral = true
  | .shl | .shr | .bitAnd | .bitOr | .bitXor =>
    (left.type.isIntegral = true ∨ left.type = .unresolved) ∧
      (right.type.isIntegral = true ∨ right.type = .unresolved)
  | .eq | .ne | .lt | .le | .gt | .ge =>
    t = .boolean ∧ left.type ≠ .void ∧ right.type ≠ .void ∧
      (left.type = .string ↔ right.type = .string) ∧
      ¬ (left.isText = true ∧ right.isText = true)
  | .logicalAnd | .logicalOr =>
    t = .boolean ∧ (left.type ≠ .string ∧ left.type ≠ .void) ∧
      right.type ≠ .string ∧ right.type ≠ .void

/-- The node fits the nodes right below it. -/
def Expr.WellTyped : Expr → Prop
  | .int n t => Typing.fitsInt n = true ∧ t = .integer
  | .float _ t => t = .floating
  | .bool _ t => t = .boolean
  | .string _ t => t = .string
  | .binary op left right t => op.Fits left right t
  | .unary op operand t =>
    ∃ op', Lowering.unaryOp op' = op ∧ Typing.unaryType op' operand.type = .ok t
  | .cast operand target t =>
    (target = .integer ∨ target = .floating ∨ target = .boolean) ∧
      operand.type ≠ .string ∧ operand.type ≠ .void ∧ t = target
  | .var .. | .call .. => True

end Target

/-- The defaults of all parameters are those of parameters in headers that were accepted. -/
def Globals.AcceptedDefaults (g : Globals) : Prop :=
  ∀ s ∈ g.functions, ∀ p ∈ s.params, ∀ v, p.default = some v →
    ∃ policy definition accepted, Typing.signature policy definition = .ok accepted ∧
      ∃ q ∈ accepted.params, q.default = some v

namespace Typing

/-! ### The types of operations -/

variable {op : Source.BinaryOp} {left right t : StaticType}

theorem promote_of_binaryType (h : binaryType .add left right = .ok t) :
    left.promote right = some t :=
  Checked.ofOption_eq_ok.1 (Checked.ite_error_eq_ok.1 h).2

theorem arithmetic_eq_ok {result : Option StaticType} (h : arithmetic left right result = .ok t) :
    result = some t ∧ left.isArithmetic = true ∧ right.isArithmetic = true := by
  unfold arithmetic at h
  split at h
  · rename_i harith
    exact ⟨Checked.ofOption_eq_ok.1 h, Bool.and_eq_true_iff.1 harith⟩
  · cases h

theorem ne_of_isArithmetic (h : t.isArithmetic = true) : t ≠ .string ∧ t ≠ .void := by
  constructor
  · rintro rfl
    cases h
  · rintro rfl
    cases h

/-- A quotient that is rounded down or a remainder is a floating-point number if one of its operands
is, and else it is an integer like both of them. -/
theorem floored_cases (hop : op = .floorDiv ∨ op = .mod) (h : binaryType op left right = .ok t) :
    left.isNumeric = true ∧ right.isNumeric = true ∧
      (t = .floating ∧ (left = .floating ∨ right = .floating) ∨
        t = .integer ∧ left.isIntegral = true ∧ right.isIntegral = true) := by
  have hrule : (if left.isNumeric && right.isNumeric then
      Checked.ofOption .unsupported (left.promote right) else .error .unsupported) = .ok t := by
    rcases hop with rfl | rfl <;> exact (Checked.ite_error_eq_ok.1 h).2
  revert hrule
  cases left <;> cases right <;>
    simp +contextual [StaticType.promote, StaticType.isNumeric, StaticType.isIntegral,
      Checked.ofOption, eq_comm]

theorem bits_of_binaryType (hop : op.isBitwise = true) (h : binaryType op left right = .ok t) :
    (left.isIntegral = true ∨ left = .unresolved) ∧
      (right.isIntegral = true ∨ right = .unresolved) := by
  have hrule : bitwiseType left right = .ok t := by
    cases op <;> first | exact (Checked.ite_error_eq_ok.1 h).2 | cases hop
  revert hrule
  cases left <;> cases right <;> simp [bitwiseType, StaticType.isIntegral]

/-- Strings are compared with strings only. -/
theorem comparisonType_eq_ok {op : Source.CompareOp} (h : comparisonType op left right = .ok t) :
    left ≠ .void ∧ right ≠ .void ∧ (left = .string ↔ right = .string) := by
  unfold comparisonType at h
  split at h
  · cases h
  · revert h
    cases left <;> cases right <;> simp

theorem ne_of_castType {target : StaticType} (htarget : target ≠ .string)
    (h : castType target left = .ok t) : left ≠ .string ∧ left ≠ .void := by
  revert htarget h
  cases target <;> cases left <;> simp [castType]

end Typing

namespace Lowering

open Target (Expr)
open Typing (Context Slot)

variable {env : Environment} {policy : Policy} {l r e t : Expr} {u : StaticType}

/-! ### Conversions and literals -/

theorem type_of_isText (he : e.WellTyped) (htext : e.isText = true) : e.type = .string := by
  cases e with
  | string => exact he
  | _ => cases htext

theorem type_asDouble (e : Expr) : (asDouble e).type = .floating := by
  unfold asDouble
  split
  · assumption
  · rfl

theorem wellTyped_asDouble (he : e.Each Expr.WellTyped)
    (htype : e.type ≠ .string ∧ e.type ≠ .void) : (asDouble e).Each Expr.WellTyped := by
  unfold asDouble
  split
  · exact he
  · exact Expr.each_castTo.2 ⟨⟨.inr (.inl rfl), htype.1, htype.2, rfl⟩, he⟩

/-- What is rounded is converted to an integer. -/
theorem wellTyped_rounded (he : e.Each Expr.WellTyped) (htype : e.type = .floating) :
    (e.castTo .integer).Each Expr.WellTyped :=
  Expr.each_castTo.2 ⟨⟨.inl rfl, by simp [htype], by simp [htype], rfl⟩, he⟩

/-- A literal becomes a string object of the type that it had. -/
theorem type_stringObject_of_wellTyped (he : e.WellTyped) : (stringObject e).type = e.type := by
  rw [type_stringObject]
  split
  · rename_i htext
    exact (type_of_isText he htext).symm
  · rfl

theorem wellTyped_stringObject (he : e.Each Expr.WellTyped) :
    (stringObject e).Each Expr.WellTyped := by
  unfold stringObject
  split
  · exact Expr.each_call.2 ⟨trivial, by simpa using he⟩
  · exact he

/-! ### Operations on two operands -/

section

variable (hl : l.Each Expr.WellTyped) (hr : r.Each Expr.WellTyped)
include hl hr

theorem wellTyped_remainder
    (h : u = .floating ∨ u = .integer ∧ l.type.isIntegral = true ∧ r.type.isIntegral = true) :
    (remainder u l r).Each Expr.WellTyped := by
  unfold remainder
  split
  · exact Expr.each_call.2 ⟨trivial, by simp [hl, hr]⟩
  · rename_i hreal
    exact Expr.each_binary.2 ⟨h.resolve_left hreal, hl, hr⟩

/-- The remainder that takes the sign of the divisor: the sum in it is of the type of the
remainder. -/
theorem wellTyped_signed (h : Typing.binaryType .mod l.type r.type = .ok u) :
    (remainder u (.binary .add (remainder u l r) r u) r).Each Expr.WellTyped := by
  obtain ⟨-, hnumeric, hcases⟩ := Typing.floored_cases (.inr rfl) h
  have hinner : (remainder u l r).Each Expr.WellTyped :=
    wellTyped_remainder hl hr (hcases.imp_left And.left)
  -- The first remainder is of the type of the whole, whatever its operands are.
  have hpromote : u.promote r.type = some u := by
    revert hnumeric
    rcases hcases with ⟨rfl, -⟩ | ⟨rfl, -, hright⟩
    · cases r.type <;> simp [StaticType.isNumeric, StaticType.promote]
    · revert hright
      cases r.type <;> simp [StaticType.isIntegral, StaticType.promote]
  have htext : (remainder u l r).isText = false := by
    unfold remainder
    split <;> rfl
  have hsum : (Expr.binary .add (remainder u l r) r u).Each Expr.WellTyped :=
    Expr.each_binary.2 ⟨⟨by rw [type_remainder]; exact hpromote, htext⟩, hinner, hr⟩
  refine wellTyped_remainder hsum hr (hcases.imp And.left ?_)
  rintro ⟨rfl, -, hright⟩
  exact ⟨rfl, rfl, hright⟩

/-- The division below a quotient that is rounded down is never one of integers. -/
theorem wellTyped_floorQuotient (h : Typing.binaryType .floorDiv l.type r.type = .ok u) :
    (floorQuotient u l r).Each Expr.WellTyped := by
  obtain ⟨hnumeric, -, hcases⟩ := Typing.floored_cases (.inl rfl) h
  unfold floorQuotient
  split
  · rename_i hreal
    have hoperand : l.type = .floating ∨ r.type = .floating := by
      rcases hcases with ⟨-, hoperand⟩ | ⟨rfl, -⟩
      · exact hoperand
      · cases hreal
    have hdiv : (Expr.binary .div l r u).Each Expr.WellTyped :=
      Expr.each_binary.2 ⟨⟨hreal, hoperand⟩, hl, hr⟩
    exact Expr.each_call.2 ⟨trivial, by simpa using hdiv⟩
  · have htype : l.type.isArithmetic = true := by simp [StaticType.isArithmetic, hnumeric]
    have hdiv : (Expr.binary .div (asDouble l) r .floating).Each Expr.WellTyped :=
      Expr.each_binary.2 ⟨⟨rfl, .inl (type_asDouble l)⟩,
        wellTyped_asDouble hl (Typing.ne_of_isArithmetic htype), hr⟩
    refine wellTyped_rounded ?_ rfl
    exact Expr.each_call.2 ⟨trivial, by simpa using hdiv⟩

theorem wellTyped_binaryExpr {op : Source.BinaryOp} {calls : Bool}
    (h : binaryExpr op calls l r = .ok e) : e.Each Expr.WellTyped := by
  simp only [binaryExpr, Checked.bind_eq_ok] at h
  obtain ⟨u, hu, h⟩ := h
  cases op with
  | matMult => simp at h
  | mod =>
    simp only [Checked.guard_eq_ok, Checked.pure_eq_ok] at h
    rw [← h.2]
    exact wellTyped_signed hl hr hu
  | floorDiv =>
    simp only [Checked.pure_eq_ok] at h
    rw [← h]
    exact wellTyped_floorQuotient hl hr hu
  | add =>
    simp only [Checked.pure_eq_ok] at h
    have hpromote := Typing.promote_of_binaryType hu
    rw [← type_stringObject_of_wellTyped hl.self] at hpromote
    rw [← h]
    exact Expr.each_binary.2 ⟨⟨hpromote, isText_stringObject l⟩, wellTyped_stringObject hl, hr⟩
  | pow =>
    simp only [Checked.pure_eq_ok] at h
    rw [← h]
    exact Expr.each_call.2 ⟨trivial, by simp [hl, hr]⟩
  | sub | mult =>
    simp only [Checked.pure_eq_ok] at h
    rw [← h]
    exact Expr.each_binary.2 ⟨Typing.arithmetic_eq_ok (Checked.ite_error_eq_ok.1 hu).2, hl, hr⟩
  | div =>
    simp only [Checked.pure_eq_ok] at h
    obtain ⟨hreal, hleft, -⟩ := Typing.arithmetic_eq_ok (Checked.ite_error_eq_ok.1 hu).2
    rw [← h]
    exact Expr.each_binary.2 ⟨⟨(Option.some.inj hreal).symm, .inl (type_asDouble l)⟩,
      wellTyped_asDouble hl (Typing.ne_of_isArithmetic hleft), hr⟩
  | leftShift | rightShift | bitOr | bitAnd | bitXor =>
    simp only [Checked.pure_eq_ok] at h
    rw [← h]
    exact Expr.each_binary.2 ⟨Typing.bits_of_binaryType rfl hu, hl, hr⟩

end

/-! ### Truth values -/

/-- The expression can be tested for truth. -/
def Testable (e : Expr) : Prop := e.type ≠ .string ∧ e.type ≠ .void

theorem testable_of_type (h : e.type = .boolean) : Testable e := by simp [Testable, h]

theorem wellTyped_joined {op : Target.BinaryOp} (hop : op = .logicalAnd ∨ op = .logicalOr)
    {es : List Expr} (hes : ∀ e ∈ es, e.Each Expr.WellTyped) (htest : ∀ e ∈ es, Testable e)
    (h : joined op es = .ok t) : t.Each Expr.WellTyped := by
  have hfold : ∀ (es : List Expr) (first : Expr), first.Each Expr.WellTyped → Testable first →
      (∀ e ∈ es, e.Each Expr.WellTyped) → (∀ e ∈ es, Testable e) →
      (es.foldl (fun left right => .binary op left right .boolean) first).Each
        Expr.WellTyped := by
    intro es
    induction es with
    | nil => exact fun first hfirst _ _ _ => hfirst
    | cons e es ih =>
      intro first hfirst htest hes htests
      rw [List.forall_mem_cons] at hes htests
      refine ih _ (Expr.each_binary.2 ⟨?_, hfirst, hes.1⟩) (testable_of_type rfl) hes.2 htests.2
      rcases hop with rfl | rfl <;> exact ⟨rfl, htest, htests.1⟩
  cases es with
  | nil => cases h
  | cons first es =>
    obtain rfl := Except.ok.inj h
    rw [List.forall_mem_cons] at hes htest
    exact hfold es first hes.1 htest.1 hes.2 htest.2

theorem testable_of_conditionType (h : Typing.conditionType e.type = .ok u) : Testable e := by
  constructor
  · intro htype
    rw [htype] at h
    cases h
  · intro htype
    rw [htype] at h
    cases h

theorem testable_of_boolOpType {ctx : Context} {es : List Expr}
    (h : Typing.boolOpType ctx (es.map (·.type)) = .ok u) : ∀ e ∈ es, Testable e := by
  intro e he
  have hmem : e.type ∈ es.map (·.type) := List.mem_map_of_mem he
  cases ctx with
  | condition =>
    rw [Typing.boolOpType, conditionTypes_eq_ok] at h
    exact testable_of_conditionType (h.2 _ hmem)
  | value =>
    simp only [Typing.boolOpType] at h
    split at h
    · rename_i hall
      exact testable_of_type (by simpa using List.all_eq_true.1 hall _ hmem)
    · cases h

/-! ### Comparisons -/

theorem fits_comparison {op : Source.CompareOp} {cpp : Target.BinaryOp}
    (hop : comparisonOp op = .ok cpp) (hl : l.type ≠ .void) (hr : r.type ≠ .void)
    (hstring : l.type = .string ↔ r.type = .string)
    (htext : ¬ (l.isText = true ∧ r.isText = true)) : cpp.Fits l r .boolean := by
  cases op <;> cases hop <;> exact ⟨rfl, hl, hr, hstring, htext⟩

/-- Each link of a chain compares what can be compared, and no two literals. -/
theorem wellTyped_comparisonLinks {ops : List Source.CompareOp} {first : Expr}
    {rest links : List Expr} (hfirst : first.Each Expr.WellTyped)
    (hrest : ∀ e ∈ rest, e.Each Expr.WellTyped)
    (h : comparisonLinks ops first rest = .ok links) : ∀ e ∈ links, e.Each Expr.WellTyped := by
  induction rest generalizing ops first links with
  | nil =>
    obtain rfl : [] = links := by cases ops <;> simpa [comparisonLinks] using h
    simp
  | cons right rest ih =>
    cases ops with
    | nil =>
      obtain rfl : [] = links := by simpa [comparisonLinks] using h
      simp
    | cons op ops =>
      rw [List.forall_mem_cons] at hrest
      simp only [comparisonLinks, Checked.bind_eq_ok, Checked.pure_eq_ok] at h
      obtain ⟨u, hu, cpp, hcpp, later, hlater, rfl⟩ := h
      obtain ⟨hvoidLeft, hvoidRight, hstring⟩ := Typing.comparisonType_eq_ok hu
      refine List.forall_mem_cons.2 ⟨?_, ih hrest.1 hrest.2 hlater⟩
      -- Of two literals the left one is made a string object.
      by_cases htext : right.isText = true
      · rw [if_pos htext]
        rw [← type_stringObject_of_wellTyped hfirst.self] at hvoidLeft hstring
        refine Expr.each_binary.2 ⟨?_, wellTyped_stringObject hfirst, hrest.1⟩
        exact fits_comparison hcpp hvoidLeft hvoidRight hstring
          fun hboth => by simp [isText_stringObject] at hboth
      · rw [if_neg htext]
        refine Expr.each_binary.2 ⟨?_, hfirst, hrest.1⟩
        exact fits_comparison hcpp hvoidLeft hvoidRight hstring fun hboth => htext hboth.2

theorem wellTyped_comparisonExpr {ops : List Source.CompareOp} {comparators : List Source.Expr}
    {operands : List (Checked Expr)} (hoperands : ∀ e, .ok e ∈ operands → e.Each Expr.WellTyped)
    (h : comparisonExpr ops comparators operands = .ok t) : t.Each Expr.WellTyped := by
  simp only [comparisonExpr, Checked.guard_eq_ok, Checked.bind_eq_ok, Checked.sequence_eq_ok] at h
  obtain ⟨-, -, ts, rfl, h⟩ := h
  have hts : ∀ e ∈ ts, e.Each Expr.WellTyped :=
    fun e he => hoperands e (List.mem_map_of_mem he)
  split at h
  · simp at h
  · rename_i first rest
    simp only [Checked.bind_eq_ok] at h
    obtain ⟨links, hlinks, h⟩ := h
    rw [List.forall_mem_cons] at hts
    exact wellTyped_joined (.inl rfl) (wellTyped_comparisonLinks hts.1 hts.2 hlinks)
      (fun e he => testable_of_type ((comparisonLinks_eq_ok hlinks).2 e he)) h

/-! ### Calls -/

theorem wellTyped_castExpr {target : StaticType}
    (htarget : target = .integer ∨ target = .floating ∨ target = .boolean ∨ target = .string)
    (h : Typing.castType target e.type = .ok u) (he : e.Each Expr.WellTyped) :
    (castExpr target u e).Each Expr.WellTyped := by
  unfold castExpr
  split
  · split
    · exact he
    · exact Expr.each_call.2 ⟨trivial, by simpa using he⟩
  · rename_i hstring
    obtain ⟨hoperand, hvoid⟩ := Typing.ne_of_castType hstring h
    refine Expr.each_castTo.2 ⟨⟨?_, hoperand, hvoid, rfl⟩, he⟩
    tauto

theorem wellTyped_builtinCall {function : Source.Expr} {callee : Typing.Callee} {es : List Expr}
    (hcallee : Typing.callee env function = .ok callee) (hes : ∀ e ∈ es, e.Each Expr.WellTyped)
    (h : builtinCall callee es = .ok t) : t.Each Expr.WellTyped := by
  simp only [builtinCall, Checked.bind_eq_ok] at h
  obtain ⟨u, hu, h⟩ := h
  have hcall : ∀ f v, (Expr.call f es v).Each Expr.WellTyped :=
    fun f v => Expr.each_call.2 ⟨trivial, hes⟩
  split at h
  · rename_i target operand rest
    obtain rfl : castExpr target u operand = t := by simpa using h
    -- A conversion takes one argument.
    cases rest with
    | nil => exact wellTyped_castExpr (Typing.offered_of_callee hcallee) hu (hes _ (by simp))
    | cons => simp [Typing.builtinCallType] at hu
  · simp at h
  · obtain rfl := by simpa using h
    exact hcall _ _
  · obtain rfl := by simpa using h
    exact hcall _ _
  · split at h
    · obtain rfl := by simpa using h
      exact wellTyped_rounded (hcall _ _) rfl
    · obtain rfl := by simpa using h
      exact hcall _ _
  · simp at h
  · simp at h

theorem Delivers.wellTyped {found : List (Slot Expr)} {params : List SignatureParam}
    {as : List Expr} (h : Delivers found params as)
    (hsupplied : ∀ e, .supplied e ∈ found → e.Each Expr.WellTyped)
    (hdefault : ∀ p ∈ params, ∀ v, p.default = some v → v.Each Expr.WellTyped) :
    ∀ e ∈ as, e.Each Expr.WellTyped := by
  induction h with
  | rest => simp
  | concrete _ _ _ ih =>
    refine List.forall_mem_cons.2 ⟨hsupplied _ List.mem_cons_self, ih (fun e he => ?_) ?_⟩
    · exact hsupplied e (List.mem_cons_of_mem _ he)
    · exact (List.forall_mem_cons.1 hdefault).2
  | generic _ _ _ ih =>
    have he := wellTyped_stringObject (hsupplied _ List.mem_cons_self)
    refine List.forall_mem_cons.2 ⟨he, ih (fun e he => ?_) (List.forall_mem_cons.1 hdefault).2⟩
    exact hsupplied e (List.mem_cons_of_mem _ he)
  | default hp _ ih =>
    rw [List.forall_mem_cons] at hdefault
    refine List.forall_mem_cons.2 ⟨hdefault.1 _ hp, ih (fun e he => ?_) hdefault.2⟩
    exact hsupplied e (List.mem_cons_of_mem _ he)

theorem wellTyped_userCall {s : Signature} {ts : List Expr} {ks : List (String × Expr)}
    (hargs : ∀ e ∈ ts ++ ks.map Prod.snd, e.Each Expr.WellTyped)
    (hdefault : ∀ p ∈ s.params, ∀ v, p.default = some v → v.Each Expr.WellTyped)
    (h : userCall policy s (ts.map .ok) (ks.map (Prod.map id .ok)) = .ok t) :
    t.Each Expr.WellTyped := by
  obtain ⟨found, as, hfound, hdelivers, rfl⟩ := delivers_userCall h
  have hsupplied : ∀ e, .supplied e ∈ found → e.Each Expr.WellTyped :=
    fun e he => hargs e ((Typing.supplied_mem_iff hfound).1 he)
  exact Expr.each_call.2 ⟨trivial, hdelivers.wellTyped hsupplied hdefault⟩

/-! ### Literals and defaults -/

theorem fitsInt_of_intLiteralType {n : Int64} (h : Typing.intLiteralType n = .ok u) :
    Typing.fitsInt n = true := by
  unfold Typing.intLiteralType at h
  split at h
  · assumption
  · cases h

theorem wellTyped_of_defaultValue {default : Option Source.Expr} {v : Expr}
    (h : Typing.defaultValue default = .ok (some v)) : v.WellTyped := by
  cases default with
  | none => simp [Typing.defaultValue] at h
  | some e =>
    simp only [Typing.defaultValue, Checked.bind_eq_ok, Checked.ofOption_eq_ok] at h
    obtain ⟨value, hvalue, h⟩ := h
    have hform : value.WellTyped ∨ ∃ n, value = .ofInt n := by
      unfold Typing.literal? at hvalue
      split at hvalue <;> simp only [Option.some.injEq, reduceCtorEq] at hvalue <;> subst hvalue
      · exact .inr ⟨_, rfl⟩
      · exact .inl rfl
      · exact .inl rfl
      · exact .inl rfl
      · exact .inr ⟨_, rfl⟩
      · exact .inl rfl
    split at h
    · rename_i n u
      simp only [Checked.bind_eq_ok, Checked.pure_eq_ok, Option.some.injEq] at h
      obtain ⟨w, hw, rfl⟩ := h
      refine ⟨fitsInt_of_intLiteralType hw, ?_⟩
      rcases hform with hform | ⟨m, hm⟩
      · exact hform.2
      · exact (Expr.int.inj hm).2
    · rename_i hint
      simp only [Checked.pure_eq_ok, Option.some.injEq] at h
      subst h
      rcases hform with hform | ⟨m, rfl⟩
      · exact hform
      · exact absurd rfl (hint m .integer)

/-- The defaults that a header gives are literals in their range. -/
theorem wellTyped_of_signature {definition : Source.Stmt} {s : Signature}
    (h : Typing.signature policy definition = .ok s) {p : SignatureParam} (hp : p ∈ s.params)
    {v : Expr} (hv : p.default = some v) : v.Each Expr.WellTyped := by
  have hliteral := ((Typing.signature_eq_ok h).1 p hp v hv).1
  have hself : v.WellTyped := by
    cases definition with
    | functionDef site name parameters returns decorators body =>
      simp only [Typing.signature, Checked.guard_eq_ok, Checked.bind_eq_ok,
        Checked.pure_eq_ok] at h
      obtain ⟨-, params, hparams, returned, -, rfl⟩ := h
      obtain ⟨e, hdefault, -⟩ := Typing.default_of_signatureParams hparams p hp
      exact wellTyped_of_defaultValue (hv ▸ hdefault)
    | _ => simp [Typing.signature] at h
  simpa [Expr.Each, nodes_of_isLiteral hliteral] using hself

theorem acceptedDefaults_programGlobals (policy : Policy) (body : List Source.Stmt) :
    (programGlobals policy body).AcceptedDefaults :=
  forall_functions_programGlobals
    (fun d _ s hs p hp _ hv => ⟨policy, d, s, hs, p, hp, hv⟩) fun _ _ hs => hs

/-! ### Expressions -/

theorem wellTyped_callExpr (hdefaults : env.globals.AcceptedDefaults) {function : Source.Expr}
    {ts : List Expr} {ks : List (String × Expr)}
    (hargs : ∀ e ∈ ts ++ ks.map Prod.snd, e.Each Expr.WellTyped)
    (h : callExpr env policy function (ts.map .ok) (ks.map (Prod.map id .ok)) = .ok t) :
    t.Each Expr.WellTyped := by
  rcases callExpr_eq_ok h with ⟨name, s, -, hs, h⟩ | ⟨builtin, es, hcallee, -, hes, h⟩
  · refine wellTyped_userCall hargs (fun p hp v hv => ?_) h
    obtain ⟨policy, definition, accepted, hheader, q, hq, hv⟩ :=
      hdefaults s (List.mem_of_find?_eq_some hs) p hp v hv
    exact wellTyped_of_signature hheader hq hv
  · obtain rfl := List.map_injective_iff.2 (fun _ _ => Except.ok.inj) hes
    exact wellTyped_builtinCall hcallee (List.forall_mem_append.1 hargs).1 h

/-- **Lowered expressions are well typed**: every node fits the nodes right below it. -/
theorem wellTyped_lower (env : Environment) (policy : Policy) (ctx : Context) (e : Source.Expr)
    (t : Expr) (hdefaults : env.globals.AcceptedDefaults) (h : lower env policy ctx e = .ok t) :
    ∀ n ∈ t.nodes, n.WellTyped := by
  change t.Each Expr.WellTyped
  induction e using Source.Expr.induction generalizing ctx t with
  | step e ih =>
    have ihs : ∀ ctx es, (∀ c ∈ es, c ∈ e.children) →
        ∀ t, .ok t ∈ lowerList env policy ctx es → t.Each Expr.WellTyped := by
      intro ctx es hes t ht
      rw [lowerList_eq_map] at ht
      obtain ⟨c, hc, hct⟩ := List.mem_map.1 ht
      exact ih c (hes c hc) ctx t hct
    cases e with
    | int site n =>
      simp only [lower, Checked.bind_eq_ok, Checked.pure_eq_ok] at h
      obtain ⟨u, hu, rfl⟩ := h
      exact List.forall_mem_singleton.2 ⟨fitsInt_of_intLiteralType hu, rfl⟩
    | float site x | bool site b | str site s =>
      obtain rfl := Except.ok.inj h
      exact List.forall_mem_singleton.2 rfl
    | name site x =>
      simp only [lower, Checked.bind_eq_ok, Checked.pure_eq_ok] at h
      obtain ⟨u, -, rfl⟩ := h
      exact Expr.each_var.2 trivial
    | binary site op left right =>
      simp only [lower, Checked.bind_eq_ok] at h
      obtain ⟨l, hl, r, hr, h⟩ := h
      exact wellTyped_binaryExpr (ih left (by simp [Source.Expr.children]) _ _ hl)
        (ih right (by simp [Source.Expr.children]) _ _ hr) h
    | boolOp site op values =>
      simp only [lower, boolOpExpr, Checked.bind_eq_ok, Checked.sequence_eq_ok] at h
      obtain ⟨ts, hts, u, hu, h⟩ := h
      refine wellTyped_joined (by cases op <;> simp [logicalOp]) (fun t ht => ?_)
        (testable_of_boolOpType hu) h
      exact ihs ctx values (fun _ he => he) t (hts ▸ List.mem_map_of_mem ht)
    | unary site op operand =>
      simp only [lower, Checked.bind_eq_ok, Checked.pure_eq_ok] at h
      obtain ⟨e, he, u, hu, rfl⟩ := h
      exact Expr.each_unary.2
        ⟨⟨op, rfl, hu⟩, ih operand (by simp [Source.Expr.children]) _ _ he⟩
    | compare site left ops comparators =>
      rw [lower] at h
      exact wellTyped_comparisonExpr (ihs .value (left :: comparators) fun _ he => he) h
    | call site function arguments keywords =>
      rw [lower] at h
      obtain ⟨ts, ks, hts, hks⟩ := callExpr_arguments h
      rw [hts, hks] at h
      refine wellTyped_callExpr hdefaults (List.forall_mem_append.2 ⟨?_, ?_⟩) h
      · intro e he
        exact ihs .value arguments (fun _ hc => by simp [Source.Expr.children, hc]) e
          (hts ▸ List.mem_map_of_mem he)
      · intro e he
        exact ihs .value (keywords.map Prod.snd) (fun _ hc => by simp [Source.Expr.children, hc]) e
          (lowerList_keywords hks ▸ List.mem_map_of_mem he)
    | none | attr | list | tuple | set | dict | named | other => simp [lower] at h

end Lowering

open Source.Compose in
/-- `"a" == "b" or not (n // 2 % 3 < n / scale(label="c", x=n))` -/
def Source.expanded : Source.Expr :=
  boolOp .or [compare (str "a") [(.eq, str "b")],
    unary .not (compare (binary (binary (name "n") .floorDiv (int 2)) .mod (int 3))
      [(.lt, binary (name "n") .div
        (call (name "scale") [] [("label", str "c"), ("x", name "n")]))])]

/-- The operators of the expression are expanded, and the call holds a copy of a default. -/
theorem Lowering.expanded_wellTyped :
    let globals := programGlobals ⟨.template, .keep⟩ Source.scaling.body
    let env := (Environment.ofGlobals globals).declare "n" .integer
    globals.AcceptedDefaults ∧
      ∃ t, lower env ⟨.template, .keep⟩ .condition Source.expanded = .ok t ∧
        ∀ n ∈ t.nodes, n.WellTyped := by
  intro globals env
  have hdefaults := acceptedDefaults_programGlobals ⟨.template, .keep⟩ Source.scaling.body
  have hlower : (lower env ⟨.template, .keep⟩ .condition Source.expanded).isOk = true := by
    decide +kernel
  obtain ⟨t, ht⟩ := Checked.isOk_iff.1 hlower
  exact ⟨hdefaults, t, ht, wellTyped_lower env _ _ _ t hdefaults ht⟩

end StaticScript
