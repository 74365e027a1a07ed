import StaticScript.Proofs.Lowering.Types

/-!
# What has been typed can be lowered

The converse of `check_of_lower`: an expression whose check succeeds has a counterpart in C++
(`lower_of_check`).  Two kinds of expressions are checked to be `void` and have none, `None` and the
calls of `print`; since no operator and no function takes a `void` operand, they can only be the
expression itself.

An `and` or `or` without operands would be checked to be a truth value, and there is nothing that it
could become.
-/

namespace StaticScript

/-- The expression stands for no value: it is `None`, or it calls `print`. -/
def Typing.Valueless (env : Environment) : Source.Expr → Prop
  | .none _ => True
  | .call _ function _ _ => callee env function = .ok .print
  | _ => False

namespace Lowering

open Typing (Context Slot Valueless check conditionType)

variable {env : Environment} {policy : Policy}

/-! ### No rule takes a `void` operand -/

theorem ne_void_of_binaryType {op : Source.BinaryOp} {left right t : StaticType}
    (h : Typing.binaryType op left right = .ok t) : left ≠ .void ∧ right ≠ .void := by
  unfold Typing.binaryType at h
  split at h
  · cases h
  · rename_i hvoid
    exact not_or.1 hvoid

theorem ne_void_of_unaryType {op : Source.UnaryOp} {t u : StaticType}
    (h : Typing.unaryType op t = .ok u) : t ≠ .void := by
  rintro rfl
  cases op <;> simp [Typing.unaryType] at h

theorem ne_void_of_conditionType {t u : StaticType} (h : conditionType t = .ok u) :
    t ≠ .void := by
  rintro rfl
  cases h

theorem ne_void_of_boolOpType {ctx : Context} {ts : List StaticType} {u : StaticType}
    (h : Typing.boolOpType ctx ts = .ok u) : ∀ t ∈ ts, t ≠ .void := by
  intro t ht
  cases ctx with
  | condition =>
    rw [Typing.boolOpType, conditionTypes_eq_ok] at h
    exact ne_void_of_conditionType (h.2 t ht)
  | value =>
    simp only [Typing.boolOpType] at h
    split at h
    · rename_i hall
      have hboolean : t = .boolean := by simpa using List.all_eq_true.1 hall t ht
      simp [hboolean]
    · cases h

theorem ne_void_of_comparisonType {op : Source.CompareOp} {left right t : StaticType}
    (h : Typing.comparisonType op left right = .ok t) : left ≠ .void ∧ right ≠ .void := by
  unfold Typing.comparisonType at h
  split at h
  · cases h
  · cases left <;> cases right <;> simp at h ⊢

theorem ne_void_of_chainType {ops : List Source.CompareOp} {first t : StaticType}
    {rest : List StaticType} (h : Typing.chainType ops first rest = .ok t)
    (hlen : ops.length = rest.length) (hne : ops ≠ []) : ∀ u ∈ first :: rest, u ≠ .void := by
  induction rest generalizing ops first with
  | nil => exact absurd (List.length_eq_zero_iff.1 hlen) hne
  | cons right rest ih =>
    cases ops with
    | nil => cases hlen
    | cons op ops =>
      simp only [Typing.chainType, Checked.bind_eq_ok] at h
      obtain ⟨v, hv, h⟩ := h
      obtain ⟨hfirst, hright⟩ := ne_void_of_comparisonType hv
      refine List.forall_mem_cons.2 ⟨hfirst, ?_⟩
      cases ops with
      | nil =>
        obtain rfl : rest = [] := List.length_eq_zero_iff.1 (Nat.succ.inj hlen).symm
        simpa using hright
      | cons op' ops => exact ih h (Nat.succ.inj hlen) (by simp)

theorem ne_void_of_builtinCallType {callee : Typing.Callee} {ts : List StaticType} {u : StaticType}
    (h : Typing.builtinCallType callee ts = .ok u) : ∀ t ∈ ts, t ≠ .void := by
  unfold Typing.builtinCallType at h
  split at h
  · split at h
    · cases h
    · rename_i hvoid
      exact fun t ht heq => hvoid (heq ▸ ht)
  · rename_i target t
    have ht : t ≠ .void := by
      rintro rfl
      cases target <;> simp [Typing.castType] at h
    simpa using ht
  · rename_i t
    have ht : t ≠ .void := by
      rintro rfl
      simp [StaticType.isArithmetic, StaticType.isNumeric] at h
    simpa using ht
  · simpa using ne_void_of_binaryType h
  · rename_i t
    have ht : t ≠ .void := by
      rintro rfl
      simp [StaticType.isArithmetic, StaticType.isNumeric] at h
    simpa using ht
  · cases h
  · cases h

/-! ### Operations on operands whose types fit -/

theorem exists_binaryExpr {op : Source.BinaryOp} (calls : Bool) {left right : Target.Expr}
    {t : StaticType} (h : Typing.binaryType op left.type right.type = .ok t)
    (hcalls : op = .mod → calls = false) : ∃ e, binaryExpr op calls left right = .ok e := by
  cases op with
  | matMult =>
    simp only [Typing.binaryType] at h
    split at h <;> cases h
  | mod =>
    obtain rfl := hcalls rfl
    simp [binaryExpr, h]
  | _ => simp [binaryExpr, h]

theorem exists_joined (op : Target.BinaryOp) {es : List Target.Expr} (h : es ≠ []) :
    ∃ e, joined op es = .ok e := by
  cases es with
  | nil => exact absurd rfl h
  | cons e es => exact ⟨_, rfl⟩

theorem exists_boolOpExpr (op : Source.BoolOp) {ctx : Context} {checked : List StaticType}
    {operands : List Target.Expr} {u : StaticType}
    (hagree : List.Forall₂ (Agrees ctx) checked operands) (hne : operands ≠ [])
    (h : Typing.boolOpType ctx checked = .ok u) : ∃ e, boolOpExpr op ctx operands = .ok e := by
  obtain ⟨e, he⟩ := exists_joined (logicalOp op) hne
  have htype : ∃ v, Typing.boolOpType ctx (operands.map (·.type)) = .ok v := by
    cases ctx with
    | value => exact ⟨u, forall₂_agrees_value.1 hagree ▸ h⟩
    | condition =>
      rw [Typing.boolOpType, conditionTypes_eq_ok] at h
      refine ⟨.boolean, conditionTypes_eq_ok.2 ⟨rfl, List.forall_mem_map.2 fun t ht => ?_⟩⟩
      obtain ⟨c, hc, hct⟩ := Checked.exists_of_forall₂ hagree.flip ht
      exact Agrees.conditionType hct (h.2 c hc)
  obtain ⟨v, hv⟩ := htype
  exact ⟨e, by simp [boolOpExpr, hv, he]⟩

theorem exists_comparisonOp {op : Source.CompareOp} {left right t : StaticType}
    (h : Typing.comparisonType op left right = .ok t) : ∃ cpp, comparisonOp op = .ok cpp := by
  unfold Typing.comparisonType at h
  split at h
  · cases h
  · rename_i hop
    cases op <;> simp [Source.CompareOp.isIdentityOrMembership] at hop <;> exact ⟨_, rfl⟩

theorem exists_comparisonLinks {ops : List Source.CompareOp} {first : Target.Expr}
    {rest : List Target.Expr} {t : StaticType}
    (h : Typing.chainType ops first.type (rest.map (·.type)) = .ok t)
    (hlen : ops.length = rest.length) :
    ∃ links, comparisonLinks ops first rest = .ok links ∧ links.length = ops.length := by
  induction rest generalizing ops first with
  | nil =>
    obtain rfl := List.length_eq_zero_iff.1 hlen
    exact ⟨[], rfl, rfl⟩
  | cons right rest ih =>
    cases ops with
    | nil => cases hlen
    | cons op ops =>
      simp only [List.map_cons, Typing.chainType, Checked.bind_eq_ok] at h
      obtain ⟨v, hv, h⟩ := h
      obtain ⟨cpp, hcpp⟩ := exists_comparisonOp hv
      obtain ⟨links, hlinks, hlinksLen⟩ := ih h (Nat.succ.inj hlen)
      simp only [comparisonLinks, Checked.bind_eq_ok, Checked.pure_eq_ok]
      exact ⟨_, ⟨v, hv, cpp, hcpp, links, hlinks, rfl⟩, by simp [hlinksLen]⟩

theorem exists_comparisonExpr {ops : List Source.CompareOp} {comparators : List Source.Expr}
    {first : Target.Expr} {rest : List Target.Expr} {t : StaticType}
    (hne : ops ≠ []) (hlen : ops.length = comparators.length)
    (hrest : rest.length = comparators.length)
    (hcalls : comparators.dropLast.any (·.containsCall) = false)
    (h : Typing.chainType ops first.type (rest.map (·.type)) = .ok t) :
    ∃ e, comparisonExpr ops comparators ((first :: rest).map .ok) = .ok e := by
  obtain ⟨links, hlinks, hlinksLen⟩ := exists_comparisonLinks h (hlen.trans hrest.symm)
  have hlinksNe : links ≠ [] := by
    rintro rfl
    exact hne (List.length_eq_zero_iff.1 hlinksLen.symm)
  obtain ⟨e, he⟩ := exists_joined .logicalAnd hlinksNe
  refine ⟨e, ?_⟩
  simp only [comparisonExpr, Checked.guard_eq_ok, Checked.bind_eq_ok, Checked.sequence_eq_ok]
  refine ⟨by simp [hne, hlen], by simp [hcalls], first :: rest, rfl, ?_⟩
  simp only [Checked.bind_eq_ok]
  exact ⟨links, hlinks, he⟩

/-! ### Calls -/

theorem exists_builtinCall {callee : Typing.Callee} {ts : List Target.Expr} {u : StaticType}
    (h : Typing.builtinCallType callee (ts.map (·.type)) = .ok u) (hprint : callee ≠ .print) :
    ∃ e, builtinCall callee ts = .ok e := by
  simp only [builtinCall, Checked.bind_eq_ok]
  cases callee with
  | print => exact absurd rfl hprint
  | user name => simp [Typing.builtinCallType] at h
  | cast target =>
    cases ts with
    | nil => simp [Typing.builtinCallType] at h
    | cons operand ts => exact ⟨_, u, h, rfl⟩
  | abs | pow => exact ⟨_, u, h, rfl⟩
  | math name =>
    by_cases hu : u = .integer
    · exact ⟨_, u, h, if_pos hu⟩
    · exact ⟨_, u, h, if_neg hu⟩

/-- Arguments that fit their parameters are no misfit. -/
theorem argumentCategory?_of_argumentsFit
    {ps : List (Slot (Checked StaticType) × SignatureParam)}
    (h : Typing.argumentsFit ps = .ok none) {t : StaticType} {param : SignatureParam}
    (hp : (.supplied (.ok t), param) ∈ ps) : Typing.argumentCategory? t param.type = none := by
  induction ps with
  | nil => cases hp
  | cons p ps ih =>
    obtain ⟨result | value, q⟩ := p
    · simp only [Typing.argumentsFit, Checked.bind_eq_ok, Checked.pure_eq_ok] at h
      obtain ⟨u, rfl, later, hlater, h⟩ := h
      rcases hfit : Typing.argumentCategory? u q.type with _ | c
      · rw [hfit] at h
        subst h
        rcases List.mem_cons.1 hp with heq | hp
        · simp only [Prod.mk.injEq, Slot.supplied.injEq, Except.ok.injEq] at heq
          obtain ⟨rfl, rfl⟩ := heq
          exact hfit
        · exact ih hlater hp
      · rw [hfit] at h
        cases later <;> cases h
    · exact ih h (by simpa using hp)

theorem exists_userArguments {found : List (Slot Target.Expr)} {params : List SignatureParam}
    (h : ∀ e param, (.supplied e, param) ∈ found.zip params →
      Typing.argumentCategory? e.type param.type = none) :
    ∃ as, userArguments ((found.map (Slot.map .ok)).zip params) = .ok as := by
  induction found generalizing params with
  | nil => exact ⟨[], rfl⟩
  | cons slot found ih =>
    cases params with
    | nil => exact ⟨[], rfl⟩
    | cons param params =>
      obtain ⟨as, has⟩ := ih fun e q hq => h e q (List.mem_cons_of_mem _ hq)
      cases slot with
      | default value => exact ⟨value :: as, by simp [Slot.map, userArguments, has]⟩
      | supplied e =>
        have hfit := h e param List.mem_cons_self
        simp only [List.map_cons, Slot.map, List.zip_cons_cons, userArguments, Checked.bind_eq_ok,
          Except.ok.injEq, exists_eq_left', hfit, Checked.pure_eq_ok]
        exact ⟨_, as, has, rfl⟩

theorem exists_userCall {s : Signature} {ts : List Target.Expr} {ks : List (String × Target.Expr)}
    {u : StaticType} (h : Typing.userCallType policy s (ts.map fun e => .ok e.type)
      (ks.map (Prod.map id fun e => .ok e.type)) = .ok u) :
    ∃ e, userCall policy s (ts.map .ok) (ks.map (Prod.map id .ok)) = .ok e := by
  simp only [Typing.userCallType, Typing.bindArguments_map, Checked.bind_eq_ok,
    Checked.map_eq_ok] at h
  obtain ⟨_, ⟨found, hfound, rfl⟩, misfit, hmisfit, h⟩ := h
  cases misfit with
  | some c => simp at h
  | none =>
    have hfit : ∀ e param, (.supplied e, param) ∈ found.zip s.params →
        Typing.argumentCategory? e.type param.type = none := by
      intro e param hmem
      refine argumentCategory?_of_argumentsFit hmisfit ?_
      rw [List.zip_map_left]
      exact List.mem_map.2 ⟨_, hmem, rfl⟩
    obtain ⟨as, has⟩ := exists_userArguments hfit
    simp only [userCall, Typing.bindArguments_map, Checked.bind_eq_ok, Checked.map_eq_ok,
      Checked.pure_eq_ok]
    exact ⟨_, _, ⟨found, hfound, rfl⟩, as, has, rfl⟩

/-- No argument of a function of the program is `void`. -/
theorem ne_void_of_userCallType {s : Signature} {arguments : List (Checked StaticType)}
    {keywords : List (String × Checked StaticType)} {u : StaticType}
    (h : Typing.userCallType policy s arguments keywords = .ok u) {t : StaticType}
    (ht : .ok t ∈ arguments ++ keywords.map Prod.snd) : t ≠ .void := by
  simp only [Typing.userCallType, Checked.bind_eq_ok] at h
  obtain ⟨found, hfound, misfit, hmisfit, h⟩ := h
  cases misfit with
  | some c => simp at h
  | none =>
    have hmem := (Typing.supplied_mem_iff hfound).2 ht
    rw [← List.map_fst_zip (Typing.fills_bindArguments hfound).length_le] at hmem
    obtain ⟨⟨slot, param⟩, hp, rfl⟩ := List.mem_map.1 hmem
    exact (argumentCategory?_eq_none.1 (argumentCategory?_of_argumentsFit hmisfit hp)).1

/-! ### Expressions -/

/-- The expression has a counterpart in every context in which it is checked to have a value. -/
def Lowers (env : Environment) (policy : Policy) (e : Source.Expr) : Prop :=
  ∀ ctx u, check env policy ctx e = .ok u → u ≠ .void → ∃ t, lower env policy ctx e = .ok t

theorem Lowers.agrees {e : Source.Expr} (he : Lowers env policy e) {ctx : Context} {u : StaticType}
    (hu : check env policy ctx e = .ok u) (hvoid : u ≠ .void) :
    ∃ t, lower env policy ctx e = .ok t ∧ Agrees ctx u t := by
  obtain ⟨t, ht⟩ := he ctx u hu hvoid
  obtain ⟨v, hv, hagree⟩ := check_of_lower ht
  obtain rfl := Except.ok.inj (hu.symm.trans hv)
  exact ⟨t, ht, hagree⟩

theorem lowerList_of_checkList {ctx : Context} {es : List Source.Expr} {us : List StaticType}
    (hes : ∀ e ∈ es, Lowers env policy e) (hvoid : ∀ u ∈ us, u ≠ .void)
    (h : Typing.checkList env policy ctx es = us.map .ok) :
    ∃ ts : List Target.Expr, lowerList env policy ctx es = ts.map .ok ∧
      List.Forall₂ (Agrees ctx) us ts := by
  induction es generalizing us with
  | nil =>
    obtain rfl : us = [] := by simpa [Typing.checkList] using h
    exact ⟨[], rfl, .nil⟩
  | cons e es ih =>
    cases us with
    | nil => simp [Typing.checkList] at h
    | cons u us =>
      simp only [Typing.checkList, List.map_cons, List.cons.injEq] at h
      rw [List.forall_mem_cons] at hes hvoid
      obtain ⟨t, ht, hagree⟩ := hes.1.agrees h.1 hvoid.1
      obtain ⟨ts, hts, hagrees⟩ := ih hes.2 hvoid.2 h.2
      exact ⟨t :: ts, by simp [lowerList, ht, hts], .cons hagree hagrees⟩

/-- A chain of comparisons whose operands have counterparts has one itself. -/
theorem exists_comparison {ops : List Source.CompareOp} {left : Source.Expr}
    {comparators : List Source.Expr} {u : StaticType}
    (hes : ∀ e ∈ left :: comparators, Lowers env policy e)
    (h : Typing.comparisonsType ops comparators
      (Typing.checkList env policy .value (left :: comparators)) = .ok u) :
    ∃ t, comparisonExpr ops comparators (lowerList env policy .value (left :: comparators)) =
      .ok t := by
  simp only [Typing.comparisonsType, Checked.guard_eq_ok, Checked.bind_eq_ok,
    Checked.all_eq_ok, Bool.or_eq_true, not_or, List.isEmpty_iff, ne_eq, decide_eq_true_eq,
    not_not] at h
  obtain ⟨⟨hne, hlen⟩, us, hus, h⟩ := h
  cases us with
  | nil => cases hus
  | cons first rest =>
    simp only [Checked.guard_eq_ok] at h
    have hrest : rest.length = comparators.length := by
      simpa [Typing.checkList_eq_map] using (congrArg List.length hus).symm
    obtain ⟨ts, hts, hagree⟩ := lowerList_of_checkList hes
      (ne_void_of_chainType h.2 (hlen.trans hrest.symm) hne) hus
    rw [forall₂_agrees_value] at hagree
    cases ts with
    | nil => cases hagree
    | cons t ts =>
      obtain ⟨rfl, rfl⟩ := List.cons.inj hagree
      rw [hts]
      exact exists_comparisonExpr hne hlen (by simpa using hrest) (by simpa using h.1) h.2

theorem exists_lowerList {ctx : Context} {es : List Source.Expr}
    (h : ∀ e ∈ es, ∃ t, lower env policy ctx e = .ok t) :
    ∃ ts : List Target.Expr, lowerList env policy ctx es = ts.map .ok := by
  induction es with
  | nil => exact ⟨[], rfl⟩
  | cons e es ih =>
    rw [List.forall_mem_cons] at h
    obtain ⟨t, ht⟩ := h.1
    obtain ⟨ts, hts⟩ := ih h.2
    exact ⟨t :: ts, by simp [lowerList, ht, hts]⟩

theorem exists_lowerKeywords {keywords : List (String × Source.Expr)}
    (h : ∀ k ∈ keywords, ∃ t, lower env policy .value k.2 = .ok t) :
    ∃ ks : List (String × Target.Expr),
      lowerKeywords env policy keywords = ks.map (Prod.map id .ok) := by
  induction keywords with
  | nil => exact ⟨[], rfl⟩
  | cons k keywords ih =>
    rw [List.forall_mem_cons] at h
    obtain ⟨t, ht⟩ := h.1
    obtain ⟨ks, hks⟩ := ih h.2
    exact ⟨(k.1, t) :: ks, by simp [lowerKeywords, ht, hks]⟩

/-- A call whose arguments have counterparts has one itself, unless it prints. -/
theorem exists_callExpr {function : Source.Expr} {arguments : List Source.Expr}
    {keywords : List (String × Source.Expr)} {u : StaticType}
    (hargs : ∀ e ∈ arguments ++ keywords.map Prod.snd, Lowers env policy e)
    (hprint : Typing.callee env function ≠ .ok .print)
    (h : Typing.callType env policy function (Typing.checkList env policy .value arguments)
      (Typing.checkKeywords env policy keywords) = .ok u) :
    ∃ t, callExpr env policy function (lowerList env policy .value arguments)
      (lowerKeywords env policy keywords) = .ok t := by
  simp only [Typing.callType, Checked.bind_eq_ok, Checked.both_eq_ok, Checked.all_eq_ok] at h
  obtain ⟨⟨callee, types⟩, ⟨hcallee, htypes⟩, h⟩ := h
  dsimp only at hcallee htypes h
  -- No rule for a call takes a `void` argument, so the hypotheses apply to all of them.
  have hvoid : ∀ t ∈ types, t ≠ .void := by
    cases callee with
    | user name =>
      simp only [Checked.bind_eq_ok] at h
      obtain ⟨s, -, h⟩ := h
      exact fun t ht => ne_void_of_userCallType h (htypes ▸ List.mem_map_of_mem ht)
    | _ =>
      simp only at h
      split at h
      · exact ne_void_of_builtinCallType h
      · simp at h
  have hlower : ∀ e ∈ arguments ++ keywords.map Prod.snd, ∃ t,
      lower env policy .value e = .ok t := by
    intro e he
    have hmem : check env policy .value e ∈ types.map .ok := by
      rw [← htypes, Typing.checkList_eq_map, Typing.checkKeywords_eq_map, List.map_map]
      have hmap := List.mem_map_of_mem (f := check env policy .value) he
      rwa [List.map_append, List.map_map] at hmap
    obtain ⟨t, ht, hcheck⟩ := List.mem_map.1 hmem
    exact hargs e he .value t hcheck.symm (hvoid t ht)
  rw [List.forall_mem_append, List.forall_mem_map] at hlower
  obtain ⟨ts, hts⟩ := exists_lowerList hlower.1
  obtain ⟨ks, hks⟩ := exists_lowerKeywords hlower.2
  rw [checkList_of_lowerList hts fun _ _ _ => check_value_of_lower,
    checkKeywords_of_lowerKeywords hks fun _ _ _ => check_value_of_lower] at htypes h
  simp only [callExpr, hcallee, Checked.bind_eq_ok, Except.ok.injEq, exists_eq_left', hts, hks]
  cases callee with
  | user name =>
    simp only [Checked.bind_eq_ok] at h ⊢
    obtain ⟨s, hs, h⟩ := h
    obtain ⟨t, ht⟩ := exists_userCall h
    exact ⟨t, s, hs, ht⟩
  | print => exact absurd hcallee hprint
  | _ =>
    simp only at h
    split at h
    · rename_i hempty
      obtain rfl : ks = [] := by simpa using hempty
      obtain rfl : ts.map (·.type) = types := by
        refine List.map_injective_iff.2 (fun _ _ => Except.ok.inj) (Eq.trans ?_ htypes)
        simp [Function.comp_def]
      obtain ⟨t, ht⟩ := exists_builtinCall h (by simp)
      exact ⟨t, by simpa using ⟨ts, rfl, ht⟩⟩
    · simp at h

theorem callType_print {function : Source.Expr} {arguments : List (Checked StaticType)}
    {keywords : List (String × Checked StaticType)} {u : StaticType}
    (hcallee : Typing.callee env function = .ok .print)
    (h : Typing.callType env policy function arguments keywords = .ok u) : u = .void := by
  simp only [Typing.callType, hcallee, Checked.bind_eq_ok, Checked.both_eq_ok] at h
  obtain ⟨⟨callee, types⟩, ⟨hprint, -⟩, h⟩ := h
  obtain rfl := Except.ok.inj hprint
  simp only [Typing.builtinCallType] at h
  repeat' split at h
  all_goals simp_all

theorem exists_unary {op : Source.UnaryOp} {checked u : StaticType} {t : Target.Expr}
    (hagree : Agrees (if op = .not then .condition else .value) checked t)
    (h : Typing.unaryType op checked = .ok u) : ∃ v, Typing.unaryType op t.type = .ok v := by
  rcases hagree with rfl | ⟨hctx, rfl, hcond⟩
  · exact ⟨u, h⟩
  · obtain rfl : op = .not := by
      by_contra hne
      simp [hne] at hctx
    refine ⟨.boolean, ?_⟩
    revert hcond
    cases t.type <;> simp [conditionType, Typing.unaryType]

/-- **What has been typed can be lowered**, unless it stands for no value. -/
theorem lower_of_check {ctx : Context} {e : Source.Expr} {u : StaticType}
    (hops : e.hasOperands = true) (h : check env policy ctx e = .ok u) :
    (∃ t, lower env policy ctx e = .ok t ∧ Agrees ctx u t) ∨ Valueless env e ∧ u = .void := by
  -- That the types agree follows from the lowering alone.
  suffices hlower : (∃ t, lower env policy ctx e = .ok t) ∨ Valueless env e ∧ u = .void by
    refine hlower.imp_left ?_
    rintro ⟨t, ht⟩
    obtain ⟨v, hv, hagree⟩ := check_of_lower ht
    obtain rfl := Except.ok.inj (h.symm.trans hv)
    exact ⟨t, ht, hagree⟩
  induction e using Source.Expr.induction generalizing ctx u with
  | step e ih =>
    -- An operand that stands for no value is `void`, which no rule takes.
    have ih : ∀ c ∈ e.children, Lowers env policy c := by
      intro c hc ctx u hu hvoid
      exact (ih c hc (Source.Expr.hasOperands_of_mem_children hops hc) hu).resolve_right
        fun hnone => hvoid hnone.2
    cases e with
    | int site n => exact .inl ⟨_, by simp only [lower, Checked.bind_eq_ok]; exact ⟨u, h, rfl⟩⟩
    | float | bool | str => exact .inl ⟨_, rfl⟩
    | none site => exact .inr ⟨trivial, (Except.ok.inj h).symm⟩
    | name site x =>
      exact .inl ⟨_, by simp only [lower, Checked.bind_eq_ok]; exact ⟨u, h, rfl⟩⟩
    | binary site op left right =>
      simp only [check, Checked.bind_eq_ok, Checked.both_eq_ok, Checked.guard_eq_ok] at h
      obtain ⟨⟨l, r⟩, ⟨hl, hr⟩, t, ht, hcalls, -⟩ := h
      obtain ⟨hvoidLeft, hvoidRight⟩ := ne_void_of_binaryType ht
      obtain ⟨le, hle, hagreeLeft⟩ :=
        (ih left (by simp [Source.Expr.children])).agrees hl hvoidLeft
      obtain ⟨re, hre, hagreeRight⟩ :=
        (ih right (by simp [Source.Expr.children])).agrees hr hvoidRight
      rw [agrees_value] at hagreeLeft hagreeRight
      subst hagreeLeft hagreeRight
      obtain ⟨e, he⟩ := exists_binaryExpr right.containsCall ht
        fun hmod => by simpa [hmod] using hcalls
      exact .inl ⟨e, by simp only [lower, Checked.bind_eq_ok]; exact ⟨le, hle, re, hre, he⟩⟩
    | boolOp site op values =>
      simp only [check, Checked.bind_eq_ok, Checked.all_eq_ok] at h
      obtain ⟨us, hus, h⟩ := h
      obtain ⟨ts, hts, hagree⟩ := lowerList_of_checkList ih (ne_void_of_boolOpType h) hus
      have hne : ts ≠ [] := by
        rintro rfl
        refine Source.Expr.ne_nil_of_hasOperands hops ?_
        simpa [lowerList_eq_map, Source.Expr.children] using hts
      obtain ⟨e, he⟩ := exists_boolOpExpr op hagree hne h
      refine .inl ⟨e, ?_⟩
      simp only [lower, Checked.bind_eq_ok, Checked.sequence_eq_ok]
      exact ⟨ts, hts, he⟩
    | unary site op operand =>
      simp only [check, Checked.bind_eq_ok] at h
      obtain ⟨v, hv, h⟩ := h
      obtain ⟨t, ht, hagree⟩ :=
        (ih operand (by simp [Source.Expr.children])).agrees hv (ne_void_of_unaryType h)
      obtain ⟨w, hw⟩ := exists_unary hagree h
      exact .inl ⟨_, by simp only [lower, Checked.bind_eq_ok]; exact ⟨t, ht, w, hw, rfl⟩⟩
    | compare site left ops comparators =>
      rw [lower]
      exact .inl (exists_comparison ih h)
    | call site function arguments keywords =>
      by_cases hprint : Typing.callee env function = .ok .print
      · exact .inr ⟨hprint, callType_print hprint h⟩
      · refine .inl ?_
        rw [lower]
        exact exists_callExpr (fun e he => ih e (List.mem_cons_of_mem _ he)) hprint h
    | list | tuple | set | dict | named | attr | other => simp [check] at h

end Lowering

end StaticScript
