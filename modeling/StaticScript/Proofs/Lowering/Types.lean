import StaticScript.Lowering.Expression
import StaticScript.Proofs.Target.Tree
import StaticScript.Proofs.Typing.Failure
import Mathlib.Data.Set.List

/-!
# Types of lowered expressions

`Becomes ctx e t` says what an expression becomes, with one rule for each construct that has a
counterpart in C++, and the rules cover what lowering does (`becomes_of_lower`).

What is lowered has been typed: if an expression has a counterpart, its check succeeds, and with the
type that the counterpart carries (`check_of_lower`).  There is one exception, an `and` or
`or` with a single operand where a condition is asked for: it is checked to be a truth value, but
its counterpart is the operand, which may have any type that can be tested.
-/

namespace StaticScript

namespace Typing

/-- There is such a conversion, or such a mathematical function. -/
def Callee.Offered : Callee → Prop
  | .cast target =>
    target = .integer ∨ target = .floating ∨ target = .boolean ∨ target = .string
  | .math name => name ∈ mathFunctions
  | _ => True

theorem offered_of_callee {env : Environment} {function : Source.Expr} {c : Callee}
    (h : callee env function = .ok c) : c.Offered := by
  cases function with
  | name site x =>
    simp only [callee] at h
    split at h
    · obtain rfl := Except.ok.inj h
      trivial
    · rw [Checked.ite_error_eq_ok, Checked.ofOption_eq_ok] at h
      have hbuiltin := h.2
      unfold builtinCallee? at hbuiltin
      split at hbuiltin
      case h_8 =>
        rw [Option.ite_none_right_eq_some] at hbuiltin
        obtain rfl := Option.some.inj hbuiltin.2
        exact hbuiltin.1.1
      all_goals
        obtain rfl := Option.some.inj hbuiltin
        simp [Callee.Offered]
  | attr site object x =>
    simp only [callee] at h
    split at h
    · rename_i hmath
      obtain rfl := Except.ok.inj h
      exact hmath.2.2.2
    · cases h
  | _ => cases h

end Typing

namespace Lowering

open Typing (Context check conditionType)

variable {env : Environment} {policy : Policy}

/-! ### Lists -/

theorem lowerList_eq_map (ctx : Context) (es : List Source.Expr) :
    lowerList env policy ctx es = es.map (lower env policy ctx) := by
  induction es with
  | nil => rfl
  | cons e es ih => simp [lowerList, ih]

theorem lowerKeywords_eq_map (ks : List (String × Source.Expr)) :
    lowerKeywords env policy ks = ks.map (Prod.map id (lower env policy .value)) := by
  induction ks with
  | nil => rfl
  | cons k ks ih =>
    obtain ⟨name, value⟩ := k
    simp [lowerKeywords, ih, Prod.map]

theorem exists_of_mem_lowerList {ctx : Context} {es : List Source.Expr} {ts : List Target.Expr}
    (h : lowerList env policy ctx es = ts.map .ok) {t : Target.Expr} (ht : t ∈ ts) :
    ∃ e ∈ es, lower env policy ctx e = .ok t := by
  rw [lowerList_eq_map] at h
  have hmem : .ok t ∈ es.map (lower env policy ctx) := h ▸ List.mem_map_of_mem ht
  exact List.mem_map.1 hmem

theorem exists_lower_of_mem {ctx : Context} {es : List Source.Expr} {ts : List Target.Expr}
    (h : lowerList env policy ctx es = ts.map .ok) {e : Source.Expr} (he : e ∈ es) :
    ∃ t ∈ ts, lower env policy ctx e = .ok t := by
  rw [lowerList_eq_map] at h
  have hmem : lower env policy ctx e ∈ ts.map .ok := h ▸ List.mem_map_of_mem he
  obtain ⟨t, ht, heq⟩ := List.mem_map.1 hmem
  exact ⟨t, ht, heq.symm⟩

theorem length_of_lowerList {ctx : Context} {es : List Source.Expr} {ts : List Target.Expr}
    (h : lowerList env policy ctx es = ts.map .ok) : ts.length = es.length := by
  simpa [lowerList_eq_map] using (congrArg List.length h).symm

/-- The values of keywords are lowered like other arguments. -/
theorem lowerList_keywords {keywords : List (String × Source.Expr)}
    {ks : List (String × Target.Expr)}
    (h : lowerKeywords env policy keywords = ks.map (Prod.map id .ok)) :
    lowerList env policy .value (keywords.map Prod.snd) = (ks.map Prod.snd).map .ok := by
  have hvalues := congrArg (List.map Prod.snd) h
  rw [lowerKeywords_eq_map] at hvalues
  simpa [lowerList_eq_map, Function.comp_def] using hvalues

/-! ### Operations -/

theorem type_remainder (t : StaticType) (left right : Target.Expr) :
    (remainder t left right).type = t := by
  unfold remainder
  split <;> rfl

/-- A quotient rounded down is an integer unless one of its operands is a floating-point number. -/
theorem floorDiv_type {left right t : StaticType}
    (h : Typing.binaryType .floorDiv left right = .ok t) : t = .floating ∨ t = .integer := by
  revert h
  cases left <;> cases right <;>
    simp +contextual [Typing.binaryType, StaticType.isNumeric, StaticType.promote,
      Checked.ofOption, eq_comm]

theorem binaryExpr_eq_ok {op : Source.BinaryOp} {calls : Bool} {left right t : Target.Expr}
    (h : binaryExpr op calls left right = .ok t) :
    Typing.binaryType op left.type right.type = .ok t.type ∧ (op = .mod → calls = false) := by
  simp only [binaryExpr, Checked.bind_eq_ok] at h
  obtain ⟨type, htype, h⟩ := h
  rw [htype]
  cases op with
  | floorDiv =>
    obtain rfl : floorQuotient type left right = t := by simpa using h
    refine ⟨?_, by simp⟩
    unfold floorQuotient
    split
    · rfl
    · rename_i hreal
      rw [(floorDiv_type htype).resolve_left hreal]
      rfl
  | mod =>
    dsimp only at h
    split at h
    · simp at h
    · rename_i hcalls
      obtain rfl :
          remainder type (.binary .add (remainder type left right) right type) right = t := by
        simpa using h
      exact ⟨by rw [type_remainder], by simpa using hcalls⟩
  | matMult => simp at h
  | _ =>
    simp only [Checked.pure_eq_ok] at h
    subst h
    exact ⟨rfl, by simp⟩

theorem type_foldl_binary (op : Target.BinaryOp) (e : Target.Expr) (es : List Target.Expr)
    (h : es ≠ []) :
    (es.foldl (fun left right => .binary op left right .boolean) e).type = .boolean := by
  induction es generalizing e with
  | nil => exact absurd rfl h
  | cons f es ih =>
    cases es with
    | nil => rfl
    | cons g es => exact ih _ (by simp)

theorem joined_eq_ok {op : Target.BinaryOp} {es : List Target.Expr} {t : Target.Expr}
    (h : joined op es = .ok t) : es = [t] ∨ (2 ≤ es.length ∧ t.type = .boolean) := by
  cases es with
  | nil => cases h
  | cons e es =>
    obtain rfl : es.foldl (fun left right => .binary op left right .boolean) e = t := by
      simpa [joined] using h
    cases es with
    | nil => exact .inl rfl
    | cons f es => exact .inr ⟨by simp, type_foldl_binary op e (f :: es) (by simp)⟩

theorem conditionTypes_eq_ok {ts : List StaticType} {t : StaticType} :
    Typing.conditionTypes ts = .ok t ↔ t = .boolean ∧ ∀ u ∈ ts, conditionType u = .ok u := by
  induction ts with
  | nil => simp [Typing.conditionTypes, eq_comm]
  | cons u ts ih =>
    have hu : (∃ v, conditionType u = .ok v) ↔ conditionType u = .ok u := by
      cases u <;> simp [conditionType]
    simp only [Typing.conditionTypes, Checked.bind_eq_ok, exists_and_right, hu, ih,
      List.forall_mem_cons]
    tauto

/-- The comparisons of a chain have the type that the chain is checked to have, which needs at
least one of them. -/
theorem comparisonLinks_eq_ok {ops : List Source.CompareOp} {first : Target.Expr}
    {rest links : List Target.Expr} (h : comparisonLinks ops first rest = .ok links) :
    Typing.chainType ops first.type (rest.map (·.type)) = .ok .boolean ∧
      ∀ l ∈ links, l.type = .boolean := by
  induction rest generalizing ops first links with
  | nil =>
    obtain rfl : [] = links := by cases ops <;> simpa [comparisonLinks] using h
    cases ops <;> simp [Typing.chainType]
  | cons right rest ih =>
    cases ops with
    | nil =>
      obtain rfl : [] = links := by simpa [comparisonLinks] using h
      simp [Typing.chainType]
    | cons op ops =>
      simp only [comparisonLinks, Checked.bind_eq_ok, Checked.pure_eq_ok] at h
      obtain ⟨t, ht, cpp, -, later, hlater, rfl⟩ := h
      obtain ⟨hchain, htypes⟩ := ih hlater
      refine ⟨?_, ?_⟩
      · simp only [List.map_cons, Typing.chainType, Checked.bind_eq_ok]
        exact ⟨t, ht, hchain⟩
      · rintro l (_ | ⟨_, hl⟩)
        · rfl
        · exact htypes l hl

/-! ### Calls -/

theorem builtinCall_type {callee : Typing.Callee} {arguments : List Target.Expr} {t : Target.Expr}
    (h : builtinCall callee arguments = .ok t) :
    Typing.builtinCallType callee (arguments.map (·.type)) = .ok t.type := by
  simp only [builtinCall, Checked.bind_eq_ok] at h
  obtain ⟨type, htype, h⟩ := h
  rw [htype]
  congr 1
  split at h
  · rename_i target operand rest
    obtain rfl : castExpr target type operand = t := by simpa using h
    cases rest with
    | cons e rest => simp [Typing.builtinCallType] at htype
    | nil =>
      simp only [List.map_cons, List.map_nil, Typing.builtinCallType] at htype
      unfold castExpr
      revert htype
      cases target <;> cases hty : operand.type <;>
        simp +contextual [Typing.castType, hty, eq_comm]
  · simp at h
  · obtain rfl : Target.Expr.call "std::abs" arguments type = t := by simpa using h
    rfl
  · obtain rfl : Target.Expr.call "std::pow" arguments type = t := by simpa using h
    rfl
  · split at h
    · rename_i hint
      simp only [Checked.pure_eq_ok] at h
      subst h
      exact hint
    · simp only [Checked.pure_eq_ok] at h
      subst h
      rfl
  · simp at h
  · simp at h

/-- An argument fits unless it has no value or its type cannot be stored in the parameter. -/
theorem argumentCategory?_eq_none {t : StaticType} {param : Target.ParamType} :
    Typing.argumentCategory? t param = none ↔
      t ≠ .void ∧ ∀ u, param = .concrete u → t.assignable u = true := by
  unfold Typing.argumentCategory?
  split
  · simp [*]
  · cases param with
    | generic name => simp [*]
    | concrete u =>
      by_cases hu : t.assignable u = true
      · simp [*]
      · dsimp only
        rw [if_neg hu]
        split <;> simp [*]

theorem supplied_ok_of_userArguments
    {ps : List (Typing.Slot (Checked Target.Expr) × SignatureParam)} {as : List Target.Expr}
    (h : userArguments ps = .ok as) {r : Checked Target.Expr} {param : SignatureParam}
    (hr : (.supplied r, param) ∈ ps) : ∃ e, r = .ok e := by
  induction ps generalizing as with
  | nil => cases hr
  | cons p ps ih =>
    obtain ⟨_ | value, q⟩ := p
    · simp only [userArguments, Checked.bind_eq_ok] at h
      obtain ⟨e, rfl, h⟩ := h
      rcases List.mem_cons.1 hr with heq | hr
      · obtain ⟨⟨rfl⟩, rfl⟩ := Prod.mk.inj heq
        exact ⟨e, rfl⟩
      · split at h
        · simp at h
        · simp only [Checked.bind_eq_ok] at h
          obtain ⟨rest, hrest, -⟩ := h
          exact ih hrest hr
    · simp only [userArguments, Checked.bind_eq_ok] at h
      obtain ⟨rest, hrest, -⟩ := h
      exact ih hrest (by simpa using hr)

/-- A call of a function of the program is made from arguments that have all been lowered. -/
theorem userCall_eq_ok {s : Signature} {arguments : List (Checked Target.Expr)}
    {keywords : List (String × Checked Target.Expr)} {t : Target.Expr}
    (h : userCall policy s arguments keywords = .ok t) :
    ∃ ts ks found as, arguments = ts.map .ok ∧ keywords = ks.map (Prod.map id .ok) ∧
      Typing.bindArguments s.params ts ks policy.defaults = .ok found ∧
      userArguments ((found.map (Typing.Slot.map .ok)).zip s.params) = .ok as ∧
      t = .call s.name as s.returns := by
  simp only [userCall, Checked.bind_eq_ok, Checked.pure_eq_ok] at h
  obtain ⟨slots, hslots, as, has, rfl⟩ := h
  have hok : ∀ r ∈ arguments ++ keywords.map Prod.snd, ∃ e, r = .ok e := by
    intro r hr
    have hmem := (Typing.supplied_mem_iff hslots).2 hr
    rw [← List.map_fst_zip (Typing.fills_bindArguments hslots).length_le] at hmem
    obtain ⟨⟨slot, param⟩, hp, rfl⟩ := List.mem_map.1 hmem
    exact supplied_ok_of_userArguments has hp
  obtain ⟨ts, rfl⟩ : arguments ∈ Set.range (List.map .ok) := by
    rw [Set.range_list_map]
    exact fun r hr => (hok r (by simp [hr])).imp fun e he => he.symm
  obtain ⟨ks, rfl⟩ : keywords ∈ Set.range (List.map (Prod.map id .ok)) := by
    rw [Set.range_list_map]
    rintro ⟨name, r⟩ hr
    obtain ⟨e, rfl⟩ := hok r (by simpa using .inr ⟨name, hr⟩)
    exact ⟨(name, e), rfl⟩
  rw [Typing.bindArguments_map] at hslots
  obtain ⟨found, hfound, rfl⟩ := Checked.map_eq_ok.1 hslots
  exact ⟨ts, ks, found, as, rfl, rfl, hfound, has, rfl⟩

/-- Arguments that have been lowered fit their parameters. -/
theorem argumentsFit_of_userArguments {found : List (Typing.Slot Target.Expr)}
    {params : List SignatureParam} {as : List Target.Expr}
    (h : userArguments ((found.map (Typing.Slot.map .ok)).zip params) = .ok as) :
    Typing.argumentsFit ((found.map (Typing.Slot.map fun e => .ok e.type)).zip params) =
      .ok none := by
  induction found generalizing params as with
  | nil => rfl
  | cons slot found ih =>
    cases params with
    | nil => rfl
    | cons param params =>
      cases slot with
      | default value =>
        simp only [List.map_cons, Typing.Slot.map, List.zip_cons_cons, userArguments,
          Checked.bind_eq_ok] at h
        obtain ⟨rest, hrest, -⟩ := h
        exact ih hrest
      | supplied e =>
        simp only [List.map_cons, Typing.Slot.map, List.zip_cons_cons, userArguments,
          Checked.bind_eq_ok] at h
        obtain ⟨_, ⟨rfl⟩, h⟩ := h
        split at h
        · simp at h
        · rename_i hfits
          simp only [Checked.bind_eq_ok] at h
          obtain ⟨rest, hrest, -⟩ := h
          have hnone : Typing.argumentCategory? e.type param.type = none := by
            simpa [Option.eq_none_iff_forall_ne_some] using hfits
          simp [Typing.Slot.map, Typing.argumentsFit, ih hrest, hnone, bind, Except.bind, pure,
            Except.pure]

/-- The type of a call is the return type of its signature. -/
theorem userCall_type {s : Signature} {ts : List Target.Expr}
    {ks : List (String × Target.Expr)} {t : Target.Expr}
    (h : userCall policy s (ts.map .ok) (ks.map (Prod.map id .ok)) = .ok t) :
    Typing.userCallType policy s (ts.map fun e => .ok e.type)
      (ks.map (Prod.map id fun e => .ok e.type)) = .ok t.type := by
  simp only [userCall, Typing.bindArguments_map, Checked.bind_eq_ok, Checked.map_eq_ok,
    Checked.pure_eq_ok] at h
  obtain ⟨_, ⟨found, hfound, rfl⟩, as, has, rfl⟩ := h
  simp only [Typing.userCallType, Typing.bindArguments_map, Checked.bind_eq_ok, Checked.map_eq_ok]
  refine ⟨_, ⟨found, hfound, rfl⟩, none, argumentsFit_of_userArguments has, ?_⟩
  rfl

/-- A call is one of a function of the program, or one of a built-in function that all arguments
are lowered for. -/
theorem callExpr_eq_ok {function : Source.Expr} {arguments : List (Checked Target.Expr)}
    {keywords : List (String × Checked Target.Expr)} {t : Target.Expr}
    (h : callExpr env policy function arguments keywords = .ok t) :
    (∃ name s, Typing.callee env function = .ok (.user name) ∧ env.function? name = some s ∧
      userCall policy s arguments keywords = .ok t) ∨
    ∃ builtin ts, Typing.callee env function = .ok builtin ∧ keywords = [] ∧
      arguments = ts.map .ok ∧ builtinCall builtin ts = .ok t := by
  simp only [callExpr, Checked.bind_eq_ok] at h
  obtain ⟨callee, hcallee, h⟩ := h
  split at h
  · rename_i name
    simp only [Checked.bind_eq_ok, Checked.ofOption_eq_ok] at h
    obtain ⟨s, hs, h⟩ := h
    exact .inl ⟨name, s, hcallee, hs, h⟩
  · simp only [Checked.guard_eq_ok, Checked.bind_eq_ok, Checked.sequence_eq_ok] at h
    obtain ⟨hkeywords, ts, hts, h⟩ := h
    exact .inr ⟨callee, ts, hcallee, by simpa using hkeywords, hts, h⟩

theorem callExpr_arguments {function : Source.Expr} {arguments : List (Checked Target.Expr)}
    {keywords : List (String × Checked Target.Expr)} {t : Target.Expr}
    (h : callExpr env policy function arguments keywords = .ok t) :
    ∃ (ts : List Target.Expr) (ks : List (String × Target.Expr)),
      arguments = ts.map .ok ∧ keywords = ks.map (Prod.map id .ok) := by
  rcases callExpr_eq_ok h with ⟨_, _, -, -, h⟩ | ⟨_, ts, -, hks, hts, -⟩
  · obtain ⟨ts, ks, -, -, hts, hks, -⟩ := userCall_eq_ok h
    exact ⟨ts, ks, hts, hks⟩
  · exact ⟨ts, [], hts, hks⟩

theorem callExpr_type {function : Source.Expr} {ts : List Target.Expr}
    {ks : List (String × Target.Expr)} {t : Target.Expr}
    (h : callExpr env policy function (ts.map .ok) (ks.map (Prod.map id .ok)) = .ok t) :
    Typing.callType env policy function (ts.map fun e => .ok e.type)
      (ks.map (Prod.map id fun e => .ok e.type)) = .ok t.type := by
  simp only [callExpr, Checked.bind_eq_ok] at h
  obtain ⟨callee, hcallee, h⟩ := h
  simp only [Typing.callType, Checked.bind_eq_ok, Checked.both_eq_ok, Checked.all_eq_ok]
  refine ⟨(callee, ts.map (·.type) ++ ks.map (·.2.type)),
    ⟨hcallee, by simp [Function.comp_def]⟩, ?_⟩
  split at h
  · simp only [Checked.bind_eq_ok] at h ⊢
    obtain ⟨s, hs, h⟩ := h
    exact ⟨s, hs, userCall_type h⟩
  · rename_i huser
    simp only [Checked.guard_eq_ok, Checked.bind_eq_ok, Checked.sequence_eq_ok] at h
    obtain ⟨hks, us, hus, h⟩ := h
    obtain rfl := List.map_injective_iff.2 (fun _ _ => Except.ok.inj) hus
    obtain rfl : ks = [] := by simpa using hks
    have htype := builtinCall_type h
    cases callee with
    | user name => exact absurd rfl (huser name)
    | _ => simpa using htype

/-! ### What expressions become -/

/-- The operands of a chain are lowered, and those in the middle contain no call. -/
theorem comparisonExpr_operands {ops : List Source.CompareOp} {comparators : List Source.Expr}
    {operands : List (Checked Target.Expr)} {t : Target.Expr}
    (h : comparisonExpr ops comparators operands = .ok t) :
    (∃ ts : List Target.Expr, operands = ts.map .ok) ∧
      ∀ c ∈ comparators.dropLast, c.containsCall = false := by
  simp only [comparisonExpr, Checked.guard_eq_ok, Checked.bind_eq_ok, Checked.sequence_eq_ok] at h
  obtain ⟨-, hcalls, ts, hts, -⟩ := h
  exact ⟨⟨ts, hts⟩, by simpa using hcalls⟩

section

variable (env policy) (ctx : Context)

/-- What an expression becomes: one rule for each construct that has a counterpart, with what its
operands become. -/
inductive Becomes : Source.Expr → Target.Expr → Prop
  | int {site : Source.Site} {n : Int64} {u : StaticType} (hn : Typing.intLiteralType n = .ok u) :
      Becomes (.int site n) (.ofInt n)
  | float {site : Source.Site} {x : Double} : Becomes (.float site x) (.ofDouble x)
  | bool {site : Source.Site} {b : Bool} : Becomes (.bool site b) (.ofBool b)
  | str {site : Source.Site} {s : String} : Becomes (.str site s) (.ofText s)
  | name {site : Source.Site} {x : String} {u : StaticType} (hx : env.lookup x = some u) :
      Becomes (.name site x) (.var x u)
  | binary {site : Source.Site} {op : Source.BinaryOp} {left right : Source.Expr}
      {l r t : Target.Expr} (hl : lower env policy .value left = .ok l)
      (hr : lower env policy .value right = .ok r)
      (ht : binaryExpr op right.containsCall l r = .ok t) :
      Becomes (.binary site op left right) t
  | boolOp {site : Source.Site} {op : Source.BoolOp} {values : List Source.Expr}
      {ts : List Target.Expr} {t : Target.Expr}
      (hts : lowerList env policy ctx values = ts.map .ok) (ht : boolOpExpr op ctx ts = .ok t) :
      Becomes (.boolOp site op values) t
  | unary {site : Source.Site} {op : Source.UnaryOp} {operand : Source.Expr} {e : Target.Expr}
      {u : StaticType}
      (he : lower env policy (if op = .not then .condition else .value) operand = .ok e)
      (hu : Typing.unaryType op e.type = .ok u) :
      Becomes (.unary site op operand) (.unary (unaryOp op) e u)
  | compare {site : Source.Site} {left : Source.Expr} {ops : List Source.CompareOp}
      {comparators : List Source.Expr} {ts : List Target.Expr} {t : Target.Expr}
      (hts : lowerList env policy .value (left :: comparators) = ts.map .ok)
      (ht : comparisonExpr ops comparators (ts.map .ok) = .ok t) :
      Becomes (.compare site left ops comparators) t
  | call {site : Source.Site} {function : Source.Expr} {arguments : List Source.Expr}
      {keywords : List (String × Source.Expr)} {ts : List Target.Expr}
      {ks : List (String × Target.Expr)} {t : Target.Expr}
      (hts : lowerList env policy .value arguments = ts.map .ok)
      (hks : lowerKeywords env policy keywords = ks.map (Prod.map id .ok))
      (ht : callExpr env policy function (ts.map .ok) (ks.map (Prod.map id .ok)) = .ok t) :
      Becomes (.call site function arguments keywords) t

end

/-- The rules cover lowering. -/
theorem becomes_of_lower {ctx : Context} {e : Source.Expr} {t : Target.Expr}
    (h : lower env policy ctx e = .ok t) : Becomes env policy ctx e t := by
  cases e with
  | int site n =>
    simp only [lower, Checked.bind_eq_ok, Checked.pure_eq_ok] at h
    obtain ⟨u, hu, rfl⟩ := h
    exact .int hu
  | float site x =>
    obtain rfl := Except.ok.inj h
    exact .float
  | bool site b =>
    obtain rfl := Except.ok.inj h
    exact .bool
  | str site s =>
    obtain rfl := Except.ok.inj h
    exact .str
  | name site x =>
    simp only [lower, Checked.bind_eq_ok, Checked.ofOption_eq_ok, Checked.pure_eq_ok] at h
    obtain ⟨u, hu, rfl⟩ := h
    exact .name hu
  | binary site op left right =>
    simp only [lower, Checked.bind_eq_ok] at h
    obtain ⟨l, hl, r, hr, ht⟩ := h
    exact .binary hl hr ht
  | boolOp site op values =>
    simp only [lower, Checked.bind_eq_ok, Checked.sequence_eq_ok] at h
    obtain ⟨ts, hts, ht⟩ := h
    exact .boolOp hts ht
  | unary site op operand =>
    simp only [lower, Checked.bind_eq_ok, Checked.pure_eq_ok] at h
    obtain ⟨e, he, u, hu, rfl⟩ := h
    exact .unary he hu
  | compare site left ops comparators =>
    rw [lower, ← lowerList] at h
    obtain ⟨⟨ts, hts⟩, -⟩ := comparisonExpr_operands h
    rw [hts] at h
    exact .compare hts h
  | call site function arguments keywords =>
    rw [lower] at h
    obtain ⟨ts, ks, hts, hks⟩ := callExpr_arguments h
    rw [hts, hks] at h
    exact .call hts hks h
  | named | none | attr | list | tuple | set | dict | other => simp [lower] at h

/-! ### Types of expressions -/

/-- The type that an expression is checked to have in a context is the one that its counterpart
carries, or the counterpart of a condition is something else that can be tested for truth. -/
def Agrees (ctx : Context) (checked : StaticType) (t : Target.Expr) : Prop :=
  checked = t.type ∨ ctx = .condition ∧ checked = .boolean ∧ conditionType t.type = .ok t.type

@[simp] theorem agrees_value {checked : StaticType} {t : Target.Expr} :
    Agrees .value checked t ↔ checked = t.type := by simp [Agrees]

/-- What is tested for truth may be, whichever of the two types is asked. -/
theorem Agrees.conditionType {ctx : Context} {checked : StaticType} {t : Target.Expr}
    (h : Agrees ctx checked t) (hc : Typing.conditionType checked = .ok checked) :
    Typing.conditionType t.type = .ok t.type := by
  rcases h with rfl | ⟨-, -, h⟩
  · exact hc
  · exact h

theorem forall₂_agrees_value {checked : List StaticType} {ts : List Target.Expr} :
    List.Forall₂ (Agrees .value) checked ts ↔ checked = ts.map (·.type) := by
  have hvalue : Agrees .value = fun checked t => checked = t.type := by
    funext checked t
    exact propext agrees_value
  rw [hvalue, ← List.forall₂_map_right_iff, List.forall₂_eq_eq_eq]

theorem boolOpExpr_agrees {op : Source.BoolOp} {ctx : Context} {checked : List StaticType}
    {operands : List Target.Expr} {t : Target.Expr}
    (hc : List.Forall₂ (Agrees ctx) checked operands)
    (h : boolOpExpr op ctx operands = .ok t) :
    ∃ u, Typing.boolOpType ctx checked = .ok u ∧ Agrees ctx u t := by
  simp only [boolOpExpr, Checked.bind_eq_ok] at h
  obtain ⟨u, hu, hjoin⟩ := h
  cases ctx with
  | value =>
    rw [forall₂_agrees_value] at hc
    subst hc
    refine ⟨u, hu, agrees_value.2 ?_⟩
    simp only [Typing.boolOpType] at hu
    split at hu
    · rename_i hall
      obtain rfl : .boolean = u := by simpa using hu
      rcases joined_eq_ok hjoin with rfl | ⟨-, ht⟩
      · exact (by simpa using hall : t.type = .boolean).symm
      · exact ht.symm
    · cases hu
  | condition =>
    simp only [Typing.boolOpType, conditionTypes_eq_ok, List.forall_mem_map] at hu
    obtain ⟨rfl, hall⟩ := hu
    have hchecked : ∀ c ∈ checked, conditionType c = .ok c := by
      intro c hmem
      obtain ⟨e, he, hagree⟩ := Checked.exists_of_forall₂ hc hmem
      rcases hagree with rfl | ⟨-, rfl, -⟩
      · exact hall e he
      · rfl
    refine ⟨.boolean, conditionTypes_eq_ok.2 ⟨rfl, hchecked⟩, ?_⟩
    rcases joined_eq_ok hjoin with rfl | ⟨-, ht⟩
    · exact .inr ⟨rfl, rfl, hall t (by simp)⟩
    · exact .inl ht.symm

theorem unaryType_agrees {op : Source.UnaryOp} {checked u : StaticType} {t : Target.Expr}
    (hc : Agrees (if op = .not then .condition else .value) checked t)
    (hu : Typing.unaryType op t.type = .ok u) : Typing.unaryType op checked = .ok u := by
  rcases hc with rfl | ⟨hctx, rfl, hcond⟩
  · exact hu
  · obtain rfl : op = .not := by
      by_contra hne
      simp [hne] at hctx
    have hboolean : ∀ v, conditionType v = .ok v → Typing.unaryType .not v = .ok .boolean := by
      intro v
      cases v <;> simp [conditionType, Typing.unaryType]
    rw [hboolean _ hcond] at hu
    exact hu

theorem comparisonExpr_type {ops : List Source.CompareOp} {comparators : List Source.Expr}
    {operands : List Target.Expr} {t : Target.Expr}
    (h : comparisonExpr ops comparators (operands.map .ok) = .ok t) :
    Typing.comparisonsType ops comparators (operands.map fun e => .ok e.type) = .ok t.type := by
  simp only [comparisonExpr, Checked.guard_eq_ok, Checked.bind_eq_ok, Checked.sequence_eq_ok] at h
  obtain ⟨hlen, hcalls, _, hops, h⟩ := h
  obtain rfl := List.map_injective_iff.2 (fun _ _ => Except.ok.inj) hops
  split at h
  · simp at h
  · rename_i first rest
    simp only [Checked.bind_eq_ok] at h
    obtain ⟨links, hlinks, hjoin⟩ := h
    obtain ⟨hchain, htypes⟩ := comparisonLinks_eq_ok hlinks
    have ht : t.type = .boolean := by
      rcases joined_eq_ok hjoin with rfl | ⟨-, ht⟩
      · exact htypes t (by simp)
      · exact ht
    simp only [Typing.comparisonsType, Checked.guard_eq_ok, Checked.bind_eq_ok, Checked.all_eq_ok]
    refine ⟨hlen, (first :: rest).map (·.type), by simp [Function.comp_def], ?_⟩
    simp only [List.map_cons, Checked.guard_eq_ok, hchain, ht]
    exact ⟨hcalls, trivial⟩

/-- The operands of an expression are checked to have types that agree with their counterparts. -/
theorem checkList_agrees {ctx : Context} {es : List Source.Expr} {ts : List Target.Expr}
    (h : lowerList env policy ctx es = ts.map .ok)
    (ih : ∀ e ∈ es, ∀ t, lower env policy ctx e = .ok t →
      ∃ u, check env policy ctx e = .ok u ∧ Agrees ctx u t) :
    ∃ us, Typing.checkList env policy ctx es = us.map .ok ∧ List.Forall₂ (Agrees ctx) us ts := by
  induction es generalizing ts with
  | nil =>
    obtain rfl : ts = [] := by simpa [lowerList] using h
    exact ⟨[], rfl, .nil⟩
  | cons e es hes =>
    cases ts with
    | nil => simp [lowerList] at h
    | cons t ts =>
      simp only [lowerList, List.map_cons, List.cons.injEq] at h
      obtain ⟨u, hu, hagree⟩ := ih e (by simp) t h.1
      obtain ⟨us, hus, hagrees⟩ := hes h.2 fun e he => ih e (by simp [he])
      exact ⟨u :: us, by simp [Typing.checkList, hu, hus], .cons hagree hagrees⟩

theorem checkList_of_lowerList {es : List Source.Expr} {ts : List Target.Expr}
    (h : lowerList env policy .value es = ts.map .ok)
    (ih : ∀ e ∈ es, ∀ t, lower env policy .value e = .ok t →
      check env policy .value e = .ok t.type) :
    Typing.checkList env policy .value es = ts.map fun t => .ok t.type := by
  obtain ⟨us, hus, hagree⟩ :=
    checkList_agrees h fun e he t ht => ⟨t.type, ih e he t ht, .inl rfl⟩
  rw [hus, forall₂_agrees_value.1 hagree, List.map_map]
  rfl

theorem checkKeywords_of_lowerKeywords {ks : List (String × Source.Expr)}
    {ts : List (String × Target.Expr)} (h : lowerKeywords env policy ks = ts.map (Prod.map id .ok))
    (ih : ∀ k ∈ ks, ∀ t, lower env policy .value k.2 = .ok t →
      check env policy .value k.2 = .ok t.type) :
    Typing.checkKeywords env policy ks = ts.map (Prod.map id fun t => .ok t.type) := by
  induction ks generalizing ts with
  | nil =>
    obtain rfl : ts = [] := by simpa [lowerKeywords] using h
    rfl
  | cons k ks hks =>
    obtain ⟨name, value⟩ := k
    cases ts with
    | nil => simp [lowerKeywords] at h
    | cons t ts =>
      simp only [lowerKeywords, List.map_cons, List.cons.injEq, Prod.map, Prod.mk.injEq] at h
      obtain ⟨⟨hname, hvalue⟩, hrest⟩ := h
      simp only [Typing.checkKeywords, List.map_cons, Prod.map]
      rw [ih (name, value) (by simp) t.2 hvalue, hks hrest fun k hk => ih k (by simp [hk]), hname]

/-- **What is lowered has been typed.** -/
theorem check_of_lower {ctx : Context} {e : Source.Expr} {t : Target.Expr}
    (h : lower env policy ctx e = .ok t) :
    ∃ u, check env policy ctx e = .ok u ∧ Agrees ctx u t := by
  induction e using Source.Expr.induction generalizing ctx t with
  | step e ih =>
    have hvalue : ∀ c ∈ e.children, ∀ t, lower env policy .value c = .ok t →
        check env policy .value c = .ok t.type := by
      intro c hc t ht
      obtain ⟨u, hu, hagree⟩ := ih c hc ht
      rw [hu, agrees_value.1 hagree]
    cases becomes_of_lower h with
    | @int _ _ u hn =>
      refine ⟨u, hn, .inl ?_⟩
      simp only [Typing.intLiteralType] at hn
      split at hn
      · exact (Except.ok.inj hn).symm
      · cases hn
    | float | bool | str => exact ⟨_, rfl, .inl rfl⟩
    | @name _ _ u hx => exact ⟨u, by rw [check, hx, Checked.ofOption], .inl rfl⟩
    | @binary _ _ left right l r _ hl hr ht =>
      have hleft := hvalue left (by simp [Source.Expr.children]) l hl
      have hright := hvalue right (by simp [Source.Expr.children]) r hr
      obtain ⟨htype, hcalls⟩ := binaryExpr_eq_ok ht
      refine ⟨t.type, ?_, .inl rfl⟩
      simp only [check, Checked.bind_eq_ok, Checked.both_eq_ok, Checked.guard_eq_ok]
      exact ⟨(l.type, r.type), ⟨hleft, hright⟩, t.type, htype, by simpa using hcalls, rfl⟩
    | boolOp hts ht =>
      obtain ⟨us, hus, hagree⟩ := checkList_agrees hts fun e he t ht => ih e he ht
      obtain ⟨u, hu, hagree⟩ := boolOpExpr_agrees hagree ht
      refine ⟨u, ?_, hagree⟩
      simp only [check, Checked.bind_eq_ok, Checked.all_eq_ok]
      exact ⟨us, hus, hu⟩
    | @unary _ _ operand _ u he hu =>
      obtain ⟨v, hv, hagree⟩ := ih operand (by simp [Source.Expr.children]) he
      exact ⟨u, by simp [check, hv, unaryType_agrees hagree hu], .inl rfl⟩
    | @compare _ left _ comparators ts _ hts ht =>
      have hus : check env policy .value left :: Typing.checkList env policy .value comparators =
          ts.map fun t => .ok t.type :=
        checkList_of_lowerList hts hvalue
      refine ⟨t.type, ?_, .inl rfl⟩
      rw [check, hus]
      exact comparisonExpr_type ht
    | call hts hks ht =>
      refine ⟨t.type, ?_, .inl rfl⟩
      rw [check, checkList_of_lowerList hts, checkKeywords_of_lowerKeywords hks]
      · exact callExpr_type ht
      · exact fun k hk => hvalue k.2 (by simpa [Source.Expr.children] using .inr (.inr ⟨k.1, hk⟩))
      · exact fun e he => hvalue e (by simp [Source.Expr.children, he])

theorem check_value_of_lower {e : Source.Expr} {t : Target.Expr}
    (h : lower env policy .value e = .ok t) : check env policy .value e = .ok t.type := by
  obtain ⟨u, hu, hagree⟩ := check_of_lower h
  rw [hu, agrees_value.1 hagree]

end Lowering

end StaticScript
