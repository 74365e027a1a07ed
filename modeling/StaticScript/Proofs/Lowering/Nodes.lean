import StaticScript.Proofs.Lowering.Types

/-!
# Nodes of lowered expressions

A lowered expression is put together from literals, operators, conversions and calls of the
standard library, and from two kinds of nodes that depend on where it stands: variables, which carry
the type that is bound to their name, and calls of functions of the program, which pass what their
signature takes (`Passes`) and carry its return type (`each_lower`).

The arguments that a call leaves to their defaults are written out at the call, so the defaults of
signatures must be literals (`LiteralDefaults`); those that are read from headers are.
-/

namespace StaticScript

/-- The expression is a literal. -/
def Target.Expr.isLiteral : Target.Expr → Bool
  | .int .. | .float .. | .bool .. | .string .. => true
  | _ => false

/-- All defaults of parameters are literals. -/
def Globals.LiteralDefaults (g : Globals) : Prop :=
  ∀ s ∈ g.functions, ∀ p ∈ s.params, ∀ v, p.default = some v → v.isLiteral = true

namespace Lowering

open Target (Expr)
open Typing (Context Slot)

variable {env : Environment} {policy : Policy} {P : Expr → Prop}

/-- The functions of the standard library that stand in lowered expressions. -/
def libraryNames : List String :=
  ["std::string", "std::fmod", "std::pow", "std::to_string", "std::abs"] ++
    Typing.mathFunctions.map ("std::" ++ ·)

/-- The property holds of all nodes that are neither variables nor calls of functions of the
program. -/
structure Plain (P : Expr → Prop) : Prop where
  literal : ∀ e : Expr, e.isLiteral = true → P e
  binary : ∀ op l r t, P (.binary op l r t)
  unary : ∀ op e t, P (.unary op e t)
  castTo : ∀ e t, P (Expr.castTo t e)
  library : ∀ name ∈ libraryNames, ∀ es t, P (.call name es t)

theorem nodes_of_isLiteral {e : Expr} (h : e.isLiteral = true) : e.nodes = [e] := by
  cases e <;> simp [Expr.isLiteral] at h <;> rfl

theorem Plain.each_literal (hP : Plain P) {e : Expr} (h : e.isLiteral = true) : e.Each P := by
  simpa [Expr.Each, nodes_of_isLiteral h] using hP.literal e h

namespace Plain

variable (hP : Plain P)
include hP

theorem each_binary {op : Target.BinaryOp} {l r : Expr} {t : StaticType} :
    (Expr.binary op l r t).Each P ↔ l.Each P ∧ r.Each P :=
  Expr.each_binary.trans (and_iff_right (hP.binary _ _ _ _))

theorem each_castTo {e : Expr} {t : StaticType} : (e.castTo t).Each P ↔ e.Each P :=
  Expr.each_castTo.trans (and_iff_right (hP.castTo _ _))

theorem each_library {name : String} (hname : name ∈ libraryNames) {es : List Expr}
    {t : StaticType} : (Expr.call name es t).Each P ↔ ∀ e ∈ es, e.Each P :=
  Expr.each_call.trans (and_iff_right (hP.library name hname _ _))

end Plain

/-! ### Operations -/

section

variable (hP : Plain P)
include hP

theorem each_asDouble {e : Expr} : (asDouble e).Each P ↔ e.Each P := by
  unfold asDouble
  split
  · rfl
  · exact hP.each_castTo

theorem each_stringObject {e : Expr} : (stringObject e).Each P ↔ e.Each P := by
  unfold stringObject
  split
  · exact (hP.each_library (by decide)).trans (by simp)
  · rfl

theorem each_remainder {t : StaticType} {l r : Expr} :
    (remainder t l r).Each P ↔ l.Each P ∧ r.Each P := by
  unfold remainder
  split
  · exact (hP.each_library (by decide)).trans (by simp)
  · exact hP.each_binary

theorem each_floorQuotient {t : StaticType} {l r : Expr} :
    (floorQuotient t l r).Each P ↔ l.Each P ∧ r.Each P := by
  unfold floorQuotient
  split
  · exact (hP.each_library (by decide)).trans (by simp [hP.each_binary])
  · exact hP.each_castTo.trans
      ((hP.each_library (by decide)).trans (by simp [hP.each_binary, each_asDouble hP]))

theorem each_binaryExpr {op : Source.BinaryOp} {calls : Bool} {l r e : Expr}
    (h : binaryExpr op calls l r = .ok e) : e.Each P ↔ l.Each P ∧ r.Each P := by
  simp only [binaryExpr, Checked.bind_eq_ok] at h
  obtain ⟨t, -, h⟩ := h
  cases op with
  | matMult => simp at h
  | mod =>
    simp only [Checked.guard_eq_ok, Checked.pure_eq_ok] at h
    rw [← h.2, each_remainder hP, hP.each_binary, each_remainder hP]
    tauto
  | add =>
    simp only [Checked.pure_eq_ok] at h
    rw [← h, hP.each_binary, each_stringObject hP]
  | div =>
    simp only [Checked.pure_eq_ok] at h
    rw [← h, hP.each_binary, each_asDouble hP]
  | floorDiv =>
    simp only [Checked.pure_eq_ok] at h
    rw [← h, each_floorQuotient hP]
  | pow =>
    simp only [Checked.pure_eq_ok] at h
    rw [← h]
    exact (hP.each_library (by decide)).trans (by simp)
  | _ =>
    simp only [Checked.pure_eq_ok] at h
    rw [← h, hP.each_binary]

theorem each_joined {op : Target.BinaryOp} {es : List Expr} {e : Expr} (h : joined op es = .ok e) :
    e.Each P ↔ ∀ e ∈ es, e.Each P := by
  have hfold : ∀ (es : List Expr) (first : Expr),
      (es.foldl (fun left right => Expr.binary op left right .boolean) first).Each P ↔
        first.Each P ∧ ∀ e ∈ es, e.Each P := by
    intro es
    induction es with
    | nil => simp
    | cons e es ih =>
      intro first
      rw [List.foldl_cons, ih, hP.each_binary,
        List.forall_mem_cons, and_assoc]
  cases es with
  | nil => cases h
  | cons first es =>
    obtain rfl := Except.ok.inj h
    rw [hfold, List.forall_mem_cons]

/-- The comparisons of a chain hold its operands, if there are as many as operators. -/
theorem each_comparisonLinks {ops : List Source.CompareOp} {first : Expr}
    {rest links : List Expr} (h : comparisonLinks ops first rest = .ok links)
    (hlen : ops.length = rest.length) (hne : ops ≠ []) :
    (∀ l ∈ links, l.Each P) ↔ first.Each P ∧ ∀ e ∈ rest, e.Each P := by
  induction rest generalizing ops first links with
  | nil => exact absurd (List.length_eq_zero_iff.1 hlen) hne
  | cons right rest ih =>
    cases ops with
    | nil => cases hlen
    | cons op ops =>
      simp only [comparisonLinks, Checked.bind_eq_ok, Checked.pure_eq_ok] at h
      obtain ⟨-, -, cpp, -, later, hlater, rfl⟩ := h
      have hfirst : ∀ b : Bool, (if b then stringObject first else first).Each P ↔
          first.Each P := by
        intro b
        cases b
        · rfl
        · exact each_stringObject hP
      rw [List.forall_mem_cons, hP.each_binary, hfirst,
        List.forall_mem_cons]
      cases ops with
      | nil =>
        obtain rfl : rest = [] := List.length_eq_zero_iff.1 (Nat.succ.inj hlen).symm
        obtain rfl : [] = later := by simpa [comparisonLinks] using hlater
        simp
      | cons op' ops =>
        rw [ih hlater (Nat.succ.inj hlen) (by simp)]
        tauto

end

/-- A chain of comparisons holds its operands. -/
theorem each_comparisonExpr (hP : Plain P) {ops : List Source.CompareOp}
    {comparators : List Source.Expr} {ts : List Expr} {t : Expr}
    (hlength : ts.length = comparators.length + 1)
    (h : comparisonExpr ops comparators (ts.map .ok) = .ok t) :
    t.Each P ↔ ∀ e ∈ ts, e.Each P := by
  simp only [comparisonExpr, Checked.guard_eq_ok, Checked.bind_eq_ok, Checked.sequence_eq_ok,
    Bool.or_eq_true, List.isEmpty_iff, ne_eq, decide_eq_true_eq, not_or, not_not] at h
  obtain ⟨⟨hne, hlen⟩, -, _, hts, h⟩ := h
  obtain rfl := List.map_injective_iff.2 (fun _ _ => Except.ok.inj) hts
  cases ts with
  | nil => cases hlength
  | cons first rest =>
    simp only [Checked.bind_eq_ok] at h
    obtain ⟨links, hlinks, h⟩ := h
    have hrest : ops.length = rest.length := hlen.trans (Nat.succ.inj hlength).symm
    rw [each_joined hP h, each_comparisonLinks hP hlinks hrest hne, List.forall_mem_cons]

/-! ### Calls -/

theorem each_castExpr (hP : Plain P) {target t : StaticType} {e : Expr} :
    (castExpr target t e).Each P ↔ e.Each P := by
  unfold castExpr
  repeat' split
  · rfl
  · exact (hP.each_library (by decide)).trans (by simp)
  · exact hP.each_castTo

theorem each_builtinCall (hP : Plain P) {callee : Typing.Callee} {es : List Expr} {e : Expr}
    (hoffered : callee.Offered) (h : builtinCall callee es = .ok e) :
    e.Each P ↔ ∀ e ∈ es, e.Each P := by
  simp only [builtinCall, Checked.bind_eq_ok] at h
  obtain ⟨t, ht, h⟩ := h
  split at h
  · rename_i target operand rest
    obtain rfl : castExpr target t operand = e := by simpa using h
    -- a conversion takes one argument
    cases rest with
    | nil => simp [each_castExpr hP]
    | cons => simp [Typing.builtinCallType] at ht
  · simp at h
  · obtain rfl := by simpa using h
    exact hP.each_library (by decide)
  · obtain rfl := by simpa using h
    exact hP.each_library (by decide)
  · rename_i name
    have hname : "std::" ++ name ∈ libraryNames :=
      List.mem_append_right _ (List.mem_map_of_mem hoffered)
    split at h
    · obtain rfl := by simpa using h
      exact hP.each_castTo.trans (hP.each_library hname)
    · obtain rfl := by simpa using h
      exact hP.each_library hname
  · simp at h
  · simp at h

/-- What slots deliver to parameters: an argument that fits, as a string object where a type
parameter takes it, or the default in its place. -/
inductive Delivers : List (Slot Expr) → List SignatureParam → List Expr → Prop
  | rest {params : List SignatureParam} (hdefaults : ∀ p ∈ params, p.default.isSome = true) :
      Delivers [] params []
  | concrete {p : SignatureParam} {params : List SignatureParam} {found : List (Slot Expr)}
      {e : Expr} {es : List Expr} {t : StaticType} (hp : p.type = .concrete t)
      (hfits : e.type.assignable t = true) (hrest : Delivers found params es) :
      Delivers (.supplied e :: found) (p :: params) (e :: es)
  | generic {p : SignatureParam} {params : List SignatureParam} {found : List (Slot Expr)}
      {e : Expr} {es : List Expr} {name : String} (hp : p.type = .generic name)
      (hvoid : e.type ≠ .void) (hrest : Delivers found params es) :
      Delivers (.supplied e :: found) (p :: params) (stringObject e :: es)
  | default {p : SignatureParam} {params : List SignatureParam} {found : List (Slot Expr)}
      {v : Expr} {es : List Expr} (hp : p.default = some v) (hrest : Delivers found params es) :
      Delivers (.default v :: found) (p :: params) (v :: es)

theorem delivers_userArguments {found : List (Slot Expr)} {params : List SignatureParam}
    {as : List Expr} (hfills : Typing.Fills found params)
    (h : userArguments ((found.map (Slot.map .ok)).zip params) = .ok as) :
    Delivers found params as := by
  induction hfills generalizing as with
  | rest hdefaults =>
    obtain rfl : [] = as := by simpa [userArguments] using h
    exact .rest hdefaults
  | default hp _ ih =>
    simp only [List.map_cons, Slot.map, List.zip_cons_cons, userArguments,
      Checked.bind_eq_ok, Checked.pure_eq_ok] at h
    obtain ⟨rest, hrest, rfl⟩ := h
    exact .default hp (ih hrest)
  | @supplied e p _ _ _ ih =>
    simp only [List.map_cons, Slot.map, List.zip_cons_cons, userArguments,
      Checked.bind_eq_ok] at h
    obtain ⟨_, ⟨rfl⟩, h⟩ := h
    split at h
    · simp at h
    · rename_i hnone
      simp only [Checked.bind_eq_ok, Checked.pure_eq_ok] at h
      obtain ⟨rest, hrest, rfl⟩ := h
      obtain ⟨hvoid, hfits⟩ :=
        argumentCategory?_eq_none.1 (Option.eq_none_iff_forall_ne_some.2 hnone)
      cases ht : p.type with
      | concrete t => exact .concrete ht (hfits t ht) (ih hrest)
      | generic name => exact .generic ht hvoid (ih hrest)

/-- A call of a function of the program is made of what the slots deliver. -/
theorem delivers_userCall {s : Signature} {ts : List Expr} {ks : List (String × Expr)} {t : Expr}
    (h : userCall policy s (ts.map .ok) (ks.map (Prod.map id .ok)) = .ok t) :
    ∃ found as, Typing.bindArguments s.params ts ks policy.defaults = .ok found ∧
      Delivers found s.params as ∧ t = .call s.name as s.returns := by
  simp only [userCall, Typing.bindArguments_map, Checked.bind_eq_ok, Checked.map_eq_ok,
    Checked.pure_eq_ok] at h
  obtain ⟨_, ⟨found, hfound, rfl⟩, as, has, rfl⟩ := h
  exact ⟨found, as, hfound, delivers_userArguments (Typing.fills_bindArguments hfound) has, rfl⟩

/-- What a call passes for parameters: to the first ones arguments that fit or, in their place,
defaults, and nothing to the others, which have defaults.  Where defaults are not declared, all
parameters get something. -/
inductive Passes (policy : Policy) : List SignatureParam → List Expr → Prop
  | rest {params : List SignatureParam} (hdefaults : ∀ p ∈ params, p.default.isSome = true)
      (hskip : policy.defaults = .skip → params = []) : Passes policy params []
  | concrete {p : SignatureParam} {params : List SignatureParam} {e : Expr} {es : List Expr}
      {t : StaticType} (hp : p.type = .concrete t) (hfits : e.type.assignable t = true)
      (hrest : Passes policy params es) : Passes policy (p :: params) (e :: es)
  | generic {p : SignatureParam} {params : List SignatureParam} {e : Expr} {es : List Expr}
      {name : String} (hp : p.type = .generic name) (hvoid : e.type ≠ .void)
      (hrest : Passes policy params es) : Passes policy (p :: params) (stringObject e :: es)
  | default {p : SignatureParam} {params : List SignatureParam} {v : Expr} {es : List Expr}
      (hp : p.default = some v) (hrest : Passes policy params es) :
      Passes policy (p :: params) (v :: es)

/-- What is delivered is passed. -/
theorem Delivers.passes {found : List (Slot Expr)} {params : List SignatureParam} {as : List Expr}
    (h : Delivers found params as)
    (hskip : policy.defaults = .skip → found.length = params.length) : Passes policy params as := by
  induction h with
  | rest hdefaults => exact .rest hdefaults fun hs => List.length_eq_zero_iff.1 (hskip hs).symm
  | concrete hp hfits _ ih => exact .concrete hp hfits (ih fun hs => Nat.succ.inj (hskip hs))
  | generic hp hvoid _ ih => exact .generic hp hvoid (ih fun hs => Nat.succ.inj (hskip hs))
  | default hp _ ih => exact .default hp (ih fun hs => Nat.succ.inj (hskip hs))

/-- What is delivered holds what is supplied and nothing else, if defaults are literals. -/
theorem Delivers.each_iff (hP : Plain P) {found : List (Slot Expr)} {params : List SignatureParam}
    {as : List Expr} (h : Delivers found params as)
    (hdefault : ∀ p ∈ params, ∀ v, p.default = some v → v.isLiteral = true) :
    (∀ e ∈ as, e.Each P) ↔ ∀ e, .supplied e ∈ found → e.Each P := by
  induction h with
  | rest => simp
  | concrete _ _ _ ih =>
    rw [List.forall_mem_cons, ih (List.forall_mem_cons.1 hdefault).2]
    simp
  | generic _ _ _ ih =>
    rw [List.forall_mem_cons, ih (List.forall_mem_cons.1 hdefault).2, each_stringObject hP]
    simp
  | default hp _ ih =>
    rw [List.forall_mem_cons] at hdefault
    rw [List.forall_mem_cons, ih hdefault.2]
    simp [hP.each_literal (hdefault.1 _ hp)]

/-- A call of a function of the program holds itself and its arguments, any other call its
arguments. -/
theorem each_callExpr (hP : Plain P) (hdefaults : env.globals.LiteralDefaults)
    {function : Source.Expr} {ts : List Expr} {ks : List (String × Expr)} {t : Expr}
    (h : callExpr env policy function (ts.map .ok) (ks.map (Prod.map id .ok)) = .ok t) :
    (∃ name s es, Typing.callee env function = .ok (.user name) ∧ env.function? name = some s ∧
      Passes policy s.params es ∧ (t.Each P ↔
        P (.call s.name es s.returns) ∧ (∀ e ∈ ts, e.Each P) ∧ ∀ k ∈ ks, k.2.Each P)) ∨
    ∃ builtin, Typing.callee env function = .ok builtin ∧ (∀ name, builtin ≠ .user name) ∧
      ks = [] ∧ (t.Each P ↔ ∀ e ∈ ts, e.Each P) := by
  rcases callExpr_eq_ok h with ⟨name, s, hcallee, hs, h⟩ | ⟨builtin, es, hcallee, hks, hes, h⟩
  · obtain ⟨found, as, hfound, hdelivers, rfl⟩ := delivers_userCall h
    have hpasses : Passes policy s.params as :=
      hdelivers.passes fun hskip => Typing.length_bindArguments_of_skip (hskip ▸ hfound)
    refine .inl ⟨name, s, as, hcallee, hs, hpasses, ?_⟩
    rw [Expr.each_call, hdelivers.each_iff hP (hdefaults s (List.mem_of_find?_eq_some hs))]
    simp only [Typing.supplied_mem_iff hfound, List.forall_mem_append, List.forall_mem_map]
  · obtain rfl := List.map_injective_iff.2 (fun _ _ => Except.ok.inj) hes
    refine .inr ⟨builtin, hcallee, ?_, by simpa using hks,
      each_builtinCall hP (Typing.offered_of_callee hcallee) h⟩
    rintro name rfl
    simp [builtinCall, Typing.builtinCallType, Checked.bind_eq_ok] at h

/-! ### Expressions -/

/-- **The nodes of a lowered expression**: what holds of all plain nodes, of the variables that the
expression mentions and of calls that pass what their signature takes and have its type holds of all
its nodes. -/
theorem each_lower (hP : Plain P) (hdefaults : env.globals.LiteralDefaults)
    (hcall : ∀ name s, env.function? name = some s → ∀ es, Passes policy s.params es →
      P (.call s.name es s.returns))
    {ctx : Context} {e : Source.Expr} {t : Expr} (h : lower env policy ctx e = .ok t)
    (hvar : ∀ x u, e.mentions x = true → env.lookup x = some u → P (.var x u)) : t.Each P := by
  induction e using Source.Expr.induction generalizing ctx t with
  | step e ih =>
    -- What an operand mentions, the expression mentions.
    have ih : ∀ c ∈ e.children, ∀ ctx t, lower env policy ctx c = .ok t → t.Each P :=
      fun c hc ctx t ht => ih c hc ht fun x u hx =>
        hvar x u (Source.Expr.mentions_iff.2 (.inr ⟨c, hc, hx⟩))
    have ihs : ∀ ctx es (ts : List Expr), (∀ c ∈ es, c ∈ e.children) →
        lowerList env policy ctx es = ts.map .ok → ∀ t ∈ ts, t.Each P := by
      intro ctx es ts hes hts t ht
      obtain ⟨c, hc, hct⟩ := exists_of_mem_lowerList hts ht
      exact ih c (hes c hc) ctx t hct
    cases becomes_of_lower h with
    | int | float | bool | str => exact hP.each_literal rfl
    | name hx => exact Expr.each_var.2 (hvar _ _ (Source.Expr.mentions_iff.2 (.inl rfl)) hx)
    | binary hl hr ht =>
      rw [each_binaryExpr hP ht]
      exact ⟨ih _ (by simp [Source.Expr.children]) _ _ hl,
        ih _ (by simp [Source.Expr.children]) _ _ hr⟩
    | boolOp hts ht =>
      simp only [boolOpExpr, Checked.bind_eq_ok] at ht
      obtain ⟨-, -, ht⟩ := ht
      rw [each_joined hP ht]
      exact ihs ctx _ _ (fun _ he => he) hts
    | unary he hu =>
      exact Expr.each_unary.2 ⟨hP.unary _ _ _, ih _ (by simp [Source.Expr.children]) _ _ he⟩
    | compare hts ht =>
      rw [each_comparisonExpr hP (length_of_lowerList hts) ht]
      exact ihs .value _ _ (fun _ he => he) hts
    | call hts hks ht =>
      have hargs := ihs .value _ _ (fun e he => by simp [Source.Expr.children, he]) hts
      rcases each_callExpr hP hdefaults ht with
        ⟨name, s, es, -, hs, hpasses, hiff⟩ | ⟨builtin, -, -, -, hiff⟩
      · refine hiff.2 ⟨hcall name s hs es hpasses, hargs, List.forall_mem_map.1 ?_⟩
        exact ihs .value _ _ (fun e he => by simp [Source.Expr.children, he])
          (lowerList_keywords hks)
      · exact hiff.2 hargs

/-- Without calls, every name that the expression mentions is a variable in its counterpart. -/
theorem var_of_each_lower (hP : Plain P) {ctx : Context} {e : Source.Expr} {t : Expr}
    (h : lower env policy ctx e = .ok t) (hcalls : e.containsCall = false) (ht : t.Each P)
    {x : String} (hx : e.mentions x = true) : ∃ u, env.lookup x = some u ∧ P (.var x u) := by
  induction e using Source.Expr.induction generalizing ctx t with
  | step e ih =>
    have ih : ∀ c ∈ e.children, c.mentions x = true → ∀ ctx t, lower env policy ctx c = .ok t →
        t.Each P → ∃ u, env.lookup x = some u ∧ P (.var x u) :=
      fun c hc hx ctx t ht hP =>
        ih c hc ht (Source.Expr.containsCall_of_mem_children hcalls hc) hP hx
    have ihs : ∀ ctx es (ts : List Expr), (∀ c ∈ es, c ∈ e.children) →
        lowerList env policy ctx es = ts.map .ok → (∀ t ∈ ts, t.Each P) →
        ∀ c ∈ es, c.mentions x = true → ∃ u, env.lookup x = some u ∧ P (.var x u) := by
      intro ctx es ts hes hts hall c hc hx
      obtain ⟨t, ht, hct⟩ := exists_lower_of_mem hts hc
      exact ih c (hes c hc) hx ctx t hct (hall t ht)
    -- The name is mentioned by the expression itself or by one of its operands.
    rw [Source.Expr.mentions_iff] at hx
    cases becomes_of_lower h with
    | int | float | bool | str => simp [Source.Expr.asName, Source.Expr.children] at hx
    | name hy =>
      simp only [Source.Expr.asName, Option.some.injEq, Source.Expr.children, List.not_mem_nil,
        false_and, exists_false, or_false] at hx
      subst hx
      exact ⟨_, hy, Expr.each_var.1 ht⟩
    | binary hl hr hlr =>
      rw [each_binaryExpr hP hlr] at ht
      obtain ⟨c, hc, hcx⟩ := hx.resolve_left (by simp [Source.Expr.asName])
      have hmem := hc
      simp only [Source.Expr.children, List.mem_cons, List.not_mem_nil, or_false] at hmem
      rcases hmem with rfl | rfl
      · exact ih _ hc hcx _ _ hl ht.1
      · exact ih _ hc hcx _ _ hr ht.2
    | boolOp hts hjoined =>
      simp only [boolOpExpr, Checked.bind_eq_ok] at hjoined
      obtain ⟨-, -, hjoined⟩ := hjoined
      rw [each_joined hP hjoined] at ht
      obtain ⟨c, hc, hcx⟩ := hx.resolve_left (by simp [Source.Expr.asName])
      exact ihs ctx _ _ (fun _ he => he) hts ht c hc hcx
    | @unary _ _ operand _ _ he _ =>
      obtain ⟨c, hc, hcx⟩ := hx.resolve_left (by simp [Source.Expr.asName])
      obtain rfl : c = operand := by simpa [Source.Expr.children] using hc
      exact ih _ hc hcx _ _ he (Expr.each_unary.1 ht).2
    | compare hts hlinks =>
      rw [each_comparisonExpr hP (length_of_lowerList hts) hlinks] at ht
      obtain ⟨c, hc, hcx⟩ := hx.resolve_left (by simp [Source.Expr.asName])
      exact ihs .value _ _ (fun _ he => he) hts ht c hc hcx
    | call => simp [Source.Expr.containsCall, Source.Expr.nodes, Source.Expr.isCall] at hcalls

/-- Without calls, every name that the expression mentions is in scope. -/
theorem lookup_of_mentions {ctx : Context} {e : Source.Expr} {t : Expr}
    (h : lower env policy ctx e = .ok t) (hcalls : e.containsCall = false) {x : String}
    (hx : e.mentions x = true) : ∃ u, env.lookup x = some u := by
  have hP : Plain fun _ => True := ⟨by simp, by simp, by simp, by simp, by simp⟩
  obtain ⟨u, hu, -⟩ := var_of_each_lower hP h hcalls (fun _ _ => trivial) hx
  exact ⟨u, hu⟩

end Lowering

end StaticScript
