import StaticScript.Proofs.Lowering.Agreement
import StaticScript.Proofs.Lowering.Callees
import Mathlib.Data.List.Perm.Basic

/-!
# Calls are neither dropped nor repeated

Lowering copies operands: the divisor of a remainder stands three times in its counterpart, and an
operand in the middle of a chain of comparisons twice.  It moves arguments, too, to the places of
the parameters that they name.  A call has effects, so none of its own must be made twice or be lost
on the way.

What is copied contains no call, and matching arguments with parameters rearranges them
(`Typing.perm_bindArguments`).  So each construct calls a function as often as its operands do
together, and a call once more.

**Main theorem** (`count_callees_lower`): a function of the program is called as often in a lowered
expression as in the expression.  Its name must not be one of those of the standard library that
lowering writes (`libraryNames`), and no default of a parameter may call it, since defaults are
copied to calls; `miscounted` shows that both are needed.
-/

namespace StaticScript

/-! ### The calls of a tree -/

namespace Target.Expr

@[simp] theorem callees_binary (op : BinaryOp) (l r : Expr) (t : StaticType) :
    (binary op l r t).callees = l.callees ++ r.callees := by
  simp [callees, callee?, List.filterMap_cons]

@[simp] theorem callees_unary (op : UnaryOp) (e : Expr) (t : StaticType) :
    (unary op e t).callees = e.callees := by
  simp [callees, callee?, List.filterMap_cons]

@[simp] theorem callees_castTo (e : Expr) (t : StaticType) : (e.castTo t).callees = e.callees := by
  simp [callees, castTo, callee?, List.filterMap_cons]

@[simp] theorem callees_call (f : String) (es : List Expr) (t : StaticType) :
    (call f es t).callees = f :: es.flatMap callees := by
  simp only [callees, nodes_call, List.filterMap_cons, callee?, List.filterMap_flatMap]
  rfl

end Target.Expr

namespace Source.Expr

theorem callees_of_not_isCall {e : Expr} (h : e.isCall = false) :
    e.callees = e.children.flatMap callees := by
  rw [callees, nodes_eq, List.filterMap_cons, List.filterMap_flatMap]
  cases e with
  | call => cases h
  | _ => rfl

section

variable (site : Site)

theorem callees_binary (op : BinaryOp) (left right : Expr) :
    (binary site op left right).callees = left.callees ++ right.callees := by
  rw [callees_of_not_isCall rfl, children]
  simp

theorem callees_boolOp (op : BoolOp) (values : List Expr) :
    (boolOp site op values).callees = values.flatMap callees := callees_of_not_isCall rfl

theorem callees_unary (op : UnaryOp) (operand : Expr) :
    (unary site op operand).callees = operand.callees := by
  rw [callees_of_not_isCall rfl, children]
  simp

theorem callees_compare (left : Expr) (ops : List CompareOp) (comparators : List Expr) :
    (compare site left ops comparators).callees = (left :: comparators).flatMap callees :=
  callees_of_not_isCall rfl

theorem callees_call (function : Expr) (arguments : List Expr) (keywords : List (String × Expr)) :
    (call site function arguments keywords).callees = function.asName.toList ++
      (function.callees ++ (arguments ++ keywords.map Prod.snd).flatMap callees) := by
  rw [callees, nodes_eq, List.filterMap_cons, List.filterMap_flatMap]
  cases hname : function.asName <;> simp [hname, children] <;> rfl

end

/-- Without calls no function is called. -/
theorem callees_of_containsCall {e : Expr} (h : e.containsCall = false) : e.callees = [] := by
  rw [callees, List.filterMap_eq_nil_iff]
  intro n hn
  simp only [containsCall, List.any_eq_false] at h
  cases n with
  | call => exact absurd rfl (h _ hn)
  | _ => rfl

end Source.Expr

/-! ### Arguments are rearranged -/

namespace Typing

variable {α : Type}

/-- The argument of a slot. -/
def Slot.supplied? : Slot α → Option α
  | .supplied a => some a
  | .default _ => none

theorem filterMap_positionalPlaces (n : Nat) (arguments : List α) :
    (positionalPlaces n arguments).filterMap id = arguments := by
  simp [positionalPlaces, List.filterMap_append]

/-- Filling a free place adds its argument to those that are there. -/
theorem perm_set_place {places : List (Option α)} {i : Nat} (h : places[i]? = some none) (a : α) :
    ((places.set i (some a)).filterMap id).Perm (a :: places.filterMap id) := by
  induction places generalizing i with
  | nil => simp at h
  | cons place places ih =>
    cases i with
    | zero =>
      obtain rfl : place = none := by simpa using h
      simp
    | succ i =>
      have hrest := ih (i := i) (by simpa using h)
      cases place with
      | none => simpa using hrest
      | some b => simpa using (hrest.cons b).trans (.swap a b _)

theorem perm_fillKeywords {params : List SignatureParam} {keywords : List (String × α)}
    {places filled : List (Option α)} (h : fillKeywords params keywords places = .ok filled) :
    (filled.filterMap id).Perm (places.filterMap id ++ keywords.map Prod.snd) := by
  induction keywords generalizing places with
  | nil =>
    obtain rfl : places = filled := by simpa [fillKeywords] using h
    simp
  | cons keyword keywords ih =>
    obtain ⟨name, argument⟩ := keyword
    simp only [fillKeywords] at h
    split at h
    · cases h
    · split at h
      · rename_i hfree
        refine (ih h).trans (((perm_set_place hfree argument).append_right _).trans ?_)
        exact List.perm_middle.symm
      · cases h

theorem filterMap_slots {ps : List (SignatureParam × Option α)} {found : List (Slot α)}
    (h : slots ps = .ok found) :
    found.filterMap Slot.supplied? = (ps.map Prod.snd).filterMap id := by
  induction ps generalizing found with
  | nil =>
    obtain rfl : [] = found := by simpa [slots] using h
    rfl
  | cons p ps ih =>
    obtain ⟨param, place⟩ := p
    cases place with
    | some a =>
      simp only [slots, Checked.bind_eq_ok, Checked.pure_eq_ok] at h
      obtain ⟨rest, hrest, rfl⟩ := h
      simp [Slot.supplied?, ih hrest]
    | none =>
      simp only [slots] at h
      split at h
      · cases h
      · simp only [Checked.bind_eq_ok, Checked.pure_eq_ok] at h
        obtain ⟨rest, hrest, rfl⟩ := h
        split <;> simp [List.filterMap_cons, Slot.supplied?, ih hrest]

/-- **Matching rearranges the arguments of a call**: each goes to one parameter. -/
theorem perm_bindArguments {params : List SignatureParam} {arguments : List α}
    {keywords : List (String × α)} {policy : DefaultPolicy} {found : List (Slot α)}
    (h : bindArguments params arguments keywords policy = .ok found) :
    (found.filterMap Slot.supplied?).Perm (arguments ++ keywords.map Prod.snd) := by
  obtain ⟨places, hlen, hplaces, hfound, -⟩ := bindArguments_eq_ok h
  rw [filterMap_slots hfound, List.map_snd_zip (by omega)]
  have hperm := perm_fillKeywords hplaces
  rwa [filterMap_positionalPlaces] at hperm

end Typing

namespace Lowering

open Target (Expr)
open Typing (Context Slot)

variable {env : Environment} {policy : Policy} {f : String} {l r e t : Expr} {u : StaticType}

/-! ### Operations -/

theorem callees_asDouble (e : Expr) : (asDouble e).callees = e.callees := by
  unfold asDouble
  split
  · rfl
  · exact Expr.callees_castTo e _

section

variable (hf : f ∉ libraryNames)
include hf

/-- A call of the standard library calls what its arguments call. -/
theorem count_callees_library {name : String} (hname : name ∈ libraryNames) (es : List Expr)
    (u : StaticType) :
    (Expr.call name es u).callees.count f = (es.flatMap Expr.callees).count f := by
  rw [Expr.callees_call, List.count_cons_of_ne]
  rintro rfl
  exact hf hname

theorem count_callees_stringObject (e : Expr) :
    (stringObject e).callees.count f = e.callees.count f := by
  unfold stringObject
  split
  · rw [asString, count_callees_library hf (by decide), List.flatMap_singleton]
  · rfl

theorem count_callees_remainder :
    (remainder u l r).callees.count f = l.callees.count f + r.callees.count f := by
  unfold remainder
  split
  · rw [count_callees_library hf (by decide)]
    simp
  · simp

theorem count_callees_floorQuotient :
    (floorQuotient u l r).callees.count f = l.callees.count f + r.callees.count f := by
  unfold floorQuotient
  split
  · rw [count_callees_library hf (by decide)]
    simp
  · rw [Expr.callees_castTo, count_callees_library hf (by decide)]
    simp [callees_asDouble]

/-- An operation calls what its operands call, if the divisor of a remainder calls nothing. -/
theorem count_callees_binaryExpr {op : Source.BinaryOp} {calls : Bool}
    (hr : op = .mod → r.callees.count f = 0) (h : binaryExpr op calls l r = .ok e) :
    e.callees.count f = l.callees.count f + r.callees.count f := by
  simp only [binaryExpr, Checked.bind_eq_ok] at h
  obtain ⟨u, -, h⟩ := h
  cases op with
  | matMult => simp at h
  | mod =>
    -- The divisor stands three times, so it counts for nothing only if it calls nothing.
    simp only [Checked.guard_eq_ok, Checked.pure_eq_ok] at h
    rw [← h.2, count_callees_remainder hf, Expr.callees_binary, List.count_append,
      count_callees_remainder hf, hr rfl]
  | floorDiv =>
    simp only [Checked.pure_eq_ok] at h
    rw [← h, count_callees_floorQuotient hf]
  | add =>
    simp only [Checked.pure_eq_ok] at h
    rw [← h, Expr.callees_binary, List.count_append, count_callees_stringObject hf]
  | div =>
    simp only [Checked.pure_eq_ok] at h
    rw [← h, Expr.callees_binary, List.count_append, callees_asDouble]
  | pow =>
    simp only [Checked.pure_eq_ok] at h
    rw [← h, count_callees_library hf (by decide)]
    simp
  | _ =>
    simp only [Checked.pure_eq_ok] at h
    rw [← h, Expr.callees_binary, List.count_append]

end

theorem callees_joined {op : Target.BinaryOp} {es : List Expr} (h : joined op es = .ok t) :
    t.callees = es.flatMap Expr.callees := by
  have hfold : ∀ (es : List Expr) (first : Expr),
      (es.foldl (fun left right => Expr.binary op left right .boolean) first).callees =
        first.callees ++ es.flatMap Expr.callees := by
    intro es
    induction es with
    | nil => simp
    | cons e es ih =>
      intro first
      rw [List.foldl_cons, ih, Expr.callees_binary, List.flatMap_cons, List.append_assoc]
  cases es with
  | nil => cases h
  | cons first es =>
    obtain rfl := Except.ok.inj h
    rw [hfold, List.flatMap_cons]

/-- The links of a chain call what its operands call, if those in the middle call nothing. -/
theorem count_callees_comparisonLinks (hf : f ∉ libraryNames) {ops : List Source.CompareOp}
    {first : Expr} {rest links : List Expr} (hlen : ops.length = rest.length) (hne : ops ≠ [])
    (hmiddle : ∀ e ∈ rest.dropLast, e.callees.count f = 0)
    (h : comparisonLinks ops first rest = .ok links) :
    (links.flatMap Expr.callees).count f =
      first.callees.count f + (rest.flatMap Expr.callees).count f := by
  induction rest generalizing ops first links with
  | nil => exact absurd (List.length_eq_zero_iff.1 hlen) hne
  | cons right rest ih =>
    cases ops with
    | nil => cases hlen
    | cons op ops =>
      simp only [comparisonLinks, Checked.bind_eq_ok, Checked.pure_eq_ok] at h
      obtain ⟨-, -, cpp, -, later, hlater, rfl⟩ := h
      have hlink : (Expr.binary cpp (if right.isText = true then stringObject first else first)
          right .boolean).callees.count f = first.callees.count f + right.callees.count f := by
        rw [Expr.callees_binary, List.count_append]
        split
        · rw [count_callees_stringObject hf]
        · rfl
      rw [List.flatMap_cons, List.count_append, hlink, List.flatMap_cons, List.count_append]
      cases ops with
      | nil =>
        obtain rfl : rest = [] := List.length_eq_zero_iff.1 (Nat.succ.inj hlen).symm
        obtain rfl : [] = later := by simpa [comparisonLinks] using hlater
        simp
      | cons op' ops =>
        -- The operand stands in this link and in the next.
        have hrest : rest ≠ [] := by
          rintro rfl
          cases hlen
        rw [List.dropLast_cons_of_ne_nil hrest, List.forall_mem_cons] at hmiddle
        rw [ih (Nat.succ.inj hlen) (by simp) hmiddle.2 hlater, hmiddle.1]
        omega

theorem count_callees_comparisonExpr (hf : f ∉ libraryNames) {ops : List Source.CompareOp}
    {comparators : List Source.Expr} {first : Expr} {rest : List Expr}
    (hrest : rest.length = comparators.length)
    (hmiddle : ∀ e ∈ rest.dropLast, e.callees.count f = 0)
    (h : comparisonExpr ops comparators ((first :: rest).map .ok) = .ok t) :
    t.callees.count f = ((first :: rest).flatMap Expr.callees).count f := by
  simp only [comparisonExpr, Checked.guard_eq_ok, Checked.bind_eq_ok, Checked.sequence_eq_ok,
    Bool.or_eq_true, List.isEmpty_iff, ne_eq, decide_eq_true_eq, not_or, not_not] at h
  obtain ⟨⟨hne, hlen⟩, -, ts, hts, h⟩ := h
  obtain rfl := List.map_injective_iff.2 (fun _ _ => Except.ok.inj) hts
  simp only [Checked.bind_eq_ok] at h
  obtain ⟨links, hlinks, h⟩ := h
  rw [callees_joined h, List.flatMap_cons, List.count_append]
  exact count_callees_comparisonLinks hf (hlen.trans hrest.symm) hne hmiddle hlinks

/-! ### Calls -/

theorem mem_libraryNames_of_callee {function : Source.Expr} {name : String}
    (h : Typing.callee env function = .ok (.math name)) : "std::" ++ name ∈ libraryNames :=
  List.mem_append_right _ (List.mem_map_of_mem (Typing.offered_of_callee h))

theorem count_callees_builtinCall (hf : f ∉ libraryNames) {function : Source.Expr}
    {callee : Typing.Callee} {es : List Expr} (hcallee : Typing.callee env function = .ok callee)
    (h : builtinCall callee es = .ok t) :
    t.callees.count f = (es.flatMap Expr.callees).count f := by
  simp only [builtinCall, Checked.bind_eq_ok] at h
  obtain ⟨u, hu, h⟩ := h
  split at h
  · rename_i target operand rest
    obtain rfl : castExpr target u operand = t := by simpa using h
    -- A conversion takes one argument.
    cases rest with
    | nil =>
      unfold castExpr
      repeat' split
      · simp
      · exact count_callees_library hf (by decide) _ _
      · simp
    | cons => simp [Typing.builtinCallType] at hu
  · simp at h
  · obtain rfl := by simpa using h
    exact count_callees_library hf (by decide) _ _
  · obtain rfl := by simpa using h
    exact count_callees_library hf (by decide) _ _
  · split at h
    · obtain rfl := by simpa using h
      rw [Expr.callees_castTo]
      exact count_callees_library hf (mem_libraryNames_of_callee hcallee) _ _
    · obtain rfl := by simpa using h
      exact count_callees_library hf (mem_libraryNames_of_callee hcallee) _ _
  · simp at h
  · simp at h

/-- What is delivered calls what is supplied, if no default calls anything. -/
theorem Delivers.count_callees (hf : f ∉ libraryNames) {found : List (Slot Expr)}
    {params : List SignatureParam} {as : List Expr} (h : Delivers found params as)
    (hdefaults : ∀ p ∈ params, ∀ v, p.default = some v → f ∉ v.callees) :
    (as.flatMap Expr.callees).count f =
      ((found.filterMap Slot.supplied?).flatMap Expr.callees).count f := by
  have hsupplied : ∀ e : Expr, Slot.supplied? (.supplied e) = some e := fun _ => rfl
  induction h with
  | rest => rfl
  | concrete _ _ _ ih =>
    rw [List.flatMap_cons, List.count_append, ih (List.forall_mem_cons.1 hdefaults).2,
      List.filterMap_cons_some (hsupplied _), List.flatMap_cons, List.count_append]
  | generic _ _ _ ih =>
    rw [List.flatMap_cons, List.count_append, ih (List.forall_mem_cons.1 hdefaults).2,
      List.filterMap_cons_some (hsupplied _), List.flatMap_cons, List.count_append,
      count_callees_stringObject hf]
  | default hp _ ih =>
    rw [List.forall_mem_cons] at hdefaults
    rw [List.flatMap_cons, List.count_append, List.count_eq_zero_of_not_mem (hdefaults.1 _ hp),
      ih hdefaults.2, Nat.zero_add]
    rfl

theorem count_callees_userCall (hf : f ∉ libraryNames) {s : Signature} {ts : List Expr}
    {ks : List (String × Expr)}
    (hdefaults : ∀ p ∈ s.params, ∀ v, p.default = some v → f ∉ v.callees)
    (h : userCall policy s (ts.map .ok) (ks.map (Prod.map id .ok)) = .ok t) :
    t.callees.count f =
      [s.name].count f + ((ts ++ ks.map Prod.snd).flatMap Expr.callees).count f := by
  obtain ⟨found, as, hfound, hdelivers, rfl⟩ := delivers_userCall h
  have harguments := (Typing.perm_bindArguments hfound).flatMap_right Expr.callees
  rw [Expr.callees_call, ← List.singleton_append, List.count_append,
    hdelivers.count_callees hf hdefaults, harguments.count_eq]

/-! ### Expressions -/

theorem count_callees_lowerList {ctx : Context} {es : List Source.Expr} {ts : List Expr}
    (hes : ∀ e ∈ es, ∀ t, lower env policy ctx e = .ok t → t.callees.count f = e.callees.count f)
    (h : lowerList env policy ctx es = ts.map .ok) :
    (ts.flatMap Expr.callees).count f = (es.flatMap Source.Expr.callees).count f := by
  induction es generalizing ts with
  | nil =>
    obtain rfl : ts = [] := by simpa [lowerList] using h
    rfl
  | cons e es ih =>
    cases ts with
    | nil => simp [lowerList] at h
    | cons t ts =>
      simp only [lowerList, List.map_cons, List.cons.injEq] at h
      rw [List.forall_mem_cons] at hes
      simp only [List.flatMap_cons, List.count_append, hes.1 t h.1, ih hes.2 h.2]

/-- An operand in the middle of a chain is copied, but it contains no call. -/
theorem count_callees_compare (hf : f ∉ libraryNames) {ops : List Source.CompareOp}
    {left : Source.Expr} {comparators : List Source.Expr}
    (hoperands : ∀ c ∈ left :: comparators, ∀ t, lower env policy .value c = .ok t →
      t.callees.count f = c.callees.count f)
    (h : comparisonExpr ops comparators (lowerList env policy .value (left :: comparators)) =
      .ok t) :
    t.callees.count f = ((left :: comparators).flatMap Source.Expr.callees).count f := by
  obtain ⟨⟨ts, hts⟩, hcalls⟩ := comparisonExpr_operands h
  rw [hts] at h
  cases ts with
  | nil => cases hts
  | cons first rest =>
    have hrest : lowerList env policy .value comparators = rest.map .ok := (List.cons.inj hts).2
    have hlength : rest.length = comparators.length := length_of_lowerList hrest
    have hdrop : lowerList env policy .value comparators.dropLast = rest.dropLast.map .ok := by
      rw [lowerList_eq_map] at hrest ⊢
      rw [List.map_dropLast, hrest, List.map_dropLast]
    have hmiddle : ∀ e ∈ rest.dropLast, e.callees.count f = 0 := by
      intro e he
      obtain ⟨c, hc, hce⟩ := exists_of_mem_lowerList hdrop he
      have hmem : c ∈ left :: comparators := List.mem_cons_of_mem _ (List.dropLast_subset _ hc)
      rw [hoperands c hmem e hce, Source.Expr.callees_of_containsCall (hcalls c hc)]
      rfl
    rw [count_callees_comparisonExpr hf hlength hmiddle h]
    exact count_callees_lowerList hoperands hts

/-- A call calls its function and what its arguments call, in whichever order. -/
theorem count_callees_callExpr (hf : f ∉ libraryNames) (hknown : (env.function? f).isSome = true)
    (hdefaults : ∀ s ∈ env.globals.functions, ∀ p ∈ s.params, ∀ v, p.default = some v →
      f ∉ v.callees)
    {function : Source.Expr} {ts : List Expr} {ks : List (String × Expr)}
    (h : callExpr env policy function (ts.map .ok) (ks.map (Prod.map id .ok)) = .ok t) :
    function.callees = [] ∧ t.callees.count f =
      function.asName.toList.count f + ((ts ++ ks.map Prod.snd).flatMap Expr.callees).count f := by
  rcases callExpr_eq_ok h with
    ⟨name, s, hcallee, hs, hcall⟩ | ⟨builtin, es, hcallee, hnil, hes, hcall⟩
  · refine ⟨callees_of_callee hcallee, ?_⟩
    rw [count_callees_userCall hf (hdefaults s (List.mem_of_find?_eq_some hs)) hcall,
      Typing.asName_of_callee hcallee, Globals.name_of_function? hs]
    rfl
  · obtain rfl := List.map_injective_iff.2 (fun _ _ => Except.ok.inj) hes
    obtain rfl : ks = [] := by simpa using hnil
    -- A function of the program hides the built-in one of its name.
    have hname : function.asName ≠ some f := by
      intro hname
      rw [callee_of_asName hname hknown] at hcallee
      obtain rfl := Except.ok.inj hcallee
      simp [builtinCall, Typing.builtinCallType] at hcall
    have hown : function.asName.toList.count f = 0 :=
      List.count_eq_zero_of_not_mem (by simpa using hname)
    refine ⟨callees_of_callee hcallee, ?_⟩
    rw [count_callees_builtinCall hf hcallee hcall, hown, Nat.zero_add, List.map_nil,
      List.append_nil]

/-- **Calls are neither dropped nor repeated**: a function of the program is called as often in a
lowered expression as in the expression. -/
theorem count_callees_lower (env : Environment) (policy : Policy) (ctx : Context)
    (e : Source.Expr) (t : Expr) (h : lower env policy ctx e = .ok t) (f : String)
    (hknown : (env.function? f).isSome = true) (hlibrary : f ∉ libraryNames)
    (hdefaults : ∀ s ∈ env.globals.functions, ∀ p ∈ s.params, ∀ v, p.default = some v →
      f ∉ v.callees) :
    t.callees.count f = e.callees.count f := by
  induction e using Source.Expr.induction generalizing ctx t with
  | step e ih =>
    have ihs : ∀ ctx es (ts : List Expr), (∀ c ∈ es, c ∈ e.children) →
        lowerList env policy ctx es = ts.map .ok →
        (ts.flatMap Expr.callees).count f = (es.flatMap Source.Expr.callees).count f :=
      fun ctx es ts hes hts =>
        count_callees_lowerList (fun c hc t ht => ih c (hes c hc) ctx t ht) hts
    cases e with
    | int site n =>
      simp only [lower, Checked.bind_eq_ok, Checked.pure_eq_ok] at h
      obtain ⟨-, -, rfl⟩ := h
      rfl
    | float site x | bool site b | str site s =>
      obtain rfl := Except.ok.inj h
      rfl
    | name site x =>
      simp only [lower, Checked.bind_eq_ok, Checked.pure_eq_ok] at h
      obtain ⟨u, -, rfl⟩ := h
      rfl
    | binary site op left right =>
      simp only [lower, Checked.bind_eq_ok] at h
      obtain ⟨l, hl, r, hr, h⟩ := h
      have hleft := ih left (by simp [Source.Expr.children]) _ _ hl
      have hright := ih right (by simp [Source.Expr.children]) _ _ hr
      have hmod : op = .mod → r.callees.count f = 0 := by
        intro hop
        rw [hright, Source.Expr.callees_of_containsCall ((binaryExpr_eq_ok h).2 hop)]
        rfl
      rw [count_callees_binaryExpr hlibrary hmod h, hleft, hright, Source.Expr.callees_binary,
        List.count_append]
    | boolOp site op values =>
      simp only [lower, boolOpExpr, Checked.bind_eq_ok, Checked.sequence_eq_ok] at h
      obtain ⟨ts, hts, -, -, h⟩ := h
      rw [callees_joined h, Source.Expr.callees_boolOp]
      exact ihs ctx values ts (fun _ he => he) hts
    | unary site op operand =>
      simp only [lower, Checked.bind_eq_ok, Checked.pure_eq_ok] at h
      obtain ⟨e, he, u, -, rfl⟩ := h
      rw [Expr.callees_unary, ih operand (by simp [Source.Expr.children]) _ _ he,
        Source.Expr.callees_unary]
    | compare site left ops comparators =>
      rw [lower] at h
      rw [Source.Expr.callees_compare]
      exact count_callees_compare hlibrary (fun c hc => ih c hc .value) h
    | call site function arguments keywords =>
      rw [lower] at h
      obtain ⟨ts, ks, hts, hks⟩ := callExpr_arguments h
      rw [hts, hks] at h
      have hvalues : lowerList env policy .value (arguments ++ keywords.map Prod.snd) =
          (ts ++ ks.map Prod.snd).map .ok := by
        have hkeywords := lowerList_keywords hks
        rw [lowerList_eq_map] at hts hkeywords ⊢
        rw [List.map_append, hts, hkeywords, List.map_append]
      obtain ⟨hfunction, hcount⟩ := count_callees_callExpr hlibrary hknown hdefaults h
      have harguments := ihs .value (arguments ++ keywords.map Prod.snd) _
        (fun _ hc => List.mem_cons_of_mem _ hc) hvalues
      rw [hcount, harguments, Source.Expr.callees_call, hfunction, List.nil_append,
        List.count_append]
    | named | none | attr | list | tuple | set | dict | other => simp [lower] at h

end Lowering

namespace Source

open Compose

/-- `scale(n) % 3 <= n < scale(by=scale(n), n=1)` -/
def regrouped : Expr :=
  compare (binary (call (name "scale") [name "n"] []) .mod (int 3)) [(.ltE, name "n"),
    (.lt, call (name "scale") [] [("by", call (name "scale") [name "n"] []), ("n", int 1)])]

/-- `5 // 2` -/
def halved : Expr := binary (int 5) .floorDiv (int 2)

/-- `one(y=1)` -/
def completed : Expr := call (name "one") [] [("y", int 1)]

end Source

namespace Environment

open Source.Compose

/-- A script defines a function with a name that is no identifier. -/
def floored : Environment :=
  .ofGlobals (Lowering.programGlobals ⟨.template, .keep⟩
    [functionDef "std::floor" [⟨"x", some "float", Option.none, .positional⟩] (some "float")
      [ret (some (name "x"))]])

/-- The function `one` is called by a default of its own. -/
def recalling : Environment where
  innermost := []
  outer := []
  globals.functions := [⟨"one", 0, [⟨"x", .concrete .integer, some (.call "one" [] .integer)⟩,
    ⟨"y", .concrete .integer, Option.none⟩], .integer, true⟩]
  globals.mathModule := false
  globals.mathFunctions := []

end Environment

namespace Lowering

/-- Three calls stay three calls, although operands are copied and arguments change places. -/
theorem regrouped_counted :
    ((Environment.scaled.function? "scale").isSome = true ∧ "scale" ∉ libraryNames ∧
      ∀ s ∈ Environment.scaled.globals.functions, ∀ p ∈ s.params, ∀ v, p.default = some v →
        "scale" ∉ v.callees) ∧
    Source.regrouped.callees.count "scale" = 3 ∧
    ∃ t, lower .scaled ⟨.template, .keep⟩ .value Source.regrouped = .ok t ∧
      t.callees.count "scale" = 3 := by
  have hdefaults : ∀ s ∈ Environment.scaled.globals.functions, ∀ p ∈ s.params, ∀ v,
      p.default = some v → "scale" ∉ v.callees := by
    intro s hs p hp v hv
    obtain rfl := List.mem_singleton.1 hs
    rcases List.mem_pair.1 hp with rfl | rfl <;> cases hv
    decide
  have hlower : (lower .scaled ⟨.template, .keep⟩ .value Source.regrouped).isOk = true := by
    decide +kernel
  obtain ⟨t, ht⟩ := Checked.isOk_iff.1 hlower
  have hcount : Source.regrouped.callees.count "scale" = 3 := by decide +kernel
  refine ⟨⟨rfl, by decide +kernel, hdefaults⟩, hcount, t, ht, ?_⟩
  rw [← hcount]
  exact count_callees_lower _ _ _ _ t ht "scale" rfl (by decide +kernel) hdefaults

/-- A quotient that is rounded down calls a function that the script does not call, if the function
has the name of one of the standard library; and a default that calls its function is copied to the
call. -/
theorem miscounted :
    ((Environment.floored.function? "std::floor").isSome = true ∧
      Source.halved.callees.count "std::floor" = 0 ∧
      ∃ t, lower .floored ⟨.template, .keep⟩ .value Source.halved = .ok t ∧
        t.callees.count "std::floor" = 1) ∧
    (Environment.recalling.function? "one").isSome = true ∧
      Source.completed.callees.count "one" = 1 ∧
      ∃ t, lower .recalling ⟨.template, .keep⟩ .value Source.completed = .ok t ∧
        t.callees.count "one" = 2 := by
  refine ⟨⟨?_, ?_, _, rfl, ?_⟩, ?_, ?_, _, rfl, ?_⟩ <;> decide +kernel

end Lowering

end StaticScript
