import StaticScript.Proofs.Lowering.Types
import StaticScript.Proofs.Semantics.Machine

/-!
# Values are preserved

An expression of the core language and the expression that it is lowered to have the same value, if
the variables in scope hold the values of their names (`preserves_lower`).  Where a value is asked
for, the static type says what kind of value it is.  Where a condition is asked for only the truth
is the same: `1 and 2` is `2` in a script, and `true` once it is lowered.

Division and remainder need an argument.  The quotient of floating-point numbers, rounded down, is
the quotient of the integers rounded down (`floor_div_eq_fdiv`), and a remainder gets the sign of
the divisor when that is added to it (`tmod_tmod_add`).
-/

namespace StaticScript

open Source (BoolOp CompareOp)
open Typing (Context)

/-- The static type of a value. -/
def Script.Value.type : Script.Value → StaticType
  | int _ => .integer
  | bool _ => .boolean
  | str _ => .string

namespace Machine

/-- What stands for the value of a script. -/
def image : Script.Value → Value
  | .int n => .int n
  | .bool b => .bool b
  | .str s => .text s

@[simp] theorem number?_image (v : Script.Value) : (image v).number? = v.number? := by
  cases v <;> rfl

variable {M : Machine} {cells : List Cell}

/-- The value stands for a number that fits. -/
def Holds (M : Machine) (v : Script.Value) : Prop := ∃ n, v.number? = some n ∧ M.fits n = true

theorem Holds.fits {v : Script.Value} {n : Int} (h : M.Holds v) (hn : v.number? = some n) :
    M.fits n = true := by
  obtain ⟨k, hk, hfits⟩ := h
  obtain rfl := Option.some.inj (hk.symm.trans hn)
  exact hfits

theorem holds_bool (b : Bool) : M.Holds (.bool b) := ⟨_, rfl, M.fits_bool b⟩

/-- The expression has the truth `b`. -/
def Tests (M : Machine) (cells : List Cell) (t : Target.Expr) (b : Bool) : Prop :=
  M.Yields (M.eval cells t) fun w => w.truth = b

/-- The expression has the value `v`. -/
def Evaluates (M : Machine) (cells : List Cell) (t : Target.Expr) (v : Script.Value) : Prop :=
  M.Yields (M.eval cells t) fun w => w = image v ∧ M.Holds v

/-- The expression has the value `v` as far as the context asks for it. -/
def Preserved (M : Machine) (cells : List Cell) : Context → Target.Expr → Script.Value → Prop
  | .value, t, v => t.type = v.type ∧ M.Evaluates cells t v
  | .condition, t, v => M.Tests cells t v.truth

theorem Evaluates.tests {t : Target.Expr} {v : Script.Value} (h : M.Evaluates cells t v) :
    M.Tests cells t v.truth := by
  refine h.imp fun w hw => ?_
  obtain ⟨rfl, n, hn, -⟩ := hw
  cases v with
  | int | bool => rfl
  | str => cases hn

theorem preserved_of_evaluates {t : Target.Expr} {v : Script.Value} (ctx : Context)
    (htype : t.type = v.type) (h : M.Evaluates cells t v) : M.Preserved cells ctx t v := by
  cases ctx with
  | value => exact ⟨htype, h⟩
  | condition => exact h.tests

theorem Preserved.tests {ctx : Context} {t : Target.Expr} {v : Script.Value}
    (h : M.Preserved cells ctx t v) : M.Tests cells t v.truth := by
  cases ctx with
  | value => exact h.2.tests
  | condition => exact h

/-- Whatever value `e` has, `t` has as far as the context asks for it. -/
def Preserves (M : Machine) (store : Script.Store) (cells : List Cell) (ctx : Context)
    (e : Source.Expr) (t : Target.Expr) : Prop :=
  ∀ ⦃v⦄, Script.eval store e = some v → M.Preserved cells ctx t v

/-! ### Arithmetic -/

theorem eval_stringObject (t : Target.Expr) :
    M.eval cells (Lowering.stringObject t) = M.eval cells t := by
  unfold Lowering.stringObject
  split
  · cases t with
    | string s type => rfl
    | _ => simp_all [Target.Expr.isText]
  · rfl

/-- An operation on integers. -/
theorem evaluates_binary {op : Target.BinaryOp} {l r : Target.Expr} {v w u : Script.Value}
    {a b : Int} (type : StaticType) (hl : M.Evaluates cells l v) (hr : M.Evaluates cells r w)
    (ha : v.number? = some a) (hb : w.number? = some b) (hop : settling? op = none)
    (h : M.Yields (M.onInts op a b) fun x => x = image u ∧ M.Holds u) :
    M.Evaluates cells (.binary op l r type) u := by
  unfold Evaluates
  simp only [eval, hop]
  refine hl.bind ?_
  rintro x ⟨hx, -⟩
  refine hr.bind ?_
  rintro y ⟨hy, -⟩
  simp only [binary, hx, hy, number?_image, ha, hb]
  exact h

theorem yields_image_int (n : Int) :
    M.Yields (M.int n) fun x => x = image (.int n) ∧ M.Holds (.int n) :=
  (yields_int n).imp fun _ h => ⟨h.1, n, rfl, h.2⟩

theorem floor_div_eq_fdiv {a b : Int} (hb : b ≠ 0) : ⌊(a / b : ℚ)⌋ = Int.fdiv a b := by
  have hpos : ∀ {a b : Int}, 0 < b → ⌊(a / b : ℚ)⌋ = Int.fdiv a b := by
    intro a b hb
    obtain ⟨n, rfl⟩ := Int.eq_ofNat_of_zero_le hb.le
    rw [Int.fdiv_eq_ediv_of_nonneg _ hb.le]
    exact_mod_cast Rat.floor_intCast_div_natCast a n
  rcases lt_or_gt_of_ne hb with hneg | hb
  · -- The quotient is the same if both signs are changed.
    rw [← Int.neg_fdiv_neg, ← hpos (by omega)]
    push_cast
    rw [neg_div_neg_eq]
  · exact hpos hb

theorem tmod_tmod_add (a b : Int) : Int.tmod (Int.tmod a b + b) b = Int.fmod a b := by
  have hpos : ∀ {a b : Int}, 0 < b → Int.tmod (Int.tmod a b + b) b = Int.fmod a b := by
    intro a b hb
    -- The sum is not negative, so the outer remainder is the euclidean one.
    have hlow : -b < Int.tmod a b := Int.lt_tmod_of_pos a hb
    rw [Int.tmod_eq_emod_of_nonneg (by omega), Int.fmod_eq_emod_of_nonneg _ hb.le,
      Int.add_emod_right]
    conv_rhs => rw [← Int.mul_tdiv_add_tmod a b, Int.mul_add_emod_self_left]
  rcases lt_trichotomy b 0 with hneg | rfl | hb
  · have h := hpos (a := -a) (b := -b) (by omega)
    rw [Int.neg_tmod, Int.tmod_neg, ← neg_add, Int.neg_tmod, Int.tmod_neg, Int.neg_fmod_neg] at h
    exact neg_injective h
  · simp
  · exact hpos hb

theorem evaluates_mod {l r : Target.Expr} {v w : Script.Value} {a b : Int}
    (hl : M.Evaluates cells l v) (hr : M.Evaluates cells r w) (ha : v.number? = some a)
    (hb : w.number? = some b) (hne : b ≠ 0) :
    M.Evaluates cells (.binary .mod l r .integer) (.int (Int.tmod a b)) := by
  refine evaluates_binary _ hl hr ha hb rfl ?_
  simp only [onInts, if_neg hne]
  exact (yields_int _).bind fun _ _ => yields_image_int _

theorem evaluates_floorQuotient {l r : Target.Expr} {v w : Script.Value} {a b : Int}
    (hl : M.Evaluates cells l v) (hr : M.Evaluates cells r w) (htype : l.type = v.type)
    (ha : v.number? = some a) (hb : w.number? = some b) (hne : b ≠ 0) :
    M.Evaluates cells (Lowering.floorQuotient .integer l r) (.int (Int.fdiv a b)) := by
  have hl' : l.type ≠ .floating := by
    rw [htype]
    cases v <;> simp [Script.Value.type]
  have hx : (image v).real? = some (a : ℚ) := by
    cases v <;> simp_all [image, Value.real?, Value.number?, Script.Value.number?]
  have hy : (image w).real? = some (b : ℚ) := by
    cases w <;> simp_all [image, Value.real?, Value.number?, Script.Value.number?]
  unfold Evaluates
  simp only [Lowering.floorQuotient, reduceCtorEq, if_false, Lowering.asDouble, if_neg hl',
    Target.Expr.castTo, eval, bind_assoc, settling?]
  refine hl.bind ?_
  rintro x ⟨hx', hv⟩
  refine Yields.bind (P := fun x => x = .real a) ?_ fun x hreal => ?_
  · rw [hx', convert, hx]
    exact yields_ok rfl
  refine hr.bind ?_
  rintro y ⟨hy', hw⟩
  have hq : M.binary .div x y = .ok (.real (M.round (a / b))) := by
    have hb0 : (b : ℚ) ≠ 0 := by exact_mod_cast hne
    have hx₀ : (Value.real a).number? = none := rfl
    have hx₁ : (Value.real a).real? = some (a : ℚ) := rfl
    rw [hreal, hy', binary]
    simp only [hx₀, hx₁, hy, onReals, if_neg hb0]
  rw [hq]
  -- The quotient is rounded as a double before it is rounded down, which changes nothing.
  have hfloor : ⌊M.round (a / b)⌋ = Int.fdiv a b := by
    rw [M.floor_round (hv.fits ha) (hw.fits hb) hne, floor_div_eq_fdiv hne]
  -- The conversion cuts off fractions, and there is none.
  have hcut : (if (0 : ℚ) ≤ (Int.fdiv a b : ℚ) then ⌊(Int.fdiv a b : ℚ)⌋
      else ⌈(Int.fdiv a b : ℚ)⌉) = Int.fdiv a b := by
    split
    · exact Int.floor_intCast _
    · exact Int.ceil_intCast _
  show M.Yields (M.convert .integer (.real ⌊M.round (a / b)⌋)) _
  rw [hfloor, convert, hcut]
  exact yields_image_int _

theorem binaryType_of_numbers {op : Source.BinaryOp} {v w : Script.Value} {a b : Int}
    (hop : op.isCore = true) (ha : v.number? = some a) (hb : w.number? = some b) :
    Typing.binaryType op v.type w.type = .ok .integer := by
  cases op with
  | add | sub | mult | floorDiv | mod =>
    cases v <;> cases w <;>
      first
      | rfl
      | simp [Script.Value.number?] at ha hb
  | _ => cases hop

/-- Arithmetic keeps its result. -/
theorem preserved_binaryExpr {ctx : Context} {op : Source.BinaryOp} {calls : Bool}
    {l r t : Target.Expr} {v w u : Script.Value} (hop : op.isCore = true)
    (hl : M.Preserved cells .value l v) (hr : M.Preserved cells .value r w)
    (ht : Lowering.binaryExpr op calls l r = .ok t)
    (hu : Script.binary op v w = some u) : M.Preserved cells ctx t u := by
  obtain ⟨hltype, hl⟩ := hl
  obtain ⟨hrtype, hr⟩ := hr
  simp only [Script.binary, Option.bind_eq_bind, Option.bind_eq_some_iff, Option.pure_def,
    Option.some.injEq] at hu
  obtain ⟨a, ha, b, hb, n, hn, rfl⟩ := hu
  simp only [Lowering.binaryExpr, hltype, hrtype, binaryType_of_numbers hop ha hb,
    Checked.bind_eq_ok, Except.ok.injEq, exists_eq_left'] at ht
  cases op with
  | add =>
    obtain rfl := Option.some.inj hn
    obtain rfl := Checked.pure_eq_ok.1 ht
    have hl' : M.Evaluates cells (Lowering.stringObject l) v := by
      unfold Evaluates
      rw [eval_stringObject]
      exact hl
    exact preserved_of_evaluates ctx rfl (evaluates_binary _ hl' hr ha hb rfl (yields_image_int _))
  | sub | mult =>
    obtain rfl := Option.some.inj hn
    obtain rfl := Checked.pure_eq_ok.1 ht
    exact preserved_of_evaluates ctx rfl (evaluates_binary _ hl hr ha hb rfl (yields_image_int _))
  | floorDiv =>
    simp only [Script.arithmetic, Option.ite_none_left_eq_some, Option.some.injEq] at hn
    obtain ⟨hne, rfl⟩ := hn
    obtain rfl := Checked.pure_eq_ok.1 ht
    exact preserved_of_evaluates ctx rfl (evaluates_floorQuotient hl hr hltype ha hb hne)
  | mod =>
    simp only [Script.arithmetic, Option.ite_none_left_eq_some, Option.some.injEq] at hn
    obtain ⟨hne, rfl⟩ := hn
    simp only [Checked.guard_eq_ok, Checked.pure_eq_ok, Lowering.remainder, reduceCtorEq,
      if_false] at ht
    obtain ⟨-, rfl⟩ := ht
    have hsum : M.Evaluates cells (.binary .add (.binary .mod l r .integer) r .integer)
        (.int (Int.tmod a b + b)) :=
      evaluates_binary _ (evaluates_mod hl hr ha hb hne) hr rfl hb rfl (yields_image_int _)
    have hmod := evaluates_mod hsum hr rfl hb hne
    rw [tmod_tmod_add] at hmod
    exact preserved_of_evaluates ctx rfl hmod
  | _ => cases hop

/-! ### `and` and `or` -/

/-- The left operand settles the result. -/
theorem yields_settled {op : Target.BinaryOp} {l : Target.Expr} {b : Bool} (r : Target.Expr)
    (type : StaticType) (hop : settling? op = some b) (hl : M.Tests cells l b) :
    M.Yields (M.eval cells (.binary op l r type)) fun w => w = .bool b := by
  simp only [eval, hop]
  refine hl.bind fun x hx => ?_
  rw [if_pos hx]
  exact yields_ok rfl

/-- The left operand leaves the result to the right one. -/
theorem yields_unsettled {op : Target.BinaryOp} {l r : Target.Expr} {b c : Bool} (type : StaticType)
    (hop : settling? op = some b) (hl : M.Tests cells l (!b)) (hr : M.Tests cells r c) :
    M.Yields (M.eval cells (.binary op l r type)) fun w => w = .bool c := by
  simp only [eval, hop]
  refine hl.bind fun x hx => ?_
  rw [if_neg (by simp [hx])]
  refine hr.bind fun y hy => yields_ok ?_
  rw [hy]

theorem settling?_logicalOp (op : BoolOp) :
    settling? (Lowering.logicalOp op) = some (Script.settling op) := by
  cases op <;> rfl

/-- A truth value is preserved in every context, and any value where only its truth is asked for. -/
theorem preserved_of_truth {ctx : Context} {t : Target.Expr} {v : Script.Value}
    (htype : t.type = .boolean) (hv : ctx = .value → v.type = .boolean)
    (h : M.Yields (M.eval cells t) fun w => w = .bool v.truth) : M.Preserved cells ctx t v := by
  cases ctx with
  | condition => exact h.imp fun w hw => by rw [hw]; rfl
  | value =>
    cases v with
    | bool b => exact ⟨htype, h.imp fun _ hw => ⟨hw, holds_bool b⟩⟩
    | int | str => simp [Script.Value.type] at hv

section

variable {store : Script.Store}

theorem evalBool_of_truth {op : BoolOp} {v : Script.Value} (h : v.truth = Script.settling op)
    (es : List Source.Expr) : Script.evalBool store op v es = some v := by
  cases es with
  | nil => simp only [Script.evalBool]
  | cons e es => simp only [Script.evalBool, if_pos h]

/-- Operands joined from left to right, once the first of them has been evaluated. -/
theorem preserved_evalBool {ctx : Context} {op : BoolOp} {es : List Source.Expr}
    {ts : List Target.Expr} {first : Target.Expr} {v u : Script.Value}
    (hes : List.Forall₂ (M.Preserves store cells ctx) es ts)
    (htypes : ctx = .value → ∀ t ∈ ts, t.type = .boolean) (hfirst : M.Preserved cells ctx first v)
    (hv : ctx = .value → v.type = .boolean) (h : Script.evalBool store op v es = some u) :
    M.Preserved cells ctx
      (ts.foldl (fun l r => .binary (Lowering.logicalOp op) l r .boolean) first) u := by
  induction hes generalizing first v with
  | nil =>
    simp only [Script.evalBool, Option.some.injEq] at h
    exact h ▸ hfirst
  | @cons e t es ts he hes ih =>
    simp only [List.forall_mem_cons] at htypes
    have hop := settling?_logicalOp op
    rw [List.foldl_cons]
    by_cases hsettled : v.truth = Script.settling op
    · -- Neither side evaluates the operands that are left.
      obtain rfl : v = u := by simpa [evalBool_of_truth hsettled] using h
      refine ih (fun hctx => (htypes hctx).2) (preserved_of_truth rfl hv ?_) hv
        (evalBool_of_truth hsettled es)
      rw [hsettled]
      exact yields_settled t _ hop (hsettled ▸ hfirst.tests)
    · simp only [Script.evalBool, if_neg hsettled, Option.bind_eq_bind,
        Option.bind_eq_some_iff] at h
      obtain ⟨w, hw, h⟩ := h
      have ht := he hw
      have hwtype : ctx = .value → w.type = .boolean := by
        rintro rfl
        rw [← ht.1]
        exact (htypes rfl).1
      have hopen : v.truth = !Script.settling op := by
        revert hsettled
        cases v.truth <;> cases Script.settling op <;> simp
      refine ih (fun hctx => (htypes hctx).2) (preserved_of_truth rfl hwtype ?_) hwtype h
      exact yields_unsettled _ hop (hopen ▸ hfirst.tests) ht.tests

theorem preserves_boolOp {ctx : Context} {op : BoolOp} {es : List Source.Expr}
    {ts : List Target.Expr} {t : Target.Expr} (site : Source.Site)
    (hes : List.Forall₂ (M.Preserves store cells ctx) es ts)
    (ht : Lowering.boolOpExpr op ctx ts = .ok t) :
    M.Preserves store cells ctx (.boolOp site op es) t := by
  intro v hv
  simp only [Lowering.boolOpExpr, Checked.bind_eq_ok] at ht
  obtain ⟨type, htype, ht⟩ := ht
  have htypes : ctx = .value → ∀ t ∈ ts, t.type = .boolean := by
    rintro rfl
    simp only [Typing.boolOpType] at htype
    split at htype
    · rename_i hall
      simpa using hall
    · cases htype
  cases hes with
  | nil => cases ht
  | cons hfirst hrest =>
    simp only [Script.eval, Option.bind_eq_bind, Option.bind_eq_some_iff] at hv
    obtain ⟨w, hw, hv⟩ := hv
    simp only [List.forall_mem_cons] at htypes
    obtain rfl := Except.ok.inj ht
    have hfirst := hfirst hw
    refine preserved_evalBool hrest (fun hctx => (htypes hctx).2) hfirst ?_ hv
    rintro rfl
    rw [← hfirst.1]
    exact (htypes rfl).1

/-! ### Comparisons -/

theorem evaluates_comparison {op : CompareOp} {op' : Target.BinaryOp} {l r : Target.Expr}
    {v w : Script.Value} {c : Bool} (hop : Lowering.comparisonOp op = .ok op')
    (hl : M.Evaluates cells l v) (hr : M.Evaluates cells r w)
    (hc : Script.compare op v w = some c) :
    M.Evaluates cells
      (.binary op' (if r.isText then Lowering.stringObject l else l) r .boolean) (.bool c) := by
  have hl' : M.Evaluates cells (if r.isText then Lowering.stringObject l else l) v := by
    split
    · unfold Evaluates
      rw [eval_stringObject]
      exact hl
    · exact hl
  simp only [Script.compare, Option.bind_eq_bind, Option.bind_eq_some_iff] at hc
  obtain ⟨a, ha, b, hb, hc⟩ := hc
  cases op with
  | is | isNot | isIn | notIn => cases hop
  | eq | notEq | lt | ltE | gt | gtE =>
    obtain rfl := Except.ok.inj hop
    obtain rfl := Option.some.inj hc
    exact evaluates_binary _ hl' hr ha hb rfl (yields_ok ⟨rfl, holds_bool _⟩)

theorem evaluates_foldl_false {first : Target.Expr} (links : List Target.Expr)
    (hfirst : M.Evaluates cells first (.bool false)) :
    M.Evaluates cells
      (links.foldl (fun l r => .binary .logicalAnd l r .boolean) first) (.bool false) := by
  induction links generalizing first with
  | nil => exact hfirst
  | cons link links ih =>
    exact ih ((yields_settled link _ rfl hfirst.tests).imp fun _ hw => ⟨hw, holds_bool _⟩)

/-- The first comparison of a chain settles the chain, or leaves the result to the others. -/
theorem exists_of_evalChain {e : Source.Expr} {es : List Source.Expr} {l r : Target.Expr}
    {ts links : List Target.Expr} {ops : List CompareOp} {v u : Script.Value}
    (he : M.Preserves store cells .value e r)
    (hlinks : Lowering.comparisonLinks ops l (r :: ts) = .ok links) (hl : M.Evaluates cells l v)
    (h : Script.evalChain store v ops (e :: es) = some u) :
    ∃ ops' link links' w c, links = link :: links' ∧
      Lowering.comparisonLinks ops' r ts = .ok links' ∧ M.Evaluates cells r w ∧
      M.Evaluates cells link (.bool c) ∧
      (if c then Script.evalChain store w ops' es else some (.bool false)) = some u := by
  cases ops with
  | nil => simp [Script.evalChain] at h
  | cons op ops =>
    simp only [Lowering.comparisonLinks, Checked.bind_eq_ok, Checked.pure_eq_ok] at hlinks
    obtain ⟨_, -, op', hop, links, hlinks, rfl⟩ := hlinks
    simp only [Script.evalChain, Option.bind_eq_bind, Option.bind_eq_some_iff] at h
    obtain ⟨w, hw, c, hc, h⟩ := h
    exact ⟨ops, _, links, w, c, rfl, hlinks, (he hw).2, evaluates_comparison hop hl (he hw).2 hc, h⟩

/-- The comparisons of a chain behind those that are joined in `first`, with the truth `c`. -/
theorem evaluates_chain {es : List Source.Expr} {ts links : List Target.Expr}
    {ops : List CompareOp} {l first : Target.Expr} {v u : Script.Value} {c : Bool}
    (hes : List.Forall₂ (M.Preserves store cells .value) es ts)
    (hlinks : Lowering.comparisonLinks ops l ts = .ok links) (hl : M.Evaluates cells l v)
    (hfirst : M.Evaluates cells first (.bool c))
    (h : (if c then Script.evalChain store v ops es else some (.bool false)) = some u) :
    ∃ b, u = .bool b ∧ M.Evaluates cells
      (links.foldl (fun l r => .binary .logicalAnd l r .boolean) first) (.bool b) := by
  induction hes generalizing ops l first v c links with
  | nil =>
    cases c with
    | false =>
      obtain rfl := Option.some.inj h
      exact ⟨false, rfl, evaluates_foldl_false links hfirst⟩
    | true =>
      cases ops with
      | nil =>
        obtain rfl := Except.ok.inj hlinks
        simp only [if_true, Script.evalChain, Option.some.injEq] at h
        exact ⟨true, h.symm, hfirst⟩
      | cons => simp [Script.evalChain] at h
  | cons he _ ih =>
    cases c with
    | false =>
      obtain rfl := Option.some.inj h
      exact ⟨false, rfl, evaluates_foldl_false links hfirst⟩
    | true =>
      obtain ⟨ops, link, links, w, c, rfl, hlinks, hr, hlink, h⟩ :=
        exists_of_evalChain he hlinks hl h
      have hjoined : M.Evaluates cells (.binary .logicalAnd first link .boolean) (.bool c) :=
        (yields_unsettled _ rfl hfirst.tests hlink.tests).imp fun _ hw => ⟨hw, holds_bool c⟩
      rw [List.foldl_cons]
      exact ih hlinks hr hjoined h

/-- A chain of comparisons keeps its result. -/
theorem preserved_comparisons {ctx : Context} {es : List Source.Expr} {ts links : List Target.Expr}
    {ops : List CompareOp} {l t : Target.Expr} {v u : Script.Value}
    (hes : List.Forall₂ (M.Preserves store cells .value) es ts)
    (hlinks : Lowering.comparisonLinks ops l ts = .ok links) (hl : M.Evaluates cells l v)
    (ht : Lowering.joined .logicalAnd links = .ok t)
    (h : Script.evalChain store v ops es = some u) : M.Preserved cells ctx t u := by
  have htype : t.type = .boolean := by
    rcases Lowering.joined_eq_ok ht with rfl | ⟨-, htype⟩
    · exact (Lowering.comparisonLinks_eq_ok hlinks).2 t (by simp)
    · exact htype
  cases hes with
  | nil =>
    obtain rfl : [] = links := by cases ops <;> simpa [Lowering.comparisonLinks] using hlinks
    cases ht
  | cons he hes =>
    obtain ⟨ops, link, links, w, c, rfl, hlinks, hr, hlink, h⟩ :=
      exists_of_evalChain he hlinks hl h
    obtain rfl := Except.ok.inj ht
    obtain ⟨b, rfl, hb⟩ := evaluates_chain hes hlinks hr hlink h
    exact preserved_of_evaluates ctx htype hb

theorem preserves_compare {ctx : Context} {left : Source.Expr} {comparators : List Source.Expr}
    {ops : List CompareOp} {ts : List Target.Expr} {t : Target.Expr} (site : Source.Site)
    (hes : List.Forall₂ (M.Preserves store cells .value) (left :: comparators) ts)
    (ht : Lowering.comparisonExpr ops comparators (ts.map .ok) = .ok t) :
    M.Preserves store cells ctx (.compare site left ops comparators) t := by
  intro v hv
  simp only [Lowering.comparisonExpr, Checked.guard_eq_ok, Checked.bind_eq_ok,
    Checked.sequence_eq_ok] at ht
  obtain ⟨-, -, _, hts, ht⟩ := ht
  obtain rfl := List.map_injective_iff.2 (fun _ _ => Except.ok.inj) hts
  simp only [Script.eval, Option.bind_eq_bind, Option.bind_eq_some_iff] at hv
  obtain ⟨w, hw, hv⟩ := hv
  cases hes with
  | cons hl hrest =>
    simp only [Checked.bind_eq_ok] at ht
    obtain ⟨links, hlinks, ht⟩ := ht
    exact preserved_comparisons hrest hlinks (hl hw).2 ht hv

end

/-! ### Expressions -/

/-- The variables in scope hold the values of their names. -/
def Mirrors (M : Machine) (env : Environment) (store : Script.Store) (cells : List Cell) : Prop :=
  ∀ x t, env.lookup x = some t →
    ∃ v, store x = some v ∧ v.type = t ∧ load cells x = .ok (image v) ∧ M.Holds v

variable {env : Environment} {policy : Policy} {store : Script.Store}

theorem allCore_iff {es : List Source.Expr} :
    Source.Expr.allCore es = true ↔ ∀ e ∈ es, e.isCore = true := by
  induction es with
  | nil => simp [Source.Expr.allCore]
  | cons e es ih => simp [Source.Expr.allCore, ih]

theorem preserved_unary {ctx : Context} {op : Source.UnaryOp} {e : Target.Expr} {t : StaticType}
    {v u : Script.Value} (he : M.Preserved cells (if op = .not then .condition else .value) e v)
    (ht : Typing.unaryType op e.type = .ok t) (hu : Script.unary op v = some u) :
    M.Preserved cells ctx (.unary (Lowering.unaryOp op) e t) u := by
  cases op with
  | not =>
    obtain rfl := Option.some.inj hu
    have htype : t = .boolean := by
      revert ht
      cases e.type <;> simp +contextual [Typing.unaryType, eq_comm]
    refine preserved_of_truth htype (fun _ => rfl) ?_
    simp only [eval]
    exact Yields.bind he fun w hw => yields_ok (by rw [hw]; rfl)
  | plus | minus =>
    obtain ⟨htype, he⟩ : e.type = v.type ∧ M.Evaluates cells e v := he
    simp only [Script.unary, Option.map_eq_some_iff] at hu
    obtain ⟨n, hn, rfl⟩ := hu
    have ht' : t = .integer := by
      rw [htype] at ht
      cases v <;> simp_all [Typing.unaryType, Script.Value.type, Script.Value.number?]
    refine preserved_of_evaluates ctx ht' (he.bind ?_)
    rintro w ⟨hw, -⟩
    simp only [Lowering.unaryOp, unary, hw, number?_image, hn, Option.elim_some]
    exact yields_image_int _
  | invert => cases hu

/-- **Lowering preserves values.** -/
theorem preserves_lower (hmirrors : M.Mirrors env store cells) {e : Source.Expr} {ctx : Context}
    {t : Target.Expr} (hcore : e.isCore = true) (ht : Lowering.lower env policy ctx e = .ok t) :
    M.Preserves store cells ctx e t := by
  induction e using Source.Expr.induction generalizing ctx t with
  | step e ih =>
    have hlist : ∀ {ctx : Context} {es : List Source.Expr} {ts : List Target.Expr},
        (∀ c ∈ es, c ∈ e.children) → Source.Expr.allCore es = true →
        Lowering.lowerList env policy ctx es = ts.map .ok →
        List.Forall₂ (M.Preserves store cells ctx) es ts := by
      intro ctx es ts hes hcores hts
      rw [Lowering.lowerList_eq_map, Checked.map_eq_map_ok] at hts
      rw [allCore_iff] at hcores
      have hboth := (List.forall₂_and_left _ _).2
        ⟨fun c hc => And.intro (hes c hc) (hcores c hc), hts⟩
      exact hboth.imp fun c t h => ih c h.1.1 h.1.2 h.2
    cases Lowering.becomes_of_lower ht with
    | int =>
      intro v hv
      simp only [Script.eval, Option.some.injEq] at hv
      subst hv
      exact preserved_of_evaluates ctx rfl (yields_image_int _)
    | bool =>
      intro v hv
      simp only [Script.eval, Option.some.injEq] at hv
      subst hv
      exact preserved_of_truth rfl (fun _ => rfl) (yields_ok rfl)
    | @name _ x type hx =>
      intro v hv
      obtain ⟨w, hw, rfl, hload, hholds⟩ := hmirrors x type hx
      obtain rfl := Option.some.inj (hw.symm.trans hv)
      exact preserved_of_evaluates ctx rfl (.inl ⟨_, hload, rfl, hholds⟩)
    | @binary _ _ left right _ _ _ hl hr hlr =>
      intro v hv
      simp only [Source.Expr.isCore, Bool.and_eq_true] at hcore
      obtain ⟨⟨hop, hleft⟩, hright⟩ := hcore
      simp only [Script.eval, Option.bind_eq_bind, Option.bind_eq_some_iff] at hv
      obtain ⟨v₁, hv₁, v₂, hv₂, hv⟩ := hv
      exact preserved_binaryExpr hop (ih left (by simp [Source.Expr.children]) hleft hl hv₁)
        (ih right (by simp [Source.Expr.children]) hright hr hv₂) hlr hv
    | @unary _ _ operand _ _ he hu =>
      intro v hv
      simp only [Source.Expr.isCore, Bool.and_eq_true] at hcore
      simp only [Script.eval, Option.bind_eq_bind, Option.bind_eq_some_iff] at hv
      obtain ⟨w, hw, hv⟩ := hv
      exact preserved_unary (ih operand (by simp [Source.Expr.children]) hcore.2 he hw) hu hv
    | boolOp hts hjoined => exact preserves_boolOp _ (hlist (fun c hc => hc) hcore hts) hjoined
    | @compare _ left _ comparators _ _ hts hchain =>
      simp only [Source.Expr.isCore, Bool.and_eq_true] at hcore
      have hcores : Source.Expr.allCore (left :: comparators) = true := by
        simp [Source.Expr.allCore, hcore.1.2, hcore.2]
      exact preserves_compare _ (hlist (fun c hc => hc) hcores hts) hchain
    | float | str | call => simp [Source.Expr.isCore] at hcore

end Machine

end StaticScript
