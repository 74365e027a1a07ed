import StaticScript.Proofs.Lowering.Completeness
import StaticScript.Source.Compose

/-!
# Checking and lowering agree on expressions

Checks and lowering go down an expression on their own: a check goes on behind a failure, to find
the category that comes first, and lowering stops there.  They accept the same expressions, with
one exception that stands for no value (`Valueless`), and the type that is checked is the type of
what is lowered (`lower_iff_check`).

The types are those of `check_of_lower`, which leaves a doubt only where a condition is asked for.
Apart from `and` and `or` no construct looks at what it is asked for (`lower_of_not_isBoolOp`), and
these have a truth value as soon as they join two operands.
-/

namespace StaticScript

namespace Source.Expr

/-- The expression is an `and` or an `or`. -/
def isBoolOp : Expr → Bool
  | .boolOp .. => true
  | _ => false

/-- Every `and` and `or` in the expression joins two operands or more. -/
def joinsOperands (e : Expr) : Bool :=
  e.nodes.all fun
    | .boolOp _ _ values => decide (2 ≤ values.length)
    | _ => true

theorem length_of_joinsOperands {site : Site} {op : BoolOp} {values : List Expr}
    (h : (boolOp site op values).joinsOperands = true) : 2 ≤ values.length := by
  rw [joinsOperands, nodes_eq, List.all_cons, Bool.and_eq_true] at h
  exact of_decide_eq_true h.1

theorem hasOperands_of_joinsOperands {e : Expr} (h : e.joinsOperands = true) :
    e.hasOperands = true := by
  rw [joinsOperands, List.all_eq_true] at h
  rw [hasOperands, List.all_eq_true]
  intro n hn
  have hjoins := h n hn
  cases n with
  | boolOp site op values =>
    cases values with
    | nil => cases hjoins
    | cons e es => rfl
  | _ => rfl

end Source.Expr

namespace Lowering

open Typing (Context Valueless check)

variable {env : Environment} {policy : Policy} {e : Source.Expr}

/-! ### What an expression is asked for -/

theorem lower_of_not_isBoolOp (h : e.isBoolOp = false) (ctx : Context) :
    lower env policy ctx e = lower env policy .value e := by
  cases e with
  | boolOp => cases h
  | _ => simp only [lower]

theorem check_of_not_isBoolOp (h : e.isBoolOp = false) (ctx : Context) :
    check env policy ctx e = check env policy .value e := by
  cases e with
  | boolOp => cases h
  | _ => simp only [check]

/-- Operands that are joined have a truth value. -/
theorem type_of_lower_boolOp {ctx : Context} {site : Source.Site} {op : Source.BoolOp}
    {values : List Source.Expr} {t : Target.Expr} (hlength : 2 ≤ values.length)
    (h : lower env policy ctx (.boolOp site op values) = .ok t) : t.type = .boolean := by
  cases becomes_of_lower h with
  | boolOp hts ht =>
    simp only [boolOpExpr, Checked.bind_eq_ok] at ht
    obtain ⟨-, -, hjoined⟩ := ht
    rcases joined_eq_ok hjoined with rfl | ⟨-, htype⟩
    · -- There are as many operands as before, so not a single one.
      rw [← length_of_lowerList hts] at hlength
      simp at hlength
    · exact htype

/-- **The type that is checked is the type of what is lowered.** -/
theorem check_eq_type_of_lower {ctx : Context} {t : Target.Expr} (hjoins : e.joinsOperands = true)
    (h : lower env policy ctx e = .ok t) : check env policy ctx e = .ok t.type := by
  by_cases hop : e.isBoolOp = true
  · obtain ⟨u, hu, hagrees⟩ := check_of_lower h
    cases e with
    | boolOp site op values =>
      have htype := type_of_lower_boolOp (Source.Expr.length_of_joinsOperands hjoins) h
      rcases hagrees with rfl | ⟨-, rfl, -⟩
      · exact hu
      · rw [hu, htype]
    | _ => cases hop
  · have hop : e.isBoolOp = false := Bool.eq_false_iff.2 hop
    rw [lower_of_not_isBoolOp hop] at h
    rw [check_of_not_isBoolOp hop]
    exact check_value_of_lower h

/-! ### What stands for no value -/

/-- `None` and calls of `print` are no expressions of C++. -/
theorem lower_ne_ok_of_valueless (h : Valueless env e) (ctx : Context) (t : Target.Expr) :
    lower env policy ctx e ≠ .ok t := by
  intro hlower
  cases e with
  | none site => simp [lower] at hlower
  | call site function arguments keywords =>
    have hprint : Typing.callee env function = .ok .print := h
    simp only [lower, callExpr, hprint, Checked.bind_eq_ok, Except.ok.injEq, exists_eq_left',
      Checked.guard_eq_ok, builtinCall, Checked.throw_ne_ok] at hlower
    obtain ⟨-, -, -, -, -, hlower⟩ := hlower
    exact hlower
  | _ => exact h

/-! ### Agreement -/

/-- **Checking and lowering agree**: an expression has a counterpart of a type exactly if it is
checked to have that type and does not stand for no value. -/
theorem lower_iff_check (env : Environment) (policy : Policy) (ctx : Context) (e : Source.Expr)
    (hjoins : e.joinsOperands = true) (u : StaticType) :
    (∃ t, lower env policy ctx e = .ok t ∧ t.type = u) ↔
      check env policy ctx e = .ok u ∧ ¬ Valueless env e := by
  constructor
  · rintro ⟨t, ht, rfl⟩
    exact ⟨check_eq_type_of_lower hjoins ht, fun hvalue => lower_ne_ok_of_valueless hvalue ctx t ht⟩
  · rintro ⟨hu, hvalue⟩
    have hops := Source.Expr.hasOperands_of_joinsOperands hjoins
    rcases lower_of_check hops hu with ⟨t, ht, -⟩ | ⟨hnone, -⟩
    · refine ⟨t, ht, ?_⟩
      exact Except.ok.inj ((check_eq_type_of_lower hjoins ht).symm.trans hu)
    · exact absurd hnone hvalue

end Lowering

/-- `n` is a number, and `scale` takes one or two of them. -/
def Environment.scaled : Environment where
  innermost := [("n", .integer)]
  outer := []
  globals.functions := [⟨"scale", 0, [⟨"n", .concrete .integer, none⟩,
    ⟨"by", .concrete .integer, some (.ofInt 2)⟩], .integer, true⟩]
  globals.mathModule := false
  globals.mathFunctions := []

open Source.Compose in
/-- `not n or (0 <= n < scale(n, by=n % 3))` -/
def Source.guarded : Source.Expr :=
  boolOp .or [unary .not (name "n"),
    compare (int 0) [(.ltE, name "n"),
      (.lt, call (name "scale") [name "n"] [("by", binary (name "n") .mod (int 3))])]]

/-- A condition with a call behind a chain of comparisons is checked to be a truth value, and it
becomes one. -/
theorem Lowering.guarded_lowers :
    (Source.guarded.joinsOperands = true ∧
      Typing.check .scaled ⟨.template, .keep⟩ .condition Source.guarded = .ok .boolean ∧
      ¬ Typing.Valueless .scaled Source.guarded) ∧
    ∃ t, lower .scaled ⟨.template, .keep⟩ .condition Source.guarded = .ok t ∧
      t.type = .boolean := by
  have hjoins : Source.guarded.joinsOperands = true := by decide +kernel
  have hcheck : Typing.check .scaled ⟨.template, .keep⟩ .condition Source.guarded =
      .ok .boolean := by decide +kernel
  have hvalue : ¬ Typing.Valueless .scaled Source.guarded := id
  exact ⟨⟨hjoins, hcheck, hvalue⟩, (lower_iff_check _ _ _ _ hjoins _).2 ⟨hcheck, hvalue⟩⟩

end StaticScript
