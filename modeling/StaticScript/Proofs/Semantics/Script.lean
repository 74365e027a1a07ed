import StaticScript.Proofs.Source.Query
import Mathlib.Data.Int.Basic
import Mathlib.Tactic.Ring

/-!
# Running scripts

What a script of the core language writes.  The core language has integers of any size and truth
values, arithmetic, comparisons and `and` and `or` on them, assignments to single names,
conditionals, both kinds of loops and `print` (`Source.Stmt.isCore`).

A script has one store for all names, whichever block they are set in.  A quotient is rounded down,
and a remainder has the sign of its divisor.  The values of a `range` are settled before its loop
starts (`rangeValues_eq`).  A run is bounded by the number of rounds that a `while` may take, and it
gives nothing if the script fails or goes beyond that bound.
-/

namespace StaticScript

/-- How a statement ends. -/
inductive Signal where
  /-- What stands behind it follows. -/
  | next
  /-- The loop around it is left. -/
  | brk
  /-- The round of the loop around it is over. -/
  | cont
deriving DecidableEq

namespace Script

open Source (Expr Stmt BinaryOp BoolOp UnaryOp CompareOp)

/-! ### Values -/

/-- The values of expressions. -/
inductive Value where
  | int (n : Int)
  | bool (b : Bool)
  | str (s : String)
deriving DecidableEq

namespace Value

/-- What a condition makes of a value. -/
def truth : Value → Bool
  | int n => n != 0
  | bool b => b
  | str s => s != ""

/-- The whole number that a value stands for in arithmetic. -/
def number? : Value → Option Int
  | int n => some n
  | bool b => some b.toInt
  | str _ => none

/-- How a value is printed. -/
def text : Value → String
  | int n => toString n
  | bool b => if b then "True" else "False"
  | str s => s

end Value

/-- Arithmetic on whole numbers. -/
def arithmetic : BinaryOp → Int → Int → Option Int
  | .add, a, b => some (a + b)
  | .sub, a, b => some (a - b)
  | .mult, a, b => some (a * b)
  | .floorDiv, a, b => if b = 0 then none else some (Int.fdiv a b)
  | .mod, a, b => if b = 0 then none else some (Int.fmod a b)
  | _, _, _ => none

/-- Comparisons of whole numbers. -/
def comparison : CompareOp → Int → Int → Option Bool
  | .eq, a, b => some (a = b)
  | .notEq, a, b => some (a ≠ b)
  | .lt, a, b => some (a < b)
  | .ltE, a, b => some (a ≤ b)
  | .gt, a, b => some (b < a)
  | .gtE, a, b => some (b ≤ a)
  | _, _, _ => none

/-- An operation on two values. -/
def binary (op : BinaryOp) (v w : Value) : Option Value := do
  let a ← v.number?
  let b ← w.number?
  return .int (← arithmetic op a b)

/-- A comparison of two values. -/
def compare (op : CompareOp) (v w : Value) : Option Bool := do
  let a ← v.number?
  let b ← w.number?
  comparison op a b

/-- An operation on one value. -/
def unary : UnaryOp → Value → Option Value
  | .not, v => some (.bool !v.truth)
  | .plus, v => v.number?.map .int
  | .minus, v => v.number?.map fun n => .int (-n)
  | .invert, _ => none

/-- The truth of an operand that settles the result, so that the operands behind it are not
evaluated. -/
def settling : BoolOp → Bool
  | .and => false
  | .or => true

/-! ### Expressions -/

/-- The values of the names that have been set. -/
abbrev Store := String → Option Value

section

variable (store : Store)

mutual

/-- The value of an expression. -/
def eval : Expr → Option Value
  | .int _ n => some (.int n.toInt)
  | .bool _ b => some (.bool b)
  | .str _ s => some (.str s)
  | .name _ x => store x
  | .binary _ op left right => do
    let v ← eval left
    let w ← eval right
    binary op v w
  | .unary _ op operand => do unary op (← eval operand)
  | .boolOp _ op (e :: es) => do evalBool op (← eval e) es
  | .compare _ left ops comparators => do evalChain (← eval left) ops comparators
  | _ => none

/-- The value of `and` or `or` once an operand, which has the value `v`, has been evaluated. -/
def evalBool (op : BoolOp) (v : Value) : List Expr → Option Value
  | [] => some v
  | e :: es => if v.truth = settling op then some v else do evalBool op (← eval e) es

/-- The value of a chain of comparisons, whose first operand has the value `v`. -/
def evalChain (v : Value) : List CompareOp → List Expr → Option Value
  | [], [] => some (.bool true)
  | op :: ops, e :: es => do
    let w ← eval e
    if ← compare op v w then evalChain w ops es else some (.bool false)
  | _, _ => none

end

/-- The values of the arguments of a call of a built-in function, if its name has not been set. -/
def arguments? (function : String) : Expr → Option (List Value)
  | .call _ callee arguments [] =>
    if callee.asName = some function ∧ store function = none then arguments.mapM (eval store)
    else none
  | _ => none

end

/-! ### Ranges -/

/-- The values of a `range`: every `step` from `start` on, until `stop` is reached. -/
def rangeValues (start stop step : Int) : List Int :=
  (List.range (-Int.fdiv (start - stop) step).toNat).map fun (i : Nat) => start + step * i

/-- The values of a `range` with the given arguments; its steps may not be zero. -/
def range? : List Int → Option (List Int)
  | [stop] => some (rangeValues 0 stop 1)
  | [start, stop] => some (rangeValues start stop 1)
  | [start, stop, step] => if step = 0 then none else some (rangeValues start stop step)
  | _ => none

/-- A counter has not reached its bound. -/
def Before (step a b : Int) : Prop := if step < 0 then b < a else a < b

instance (step a b : Int) : Decidable (Before step a b) :=
  inferInstanceAs (Decidable (if step < 0 then b < a else a < b))

/-! ### Statements -/

/-- The store, and what has been written. -/
structure State where
  store : Store
  output : String

namespace State

/-- Nothing is set or written. -/
def start : State := ⟨fun _ => none, ""⟩

/-- Sets a name. -/
def set (s : State) (name : String) (v : Value) : State :=
  { s with store := fun x => if x = name then some v else s.store x }

/-- Writes values in a line, with blanks between them. -/
def print (s : State) (vs : List Value) : State :=
  { s with output := s.output ++ " ".intercalate (vs.map Value.text) ++ "\n" }

end State

/-- Runs the body of a loop as long as the test holds, for less than `rounds` rounds. -/
def loop (test : State → Option Bool) (body : State → Option (Signal × State)) :
    Nat → State → Option State
  | 0, _ => none
  | rounds + 1, s => do
    if ← test s then
      match ← body s with
      | (.brk, s) => some s
      | (_, s) => loop test body rounds s
    else some s

/-- Runs the body of a loop once for each value. -/
def each (body : Int → State → Option (Signal × State)) : List Int → State → Option State
  | [], s => some s
  | n :: ns, s => do
    match ← body n s with
    | (.brk, s) => some s
    | (_, s) => each body ns s

section

variable (rounds : Nat)

mutual

/-- Runs a statement. -/
def exec (s : State) : Stmt → Option (Signal × State)
  | .expr _ e => do return (.next, s.print (← arguments? s.store "print" e))
  | .assign _ [target] e => do
    let x ← target.asName
    return (.next, s.set x (← eval s.store e))
  | .augAssign _ target op e => do
    let x ← target.asName
    let v ← s.store x
    return (.next, s.set x (← binary op v (← eval s.store e)))
  | .ifElse _ c body orelse => do
    let v ← eval s.store c
    if v.truth then execBlock s body else execBlock s orelse
  | .whileLoop _ c body [] => do
    let test (s : State) := (eval s.store c).map Value.truth
    return (.next, ← loop test (fun s => execBlock s body) rounds s)
  | .forLoop _ target iter body [] => do
    let x ← target.asName
    let vs ← arguments? s.store "range" iter
    let ns ← range? (← vs.mapM Value.number?)
    return (.next, ← each (fun n s => execBlock (s.set x (.int n)) body) ns s)
  | .brk _ => some (.brk, s)
  | .cont _ => some (.cont, s)
  | .pass _ => some (.next, s)
  | _ => none

/-- Runs the statements of a block in turn, up to one that ends a round or a loop. -/
def execBlock (s : State) : List Stmt → Option (Signal × State)
  | [] => some (.next, s)
  | stmt :: ss => do
    match ← exec s stmt with
    | (.next, s) => execBlock s ss
    | ended => some ended

end

end

/-- What a script writes, if it comes to its end without an error and with less than `rounds` rounds
of every `while`. -/
def run (rounds : Nat) (m : Source.Module) : Option String :=
  match execBlock rounds .start m.body with
  | some (.next, s) => some s.output
  | _ => none

/-! ### Ranges come to an end -/

theorem fdiv_neg_iff {a step : Int} (h : step ≠ 0) :
    Int.fdiv a step < 0 ↔ Before step a 0 := by
  unfold Before
  split
  · rename_i hneg
    rw [← Int.neg_fdiv_neg, Int.fdiv_eq_ediv_of_nonneg _ (by omega),
      Int.ediv_lt_iff_lt_mul (by omega)]
    omega
  · rw [Int.fdiv_eq_ediv_of_nonneg _ (by omega), Int.ediv_lt_iff_lt_mul (by omega)]
    omega

/-- **The values of a `range`, one after the other.** -/
theorem rangeValues_eq {start stop step : Int} (h : step ≠ 0) :
    rangeValues start stop step =
      if Before step start stop then start :: rangeValues (start + step) stop step else [] := by
  have hbefore : Before step start stop ↔ Int.fdiv (start - stop) step < 0 := by
    rw [fdiv_neg_iff h]
    unfold Before
    split <;> omega
  have hnext : Int.fdiv (start + step - stop) step = Int.fdiv (start - stop) step + 1 := by
    have := Int.add_mul_fdiv_right (start - stop) 1 h
    rwa [one_mul, ← add_sub_right_comm] at this
  rw [rangeValues, rangeValues, hnext]
  split
  · rename_i hlt
    rw [hbefore] at hlt
    obtain ⟨n, hn⟩ : ∃ n : Nat, -Int.fdiv (start - stop) step = n + 1 :=
      ⟨(-Int.fdiv (start - stop) step - 1).toNat, by omega⟩
    have hn' : -(Int.fdiv (start - stop) step + 1) = n := by omega
    rw [hn, hn', Int.toNat_natCast, ← Nat.cast_succ, Int.toNat_natCast, List.range_succ_eq_map,
      List.map_cons, List.map_map]
    congr 1
    · simp
    · refine List.map_congr_left fun i _ => ?_
      simp only [Function.comp, Nat.succ_eq_add_one, Nat.cast_add, Nat.cast_one]
      ring
  · rename_i hge
    rw [hbefore] at hge
    rw [show (-Int.fdiv (start - stop) step).toNat = 0 by omega]
    rfl

theorem rangeValues_eq_nil {start stop step : Int} (h : step ≠ 0) :
    rangeValues start stop step = [] ↔ ¬ Before step start stop := by
  rw [rangeValues_eq h]
  split <;> simp [*]

theorem rangeValues_eq_cons {start stop step n : Int} {ns : List Int} (h : step ≠ 0) :
    rangeValues start stop step = n :: ns ↔
      Before step start stop ∧ start = n ∧ rangeValues (start + step) stop step = ns := by
  rw [rangeValues_eq h]
  split <;> simp [*]

/-! ### What an expression depends on -/

section

variable {store store' : Store}

theorem evalBool_congr {es : List Expr} (h : ∀ e ∈ es, eval store e = eval store' e) (op : BoolOp)
    (v : Value) : evalBool store op v es = evalBool store' op v es := by
  induction es generalizing v with
  | nil => simp only [evalBool]
  | cons e es ih =>
    obtain ⟨he, hes⟩ := List.forall_mem_cons.1 h
    simp only [evalBool, he, ih hes]

theorem evalChain_congr {es : List Expr} (h : ∀ e ∈ es, eval store e = eval store' e)
    (ops : List CompareOp) (v : Value) :
    evalChain store v ops es = evalChain store' v ops es := by
  induction es generalizing ops v with
  | nil => cases ops <;> simp only [evalChain]
  | cons e es ih =>
    obtain ⟨he, hes⟩ := List.forall_mem_cons.1 h
    cases ops <;> simp only [evalChain, he, ih hes]

/-- **The value of an expression is settled by the names that it mentions.** -/
theorem eval_congr (e : Expr) (h : ∀ x, e.mentions x = true → store x = store' x) :
    eval store e = eval store' e := by
  induction e using Source.Expr.induction with
  | step e ih =>
    have hchild : ∀ c ∈ e.children, eval store c = eval store' c := fun c hc =>
      ih c hc fun x hx => h x (Source.Expr.mentions_iff.2 (.inr ⟨c, hc, hx⟩))
    cases e with
    | name site x => exact h x (Source.Expr.mentions_iff.2 (.inl rfl))
    | binary site op left right =>
      simp only [eval, hchild left (by simp [Expr.children]),
        hchild right (by simp [Expr.children])]
    | unary site op operand => simp only [eval, hchild operand (by simp [Expr.children])]
    | boolOp site op values =>
      cases values with
      | nil => simp only [eval]
      | cons e es =>
        obtain ⟨he, hes⟩ := List.forall_mem_cons.1 hchild
        simp only [eval, he, evalBool_congr hes]
    | compare site left ops comparators =>
      obtain ⟨hleft, hcomparators⟩ := List.forall_mem_cons.1 hchild
      simp only [eval, hleft, evalChain_congr hcomparators]
    | _ => simp only [eval]

end

/-! ### What a statement leaves as it was -/

theorem loop_induction {test : State → Option Bool} {body : State → Option (Signal × State)}
    {P : State → Prop} (hbody : ∀ s r, P s → body s = some r → P r.2) {rounds : Nat} {s s' : State}
    (hs : P s) (h : loop test body rounds s = some s') : P s' := by
  induction rounds generalizing s with
  | zero => cases h
  | succ rounds ih =>
    simp only [loop, Option.bind_eq_bind, Option.bind_eq_some_iff] at h
    obtain ⟨b, -, h⟩ := h
    cases b with
    | false =>
      obtain rfl := Option.some.inj h
      exact hs
    | true =>
      simp only [if_true, Option.bind_eq_some_iff] at h
      obtain ⟨⟨signal, s₁⟩, hr, h⟩ := h
      have hs₁ := hbody s _ hs hr
      cases signal with
      | brk =>
        obtain rfl := Option.some.inj h
        exact hs₁
      | next | cont => exact ih hs₁ h

theorem each_induction {body : Int → State → Option (Signal × State)} {P : State → Prop}
    (hbody : ∀ n s r, P s → body n s = some r → P r.2) {ns : List Int} {s s' : State}
    (hs : P s) (h : each body ns s = some s') : P s' := by
  induction ns generalizing s with
  | nil =>
    obtain rfl := Option.some.inj h
    exact hs
  | cons n ns ih =>
    simp only [each, Option.bind_eq_bind, Option.bind_eq_some_iff] at h
    obtain ⟨⟨signal, s₁⟩, hr, h⟩ := h
    have hs₁ := hbody n s _ hs hr
    cases signal with
    | brk =>
      obtain rfl := Option.some.inj h
      exact hs₁
    | next | cont => exact ih hs₁ h

/-- The name that a statement itself sets. -/
def sets? : Stmt → Option String
  | .assign _ [target] _ | .augAssign _ target _ _ | .forLoop _ target _ _ _ => target.asName
  | _ => none

theorem ne_of_sets? {stmt : Stmt} {x y : String} (hx : ∀ t ∈ stmt.nested, sets? t ≠ some x)
    (hy : sets? stmt = some y) : x ≠ y := by
  rintro rfl
  exact hx stmt stmt.mem_nested_self hy

theorem store_set_of_ne {s : State} {x y : String} (h : x ≠ y) (v : Value) :
    (s.set y v).store x = s.store x := if_neg h

mutual

/-- **A name that no statement sets keeps its value.** -/
theorem store_of_exec {rounds : Nat} {x : String} {s : State} {r : Signal × State} :
    (stmt : Stmt) → (∀ t ∈ stmt.nested, sets? t ≠ some x) → exec rounds s stmt = some r →
      r.2.store x = s.store x
  | .expr .., _, h => by
    simp only [exec, Option.bind_eq_bind, Option.bind_eq_some_iff, Option.pure_def,
      Option.some.injEq] at h
    obtain ⟨vs, -, rfl⟩ := h
    rfl
  | .assign _ [target] e, hx, h => by
    simp only [exec, Option.bind_eq_bind, Option.bind_eq_some_iff, Option.pure_def,
      Option.some.injEq] at h
    obtain ⟨y, hy, v, -, rfl⟩ := h
    exact store_set_of_ne (ne_of_sets? hx hy) v
  | .augAssign _ target op e, hx, h => by
    simp only [exec, Option.bind_eq_bind, Option.bind_eq_some_iff, Option.pure_def,
      Option.some.injEq] at h
    obtain ⟨y, hy, _, -, _, -, v, -, rfl⟩ := h
    exact store_set_of_ne (ne_of_sets? hx hy) v
  | .ifElse _ c body orelse, hx, h => by
    simp only [exec, Option.bind_eq_bind, Option.bind_eq_some_iff] at h
    obtain ⟨v, -, h⟩ := h
    split at h
    · exact store_of_execBlock body (fun t ht => hx t (by simp [Stmt.nested, ht])) h
    · exact store_of_execBlock orelse (fun t ht => hx t (by simp [Stmt.nested, ht])) h
  | .whileLoop _ c body [], hx, h => by
    simp only [exec, Option.bind_eq_bind, Option.bind_eq_some_iff, Option.pure_def,
      Option.some.injEq] at h
    obtain ⟨s', h, rfl⟩ := h
    refine loop_induction (P := fun t => t.store x = s.store x) (fun t r ht hr => ?_) rfl h
    exact (store_of_execBlock body (fun t ht => hx t (by simp [Stmt.nested, ht])) hr).trans ht
  | .forLoop _ target iter body [], hx, h => by
    simp only [exec, Option.bind_eq_bind, Option.bind_eq_some_iff, Option.pure_def,
      Option.some.injEq] at h
    obtain ⟨y, hy, _, -, _, -, ns, -, s', h, rfl⟩ := h
    refine each_induction (P := fun t => t.store x = s.store x) (fun n t r ht hr => ?_) rfl h
    have hbody := store_of_execBlock body (fun t ht => hx t (by simp [Stmt.nested, ht])) hr
    exact hbody.trans ((store_set_of_ne (ne_of_sets? hx hy) _).trans ht)
  | .brk _, _, h | .cont _, _, h | .pass _, _, h => by
    obtain rfl := Option.some.inj h
    rfl
  | .assign _ [] _, _, h | .assign _ (_ :: _ :: _) _, _, h | .whileLoop _ _ _ (_ :: _), _, h
  | .forLoop _ _ _ _ (_ :: _), _, h | .functionDef .., _, h | .ret .., _, h
  | .importNames .., _, h | .importFrom .., _, h | .docString .., _, h | .comment .., _, h
  | .other .., _, h => by simp [exec] at h

theorem store_of_execBlock {rounds : Nat} {x : String} {s : State} {r : Signal × State} :
    (ss : List Stmt) → (∀ t ∈ Stmt.nestedBlock ss, sets? t ≠ some x) →
      execBlock rounds s ss = some r → r.2.store x = s.store x
  | [], _, h => by
    obtain rfl := Option.some.inj h
    rfl
  | stmt :: ss, hx, h => by
    simp only [execBlock, Option.bind_eq_bind, Option.bind_eq_some_iff] at h
    obtain ⟨⟨signal, s₁⟩, hfirst, h⟩ := h
    have hs₁ := store_of_exec stmt (fun t ht => hx t (by simp [Stmt.nestedBlock, ht])) hfirst
    cases signal with
    | next =>
      exact (store_of_execBlock ss (fun t ht => hx t (by simp [Stmt.nestedBlock, ht])) h).trans hs₁
    | brk | cont =>
      obtain rfl := Option.some.inj h
      exact hs₁

end

end Script

/-! ### The core language -/

namespace Source

/-- The arithmetic of the core language. -/
def BinaryOp.isCore : BinaryOp → Bool
  | .add | .sub | .mult | .floorDiv | .mod => true
  | _ => false

mutual

/-- The expression is one of the core language. -/
def Expr.isCore : Expr → Bool
  | .int .. | .bool .. | .name .. => true
  | .binary _ op left right => op.isCore && left.isCore && right.isCore
  | .unary _ op operand => op != .invert && operand.isCore
  | .boolOp _ _ values => Expr.allCore values
  | .compare _ left ops comparators =>
    ops.all (!·.isIdentityOrMembership) && left.isCore && Expr.allCore comparators
  | _ => false

/-- The expressions are of the core language. -/
def Expr.allCore : List Expr → Bool
  | [] => true
  | e :: es => e.isCore && Expr.allCore es

end

/-- The expression may be printed: it is of the core language, or a literal without a character that
would end it early. -/
def Expr.isPrintable : Expr → Bool
  | .str _ s => !s.toList.contains '\x00'
  | e => e.isCore

/-- The arguments of the call of a function, if the expression is one, without keywords. -/
def Expr.argumentsOf? (function : String) : Expr → Option (List Expr)
  | .call _ callee arguments [] =>
    if callee.asName = some function then some arguments else Option.none
  | _ => Option.none

mutual

/-- The statement is one of the core language. -/
def Stmt.isCore : Stmt → Bool
  | .expr _ e => (e.argumentsOf? "print").any (·.all Expr.isPrintable)
  | .assign _ [target] e => target.asName.isSome && e.isCore
  | .augAssign _ target op e => target.asName.isSome && op.isCore && e.isCore
  | .ifElse _ c body orelse => c.isCore && Stmt.allCore body && Stmt.allCore orelse
  | .whileLoop _ c body orelse => c.isCore && Stmt.allCore body && orelse.isEmpty
  | .forLoop _ target iter body orelse =>
    target.asName.isSome && (iter.argumentsOf? "range").any (·.all Expr.isCore) &&
      Stmt.allCore body && orelse.isEmpty
  | .brk _ | .cont _ | .pass _ => true
  | _ => false

/-- The statements are of the core language. -/
def Stmt.allCore : List Stmt → Bool
  | [] => true
  | s :: ss => s.isCore && Stmt.allCore ss

end

end Source

end StaticScript
