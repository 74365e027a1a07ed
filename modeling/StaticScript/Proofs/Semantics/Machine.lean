import StaticScript.Proofs.Decimal.Rounding
import StaticScript.Proofs.Semantics.Script
import StaticScript.Target.Tree
import Mathlib.Algebra.Order.Floor.Defs
import Mathlib.Data.Rat.Floor

/-!
# Running programs

What the body of `main` of a C++ program writes.  Variables are cells on a stack.  A block forgets
on its end the cells that were declared in it, so a name means the innermost of its cells.  A
counting loop tests its counter against its bound, evaluated anew, before every round, and adds its
step to the counter behind it, as integers of the machine.  For one step C++ does otherwise: the
size of `-2147483648` is not an `int`, so it is subtracted as a wider integer, and the difference is
narrowed where here it overflows.

A `Machine` says which integers a variable can hold and how quotients of floating-point numbers are
rounded.  An integer that does not fit is a fault, and so is all that the language leaves undefined
or that is not modelled here.  Numbers other than integers occur only as quotients, so they are kept
as rational numbers.
-/

namespace StaticScript

open Target (Expr Stmt BinaryOp UnaryOp)

/-- The arithmetic of a machine. -/
structure Machine where
  /-- The integers that a variable can hold. -/
  fits : Int → Bool
  fits_bool : ∀ b : Bool, fits b.toInt = true
  /-- The rounding of an exact result to a floating-point number. -/
  round : ℚ → ℚ
  /-- A rounded quotient of integers does not reach the next integer. -/
  floor_round : ∀ {a b : Int}, fits a = true → fits b = true → b ≠ 0 →
    ⌊round (a / b)⌋ = ⌊(a / b : ℚ)⌋

namespace Machine

/-! ### Two machines -/

/-- The machine without limits. -/
def ideal : Machine where
  fits _ := true
  fits_bool _ := rfl
  round q := q
  floor_round _ _ _ := rfl

/-- The integer has at most 32 bits. -/
def fitsWord (n : Int) : Bool := -2 ^ 31 ≤ n ∧ n < 2 ^ 31

theorem floor_nearest_div {a b : Int} (ha : fitsWord a = true) (hb : fitsWord b = true)
    (hne : b ≠ 0) : ⌊Double.nearest (a / b)⌋ = ⌊(a / b : ℚ)⌋ := by
  simp only [fitsWord, decide_eq_true_eq] at ha hb
  rw [← Rat.divInt_eq_div]
  apply Double.floor_nearest
  · rcases eq_or_ne a 0 with rfl | ha0
    · simp
    · have hle := Int.natAbs_le_of_dvd_ne_zero (Rat.num_dvd a hne) ha0
      omega
  · have hle := Int.natAbs_le_of_dvd_ne_zero (Rat.den_dvd a b) hne
    omega

/-- The common machine: integers of 32 bits, and floating-point numbers of double precision. -/
def hardware : Machine where
  fits := fitsWord
  fits_bool b := by cases b <;> rfl
  round := Double.nearest
  floor_round := floor_nearest_div

/-! ### Values -/

/-- Why a run stops before its end. -/
inductive Fault where
  /-- A loop takes more rounds than are allowed. -/
  | limit
  /-- An integer does not fit. -/
  | overflow
  /-- There is no rule for what comes next. -/
  | undefined
deriving DecidableEq

/-- The values of expressions. -/
inductive Value where
  | int (n : Int)
  | bool (b : Bool)
  | real (q : ℚ)
  | text (s : String)
deriving DecidableEq

namespace Value

/-- What a condition makes of a value; a text is a pointer, which is not null. -/
def truth : Value → Bool
  | int n => n != 0
  | bool b => b
  | real q => q != 0
  | text _ => true

/-- The whole number that a value is promoted to. -/
def number? : Value → Option Int
  | int n => some n
  | bool b => some b.toInt
  | real _ | text _ => none

/-- The number that a value is converted to. -/
def real? : Value → Option ℚ
  | real q => some q
  | v => v.number?.map fun n => (n : ℚ)

end Value

section

variable (M : Machine)

/-- An integer, if it fits. -/
def int (n : Int) : Except Fault Value := if M.fits n then .ok (.int n) else .error .overflow

/-- Operations on integers.  A quotient is rounded toward zero, and so the remainder has the sign of
the dividend. -/
def onInts : BinaryOp → Int → Int → Except Fault Value
  | .add, a, b => M.int (a + b)
  | .sub, a, b => M.int (a - b)
  | .mul, a, b => M.int (a * b)
  | .div, a, b => if b = 0 then .error .undefined else M.int (a.tdiv b)
  -- The remainder is defined only if the quotient is.
  | .mod, a, b => if b = 0 then .error .undefined else do
    let _ ← M.int (a.tdiv b)
    M.int (a.tmod b)
  | .eq, a, b => .ok (.bool (a = b))
  | .ne, a, b => .ok (.bool (a ≠ b))
  | .lt, a, b => .ok (.bool (a < b))
  | .le, a, b => .ok (.bool (a ≤ b))
  | .gt, a, b => .ok (.bool (b < a))
  | .ge, a, b => .ok (.bool (b ≤ a))
  | _, _, _ => .error .undefined

/-- Operations on floating-point numbers. -/
def onReals : BinaryOp → ℚ → ℚ → Except Fault Value
  | .div, x, y => if y = 0 then .error .undefined else .ok (.real (M.round (x / y)))
  | _, _, _ => .error .undefined

/-- An operation on two values: on integers if both are promoted to one, and else on floating-point
numbers. -/
def binary (op : BinaryOp) (v w : Value) : Except Fault Value :=
  match v.number?, w.number? with
  | some a, some b => M.onInts op a b
  | _, _ =>
    match v.real?, w.real? with
    | some x, some y => M.onReals op x y
    | _, _ => .error .undefined

/-- An operation on one value. -/
def unary : UnaryOp → Value → Except Fault Value
  | .not, v => .ok (.bool !v.truth)
  | .plus, v => v.number?.elim (.error .undefined) M.int
  | .neg, v => v.number?.elim (.error .undefined) fun n => M.int (-n)
  | .bitNot, _ => .error .undefined

/-- The truth of the left operand that settles an operation, so that the right one is not
evaluated. -/
def settling? : BinaryOp → Option Bool
  | .logicalAnd => some false
  | .logicalOr => some true
  | _ => none

/-- A conversion; what is behind the point is cut off, and every integer that fits is also a
floating-point number. -/
def convert (type : StaticType) (v : Value) : Except Fault Value :=
  match type, v with
  | .integer, .real q => M.int (if 0 ≤ q then ⌊q⌋ else ⌈q⌉)
  | .integer, v => v.number?.elim (.error .undefined) M.int
  | .floating, v => v.real?.elim (.error .undefined) fun q => .ok (.real q)
  | .boolean, v => .ok (.bool v.truth)
  | .string, .text s => .ok (.text s)
  | _, _ => .error .undefined

end

/-- A call of a library function of one argument. -/
def library (function : String) (v : Value) : Except Fault Value :=
  if function = "std::floor" then v.real?.elim (.error .undefined) fun q => .ok (.real ⌊q⌋)
  else match function, v with
    | "std::string", .text s => .ok (.text s)
    | _, _ => .error .undefined

/-! ### Expressions -/

/-- A variable. -/
structure Cell where
  name : String
  type : StaticType
  value : Value

/-- The value of a variable. -/
def load (cells : List Cell) (x : String) : Except Fault Value :=
  (cells.find? (·.name = x)).elim (.error .undefined) fun c => .ok c.value

section

variable (M : Machine) (cells : List Cell)

/-- The value of an expression; a literal ends before its first null character. -/
def eval : Expr → Except Fault Value
  | .int n _ => M.int n.toInt
  | .bool b _ => .ok (.bool b)
  | .string s _ => .ok (.text (String.ofList (s.toList.takeWhile (· ≠ '\x00'))))
  | .var x _ => load cells x
  | .binary op left right _ => do
    let v ← eval left
    match settling? op with
    | some b => if v.truth = b then .ok (.bool b) else return .bool (← eval right).truth
    | none => M.binary op v (← eval right)
  | .unary op operand _ => do M.unary op (← eval operand)
  | .call function [argument] _ => do library function (← eval argument)
  | .cast operand target _ => do M.convert target (← eval operand)
  | _ => .error .undefined

/-- What printing an expression of the given type with the given value writes. -/
def shown (type : StaticType) (v : Value) : Except Fault String :=
  if type = .boolean then .ok (if v.truth then "True" else "False")
  else match v with
    | .int n => .ok (toString n)
    | .bool b => .ok (toString b.toInt)
    | .text s => .ok s
    | .real _ => .error .undefined

/-- The line that printing expressions writes. -/
def line (es : List Expr) : Except Fault String := do
  let texts ← es.mapM fun e => do shown e.type (← eval M cells e)
  return " ".intercalate texts ++ "\n"

end

/-! ### Statements -/

/-- The variables, the last one declared first, and what has been written. -/
structure Memory where
  cells : List Cell
  output : String

namespace Memory

/-- Nothing is declared or written. -/
def start : Memory := ⟨[], ""⟩

/-- Declares a variable. -/
def declare (m : Memory) (name : String) (type : StaticType) (v : Value) : Memory :=
  { m with cells := ⟨name, type, v⟩ :: m.cells }

/-- Forgets all variables but the `n` that were declared first. -/
def leave (m : Memory) (n : Nat) : Memory := { m with cells := m.cells.drop (m.cells.length - n) }

end Memory

/-- Stores a value into the innermost variable of a name. -/
def storeCell (x : String) (v : Value) : List Cell → List Cell
  | [] => []
  | c :: cs => if c.name = x then { c with value := v } :: cs else c :: storeCell x v cs

/-- What does not depend on the values of variables stays. -/
theorem map_storeCell {α : Type} {f : Cell → α} (hf : ∀ c v, f { c with value := v } = f c)
    (x : String) (v : Value) (cells : List Cell) : (storeCell x v cells).map f = cells.map f := by
  induction cells with
  | nil => rfl
  | cons c cells ih =>
    rw [storeCell]
    split
    · rw [List.map_cons, List.map_cons, hf]
    · rw [List.map_cons, List.map_cons, ih]

/-- Runs the body of a loop as long as the test holds, for less than `rounds` rounds; `after`
follows every round that does not leave the loop. -/
def loop (test : Memory → Except Fault Bool) (body : Memory → Except Fault (Signal × Memory))
    (after : Memory → Except Fault Memory) : Nat → Memory → Except Fault Memory
  | 0, _ => .error .limit
  | rounds + 1, m => do
    if ← test m then
      match ← body m with
      | (.brk, m) => .ok m
      | (_, m) => loop test body after rounds (← after m)
    else .ok m

/-- Runs a block in a scope of its own. -/
def inScope (body : Memory → Except Fault (Signal × Memory)) (m : Memory) :
    Except Fault (Signal × Memory) := do
  let (signal, m') ← body m
  return (signal, m'.leave m.cells.length)

section

variable (M : Machine)

/-- What a condition makes of an expression. -/
def test (e : Expr) (m : Memory) : Except Fault Bool := do return (← M.eval m.cells e).truth

/-- Assigns to a variable. -/
def assign (x : String) (e : Expr) (m : Memory) : Except Fault Memory := do
  let v ← M.eval m.cells e
  match m.cells.find? (·.name = x) with
  | some c => return { m with cells := storeCell x (← M.convert c.type v) m.cells }
  | none => .error .undefined

/-- The test of a counting loop. -/
def counterTest (counter : String) (stop : Expr) (step : Int64) : Expr :=
  .binary (if step < 0 then .gt else .lt) (.var counter .integer) stop .boolean

/-- The value of the counter in the next round. -/
def nextCount (counter : String) (step : Int64) : Expr :=
  .binary .add (.var counter .integer) (.ofInt step) .integer

variable (rounds : Nat)

mutual

/-- Runs a statement. -/
def exec (m : Memory) : Stmt → Except Fault (Signal × Memory)
  | .decl x type e => do
    let v ← M.eval m.cells e
    return (.next, m.declare x type (← M.convert type v))
  | .assign x e => do return (.next, ← M.assign x e m)
  | .expr e => do
    let _ ← M.eval m.cells e
    return (.next, m)
  | .print es => do return (.next, { m with output := m.output ++ (← M.line m.cells es) })
  | .ifElse branches orelse => execBranches m (execElse m orelse) branches
  | .whileLoop c body => do
    return (.next, ← loop (M.test c) (inScope fun m => execBlock m body) .ok rounds m)
  | .forLoop counter start stop step body => do
    let v ← M.convert .integer (← M.eval m.cells start)
    let m' ← loop (M.test (counterTest counter stop step)) (inScope fun m => execBlock m body)
      (M.assign counter (nextCount counter step)) rounds (m.declare counter .integer v)
    return (.next, m'.leave m.cells.length)
  | .brk => .ok (.brk, m)
  | .cont => .ok (.cont, m)
  | .comment _ => .ok (.next, m)
  | .ret _ => .error .undefined

/-- Runs the statements of a block in turn, up to one that ends a round or a loop. -/
def execBlock (m : Memory) : List Stmt → Except Fault (Signal × Memory)
  | [] => .ok (.next, m)
  | s :: ss => do
    match ← exec m s with
    | (.next, m) => execBlock m ss
    | ended => .ok ended

/-- Runs the first branch whose condition holds, or `otherwise`. -/
def execBranches (m : Memory) (otherwise : Except Fault (Signal × Memory)) :
    List (Expr × List Stmt) → Except Fault (Signal × Memory)
  | [] => otherwise
  | (c, body) :: branches => do
    if ← M.test c m then inScope (fun m => execBlock m body) m
    else execBranches m otherwise branches

/-- Runs the `else` of a conditional. -/
def execElse (m : Memory) : Option (List Stmt) → Except Fault (Signal × Memory)
  | none => .ok (.next, m)
  | some body => inScope (fun m => execBlock m body) m

end

/-- What the body of `main` writes, if it comes to its end with less than `rounds` rounds of every
loop. -/
def run (p : Target.Program) : Except Fault String := do
  match ← M.execBlock rounds .start p.mainBody with
  | (.next, m) => return m.output
  | _ => .error .undefined

end

/-! ### What runs come to -/

/-- Every integer fits. -/
def Unbounded (M : Machine) : Prop := ∀ n, M.fits n = true

section

variable {M : Machine} {α β : Type}

/-- The result is a value with the property, or a fault since some integer does not fit. -/
def Yields (M : Machine) (r : Except Fault α) (P : α → Prop) : Prop :=
  (∃ a, r = .ok a ∧ P a) ∨ (r = .error .overflow ∧ ¬ M.Unbounded)

/-- With rounds enough, a run has a result as in `Yields`, and always the same. -/
def Settles (M : Machine) (run : Nat → Except Fault α) (P : α → Prop) : Prop :=
  ∃ r, M.Yields r P ∧ ∃ least, ∀ rounds ≥ least, run rounds = r

theorem yields_ok {a : α} {P : α → Prop} (h : P a) : M.Yields (.ok a) P := .inl ⟨a, rfl, h⟩

theorem Yields.bind {r : Except Fault α} {f : α → Except Fault β} {P : α → Prop} {Q : β → Prop}
    (h : M.Yields r P) (hf : ∀ a, P a → M.Yields (f a) Q) : M.Yields (r >>= f) Q := by
  rcases h with ⟨a, rfl, ha⟩ | ⟨rfl, hM⟩
  · exact hf a ha
  · exact .inr ⟨rfl, hM⟩

theorem Yields.imp {r : Except Fault α} {P Q : α → Prop} (h : M.Yields r P)
    (hPQ : ∀ a, P a → Q a) : M.Yields r Q := by
  rcases h with ⟨a, rfl, ha⟩ | hr
  · exact yields_ok (hPQ a ha)
  · exact .inr hr

theorem yields_int (n : Int) : M.Yields (M.int n) fun v => v = .int n ∧ M.fits n = true := by
  unfold int
  split
  · rename_i h
    exact yields_ok ⟨rfl, h⟩
  · rename_i h
    exact .inr ⟨rfl, fun hM => h (hM n)⟩

theorem Yields.settles {r : Except Fault α} {P : α → Prop} (h : M.Yields r P) :
    M.Settles (fun _ => r) P := ⟨r, h, 0, fun _ _ => rfl⟩

theorem Settles.imp {run : Nat → Except Fault α} {P Q : α → Prop} (h : M.Settles run P)
    (hPQ : ∀ a, P a → Q a) : M.Settles run Q := by
  obtain ⟨r, hr, hrun⟩ := h
  exact ⟨r, hr.imp hPQ, hrun⟩

theorem Settles.congr {run run' : Nat → Except Fault α} {P : α → Prop} (h : M.Settles run P)
    (least : Nat) (heq : ∀ rounds ≥ least, run' rounds = run rounds) : M.Settles run' P := by
  obtain ⟨r, hr, least', hrun⟩ := h
  refine ⟨r, hr, max least least', fun rounds hle => ?_⟩
  rw [heq rounds (by omega), hrun rounds (by omega)]

theorem Settles.bind {run : Nat → Except Fault α} {f : Nat → α → Except Fault β} {P : α → Prop}
    {Q : β → Prop} (h : M.Settles run P) (hf : ∀ a, P a → M.Settles (fun n => f n a) Q) :
    M.Settles (fun n => run n >>= f n) Q := by
  obtain ⟨r, hr, least, hrun⟩ := h
  rcases hr with ⟨a, rfl, ha⟩ | ⟨rfl, hM⟩
  · refine (hf a ha).congr least fun rounds hle => ?_
    rw [hrun rounds hle]
    rfl
  · refine ⟨.error .overflow, .inr ⟨rfl, hM⟩, least, fun rounds hle => ?_⟩
    simp only [hrun rounds hle]
    rfl

/-- A loop after `done` rounds, by what its next round comes to. -/
theorem settles_loop {test : Memory → Except Fault Bool}
    {body : Nat → Memory → Except Fault (Signal × Memory)} {after : Memory → Except Fault Memory}
    {m : Memory} {P : Memory → Prop} (done : Nat)
    (h : M.Yields (test m) fun b => if b then M.Settles (fun n => body n m) fun r =>
      if r.1 = .brk then P r.2
      else M.Yields (after r.2) fun m' =>
        M.Settles (fun n => loop test (body n) after (n - (done + 1)) m') P
      else P m) :
    M.Settles (fun n => loop test (body n) after (n - done) m) P := by
  have hstep : ∀ n ≥ done + 1, loop test (body n) after (n - done) m = (do
      if ← test m then
        match ← body n m with
        | (.brk, m) => .ok m
        | (_, m) => loop test (body n) after (n - (done + 1)) (← after m)
      else .ok m) := by
    intro n hn
    obtain ⟨k, rfl⟩ : ∃ k, n = done + 1 + k := ⟨n - (done + 1), by omega⟩
    rw [show done + 1 + k - done = k + 1 by omega, show done + 1 + k - (done + 1) = k by omega]
    rfl
  refine Settles.congr (h.settles.bind fun b hb => ?_) _ hstep
  cases b with
  | false =>
    have hP : P m := hb
    exact (yields_ok hP).settles
  | true =>
    refine Settles.bind hb ?_
    rintro ⟨signal, m'⟩ hr
    cases signal with
    | brk =>
      have hP : P m' := hr
      exact (yields_ok hP).settles
    | next | cont => exact Settles.bind (Yields.settles hr) fun _ h => h

end

end Machine

end StaticScript
