import StaticScript.Policy
import StaticScript.Source.Query
import StaticScript.Typing.Environment

/-!
# Typing rules

The rules by which the type of a construct follows from the types of its parts.  A rule gives a
type, or the category that says why there is no counterpart in C++.  The rules know nothing of how
the parts were checked or what they become, so checking and lowering share them.
-/

namespace StaticScript.Typing

open Source (BinaryOp UnaryOp CompareOp)

/-- What becomes of the value of an expression. -/
inductive Context where
  /-- It is tested for truth. -/
  | condition
  /-- It is stored, passed on, printed or combined. -/
  | value
deriving DecidableEq

/-- A number that fits an integer variable. -/
def fitsInt (n : Int64) : Bool :=
  decide (Int32.minValue.toInt ≤ n.toInt) && decide (n.toInt ≤ Int32.maxValue.toInt)

/-- The type of an integer literal. -/
def intLiteralType (n : Int64) : Checked StaticType :=
  if fitsInt n then .ok .integer else .error .typeNarrowing

/-- Succeeds if both operands are arithmetic. -/
def arithmetic (left right : StaticType) (result : Option StaticType) : Checked StaticType :=
  if left.isArithmetic && right.isArithmetic then Checked.ofOption .unsupported result
  else .error .unsupported

/-- The type of a bitwise operation. -/
def bitwiseType (left right : StaticType) : Checked StaticType :=
  let fits (t : StaticType) : Bool := t.isIntegral || t == .unresolved
  if !(fits left && fits right) then .error .unsupported
  else if left = .unresolved ∨ right = .unresolved then .ok .unresolved
  else .ok .integer

/-- The type of an operation on two operands. -/
def binaryType (op : BinaryOp) (left right : StaticType) : Checked StaticType :=
  if left = .void ∨ right = .void then .error .unsupported
  else match op with
    | .add => Checked.ofOption .unsupported (left.promote right)
    | .sub | .mult => arithmetic left right (left.promote right)
    | .div | .pow => arithmetic left right (some .floating)
    | .floorDiv | .mod =>
      if left.isNumeric && right.isNumeric then Checked.ofOption .unsupported (left.promote right)
      else .error .unsupported
    | .leftShift | .rightShift | .bitOr | .bitAnd | .bitXor => bitwiseType left right
    | .matMult => .error .unsupported

/-- The type of an operation on one operand. -/
def unaryType : UnaryOp → StaticType → Checked StaticType
  | _, .void | _, .string => .error .unsupported
  | .not, _ => .ok .boolean
  | .invert, .floating => .error .unsupported
  | _, .unresolved => .ok .unresolved
  | .invert, _ | _, .boolean => .ok .integer
  | _, t => .ok t

/-- The type of one comparison of a chain. -/
def comparisonType (op : CompareOp) (left right : StaticType) : Checked StaticType :=
  if op.isIdentityOrMembership then .error .unsupported
  else match left, right with
    | .void, _ | _, .void => .error .unsupported
    | .string, .string => .ok .boolean
    | .string, _ | _, .string => .error .unsupported
    | _, _ => .ok .boolean

/-- The types that can be tested for truth. -/
def conditionType : StaticType → Checked StaticType
  | .string | .void => .error .unsupported
  | t => .ok t

/-- All types can be tested for truth. -/
def conditionTypes : List StaticType → Checked StaticType
  | [] => .ok .boolean
  | t :: ts => do
    let _ ← conditionType t
    conditionTypes ts

/-- The type of `and` and `or`: as a condition they take all operands that can be tested, as a
value only booleans. -/
def boolOpType : Context → List StaticType → Checked StaticType
  | .condition, ts => conditionTypes ts
  | .value, ts => if ts.all (· == .boolean) then .ok .boolean else .error .unsupported

/-- The type of an explicit conversion. -/
def castType : StaticType → StaticType → Checked StaticType
  | _, .void => .error .unsupported
  | .string, .string | .string, .integer => .ok .string
  | .string, .boolean => .error .unsupported
  | .string, _ => .error .typeNarrowing
  | _, .string | _, .unresolved => .error .typeNarrowing
  | target, _ => .ok target

/-- Why an argument does not fit its parameter, if it does not. -/
def argumentCategory? (argument : StaticType) (param : Target.ParamType) : Option Category :=
  if argument = .void then some .unsupported
  else match param with
    | .generic _ => none
    | .concrete t =>
      if argument.assignable t then none
      else if argument.isArithmetic && t.isArithmetic then some .typeNarrowing
      else some .invalidMethodCall

/-! ### Calls -/

/-- What a call calls. -/
inductive Callee where
  | print
  | cast (target : StaticType)
  | abs
  | pow
  /-- A mathematical function. -/
  | math (name : String)
  /-- A function of the program. -/
  | user (name : String)
deriving DecidableEq

/-- The mathematical functions that C++ has too. -/
def mathFunctions : List String := ["sqrt", "floor", "ceil", "sin", "cos", "tan", "exp", "log"]

/-- What a plain name calls that is neither a function of the program nor a variable. -/
def builtinCallee? (globals : Globals) (name : String) : Option Callee :=
  match name with
  | "print" => some .print
  | "int" => some (.cast .integer)
  | "float" => some (.cast .floating)
  | "bool" => some (.cast .boolean)
  | "str" => some (.cast .string)
  | "abs" => some .abs
  | "pow" => some .pow
  | name =>
    if name ∈ mathFunctions ∧ name ∈ globals.mathFunctions then some (.math name) else none

/-- What an expression in the place of a function calls. -/
def callee (env : Environment) : Source.Expr → Checked Callee
  | .name _ name =>
    if (env.function? name).isSome then .ok (.user name)
    else if (env.lookup name).isSome then .error .invalidMethodCall
    else Checked.ofOption .outOfScopeCall (builtinCallee? env.globals name)
  | .attr _ object name =>
    if object.asName = some "math" ∧ env.globals.mathModule ∧ env.lookup "math" = none ∧
        name ∈ mathFunctions then
      .ok (.math name)
    else .error .invalidMethodCall
  | _ => .error .invalidMethodCall

/-- The type of a call of a function that is not the program's own. -/
def builtinCallType : Callee → List StaticType → Checked StaticType
  | .print, ts =>
    if .void ∈ ts then .error .unsupported
    else if .floating ∈ ts then .error .typeNarrowing
    else .ok .void
  | .cast target, [t] => castType target t
  | .abs, [t] => if t.isArithmetic then unaryType .plus t else .error .unsupported
  | .pow, [base, exponent] => binaryType .pow base exponent
  | .math name, [t] =>
    if t.isArithmetic then .ok (if name = "floor" ∨ name = "ceil" then .integer else .floating)
    else .error .unsupported
  | .user _, _ => .error .unsupported
  | _, _ => .error .invalidMethodCall

end StaticScript.Typing
