import StaticScript.Typing.Expression

/-!
# Lowering expressions

`lower` makes the C++ expression that stands for an expression of a script.  Conversions between
numbers are written out, and division and remainder keep the rounding and the sign that they have
in scripts.  The parts of an expression are lowered from left to right, up to the first failure.
-/

namespace StaticScript.Lowering

open Source (CompareOp)
open Typing (Context Callee Slot)
open Target (Expr)

/-- A conversion to floating point, unless the expression is of that type. -/
def asDouble (e : Expr) : Expr := if e.type = .floating then e else e.castTo .floating

/-- A string object made from a literal, on which operators work as on strings. -/
def asString (e : Expr) : Expr := .call "std::string" [e] .string

/-- A literal becomes a string object; all else stays. -/
def stringObject (e : Expr) : Expr := if e.isText then asString e else e

/-- The remainder of a division that rounds toward zero. -/
def remainder (type : StaticType) (left right : Expr) : Expr :=
  if type = .floating then .call "std::fmod" [left, right] type
  else .binary .mod left right type

/-- The quotient rounded down. -/
def floorQuotient (type : StaticType) (left right : Expr) : Expr :=
  if type = .floating then .call "std::floor" [.binary .div left right type] type
  else
    let quotient : Expr := .binary .div (asDouble left) right .floating
    (Expr.call "std::floor" [quotient] .floating).castTo .integer

/-- The operation on two lowered operands.  The remainder takes the sign of the divisor, which is
evaluated twice for it, so the divisor may not contain a call. -/
def binaryExpr (op : Source.BinaryOp) (rightCalls : Bool) (left right : Expr) : Checked Expr := do
  let type ← Typing.binaryType op left.type right.type
  match op with
  | .add => return .binary .add (stringObject left) right type
  | .sub => return .binary .sub left right type
  | .mult => return .binary .mul left right type
  | .div => return .binary .div (asDouble left) right type
  | .floorDiv => return floorQuotient type left right
  | .mod =>
    if rightCalls then throw .unsupported
    return remainder type (.binary .add (remainder type left right) right type) right
  | .pow => return .call "std::pow" [left, right] type
  | .leftShift => return .binary .shl left right type
  | .rightShift => return .binary .shr left right type
  | .bitOr => return .binary .bitOr left right type
  | .bitAnd => return .binary .bitAnd left right type
  | .bitXor => return .binary .bitXor left right type
  | .matMult => throw .unsupported

/-- The operator that stands for an operator on one operand. -/
def unaryOp : Source.UnaryOp → Target.UnaryOp
  | .not => .not
  | .invert => .bitNot
  | .plus => .plus
  | .minus => .neg

/-- The operator that stands for `and` or `or`. -/
def logicalOp : Source.BoolOp → Target.BinaryOp
  | .and => .logicalAnd
  | .or => .logicalOr

/-- The operator that stands for a comparison. -/
def comparisonOp : CompareOp → Checked Target.BinaryOp
  | .eq => .ok .eq
  | .notEq => .ok .ne
  | .lt => .ok .lt
  | .ltE => .ok .le
  | .gt => .ok .gt
  | .gtE => .ok .ge
  | .is | .isNot | .isIn | .notIn => .error .unsupported

/-- Expressions joined from left to right by an operator with a truth value. -/
def joined (op : Target.BinaryOp) : List Expr → Checked Expr
  | [] => .error .unsupported
  | e :: es => .ok (es.foldl (fun left right => .binary op left right .boolean) e)

/-- The lowered operands of `and` or `or`, joined. -/
def boolOpExpr (op : Source.BoolOp) (ctx : Context) (operands : List Expr) : Checked Expr := do
  let _ ← Typing.boolOpType ctx (operands.map (·.type))
  joined (logicalOp op) operands

/-- The comparisons of a chain, one by one.  Two literals are compared as strings. -/
def comparisonLinks : List CompareOp → Expr → List Expr → Checked (List Expr)
  | op :: ops, left, right :: rest => do
    let _ ← Typing.comparisonType op left.type right.type
    let object := if right.isText then stringObject left else left
    let link : Expr := .binary (← comparisonOp op) object right .boolean
    return link :: (← comparisonLinks ops right rest)
  | _, _, _ => .ok []

/-- A chain of comparisons of lowered operands. -/
def comparisonExpr (ops : List CompareOp) (comparators : List Source.Expr)
    (operands : List (Checked Expr)) : Checked Expr := do
  if ops.isEmpty || ops.length ≠ comparators.length then throw .unsupported
  if comparators.dropLast.any (·.containsCall) then throw .unsupported
  match ← Checked.sequence operands with
  | [] => throw .unsupported
  | first :: rest => joined .logicalAnd (← comparisonLinks ops first rest)

/-- The arguments of a call of a function of the program.  A type parameter would take a literal
for a pointer, so it is given a string object. -/
def userArguments : List (Slot (Checked Expr) × SignatureParam) → Checked (List Expr)
  | [] => .ok []
  | (.default value, _) :: rest => return value :: (← userArguments rest)
  | (.supplied result, param) :: rest => do
    let e ← result
    if let some c := Typing.argumentCategory? e.type param.type then throw c
    let argument := match param.type with
      | .generic _ => stringObject e
      | .concrete _ => e
    return argument :: (← userArguments rest)

/-- A call of a function of the program. -/
def userCall (policy : Policy) (s : Signature) (arguments : List (Checked Expr))
    (keywords : List (String × Checked Expr)) : Checked Expr := do
  let slots ← Typing.bindArguments s.params arguments keywords policy.defaults
  return .call s.name (← userArguments (slots.zip s.params)) s.returns

/-- A conversion of a lowered operand. -/
def castExpr (target type : StaticType) (operand : Expr) : Expr :=
  if target = .string then
    if operand.type = .string then operand else .call "std::to_string" [operand] type
  else operand.castTo target

/-- A call of a built-in function with lowered arguments. -/
def builtinCall (callee : Callee) (arguments : List Expr) : Checked Expr := do
  let type ← Typing.builtinCallType callee (arguments.map (·.type))
  match callee, arguments with
  | .cast target, operand :: _ => return castExpr target type operand
  | .cast _, [] => throw .invalidMethodCall
  | .abs, _ => return .call "std::abs" arguments type
  | .pow, _ => return .call "std::pow" arguments type
  | .math name, _ =>
    let function := "std::" ++ name
    if type = .integer then
      return (Expr.call function arguments .floating).castTo .integer
    return .call function arguments type
  -- Printing is a statement.
  | .print, _ | .user _, _ => throw .unsupported

/-- A call with lowered arguments. -/
def callExpr (env : Environment) (policy : Policy) (function : Source.Expr)
    (arguments : List (Checked Expr)) (keywords : List (String × Checked Expr)) :
    Checked Expr := do
  match ← Typing.callee env function with
  | .user name =>
    let s ← Checked.ofOption .outOfScopeCall (env.function? name)
    userCall policy s arguments keywords
  | builtin =>
    if !keywords.isEmpty then throw .unsupported
    builtinCall builtin (← Checked.sequence arguments)

section

variable (env : Environment) (policy : Policy)

mutual

/-- The C++ expression that stands for an expression. -/
def lower (ctx : Context) : Source.Expr → Checked Expr
  | .int _ n => do
    let _ ← Typing.intLiteralType n
    return .ofInt n
  | .float _ x => .ok (.ofDouble x)
  | .bool _ b => .ok (.ofBool b)
  | .str _ s => .ok (.ofText s)
  | .name _ id => do return .var id (← Checked.ofOption .unsupported (env.lookup id))
  | .binary _ op left right => do
    let l ← lower .value left
    let r ← lower .value right
    binaryExpr op right.containsCall l r
  | .boolOp _ op values => do boolOpExpr op ctx (← Checked.sequence (lowerList ctx values))
  | .unary _ op operand => do
    let e ← lower (if op = .not then .condition else .value) operand
    return .unary (unaryOp op) e (← Typing.unaryType op e.type)
  | .compare _ left ops comparators =>
    comparisonExpr ops comparators (lower .value left :: lowerList .value comparators)
  | .call _ function arguments keywords =>
    callExpr env policy function (lowerList .value arguments) (lowerKeywords keywords)
  | .named .. => .error .chainedAssignment
  | .none .. | .attr .. | .list .. | .tuple .. | .set .. | .dict .. | .other .. =>
    .error .unsupported

/-- The C++ expressions that stand for expressions. -/
def lowerList (ctx : Context) : List Source.Expr → List (Checked Expr)
  | [] => []
  | e :: es => lower ctx e :: lowerList ctx es

/-- The C++ expressions that stand for the values of keywords. -/
def lowerKeywords : List (String × Source.Expr) → List (String × Checked Expr)
  | [] => []
  | (name, value) :: ks => (name, lower .value value) :: lowerKeywords ks

end

/-- The arguments of a call in turn. -/
def lowerArguments (es : List Source.Expr) : Checked (List Expr) :=
  Checked.sequence (lowerList env policy .value es)

/-- The result for a single expression: its counterpart, or the reason why it is left out. -/
def verdict (ctx : Context) (e : Source.Expr) : Except Reason Expr :=
  match Typing.check env policy ctx e with
  | .error c => .error c.reason
  | .ok _ =>
    match lower env policy ctx e with
    | .error c => .error c.reason
    | .ok t => .ok t

end

end StaticScript.Lowering
