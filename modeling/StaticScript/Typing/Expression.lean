import StaticScript.Typing.Arguments
import StaticScript.Typing.Rules

/-!
# Checking expressions

`check` gives the type of an expression that has a counterpart in C++, or the category that says
why it has none.  All parts of an expression are checked, whether or not one of them fails, and of
several failures the one that comes first in the order of categories counts.
-/

namespace StaticScript.Typing

open Source (CompareOp)

/-- The types of a chain of comparisons fit: each operator its two neighbours. -/
def chainType : List CompareOp → StaticType → List StaticType → Checked StaticType
  | op :: ops, left, right :: rest => do
    let _ ← comparisonType op left right
    chainType ops right rest
  | _, _, _ => .ok .boolean

/-- The comparisons of a chain fit, given the results for its operands.  The operands in the middle
are evaluated twice once the chain is split, so they may not contain calls. -/
def comparisonsType (ops : List CompareOp) (comparators : List Source.Expr)
    (operands : List (Checked StaticType)) : Checked StaticType := do
  if ops.isEmpty || ops.length ≠ comparators.length then throw .unsupported
  match ← Checked.all operands with
  | [] => throw .unsupported
  | first :: rest =>
    if comparators.dropLast.any (·.containsCall) then throw .unsupported
    chainType ops first rest

/-- The worst misfit of the arguments of a call with the parameters, if there is one. -/
def argumentsFit : List (Slot (Checked StaticType) × SignatureParam) → Checked (Option Category)
  | [] => .ok none
  | (.default _, _) :: rest => argumentsFit rest
  | (.supplied result, param) :: rest => do
    let type ← result
    let later ← argumentsFit rest
    return match argumentCategory? type param.type, later with
      | none, later => later
      | some c, none => some c
      | some c, some d => some (c.mostSevere d)

/-- The type of a call of a function of the program, given the results for its arguments. -/
def userCallType (policy : Policy) (s : Signature) (arguments : List (Checked StaticType))
    (keywords : List (String × Checked StaticType)) : Checked StaticType := do
  let found ← bindArguments s.params arguments keywords policy.defaults
  match ← argumentsFit (found.zip s.params) with
  | some c => throw c
  | none => return s.returns

/-- The type of a call, given the results for its arguments. -/
def callType (env : Environment) (policy : Policy) (function : Source.Expr)
    (arguments : List (Checked StaticType)) (keywords : List (String × Checked StaticType)) :
    Checked StaticType := do
  let (target, types) ←
    (callee env function).both (Checked.all (arguments ++ keywords.map Prod.snd))
  match target with
  | .user name =>
    let s ← Checked.ofOption .outOfScopeCall (env.function? name)
    userCallType policy s arguments keywords
  | builtin => if keywords.isEmpty then builtinCallType builtin types else throw .unsupported

/-- The items have one type, which is known. -/
def isUniform (items : List (Checked StaticType)) : Bool :=
  match Checked.all items with
  | .ok (t :: ts) => t.isDeterminate && ts.all (· == t)
  | _ => false

/-- Why a collection has no counterpart: its items are of no one known type, or, if they are, there
is no container for them. -/
def collectionCategory (groups : List (List (Checked StaticType))) : Category :=
  if groups.all isUniform then .unsupported else .dynamicCollection

section

variable (env : Environment) (policy : Policy)

mutual

/-- The type of an expression. -/
def check (ctx : Context) : Source.Expr → Checked StaticType
  | .int _ n => intLiteralType n
  | .float .. => .ok .floating
  | .bool .. => .ok .boolean
  | .str .. => .ok .string
  | .none _ => .ok .void
  | .name _ id => Checked.ofOption .unsupported (env.lookup id)
  | .binary _ op left right => do
    let (l, r) ← (check .value left).both (check .value right)
    let type ← binaryType op l r
    -- The sign correction of the remainder evaluates the divisor twice.
    if op = .mod ∧ right.containsCall then throw .unsupported
    return type
  | .boolOp _ _ values => do
    let types ← Checked.all (checkList ctx values)
    boolOpType ctx types
  | .unary _ op operand => do
    unaryType op (← check (if op = .not then .condition else .value) operand)
  | .compare _ left ops comparators =>
    comparisonsType ops comparators (check .value left :: checkList .value comparators)
  | .call _ function arguments keywords =>
    callType env policy function (checkList .value arguments) (checkKeywords keywords)
  | .list _ items | .tuple _ items | .set _ items =>
    .error (collectionCategory [checkList .value items])
  | .dict _ keys values =>
    .error (collectionCategory [checkList .value keys, checkList .value values])
  | .named .. => .error .chainedAssignment
  | .attr .. | .other .. => .error .unsupported

/-- The types of expressions. -/
def checkList (ctx : Context) : List Source.Expr → List (Checked StaticType)
  | [] => []
  | e :: es => check ctx e :: checkList ctx es

/-- The types of the values of keywords. -/
def checkKeywords : List (String × Source.Expr) → List (String × Checked StaticType)
  | [] => []
  | (name, value) :: ks => (name, check .value value) :: checkKeywords ks

end

/-- The type of an expression that is tested for truth. -/
def checkCondition (e : Source.Expr) : Checked StaticType := do
  conditionType (← check env policy .condition e)

end

end StaticScript.Typing
