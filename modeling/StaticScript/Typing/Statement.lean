import StaticScript.Typing.Expression
import StaticScript.Typing.Header
import StaticScript.Typing.ReturnSlot

/-!
# Checking statements

`checkStmt` decides whether a statement has a counterpart in C++, from its own parts only: what is
nested in it is checked when it is reached, in the environment that holds there.
-/

namespace StaticScript.Typing

open Source (Stmt)

/-! ### Counting loops -/

/-- The bounds of a `range`. -/
structure Range where
  start : Option Source.Expr
  stop : Source.Expr
  step : Int64

/-- An integer literal, perhaps with a minus sign.  Negation wraps around: the least integer stays
as it is, and is out of range for a step in any case. -/
def stepLiteral? : Source.Expr → Option Int64
  | .int _ n => some n
  | .unary _ .minus (.int _ n) => some (-n)
  | _ => none

/-- The bounds that the arguments of a `range` give. -/
def rangeOfArguments? : List Source.Expr → Option Range
  | [stop] => some ⟨none, stop, 1⟩
  | [start, stop] => some ⟨some start, stop, 1⟩
  | [start, stop, step] => do
    let n ← stepLiteral? step
    if n = 0 then none else some ⟨some start, stop, n⟩
  | _ => none

/-- The bounds of an expression that calls the built-in `range`. -/
def range? (env : Environment) : Source.Expr → Option Range
  | .call _ function arguments keywords =>
    if function.asName = some "range" ∧ keywords.isEmpty ∧ env.lookup "range" = none ∧
        (env.function? "range").isNone then
      rangeOfArguments? arguments
    else none
  | _ => none

section

variable (env : Environment) (policy : Policy)

/-- A loop over a `range` has a counterpart.  The counter must be new and not stored into in the
body, and the bound, which is evaluated before every round, may not contain a call. -/
def checkRangeLoop (target iter : Source.Expr) (body : List Stmt) : Checked Unit := do
  let name ← Checked.ofOption .unsupported target.asName
  let range ← Checked.ofOption .unsupported (range? env iter)
  if range.stop.containsCall || body.any (·.assignsTo name) then throw .unsupported
  let limits := range.start.toList ++ [range.stop]
  let types ← Checked.all (limits.map (check env policy .value))
  if !types.all (·.isIntegral) then throw .unsupported
  if !fitsInt range.step then throw .typeNarrowing
  if Target.isReserved name then throw .unsupported
  match env.lookup name with
  | none => return
  -- The variable would have to keep its last value after the loop.
  | some .integer => throw .unsupported
  | some _ => throw .typeNarrowing

/-! ### Statements -/

/-- A name can hold a value of type `type` from here on. -/
def checkBinding (name : String) (type : StaticType) : Checked Unit :=
  if type = .void ∨ Target.isReserved name ∨ (env.function? name).isSome then .error .unsupported
  else match env.lookup name with
    | none => .ok ()
    | some previous => if type.assignable previous then .ok () else .error .typeNarrowing

/-- An expression is worth a statement of its own: only printing and calls of the program's own
functions have an effect. -/
def checkExprStmt (e : Source.Expr) : Checked Unit :=
  let unused : Category := if e.containsNamed then .chainedAssignment else .valueUnused
  match e with
  | .call _ function _ _ =>
    match callee env function with
    | .ok .print | .ok (.user _) | .error _ => do
      let _ ← check env policy .value e
    | .ok _ => .error unused
  | _ => .error unused

/-- The statement has a counterpart in C++.  `slot` belongs to the function that the statement is
in, if it is in one; functions are defined only at the level of the module. -/
def checkStmt (moduleLevel : Bool) (slot : Option ReturnSlot) (s : Stmt) : Checked Unit :=
  match s with
  | .expr _ e => checkExprStmt env policy e
  | .assign _ [target] value => do
    let (name, type) ←
      (Checked.ofOption .unsupported target.asName).both (check env policy .value value)
    checkBinding env name type
  | .assign .. => .error .chainedAssignment
  | .augAssign _ target op value => do
    let (name, type) ←
      (Checked.ofOption .unsupported target.asName).both (check env policy .value value)
    let current ← Checked.ofOption .unsupported (env.lookup name)
    checkBinding env name (← binaryType op current type)
  | .ifElse _ condition _ _ => do
    let _ ← checkCondition env policy condition
  | .whileLoop _ condition _ orelse => do
    if !orelse.isEmpty then throw .unsupported
    let _ ← checkCondition env policy condition
  | .forLoop _ target iter body orelse => do
    if !orelse.isEmpty then throw .unsupported
    checkRangeLoop env policy target iter body
  | .functionDef site .. => do
    if !moduleLevel then throw .unsupported
    let found ← signature policy s
    -- Of several definitions of a name only one is declared.
    match env.function? found.name with
    | some declared => if declared.id = site.id then return else throw .unsupported
    | none => throw .unsupported
  | .ret _ value => do
    let slot ← Checked.ofOption .unsupported slot
    let type ← match value with
      | none => pure .void
      | some e => check env policy .value e
    let _ ← Checked.ofOption .typeNarrowing (slot.accept type)
  | .brk _ | .cont _ | .pass _ => .ok ()
  | .importNames _ names => if names.all (· == "math") then .ok () else .error .unsupported
  | .importFrom _ package names =>
    if package = "math" ∧ names.all mathFunctions.contains then .ok () else .error .unsupported
  | .docString .. | .comment .. => .error .docOnly
  | .other .. => .error .unsupported

/-- The category of a statement. -/
def classify (moduleLevel : Bool) (slot : Option ReturnSlot) (s : Stmt) : Category :=
  (checkStmt env policy moduleLevel slot s).category

end

end StaticScript.Typing
