import StaticScript.Lowering.Expression
import StaticScript.Skip
import StaticScript.Typing.Statement

/-!
# Lowering statements

`lowerStmt` makes the C++ statements that stand for a statement of a script, and `emitStmt` puts a
comment where there are none.  A state goes along: the environment, what the function at hand
returns, and the constructs that were left out.

The first assignment to a name declares it, in the block where it stands; each block has a scope of
its own.  An `elif` becomes an `else if` as long as its condition has a counterpart.
-/

namespace StaticScript.Lowering

open Source (Stmt)

/-- What is known when a statement is reached. -/
structure State where
  env : Environment
  /-- What the function at hand returns, if the statement is in one. -/
  returns : Option Typing.ReturnSlot
  /-- The constructs left out so far. -/
  records : List SkipRecord

/-- C++ statements. -/
abbrev Block := List Target.Stmt

namespace State

/-- Enters a scope. -/
def push (st : State) : State := { st with env := st.env.push }

/-- Leaves a scope. -/
def pop (st : State) : State := { st with env := st.env.pop }

/-- Leaves a statement out. -/
def skip (st : State) (s : Stmt) (c : Category) : Block × State :=
  let record := SkipRecord.ofSite s.site c
  ([record.comment], { st with records := st.records ++ [record] })

end State

/-- `target op value` as an expression in the place of `target op= value`. -/
def desugared (target : Source.Expr) (op : Source.BinaryOp) (value : Source.Expr) : Source.Expr :=
  let text := target.site.text ++ " " ++ op.symbol ++ " " ++ value.site.text
  .binary ⟨value.site.id, value.site.span, text⟩ op target value

section

variable (policy : Policy)

/-- A statement that assigns to a name: the first declares it. -/
def assign (st : State) (name : String) (value : Target.Expr) : Checked Block × State :=
  match st.env.lookup name with
  | none =>
    match st.env.bind name value.type with
    | (.accepted, env) => (.ok [.decl name value.type value], { st with env })
    | (.conflict .., _) => (.error .typeNarrowing, st)
  | some previous =>
    if value.type.assignable previous then (.ok [.assign name value], st)
    else (.error .typeNarrowing, st)

/-- A statement that is an expression. -/
def exprStmt (env : Environment) (e : Source.Expr) : Checked Target.Stmt := do
  if let .call _ function arguments _ := e then
    if (← Typing.callee env function) = .print then
      let values ← lowerArguments env policy arguments
      let _ ← Typing.builtinCallType .print (values.map (·.type))
      return .print values
  return .expr (← lower env policy .value e)

/-- The value of a `return`; a returned `None` is none. -/
def returnValue (env : Environment) : Option Source.Expr → Checked (Option Target.Expr)
  | none | some (.none _) => .ok none
  | some e => do return some (← lower env policy .value e)

/-- A `return`, which must fit what the function returns elsewhere. -/
def returnStmt (st : State) (value : Option Source.Expr) : Checked Block × State :=
  match returnValue policy st.env value with
  | .error c => (.error c, st)
  | .ok value =>
    let type := value.elim .void (·.type)
    match st.returns with
    | none => (.error .unsupported, st)
    | some slot =>
      match slot.accept type with
      | none => (.error .typeNarrowing, st)
      | some _ => (.ok [.ret value], { st with returns := some (slot.record type) })

/-- The head of a counting loop. -/
structure LoopHead where
  counter : String
  start : Target.Expr
  stop : Target.Expr
  step : Int64

/-- The head of a loop over a `range`. -/
def loopHead (env : Environment) (target iter : Source.Expr) : Checked LoopHead := do
  let name ← Checked.ofOption .unsupported target.asName
  let range ← Checked.ofOption .unsupported (Typing.range? env iter)
  if (env.lookup name).isSome then throw .unsupported
  let start ← match range.start with
    | some e => lower env policy .value e
    | none => pure (.ofInt 0)
  return ⟨name, start, ← lower env policy .value range.stop, range.step⟩

/-- What stands for a statement: what it is lowered to, if its category is `direct`, else or
failing that a comment. -/
def settle (moduleLevel : Bool) (st : State) (s : Stmt)
    (lowered : Unit → Checked Block × State) : Block × State :=
  match Typing.classify st.env policy moduleLevel st.returns s with
  | .direct =>
    match lowered () with
    | (.ok block, st) => (block, st)
    | (.error c, st) => st.skip s c
  | .docOnly => ([.comment (docComment s)], st)
  | c => st.skip s c

mutual

/-- The C++ statements that stand for a statement. -/
def lowerStmt (st : State) : Stmt → Checked Block × State
  | .expr _ e => ((exprStmt policy st.env e).map ([·]), st)
  | .assign _ [target] value =>
    match target.asName with
    | none => (.error .unsupported, st)
    | some name =>
      match lower st.env policy .value value with
      | .error c => (.error c, st)
      | .ok value => assign st name value
  | .assign .. => (.error .chainedAssignment, st)
  | .augAssign _ target op value =>
    match target.asName with
    | none => (.error .unsupported, st)
    | some name =>
      match lower st.env policy .value (desugared target op value) with
      | .error c => (.error c, st)
      | .ok value => assign st name value
  | .ifElse _ condition body orelse =>
    match lower st.env policy .condition condition with
    | .error c => (.error c, st)
    | .ok condition =>
      let (block, st) := lowerBlock st.push body
      match lowerElse st.pop orelse with
      | (.error c, st) => (.error c, st)
      | (.ok (branches, last), st) => (.ok [.ifElse ((condition, block) :: branches) last], st)
  | .whileLoop _ condition body _ =>
    match lower st.env policy .condition condition with
    | .error c => (.error c, st)
    | .ok condition =>
      let (block, st) := lowerBlock st.push body
      (.ok [.whileLoop condition block], st.pop)
  | .forLoop _ target iter body _ =>
    match loopHead policy st.env target iter with
    | .error c => (.error c, st)
    | .ok head =>
      match st.env.push.bind head.counter .integer with
      | (.conflict .., _) => (.error .typeNarrowing, st)
      | (.accepted, env) =>
        let (block, st) := lowerBlock { st with env } body
        (.ok [.forLoop head.counter head.start head.stop head.step block], st.pop)
  | .ret _ value => returnStmt policy st value
  | .brk _ => (.ok [.brk], st)
  | .cont _ => (.ok [.cont], st)
  | .pass _ => (.ok [], st)
  | .importNames .. => (.ok [], { st with env := st.env.mapGlobals .importMath })
  | .importFrom _ _ names =>
    (.ok [], { st with env := st.env.mapGlobals fun g => names.foldl Globals.importFunction g })
  | .functionDef .. | .docString .. | .comment .. | .other .. => (.error .unsupported, st)

/-- What stands for the statements of a block, in the scope at hand. -/
def lowerBlock (st : State) : List Stmt → Block × State
  | [] => ([], st)
  | s :: ss =>
    let (first, st) := settle policy false st s fun _ => lowerStmt st s
    let (rest, st) := lowerBlock st ss
    (first ++ rest, st)

/-- What stands for the statements behind an `if` and its body: further branches, for as long as
there is a single conditional whose condition has a counterpart, and the `else`. -/
def lowerElse (st : State) :
    List Stmt → Checked (List (Target.Expr × Block) × Option Block) × State
  | [] => (.ok ([], none), st)
  | s :: ss =>
    let plain := fun (_ : Unit) =>
      let (first, st) := settle policy false st.push s fun _ => lowerStmt st.push s
      let (rest, st) := lowerBlock st ss
      (.ok ([], some (first ++ rest)), st.pop)
    match s, ss with
    | .ifElse _ condition body orelse, [] =>
      if (Typing.checkCondition st.env policy condition).isOk then
        match lower st.env policy .condition condition with
        | .error c => (.error c, st)
        | .ok condition =>
          let (block, st) := lowerBlock st.push body
          match lowerElse st.pop orelse with
          | (.error c, st) => (.error c, st)
          | (.ok (branches, last), st) => (.ok ((condition, block) :: branches, last), st)
      else plain ()
    | _, _ => plain ()

end

/-- What stands for a statement: its counterpart, or a comment. -/
def emitStmt (moduleLevel : Bool) (st : State) (s : Stmt) : Block × State :=
  settle policy moduleLevel st s fun _ => lowerStmt policy st s

/-- What stands for the statements of a block, in a scope of its own. -/
def emitBlock (st : State) (body : List Stmt) : Block × State :=
  let (block, st) := lowerBlock policy st.push body
  (block, st.pop)

end

end StaticScript.Lowering
