import StaticScript.Lowering.Statement

/-!
# Lowering a script

The functions of a script are known before any of its statements is lowered, so that a call may
come before the definition.  The return types without a hint are found by lowering the bodies
again and again until no type changes; there are at most as many rounds as functions, and one more.

`emit` then goes through the script in order.  Imports reach the bodies of all functions, but the
statements of `main` only from where they stand.
-/

namespace StaticScript.Lowering

open Source (Stmt)

/-- A program and the constructs of the script that were left out. -/
structure Output where
  program : Target.Program
  records : List SkipRecord

section

variable (policy : Policy)

/-! ### Functions and imports -/

/-- Notes an import that has a counterpart. -/
def noteImport (env : Environment) (s : Stmt) : Environment :=
  match s with
  | .importNames .. | .importFrom .. =>
    if Typing.classify env policy false none s = .direct then
      (lowerStmt policy ⟨env, none, []⟩ s).2.env
    else env
  | _ => env

/-- Notes a function definition: the first of its name whose header has a counterpart. -/
def noteFunction (globals : Globals) (s : Stmt) : Globals :=
  match s with
  | .functionDef _ name .. =>
    match globals.function? name, Typing.signature policy s with
    | none, .ok found => globals.declare found
    | _, _ => globals
  | _ => globals

/-- The imports and functions of a script. -/
def hoist (body : List Stmt) : Globals :=
  body.foldl (noteFunction policy) (body.foldl (noteImport policy) .empty).globals

/-- The signature and the body of a statement that defines the declared function of its name. -/
def declared? (globals : Globals) : Stmt → Option (Signature × List Stmt)
  | .functionDef site name _ _ _ body =>
    match globals.function? name with
    | some s => if s.id = site.id then some (s, body) else none
    | none => none
  | _ => none

/-! ### Bodies of functions -/

/-- The environment at the start of a function; a parameter name that is repeated keeps the type
of its first parameter. -/
def functionEnv (globals : Globals) (s : Signature) : Environment :=
  s.params.foldl (fun env p => (env.bind p.name p.type.static).2) (.ofGlobals globals)

/-- What is known of the return type at the start of a function. -/
def returnSlot (s : Signature) : Typing.ReturnSlot :=
  if s.annotated then .ofDeclared s.returns else .empty

/-- The parameters of the C++ function. -/
def functionParams (s : Signature) : List Target.Param :=
  s.params.map fun p =>
    ⟨p.name, p.type, match policy.defaults with | .keep => p.default | .skip => none⟩

/-- The C++ function that stands for a function of the script; the constructs left out in it are
added to `records`. -/
def emitFunction (globals : Globals) (records : List SkipRecord) (s : Signature)
    (body : List Stmt) : Target.Function × List SkipRecord :=
  let start : State := ⟨functionEnv globals s, some (returnSlot s), records⟩
  let (block, stop) := lowerBlock policy start body
  let returns := stop.returns.elim .void (·.type)
  (⟨s.name, returns, functionParams policy s, block⟩, stop.records)

/-! ### Return types -/

/-- Finds the return type of one function anew, and says whether it changed. -/
def inferOne (state : Globals × Bool) (s : Stmt) : Globals × Bool :=
  let (globals, changed) := state
  match declared? globals s with
  | none => (globals, changed)
  | some (found, body) =>
    let returns := (emitFunction policy globals [] found body).1.returns
    if found.returns = returns then (globals, changed)
    else (globals.setReturns found.name returns, true)

/-- Finds the return types of the functions `pending` anew, until none changes or `rounds` are
over. -/
def inferRounds (pending : List Stmt) : Nat → Globals → Globals
  | 0, globals => globals
  | rounds + 1, globals =>
    match pending.foldl (inferOne policy) (globals, false) with
    | (globals, true) => inferRounds pending rounds globals
    | (globals, false) => globals

/-- The definition of a function whose return type is to be found. -/
def isPending (globals : Globals) (s : Stmt) : Bool :=
  (declared? globals s).any fun (found, _) => !found.annotated

/-- Finds the return types that are not annotated. -/
def inferReturns (body : List Stmt) (globals : Globals) : Globals :=
  let pending := body.filter (isPending globals)
  inferRounds policy pending (pending.length + 1) globals

/-- The functions and imports of a script, with all return types. -/
def programGlobals (body : List Stmt) : Globals := inferReturns policy body (hoist policy body)

/-! ### Items -/

/-- What stands for a statement of the script: a function, or statements of `main`. -/
def emitItem (globals : Globals) (st : State) (s : Stmt) : List Target.Item × State :=
  match declared? globals s with
  | some (found, body) =>
    let (function, records) := emitFunction policy globals st.records found body
    ([.function function], { st with records })
  | none =>
    let (block, st) := emitStmt policy true st s
    (block.map .stmt, st)

/-- What stands for the statements of the script. -/
def emitItems (globals : Globals) (st : State) : List Stmt → List Target.Item × State
  | [] => ([], st)
  | s :: ss =>
    let (first, st) := emitItem policy globals st s
    let (rest, st) := emitItems globals st ss
    (first ++ rest, st)

end

/-! ### Headers -/

/-- The header that an expression needs by its type. -/
def typeNeeds (i : Target.Include) (t : StaticType) : Bool :=
  i == .string && t == .string

/-- An expression needs a header, for its type or for what it calls. -/
def exprNeeds (i : Target.Include) (e : Target.Expr) : Bool :=
  typeNeeds i e.type || match e with
    | .call function _ _ =>
      if function = "std::to_string" ∨ function = "std::string" then i == .string
      else i == .cmath && "std::".isPrefixOf function
    | _ => false

/-- A statement itself needs a header. -/
def stmtNeeds (i : Target.Include) : Target.Stmt → Bool
  | .print _ => i == .iostream
  | .decl _ t _ => typeNeeds i t
  | _ => false

/-- A statement, or one in it, needs a header. -/
def stmtTreeNeeds (i : Target.Include) (s : Target.Stmt) : Bool :=
  s.nested.any (stmtNeeds i) || s.exprNodes.any (exprNeeds i)

/-- The head of a function needs a header. -/
def headNeeds (i : Target.Include) (f : Target.Function) : Bool :=
  typeNeeds i f.returns || f.params.any fun p => match p.type with
    | .concrete t => typeNeeds i t
    | .generic _ => false

/-- An item needs a header. -/
def itemNeeds (i : Target.Include) : Target.Item → Bool
  | .function f => headNeeds i f || f.body.any (stmtTreeNeeds i)
  | .stmt s => stmtTreeNeeds i s

/-- The headers that items need. -/
def includes (items : List Target.Item) : List Target.Include :=
  Target.Include.all.filter fun i => items.any (itemNeeds i)

/-! ### Scripts -/

/-- The program that stands for a script. -/
def emit (policy : Policy) (m : Source.Module) : Output :=
  let globals := programGlobals policy m.body
  let start : State := ⟨.ofGlobals { Globals.empty with functions := globals.functions }, none, []⟩
  let (items, stop) := emitItems policy globals start m.body
  ⟨⟨includes items, items⟩, stop.records⟩

end StaticScript.Lowering
