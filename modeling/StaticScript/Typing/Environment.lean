import StaticScript.Source.Tree
import StaticScript.Target.Tree

/-!
# Environments

What is known where an expression or statement stands: the types of the names in scope, the
functions of the program, and what has been imported.

Scopes are frames of names, the innermost first.  A name is looked up from the innermost frame
outward and bound in the innermost frame.  The outermost frame is never left.
-/

namespace StaticScript

/-- A parameter of a function that calls may use. -/
structure SignatureParam where
  name : String
  type : Target.ParamType
  default : Option Target.Expr

/-- A function that calls may use. -/
structure Signature where
  name : String
  /-- The number of the definition that the signature is of. -/
  id : Source.NodeId
  params : List SignatureParam
  returns : StaticType
  /-- The return type is annotated, not inferred. -/
  annotated : Bool

/-- What all scopes of a program share. -/
structure Globals where
  functions : List Signature
  /-- The mathematical module as a whole is imported. -/
  mathModule : Bool
  /-- The mathematical functions that are imported by name. -/
  mathFunctions : List String

/-- The names of one scope with their types. -/
abbrev Frame := List (String × StaticType)

/-- An environment. -/
structure Environment where
  innermost : Frame
  /-- The scopes around the innermost one, from the inside out. -/
  outer : List Frame
  globals : Globals

/-- The result of binding a name. -/
inductive Binding where
  | accepted
  /-- The name is bound to another type in the same scope. -/
  | conflict (previous new : StaticType)
deriving DecidableEq

namespace Globals

/-- Nothing is known. -/
def empty : Globals := ⟨[], false, []⟩

/-- The function of a name. -/
def function? (g : Globals) (name : String) : Option Signature :=
  g.functions.find? fun s => s.name == name

/-- Declares a function, in place of one of the same name. -/
def declare (g : Globals) (s : Signature) : Globals :=
  { g with functions := s :: g.functions.filter fun t => t.name != s.name }

/-- Imports the mathematical module as a whole. -/
def importMath (g : Globals) : Globals := { g with mathModule := true }

/-- Imports a mathematical function by name. -/
def importFunction (g : Globals) (name : String) : Globals :=
  if name ∈ g.mathFunctions then g else { g with mathFunctions := name :: g.mathFunctions }

/-- Changes the return type of a function. -/
def setReturns (g : Globals) (name : String) (type : StaticType) : Globals :=
  { g with functions := g.functions.map fun s =>
      if s.name = name then { s with returns := type } else s }

end Globals

namespace Environment

/-- The environment with one scope, in which no name is bound. -/
def ofGlobals (globals : Globals) : Environment := ⟨[], [], globals⟩

/-- The environment in which nothing is known. -/
def empty : Environment := ofGlobals .empty

/-- All frames, from the inside out. -/
def frames (env : Environment) : List Frame := env.innermost :: env.outer

/-- The number of scopes around the innermost one. -/
def depth (env : Environment) : Nat := env.outer.length

/-- Enters a scope. -/
def push (env : Environment) : Environment :=
  { env with innermost := [], outer := env.innermost :: env.outer }

/-- Leaves the innermost scope, unless it is the outermost one. -/
def pop (env : Environment) : Environment :=
  match env.outer with
  | [] => env
  | f :: fs => { env with innermost := f, outer := fs }

/-- The type of a name in the innermost scope that binds it. -/
def lookup (env : Environment) (name : String) : Option StaticType :=
  env.frames.findSome? fun f => f.lookup name

/-- The type of a name; a name that is not bound has none. -/
def resolve (env : Environment) (name : String) : StaticType :=
  (env.lookup name).getD .unresolved

/-- The innermost scope binds the name. -/
def isLocal (env : Environment) (name : String) : Bool := (env.innermost.lookup name).isSome

/-- Binds a name in the innermost scope.  A name that is bound there keeps its type. -/
def bind (env : Environment) (name : String) (type : StaticType) : Binding × Environment :=
  match env.innermost.lookup name with
  | none => (.accepted, { env with innermost := (name, type) :: env.innermost })
  | some previous => (if previous = type then .accepted else .conflict previous type, env)

/-- The function of a name. -/
def function? (env : Environment) (name : String) : Option Signature :=
  env.globals.function? name

/-- Changes what all scopes share. -/
def mapGlobals (env : Environment) (f : Globals → Globals) : Environment :=
  { env with globals := f env.globals }

end Environment

end StaticScript
