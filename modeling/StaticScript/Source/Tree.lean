import StaticScript.Decimal.Double
import StaticScript.Source.Location
import StaticScript.Source.Operator

/-!
# Syntax trees of scripts

A script is a list of statements.  Every expression and statement has a `Site`: its number, its
place in the script and the text that it was written as.  Constructs that are recognised but not
modelled are kept by name (`Expr.other`, `Stmt.other`).
-/

namespace StaticScript.Source

/-- The number of a node. -/
abbrev NodeId := UInt32

/-- Where a node stands: its number, its place and its text. -/
structure Site where
  id : NodeId
  span : Span
  text : String
deriving DecidableEq

/-- Expressions. -/
inductive Expr where
  | int (site : Site) (value : Int64)
  | float (site : Site) (value : Double)
  | bool (site : Site) (value : Bool)
  | str (site : Site) (value : String)
  | none (site : Site)
  | name (site : Site) (id : String)
  | binary (site : Site) (op : BinaryOp) (left right : Expr)
  | boolOp (site : Site) (op : BoolOp) (values : List Expr)
  | unary (site : Site) (op : UnaryOp) (operand : Expr)
  /-- `left op₀ c₀ op₁ c₁ …` -/
  | compare (site : Site) (left : Expr) (ops : List CompareOp) (comparators : List Expr)
  | call (site : Site) (function : Expr) (arguments : List Expr) (keywords : List (String × Expr))
  | attr (site : Site) (object : Expr) (name : String)
  | list (site : Site) (items : List Expr)
  | tuple (site : Site) (items : List Expr)
  | set (site : Site) (items : List Expr)
  | dict (site : Site) (keys values : List Expr)
  /-- `target := value` -/
  | named (site : Site) (target value : Expr)
  /-- A construct that is not modelled. -/
  | other (site : Site) (construct : String)

/-- An argument `name=value` of a call. -/
abbrev Keyword := String × Expr

/-- How a parameter takes its arguments. -/
inductive ParameterKind where
  | positional
  /-- `*args` -/
  | varArgs
  /-- `**kwargs` -/
  | kwArgs
deriving DecidableEq

/-- A parameter of a function. -/
structure Parameter where
  name : String
  hint : Option String
  default : Option Expr
  kind : ParameterKind

/-- Statements. -/
inductive Stmt where
  | expr (site : Site) (value : Expr)
  /-- `t₀ = t₁ = … = value` -/
  | assign (site : Site) (targets : List Expr) (value : Expr)
  /-- `target op= value` -/
  | augAssign (site : Site) (target : Expr) (op : BinaryOp) (value : Expr)
  /-- An `elif` is an `orelse` that holds one conditional and nothing else. -/
  | ifElse (site : Site) (condition : Expr) (body orelse : List Stmt)
  | whileLoop (site : Site) (condition : Expr) (body orelse : List Stmt)
  | forLoop (site : Site) (target iter : Expr) (body orelse : List Stmt)
  | functionDef (site : Site) (name : String) (parameters : List Parameter)
      (returns : Option String) (decorators : List Expr) (body : List Stmt)
  | ret (site : Site) (value : Option Expr)
  | brk (site : Site)
  | cont (site : Site)
  | pass (site : Site)
  | importNames (site : Site) (names : List String)
  | importFrom (site : Site) (package : String) (names : List String)
  | docString (site : Site) (content : String)
  | comment (site : Site) (content : String)
  /-- A construct that is not modelled. -/
  | other (site : Site) (construct : String)

/-- A whole script. -/
structure Module where
  id : NodeId
  file : String
  body : List Stmt
  span : Span

/-- Where an expression stands. -/
def Expr.site : Expr → Site
  | .int s _ | .float s _ | .bool s _ | .str s _ | .none s | .name s _ | .binary s _ _ _
  | .boolOp s _ _ | .unary s _ _ | .compare s _ _ _ | .call s _ _ _ | .attr s _ _
  | .list s _ | .tuple s _ | .set s _ | .dict s _ _ | .named s _ _ | .other s _ => s

/-- Where a statement stands. -/
def Stmt.site : Stmt → Site
  | .expr s _ | .assign s _ _ | .augAssign s _ _ _ | .ifElse s _ _ _ | .whileLoop s _ _ _
  | .forLoop s _ _ _ _ | .functionDef s _ _ _ _ _ | .ret s _ | .brk s | .cont s | .pass s
  | .importNames s _ | .importFrom s _ _ | .docString s _ | .comment s _ | .other s _ => s

end StaticScript.Source
