import StaticScript.Category
import StaticScript.Decimal.Double
import StaticScript.StaticType

/-!
# Trees of C++ programs

Every expression carries its static type.  A program is a list of items in the order of the script
that they stand for: functions, and the statements that make up the body of `main`.
-/

namespace StaticScript.Target

/-- Operators between two operands. -/
inductive BinaryOp where
  | add | sub | mul | div | mod
  | shl | shr | bitAnd | bitOr | bitXor
  | eq | ne | lt | le | gt | ge
  | logicalAnd | logicalOr
deriving DecidableEq

/-- Operators on one operand. -/
inductive UnaryOp where
  | not | bitNot | plus | neg
deriving DecidableEq

/-- Expressions. -/
inductive Expr where
  | int (value : Int64) (type : StaticType)
  | float (value : Double) (type : StaticType)
  | bool (value : Bool) (type : StaticType)
  | string (value : String) (type : StaticType)
  | var (name : String) (type : StaticType)
  | binary (op : BinaryOp) (left right : Expr) (type : StaticType)
  | unary (op : UnaryOp) (operand : Expr) (type : StaticType)
  /-- A call of a free function. -/
  | call (function : String) (arguments : List Expr) (type : StaticType)
  /-- A conversion to the type `target`. -/
  | cast (operand : Expr) (target type : StaticType)

/-- Comments, which stand where statements may stand. -/
inductive Comment where
  /-- Documentation, line by line. -/
  | doc (lines : List String)
  /-- A comment of one line. -/
  | line (text : String)
  /-- The text of a construct that is left out, and why it is. -/
  | skipped (reason : Reason) (source : String)
deriving DecidableEq

/-- Statements. -/
inductive Stmt where
  | decl (name : String) (type : StaticType) (value : Expr)
  | assign (name : String) (value : Expr)
  | expr (value : Expr)
  /-- Writes the values in a line, with blanks between them. -/
  | print (values : List Expr)
  /-- An `if`, the `else if` that follow it, and the `else`. -/
  | ifElse (branches : List (Expr × List Stmt)) (orelse : Option (List Stmt))
  | whileLoop (condition : Expr) (body : List Stmt)
  /-- A loop that counts in an integer variable from `start` to before `stop`. -/
  | forLoop (counter : String) (start stop : Expr) (step : Int64) (body : List Stmt)
  | ret (value : Option Expr)
  | brk
  | cont
  | comment (comment : Comment)

/-- The type of a parameter: a static type, or the name of a type parameter. -/
inductive ParamType where
  | concrete (type : StaticType)
  | generic (name : String)
deriving DecidableEq

/-- A parameter of a function. -/
structure Param where
  name : String
  type : ParamType
  default : Option Expr

/-- A function. -/
structure Function where
  name : String
  returns : StaticType
  params : List Param
  body : List Stmt

/-- The standard headers that a program may need. -/
inductive Include where
  | iostream | string | cmath
deriving DecidableEq

/-- One part of a program. -/
inductive Item where
  | function (function : Function)
  /-- A statement of `main`. -/
  | stmt (stmt : Stmt)

/-- A program. -/
structure Program where
  includes : List Include
  items : List Item

namespace BinaryOp

/-- All operators. -/
def all : List BinaryOp :=
  [.add, .sub, .mul, .div, .mod, .shl, .shr, .bitAnd, .bitOr, .bitXor, .eq, .ne, .lt, .le, .gt,
   .ge, .logicalAnd, .logicalOr]

/-- The spelling of an operator. -/
def symbol : BinaryOp → String
  | .add => "+"
  | .sub => "-"
  | .mul => "*"
  | .div => "/"
  | .mod => "%"
  | .shl => "<<"
  | .shr => ">>"
  | .bitAnd => "&"
  | .bitOr => "|"
  | .bitXor => "^"
  | .eq => "=="
  | .ne => "!="
  | .lt => "<"
  | .le => "<="
  | .gt => ">"
  | .ge => ">="
  | .logicalAnd => "&&"
  | .logicalOr => "||"

end BinaryOp

namespace UnaryOp

/-- All operators. -/
def all : List UnaryOp := [.not, .bitNot, .plus, .neg]

/-- The spelling of an operator. -/
def symbol : UnaryOp → String
  | .not => "!"
  | .bitNot => "~"
  | .plus => "+"
  | .neg => "-"

end UnaryOp

namespace Expr

/-- The static type of an expression. -/
def type : Expr → StaticType
  | .int _ t | .float _ t | .bool _ t | .string _ t | .var _ t | .binary _ _ _ t | .unary _ _ t
  | .call _ _ t | .cast _ _ t => t

/-- An integer literal. -/
def ofInt (value : Int64) : Expr := .int value .integer

/-- A float literal. -/
def ofDouble (value : Double) : Expr := .float value .floating

/-- A truth value. -/
def ofBool (value : Bool) : Expr := .bool value .boolean

/-- A string literal. -/
def ofText (value : String) : Expr := .string value .string

/-- A conversion, whose type is the one converted to. -/
def castTo (target : StaticType) (operand : Expr) : Expr := .cast operand target target

/-- The expression is a string literal. -/
def isText : Expr → Bool
  | .string .. => true
  | _ => false

mutual

/-- The expression and all expressions below it, each before those below it. -/
def nodes (e : Expr) : List Expr :=
  e :: match e with
    | .int .. | .float .. | .bool .. | .string .. | .var .. => []
    | .binary _ left right _ => left.nodes ++ right.nodes
    | .unary _ operand _ | .cast operand _ _ => operand.nodes
    | .call _ arguments _ => nodesList arguments

/-- The nodes of expressions. -/
def nodesList : List Expr → List Expr
  | [] => []
  | e :: es => e.nodes ++ nodesList es

end

end Expr

namespace Stmt

mutual

/-- The statement and all statements nested in it. -/
def nested (s : Stmt) : List Stmt :=
  s :: match s with
    | .ifElse branches orelse => nestedBranches branches ++ nestedElse orelse
    | .whileLoop _ body | .forLoop _ _ _ _ body => nestedBlock body
    | _ => []

/-- The statements of a block and all statements nested in them. -/
def nestedBlock : List Stmt → List Stmt
  | [] => []
  | s :: ss => s.nested ++ nestedBlock ss

/-- The statements in the branches of a conditional. -/
def nestedBranches : List (Expr × List Stmt) → List Stmt
  | [] => []
  | (_, body) :: branches => nestedBlock body ++ nestedBranches branches

/-- The statements in the `else` of a conditional. -/
def nestedElse : Option (List Stmt) → List Stmt
  | none => []
  | some body => nestedBlock body

end

mutual

/-- The nodes of all expressions in the statement and in those nested in it, in the order of the
text. -/
def exprNodes : Stmt → List Expr
  | .decl _ _ e | .assign _ e | .expr e | .ret (some e) => e.nodes
  | .print es => Expr.nodesList es
  | .ifElse branches orelse => exprNodesBranches branches ++ exprNodesElse orelse
  | .whileLoop condition body => condition.nodes ++ exprNodesBlock body
  | .forLoop _ start stop _ body => start.nodes ++ stop.nodes ++ exprNodesBlock body
  | .ret none | .brk | .cont | .comment _ => []

/-- The nodes of all expressions in a block. -/
def exprNodesBlock : List Stmt → List Expr
  | [] => []
  | s :: ss => s.exprNodes ++ exprNodesBlock ss

/-- The nodes of all expressions in the branches of a conditional. -/
def exprNodesBranches : List (Expr × List Stmt) → List Expr
  | [] => []
  | (condition, body) :: branches =>
    condition.nodes ++ exprNodesBlock body ++ exprNodesBranches branches

/-- The nodes of all expressions in the `else` of a conditional. -/
def exprNodesElse : Option (List Stmt) → List Expr
  | none => []
  | some body => exprNodesBlock body

end

end Stmt

namespace ParamType

/-- The type that a parameter has inside the function. -/
def static : ParamType → StaticType
  | .concrete t => t
  | .generic _ => .unresolved

end ParamType

namespace Function

/-- The names of the type parameters of a function, in order. -/
def typeParams (f : Function) : List String :=
  f.params.filterMap fun p => match p.type with
    | .generic name => some name
    | .concrete _ => none

end Function

namespace Include

/-- All headers, in the order in which they are listed. -/
def all : List Include := [.iostream, .string, .cmath]

/-- The name of a header. -/
def header : Include → String
  | .iostream => "iostream"
  | .string => "string"
  | .cmath => "cmath"

end Include

namespace Program

/-- The functions of a program. -/
def functions (p : Program) : List Function :=
  p.items.filterMap fun
    | .function f => some f
    | .stmt _ => none

/-- The statements of `main`. -/
def mainBody (p : Program) : List Stmt :=
  p.items.filterMap fun
    | .stmt s => some s
    | .function _ => none

end Program

end StaticScript.Target
