/-!
# Operators of scripts

Every operator has a tag, by which documents name it, and a spelling, which it has in a script.
-/

namespace StaticScript.Source

/-- Arithmetic and bitwise operators. -/
inductive BinaryOp where
  | add | sub | mult | div | floorDiv | mod | pow
  | leftShift | rightShift | bitOr | bitAnd | bitXor
  | matMult
deriving DecidableEq

/-- Operators that evaluate only as many operands as decide the result. -/
inductive BoolOp where
  | and | or
deriving DecidableEq

/-- Operators on one operand. -/
inductive UnaryOp where
  | not | invert | plus | minus
deriving DecidableEq

/-- Comparisons, which may be chained. -/
inductive CompareOp where
  | eq | notEq | lt | ltE | gt | gtE
  | is | isNot | isIn | notIn
deriving DecidableEq

namespace BinaryOp

/-- All operators. -/
def all : List BinaryOp :=
  [.add, .sub, .mult, .div, .floorDiv, .mod, .pow, .leftShift, .rightShift, .bitOr, .bitAnd,
   .bitXor, .matMult]

/-- The name in documents. -/
def tag : BinaryOp → String
  | .add => "Add"
  | .sub => "Sub"
  | .mult => "Mult"
  | .div => "Div"
  | .floorDiv => "FloorDiv"
  | .mod => "Mod"
  | .pow => "Pow"
  | .leftShift => "LShift"
  | .rightShift => "RShift"
  | .bitOr => "BitOr"
  | .bitAnd => "BitAnd"
  | .bitXor => "BitXor"
  | .matMult => "MatMult"

/-- The spelling in scripts. -/
def symbol : BinaryOp → String
  | .add => "+"
  | .sub => "-"
  | .mult => "*"
  | .div => "/"
  | .floorDiv => "//"
  | .mod => "%"
  | .pow => "**"
  | .leftShift => "<<"
  | .rightShift => ">>"
  | .bitOr => "|"
  | .bitAnd => "&"
  | .bitXor => "^"
  | .matMult => "@"

/-- The operator works on the bits of whole numbers. -/
def isBitwise : BinaryOp → Bool
  | .leftShift | .rightShift | .bitOr | .bitAnd | .bitXor => true
  | _ => false

end BinaryOp

namespace BoolOp

/-- All operators. -/
def all : List BoolOp := [.and, .or]

/-- The name in documents. -/
def tag : BoolOp → String
  | .and => "And"
  | .or => "Or"

/-- The spelling in scripts. -/
def symbol : BoolOp → String
  | .and => "and"
  | .or => "or"

end BoolOp

namespace UnaryOp

/-- All operators. -/
def all : List UnaryOp := [.not, .invert, .plus, .minus]

/-- The name in documents. -/
def tag : UnaryOp → String
  | .not => "Not"
  | .invert => "Invert"
  | .plus => "UAdd"
  | .minus => "USub"

/-- The spelling in scripts, right before the operand. -/
def symbol : UnaryOp → String
  | .not => "not "
  | .invert => "~"
  | .plus => "+"
  | .minus => "-"

end UnaryOp

namespace CompareOp

/-- All operators. -/
def all : List CompareOp :=
  [.eq, .notEq, .lt, .ltE, .gt, .gtE, .is, .isNot, .isIn, .notIn]

/-- The name in documents. -/
def tag : CompareOp → String
  | .eq => "Eq"
  | .notEq => "NotEq"
  | .lt => "Lt"
  | .ltE => "LtE"
  | .gt => "Gt"
  | .gtE => "GtE"
  | .is => "Is"
  | .isNot => "IsNot"
  | .isIn => "In"
  | .notIn => "NotIn"

/-- The spelling in scripts. -/
def symbol : CompareOp → String
  | .eq => "=="
  | .notEq => "!="
  | .lt => "<"
  | .ltE => "<="
  | .gt => ">"
  | .gtE => ">="
  | .is => "is"
  | .isNot => "is not"
  | .isIn => "in"
  | .notIn => "not in"

/-- The operator asks for identity or membership and not for a relation of values. -/
def isIdentityOrMembership : CompareOp → Bool
  | .is | .isNot | .isIn | .notIn => true
  | _ => false

end CompareOp

end StaticScript.Source
