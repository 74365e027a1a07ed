import StaticScript.Text.Blank

/-!
# Static types

The types that are derived for expressions and bound to names.  A script carries no types of its
own apart from type hints, so `unresolved` stands for a type that could not be determined.

* `StaticType.promote` is the type of arithmetic on two operands.
* `StaticType.assignable` says which values a variable of a type takes without loss: those of its
  own type, and integers for a floating-point variable.
-/

namespace StaticScript

/-- The types of expressions and names. -/
inductive StaticType where
  | integer
  | floating
  | boolean
  | string
  | void
  | unresolved
deriving DecidableEq

namespace StaticType

/-- All types. -/
def all : List StaticType := [.integer, .floating, .boolean, .string, .void, .unresolved]

/-- The name of a type. -/
def name : StaticType → String
  | .integer => "Integer"
  | .floating => "FloatingPoint"
  | .boolean => "Boolean"
  | .string => "String"
  | .void => "Void"
  | .unresolved => "Unresolved"

/-- The spelling of a type in C++. -/
def cppName : StaticType → String
  | .integer => "int"
  | .floating => "double"
  | .boolean => "bool"
  | .string => "std::string"
  | .void => "void"
  | .unresolved => "auto"

/-- The type that a type hint names; blanks around it do not matter. -/
def ofHint (hint : String) : StaticType :=
  match String.ofList (Text.trim hint.toList) with
  | "int" => .integer
  | "float" => .floating
  | "bool" => .boolean
  | "str" => .string
  | "None" => .void
  | _ => .unresolved

/-- Arithmetic applies to the type. -/
def isNumeric : StaticType → Bool
  | .integer | .floating | .boolean => true
  | _ => false

/-- The values of the type are whole numbers. -/
def isIntegral : StaticType → Bool
  | .integer | .boolean => true
  | _ => false

/-- The type is known. -/
def isDeterminate : StaticType → Bool
  | .unresolved => false
  | _ => true

/-- Arithmetic applies to the type, or may apply for all that is known. -/
def isArithmetic (t : StaticType) : Bool := t.isNumeric || t == .unresolved

/-- The type of arithmetic on two operands, if they can be combined. -/
def promote : StaticType → StaticType → Option StaticType
  | .void, _ | _, .void => none
  | .unresolved, _ | _, .unresolved => some .unresolved
  | .string, .string => some .string
  | .string, _ | _, .string => none
  | .floating, _ | _, .floating => some .floating
  | _, _ => some .integer

/-- A value of the first type becomes one of the second, another, type without loss. -/
def widensTo : StaticType → StaticType → Bool
  | .integer, .floating => true
  | _, _ => false

/-- A variable of type `slot` takes a value of type `t`. -/
def assignable (t slot : StaticType) : Bool := t == slot || t.widensTo slot

end StaticType

end StaticScript
