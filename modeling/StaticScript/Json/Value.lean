import StaticScript.Decimal.Double

/-!
# JSON values

A value keeps what the text of a document distinguishes: the order of the fields of an object and
repeated names, and whether a number is written as an integer.  The grammar admits literals that
stand for nothing: a string literal may spell half of a surrogate pair, although no text contains
it, and a number may be too large for a double.  The former has the content `none` and the latter
the value `none`, and neither matters where it is not looked at.
-/

namespace StaticScript

namespace Json

/-- A number: an integer, or a double for what is written with a point or an exponent. -/
inductive Number where
  | integer (negative : Bool) (magnitude : Nat)
  | decimal (value : Option Double)
deriving DecidableEq

/-- The content of a string literal, if it is a text. -/
abbrev Content := Option String

end Json

/-- A JSON value. -/
inductive Json where
  | null
  | bool (value : Bool)
  | number (value : Json.Number)
  | string (content : Json.Content)
  | array (items : List Json)
  | object (fields : List (Json.Content × Json))

instance : Inhabited Json := ⟨.null⟩

namespace Json

namespace Number

/-- The number as an integer.  A fraction or an exponent makes it none, even where the value is
whole, and so does a sign before zero. -/
def toInt? : Number → Option Int
  | .integer false n => some n
  | .integer true 0 => none
  | .integer true n => some (-n)
  | .decimal .. => none

/-- The number as a double, the nearest one to an integer, unless it is too large. -/
def toDouble? : Number → Option Double
  | .integer negative n => Double.ofDecimal? negative n 0
  | .decimal value => value

/-- An integer as a number. -/
def ofInt (n : Int) : Number := .integer (decide (n < 0)) n.natAbs

/-- A double as a number. -/
def ofDouble (x : Double) : Number := .decimal (some x)

end Number

/-- A string value. -/
def ofText (s : String) : Json := .string (some s)

/-- An integer value. -/
def ofInt (n : Int) : Json := .number (Number.ofInt n)

/-- A natural number as a value. -/
def ofNat (n : Nat) : Json := ofInt n

/-- An object with the given fields. -/
def ofFields (fields : List (String × Json)) : Json :=
  .object (fields.map fun (name, value) => (some name, value))

/-- A value that may be missing; `null` stands for the missing one. -/
def ofOption {α : Type} (encode : α → Json) : Option α → Json
  | none => .null
  | some a => encode a

/-- A list of values. -/
def ofList {α : Type} (encode : α → Json) (xs : List α) : Json := .array (xs.map encode)

/-- The value is `null`. -/
def isNull : Json → Bool
  | .null => true
  | _ => false

/-- The text of a string value. -/
def toText? : Json → Option String
  | .string content => content
  | _ => none

/-- The integer of a number value. -/
def toInt? : Json → Option Int
  | .number n => n.toInt?
  | _ => none

/-- The double of a number value. -/
def toDouble? : Json → Option Double
  | .number n => n.toDouble?
  | _ => none

/-- The truth value of a boolean. -/
def toBool? : Json → Option Bool
  | .bool b => some b
  | _ => none

/-- The items of an array. -/
def toItems? : Json → Option (List Json)
  | .array items => some items
  | _ => none

/-- The value of the first field of a given name. -/
def field? (name : String) : Json → Option Json
  | .object fields => (fields.find? fun f => f.1 == some name).map Prod.snd
  | _ => none

end Json

end StaticScript
