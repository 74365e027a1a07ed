import StaticScript.Decimal.Shortest
import StaticScript.Json.Value

/-!
# Writing JSON text

Two forms of the same document: `Json.compact` has no blanks, and `Json.pretty` puts every item
and field on a line of its own, two blanks deeper than what holds it.
-/

namespace StaticScript.Json

/-- One character of a string literal. -/
def writeChar (c : Char) : List Char :=
  match c with
  | '"' => ['\\', '"']
  | '\\' => ['\\', '\\']
  | '\x08' => ['\\', 'b']
  | '\x0c' => ['\\', 'f']
  | '\n' => ['\\', 'n']
  | '\r' => ['\\', 'r']
  | '\t' => ['\\', 't']
  | c =>
    if c.toNat < 0x10 then ['\\', 'u', '0', '0', '0', Nat.digitChar c.toNat]
    else if c.toNat < 0x20 then ['\\', 'u', '0', '0', '1', Nat.digitChar (c.toNat - 0x10)]
    else [c]

/-- A string literal.  Content that is no text is written as half a surrogate pair. -/
def writeContent : Content → String
  | some s => String.ofList ('"' :: s.toList.flatMap writeChar ++ ['"'])
  | none => "\"\\ud800\""

/-- A number.  One that is too large for a double is written as such a number. -/
def writeNumber : Number → String
  | .integer negative n => (if negative then "-" else "") ++ toString n
  | .decimal (some x) => x.text
  | .decimal none => "1e309"

mutual

/-- The document without blanks. -/
def compact : Json → String
  | .null => "null"
  | .bool value => if value then "true" else "false"
  | .number value => writeNumber value
  | .string content => writeContent content
  | .array items => "[" ++ ",".intercalate (compactItems items) ++ "]"
  | .object fields => "\x7b" ++ ",".intercalate (compactFields fields) ++ "\x7d"

/-- The items of an array without blanks. -/
def compactItems : List Json → List String
  | [] => []
  | item :: items => compact item :: compactItems items

/-- The fields of an object without blanks. -/
def compactFields : List (Content × Json) → List String
  | [] => []
  | (name, value) :: fields =>
    (writeContent name ++ ":" ++ compact value) :: compactFields fields

end

/-- The start of a line inside `depth` arrays and objects. -/
def newline (depth : Nat) : String := "\n" ++ String.ofList (List.replicate (2 * depth) ' ')

/-- Puts `parts` on lines of their own between two brackets; without parts the brackets touch. -/
def bracket (left right : String) (depth : Nat) (parts : List String) : String :=
  if parts.isEmpty then left ++ right
  else left ++ newline (depth + 1) ++ ("," ++ newline (depth + 1)).intercalate parts ++
    newline depth ++ right

mutual

/-- The document with a line for every item and field, inside `depth` arrays and objects. -/
def prettyAt (depth : Nat) : Json → String
  | .null => "null"
  | .bool value => if value then "true" else "false"
  | .number value => writeNumber value
  | .string content => writeContent content
  | .array items => bracket "[" "]" depth (prettyItems depth items)
  | .object fields => bracket "\x7b" "\x7d" depth (prettyFields depth fields)

/-- The items of an array at `depth`. -/
def prettyItems (depth : Nat) : List Json → List String
  | [] => []
  | item :: items => prettyAt (depth + 1) item :: prettyItems depth items

/-- The fields of an object at `depth`. -/
def prettyFields (depth : Nat) : List (Content × Json) → List String
  | [] => []
  | (name, value) :: fields =>
    (writeContent name ++ ": " ++ prettyAt (depth + 1) value) :: prettyFields depth fields

end

/-- The document with a line for every item and field. -/
def pretty (j : Json) : String := prettyAt 0 j

end StaticScript.Json
