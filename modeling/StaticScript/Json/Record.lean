import StaticScript.Json.Value

/-!
# Records and variants in JSON

How values of a record or of a type with alternatives are found in a document.

* A record is an object, whose unknown fields are ignored and whose known fields stand at most
  once, or an array of the fields in their order.
* An alternative is an object with one field, whose name is the tag of the alternative, or just
  the tag if the alternative has no content.

Arrays and objects that are looked into may be nested only so deep.  Every reader takes the number
of levels that may still be opened, and gives the readers of what it holds one less; ignored
fields are not looked into, so their nesting is free.
-/

namespace StaticScript.Json

/-- The number of levels that may be open at once. -/
def maxDepth : Nat := 127

/-- The values of one field. -/
def fieldValues (name : String) (fields : List (Content × Json)) : List Json :=
  fields.filterMap fun f => if f.1 = some name then some f.2 else none

/-- The values given for the fields `names` of a record, in this order. -/
def record? (names : List String) : Json → Option (List (Option Json))
  | .object fields =>
    if fields.all (fun f => f.1.isSome) && names.all (fun n => (fieldValues n fields).length ≤ 1)
    then some (names.map fun n => (fieldValues n fields).head?)
    else none
  | .array items =>
    if items.length ≤ names.length then some ((List.range names.length).map fun i => items[i]?)
    else none
  | _ => none

/-- The items of an array that may still be opened. -/
def itemsWithin? : Nat → Json → Option (List Json)
  | _ + 1, .array items => some items
  | _, _ => none

/-- The texts of an array of strings. -/
def textsWithin? (depth : Nat) (j : Json) : Option (List String) := do
  (← itemsWithin? depth j).mapM toText?

/-- The tag of an alternative without content. -/
def tagWithin? : Nat → Json → Option String
  | _, .string content => content
  | _ + 1, .object [(some tag, .null)] => some tag
  | _, _ => none

/-- A field that may be missing, with the value that stands for it then. -/
def getOr {α : Type} (default : α) (read? : Json → Option α) : Option Json → Option α
  | none => some default
  | some j => read? j

/-- A field that may be missing or `null`. -/
def getOption {α : Type} (read? : Json → Option α) : Option Json → Option (Option α)
  | none => some none
  | some .null => some none
  | some j => (read? j).map some

/-- An unsigned integer of 32 bits. -/
def toUInt32? (j : Json) : Option UInt32 := do
  let n ← j.toInt?
  if 0 ≤ n ∧ n < UInt32.size then some (UInt32.ofNat n.toNat) else none

/-- A signed integer of 64 bits. -/
def toInt64? (j : Json) : Option Int64 := do
  let n ← j.toInt?
  if Int64.minValue.toInt ≤ n ∧ n ≤ Int64.maxValue.toInt then some (Int64.ofInt n) else none

end StaticScript.Json
