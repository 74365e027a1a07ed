import StaticScript.Category
import StaticScript.StaticType

/-!
# What a function returns

A function has a declared return type, or its return type is found from what it returns: the first
value sets it, and a later floating-point value widens an integer.
-/

namespace StaticScript.Typing

/-- The return type of a function as far as it is known. -/
structure ReturnSlot where
  declared : Option StaticType
  /-- The type that fits all that was returned so far. -/
  observed : Option StaticType
deriving DecidableEq

namespace ReturnSlot

/-- Nothing is known. -/
def empty : ReturnSlot := ⟨none, none⟩

/-- The return type is declared. -/
def ofDeclared (t : StaticType) : ReturnSlot := ⟨some t, none⟩

/-- The return type once a value of type `t` is returned too, if one type fits all. -/
def accept (slot : ReturnSlot) (t : StaticType) : Option StaticType :=
  match slot.declared, slot.observed with
  | some declared, _ => if t.assignable declared then some declared else none
  | none, none => some t
  | none, some observed =>
    if t.assignable observed then some observed
    else if observed.widensTo t then some t
    else none

/-- Notes that a value of type `t` is returned, if that is possible. -/
def record (slot : ReturnSlot) (t : StaticType) : ReturnSlot :=
  match slot.accept t with
  | some accepted => { slot with observed := some accepted }
  | none => slot

/-- The return type; a function that returns nothing is `void`. -/
def type (slot : ReturnSlot) : StaticType := (slot.declared.or slot.observed).getD .void

end ReturnSlot

end StaticScript.Typing
