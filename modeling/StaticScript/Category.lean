/-!
# Categories of constructs

A construct either has a direct counterpart in C++ or falls into a category that says why it has
none.  The categories are ordered: when several parts of a construct fail, the category that comes
first in the order is the one of the construct (`Category.mostSevere`).
-/

namespace StaticScript

/-- Why a construct has, or has not, a counterpart; in order of precedence. -/
inductive Category where
  /-- There is a direct counterpart. -/
  | direct
  /-- A value is computed and dropped. -/
  | valueUnused
  /-- A value does not fit the type that awaits it. -/
  | typeNarrowing
  /-- An assignment has several targets or stands inside an expression. -/
  | chainedAssignment
  /-- A collection has elements of several types or of an unknown type. -/
  | dynamicCollection
  /-- A call has a callee that is not in scope. -/
  | outOfScopeCall
  /-- A call does not fit its callee, or what is called is no function. -/
  | invalidMethodCall
  /-- The construct is documentation. -/
  | docOnly
  /-- There is no counterpart for any other reason. -/
  | unsupported
deriving DecidableEq

/-- What is said about a construct that is left out. -/
inductive Reason where
  | valueUnused
  | typeNarrowing
  | chainedAssignment
  | notDirectlyTranslatable
  | callNotInScope
  | invalidCall
deriving DecidableEq

namespace Category

/-- All categories, in order. -/
def all : List Category :=
  [.direct, .valueUnused, .typeNarrowing, .chainedAssignment, .dynamicCollection, .outOfScopeCall,
   .invalidMethodCall, .docOnly, .unsupported]

/-- The place in the order. -/
def rank : Category → Nat
  | .direct => 0
  | .valueUnused => 1
  | .typeNarrowing => 2
  | .chainedAssignment => 3
  | .dynamicCollection => 4
  | .outOfScopeCall => 5
  | .invalidMethodCall => 6
  | .docOnly => 7
  | .unsupported => 8

/-- The name of a category. -/
def name : Category → String
  | .direct => "Direct"
  | .valueUnused => "ValueUnused"
  | .typeNarrowing => "TypeNarrowing"
  | .chainedAssignment => "ChainedAssignment"
  | .dynamicCollection => "DynamicCollection"
  | .outOfScopeCall => "OutOfScopeCall"
  | .invalidMethodCall => "InvalidMethodCall"
  | .docOnly => "DocOnly"
  | .unsupported => "Unsupported"

/-- The reason given for leaving out a construct of this category. -/
def reason? : Category → Option Reason
  | .direct | .docOnly => none
  | .valueUnused => some .valueUnused
  | .typeNarrowing => some .typeNarrowing
  | .chainedAssignment => some .chainedAssignment
  | .dynamicCollection | .unsupported => some .notDirectlyTranslatable
  | .outOfScopeCall => some .callNotInScope
  | .invalidMethodCall => some .invalidCall

/-- The reason given for a construct of this category, should it be left out. -/
def reason (c : Category) : Reason := c.reason?.getD .notDirectlyTranslatable

/-- The one of two categories that comes first. -/
def mostSevere (a b : Category) : Category := if b.rank < a.rank then b else a

end Category

namespace Reason

/-- All reasons. -/
def all : List Reason :=
  [.valueUnused, .typeNarrowing, .chainedAssignment, .notDirectlyTranslatable, .callNotInScope,
   .invalidCall]

/-- The name of a reason. -/
def name : Reason → String
  | .valueUnused => "ValueUnused"
  | .typeNarrowing => "TypeNarrowing"
  | .chainedAssignment => "ChainedAssignment"
  | .notDirectlyTranslatable => "NotDirectlyTranslatable"
  | .callNotInScope => "CallNotInScope"
  | .invalidCall => "InvalidCall"

/-- The wording of a reason. -/
def text : Reason → String
  | .valueUnused => "Constant/value not used"
  | .typeNarrowing => "Refactor required: type cannot change without precision loss"
  | .chainedAssignment => "Chained assignment not translatable"
  | .notDirectlyTranslatable => "Code not directly translatable"
  | .callNotInScope => "Call to function not in scope"
  | .invalidCall => "Not a valid call"

end Reason

/-! ### Results of checks -/

/-- The result of a check: a value, or the category that keeps it from being one. -/
abbrev Checked (α : Type) := Except Category α

namespace Checked

/-- Two results together; if both fail, the category that comes first remains. -/
def both {α β : Type} : Checked α → Checked β → Checked (α × β)
  | .ok a, .ok b => .ok (a, b)
  | .error c, .error d => .error (c.mostSevere d)
  | .error c, .ok _ => .error c
  | .ok _, .error d => .error d

/-- Any number of results together; of the failures the category that comes first remains. -/
def all {α : Type} : List (Checked α) → Checked (List α)
  | [] => .ok []
  | r :: rs =>
    match both r (all rs) with
    | .ok (a, as) => .ok (a :: as)
    | .error c => .error c

/-- The results of a list in turn, up to the first failure. -/
def sequence {α : Type} : List (Checked α) → Checked (List α)
  | [] => .ok []
  | .ok a :: rs => (sequence rs).map (a :: ·)
  | .error c :: _ => .error c

/-- The value, or failure with a category where there is none. -/
def ofOption {α : Type} (c : Category) : Option α → Checked α
  | some a => .ok a
  | none => .error c

/-- Whether a check succeeded. -/
def isOk {α : Type} : Checked α → Bool
  | .ok _ => true
  | .error _ => false

/-- The category that a check ends with. -/
def category {α : Type} : Checked α → Category
  | .ok _ => .direct
  | .error c => c

end Checked

end StaticScript
