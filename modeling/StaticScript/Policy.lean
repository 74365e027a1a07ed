import StaticScript.Json.Reader
import StaticScript.Json.Record

/-!
# Policies

What is done with the parameters of functions that C++ has no plain counterpart for: those without
a type, and those with a default.
-/

namespace StaticScript

/-- What is done with parameters without a type. -/
inductive GenericPolicy where
  /-- They get type parameters. -/
  | template
  /-- The function is left out. -/
  | skip
deriving DecidableEq

/-- What is done with the defaults of parameters. -/
inductive DefaultPolicy where
  /-- They are kept, and calls may rely on them. -/
  | keep
  /-- They are dropped, and calls that rely on them are left out. -/
  | skip
deriving DecidableEq

/-- The policies in force. -/
structure Policy where
  generics : GenericPolicy
  defaults : DefaultPolicy
deriving DecidableEq

/-- What can be wrong with a policy. -/
inductive PolicyError where
  /-- The document is not one of policies. -/
  | malformed
  /-- There is no generic policy of this name. -/
  | unknownGeneric (name : String)
  /-- There is no default policy of this name. -/
  | unknownDefault (name : String)
deriving DecidableEq

/-- The wording of an error about a policy, where there is one. -/
def PolicyError.message? : PolicyError → Option String
  | .malformed => none
  | .unknownGeneric name =>
    some ("unknown generic parameter policy '" ++ name ++ "' (expected template or skip)")
  | .unknownDefault name =>
    some ("unknown default parameter policy '" ++ name ++ "' (expected keep or skip)")

namespace GenericPolicy

/-- The name of a policy. -/
def name : GenericPolicy → String
  | .template => "template"
  | .skip => "skip"

/-- The policy of a name. -/
def ofName (s : String) : Except PolicyError GenericPolicy :=
  if s = "template" then .ok .template
  else if s = "skip" then .ok .skip
  else .error (.unknownGeneric s)

end GenericPolicy

namespace DefaultPolicy

/-- The name of a policy. -/
def name : DefaultPolicy → String
  | .keep => "keep"
  | .skip => "skip"

/-- The policy of a name. -/
def ofName (s : String) : Except PolicyError DefaultPolicy :=
  if s = "keep" then .ok .keep
  else if s = "skip" then .ok .skip
  else .error (.unknownDefault s)

end DefaultPolicy

namespace Policy

/-- The policies in force unless others are chosen. -/
def standard : Policy := ⟨.template, .keep⟩

/-- The names of the fields of a document of policies. -/
def fieldNames : List String := ["generic_params", "default_params"]

/-- All fields of an object are known. -/
def hasOnlyKnownFields : Json → Bool
  | .object fields => fields.all fun f => fieldNames.any fun n => f.1 == some n
  | _ => true

/-- Reads policies from a document.  Unlike in other records, no unknown field may occur. -/
def ofJson? (j : Json) : Option Policy := do
  let [generics, defaults] ← j.record? fieldNames | none
  if hasOnlyKnownFields j then
    let generics ← Json.getOr .template
      (fun j => do (GenericPolicy.ofName (← j.tagWithin? 1)).toOption) generics
    let defaults ← Json.getOr .keep
      (fun j => do (DefaultPolicy.ofName (← j.tagWithin? 1)).toOption) defaults
    return ⟨generics, defaults⟩
  else none

/-- The policies that the text of a document holds. -/
def load (s : String) : Except PolicyError Policy :=
  match (Json.parse? s).bind ofJson? with
  | some p => .ok p
  | none => .error .malformed

end Policy

end StaticScript
