import StaticScript.Policy
import StaticScript.Typing.Environment

/-!
# Arguments of a call

How the arguments of a call are matched with the parameters of a function.  Arguments without a
name go to the parameters in order, and an argument with a name to the first parameter of this
name.  Parameters that get none fall back on their defaults: those before the last argument are
filled in at the call, those behind it are left to the declaration.

Arguments may be anything (`α`), so that the same matching serves types and expressions.
-/

namespace StaticScript.Typing

/-- What a call gives to one parameter. -/
inductive Slot (α : Type) where
  | supplied (argument : α)
  | default (value : Target.Expr)

variable {α : Type}

/-- One place for each of `n` parameters, with the arguments without a name in the first ones. -/
def positionalPlaces (n : Nat) (arguments : List α) : List (Option α) :=
  arguments.map some ++ List.replicate (n - arguments.length) none

/-- Puts the arguments with a name into their places, each of which must exist and be free. -/
def fillKeywords (params : List SignatureParam) :
    List (String × α) → List (Option α) → Checked (List (Option α))
  | [], places => .ok places
  | (name, argument) :: keywords, places =>
    match params.findIdx? fun p => p.name == name with
    | none => .error .invalidMethodCall
    | some i =>
      match places[i]? with
      | some none => fillKeywords params keywords (places.set i (some argument))
      | _ => .error .invalidMethodCall

/-- The slots for parameters and their places.  A parameter without an argument must have a
default; it gets a slot only if an argument follows. -/
def slots : List (SignatureParam × Option α) → Checked (List (Slot α))
  | [] => .ok []
  | (_, some argument) :: rest => do return .supplied argument :: (← slots rest)
  | (param, none) :: rest =>
    match param.default with
    | none => .error .invalidMethodCall
    | some value => do
      let found ← slots rest
      return if rest.any (·.2.isSome) then .default value :: found else found

/-- Matches the arguments of a call with the parameters of a function. -/
def bindArguments (params : List SignatureParam) (arguments : List α)
    (keywords : List (String × α)) (policy : DefaultPolicy) : Checked (List (Slot α)) :=
  if params.length < arguments.length then .error .invalidMethodCall
  else do
    let places ← fillKeywords params keywords (positionalPlaces params.length arguments)
    let found ← slots (params.zip places)
    if policy = .skip ∧ places.any Option.isNone then .error .outOfScopeCall else return found

end StaticScript.Typing
