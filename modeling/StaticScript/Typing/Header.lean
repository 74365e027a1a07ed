import StaticScript.Target.Reserved
import StaticScript.Typing.Rules

/-!
# Headers of functions

The signature of a function is read from its header alone.  Each parameter gets the type of its
hint or of its default; one that has neither gets a type parameter, if the policy has it so.
-/

namespace StaticScript.Typing

open Source (Parameter Stmt)

/-- The names of built-in functions, which a function of the program may not have. -/
def builtinNames : List String := ["print", "int", "float", "bool", "str", "abs", "pow", "range"]

/-- The literal that an expression is, perhaps with a minus sign. -/
def literal? : Source.Expr → Option Target.Expr
  | .int _ n => some (.ofInt n)
  | .float _ x => some (.ofDouble x)
  | .bool _ b => some (.ofBool b)
  | .str _ s => some (.ofText s)
  | .unary _ .minus (.int _ n) => some (.ofInt (-n))
  | .unary _ .minus (.float _ x) => some (.ofDouble x.neg)
  | _ => none

/-- The default of a parameter, which must be a literal and fit its type. -/
def defaultValue : Option Source.Expr → Checked (Option Target.Expr)
  | none => .ok none
  | some e => do
    let value ← Checked.ofOption .unsupported (literal? e)
    if let .int n _ := value then
      let _ ← intLiteralType n
    return some value

/-- The type that a hint gives to a parameter with a default. -/
def hintedType (hint : String) (default : Option Target.Expr) : Checked StaticType :=
  let type := StaticType.ofHint hint
  if !type.isDeterminate || type == .void then .error .unsupported
  else if default.any fun e => !e.type.assignable type then .error .typeNarrowing
  else .ok type

/-- The parameters of a signature; `generics` type parameters have been given out before. -/
def signatureParams (policy : GenericPolicy) :
    Nat → List Parameter → Checked (List SignatureParam)
  | _, [] => .ok []
  | generics, p :: ps => do
    if p.kind ≠ .positional ∨ Target.isReserved p.name then throw .unsupported
    let default ← defaultValue p.default
    match p.hint, default with
    | some hint, default => do
      let type ← hintedType hint default
      return ⟨p.name, .concrete type, default⟩ :: (← signatureParams policy generics ps)
    | none, some value => do
      return ⟨p.name, .concrete value.type, some value⟩ :: (← signatureParams policy generics ps)
    | none, none =>
      match policy with
      | .template => do
        let type := .generic ("T" ++ toString generics)
        return ⟨p.name, type, none⟩ :: (← signatureParams policy (generics + 1) ps)
      | .skip => .error .outOfScopeCall

/-- The return type that a hint gives, and whether there is one. -/
def returnType : Option String → Checked (StaticType × Bool)
  | none => .ok (.unresolved, false)
  | some hint =>
    let type := StaticType.ofHint hint
    if type.isDeterminate then .ok (type, true) else .error .unsupported

/-- The signature of a function definition. -/
def signature (policy : Policy) : Stmt → Checked Signature
  | .functionDef site name parameters returns decorators _ => do
    if !decorators.isEmpty || Target.isReserved name || builtinNames.contains name then
      throw .unsupported
    let params ← signatureParams policy.generics 0 parameters
    let (type, annotated) ← returnType returns
    return ⟨name, site.id, params, type, annotated⟩
  | _ => .error .unsupported

end StaticScript.Typing
