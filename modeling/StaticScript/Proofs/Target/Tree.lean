import StaticScript.Target.Tree
import Mathlib.Data.List.Basic

/-!
# Trees of C++ programs, taken apart

The type that each kind of expression carries, and the nodes of expressions and of statements as
unions over their parts.
-/

namespace StaticScript.Target

namespace Expr

@[simp] theorem type_int (n : Int64) (t : StaticType) : (int n t).type = t := rfl
@[simp] theorem type_float (x : Double) (t : StaticType) : (float x t).type = t := rfl
@[simp] theorem type_bool (b : Bool) (t : StaticType) : (bool b t).type = t := rfl
@[simp] theorem type_string (s : String) (t : StaticType) : (string s t).type = t := rfl
@[simp] theorem type_var (x : String) (t : StaticType) : (var x t).type = t := rfl
@[simp] theorem type_binary (op : BinaryOp) (l r : Expr) (t : StaticType) :
    (binary op l r t).type = t := rfl
@[simp] theorem type_unary (op : UnaryOp) (e : Expr) (t : StaticType) :
    (unary op e t).type = t := rfl
@[simp] theorem type_call (f : String) (es : List Expr) (t : StaticType) :
    (call f es t).type = t := rfl
@[simp] theorem type_cast (e : Expr) (u t : StaticType) : (cast e u t).type = t := rfl
@[simp] theorem type_castTo (e : Expr) (t : StaticType) : (e.castTo t).type = t := rfl
@[simp] theorem type_ofInt (n : Int64) : (ofInt n).type = .integer := rfl
@[simp] theorem type_ofDouble (x : Double) : (ofDouble x).type = .floating := rfl
@[simp] theorem type_ofBool (b : Bool) : (ofBool b).type = .boolean := rfl
@[simp] theorem type_ofText (s : String) : (ofText s).type = .string := rfl

theorem nodesList_eq (es : List Expr) : nodesList es = es.flatMap nodes := by
  induction es with
  | nil => rfl
  | cons e es ih => simp [nodesList, ih]

@[simp] theorem nodes_binary (op : BinaryOp) (l r : Expr) (t : StaticType) :
    (binary op l r t).nodes = binary op l r t :: (l.nodes ++ r.nodes) := rfl
@[simp] theorem nodes_unary (op : UnaryOp) (e : Expr) (t : StaticType) :
    (unary op e t).nodes = unary op e t :: e.nodes := rfl
@[simp] theorem nodes_cast (e : Expr) (u t : StaticType) :
    (cast e u t).nodes = cast e u t :: e.nodes := rfl
@[simp] theorem nodes_castTo (e : Expr) (t : StaticType) :
    (e.castTo t).nodes = e.castTo t :: e.nodes := rfl
@[simp] theorem nodes_call (f : String) (es : List Expr) (t : StaticType) :
    (call f es t).nodes = call f es t :: es.flatMap nodes := by
  rw [← nodesList_eq]; rfl
@[simp] theorem nodes_var (x : String) (t : StaticType) : (var x t).nodes = [var x t] := rfl
@[simp] theorem nodes_ofInt (n : Int64) : (ofInt n).nodes = [ofInt n] := rfl
@[simp] theorem nodes_ofDouble (x : Double) : (ofDouble x).nodes = [ofDouble x] := rfl
@[simp] theorem nodes_ofBool (b : Bool) : (ofBool b).nodes = [ofBool b] := rfl
@[simp] theorem nodes_ofText (s : String) : (ofText s).nodes = [ofText s] := rfl

/-- All nodes of the expression have the property. -/
def Each (P : Expr → Prop) (e : Expr) : Prop := ∀ n ∈ e.nodes, P n

section

variable {P : Expr → Prop}

theorem Each.self {e : Expr} (h : e.Each P) : P e := by
  apply h
  unfold nodes
  exact List.mem_cons_self

@[simp] theorem each_binary {op : BinaryOp} {l r : Expr} {t : StaticType} :
    (binary op l r t).Each P ↔ P (binary op l r t) ∧ l.Each P ∧ r.Each P := by
  simp [Each, or_imp, forall_and]

@[simp] theorem each_unary {op : UnaryOp} {e : Expr} {t : StaticType} :
    (unary op e t).Each P ↔ P (unary op e t) ∧ e.Each P := by
  simp [Each]

@[simp] theorem each_cast {e : Expr} {u t : StaticType} :
    (cast e u t).Each P ↔ P (cast e u t) ∧ e.Each P := by
  simp [Each]

@[simp] theorem each_castTo {e : Expr} {t : StaticType} :
    (e.castTo t).Each P ↔ P (e.castTo t) ∧ e.Each P := by
  simp [Each]

@[simp] theorem each_call {f : String} {es : List Expr} {t : StaticType} :
    (call f es t).Each P ↔ P (call f es t) ∧ ∀ e ∈ es, e.Each P := by
  simp only [Each, nodes_call, List.forall_mem_cons, List.mem_flatMap]
  refine and_congr_right fun _ => ⟨fun h e he n hn => h n ⟨e, he, hn⟩, ?_⟩
  rintro h n ⟨e, he, hn⟩
  exact h e he n hn

@[simp] theorem each_var {x : String} {t : StaticType} : (var x t).Each P ↔ P (var x t) := by
  simp [Each]

end

end Expr

theorem Stmt.mem_nested_self (s : Stmt) : s ∈ s.nested := by
  cases s <;> simp [nested]

theorem Stmt.nestedBlock_eq (b : List Stmt) : nestedBlock b = b.flatMap nested := by
  induction b with
  | nil => rfl
  | cons s b ih => rw [nestedBlock, ih, List.flatMap_cons]

theorem Stmt.exprNodesBlock_eq (b : List Stmt) : exprNodesBlock b = b.flatMap exprNodes := by
  induction b with
  | nil => rfl
  | cons s b ih => rw [exprNodesBlock, ih, List.flatMap_cons]

namespace Program

variable (is : List Include) (items : List Item)

@[simp] theorem mainBody_nil : mainBody ⟨is, []⟩ = [] := rfl

@[simp] theorem mainBody_function (f : Function) :
    mainBody ⟨is, .function f :: items⟩ = mainBody ⟨is, items⟩ := rfl

@[simp] theorem mainBody_stmts (b : List Stmt) :
    mainBody ⟨is, b.map .stmt ++ items⟩ = b ++ mainBody ⟨is, items⟩ := by
  simp [mainBody, List.filterMap_append, List.filterMap_map]

@[simp] theorem functions_nil : functions ⟨is, []⟩ = [] := rfl

@[simp] theorem functions_function (f : Function) :
    functions ⟨is, .function f :: items⟩ = f :: functions ⟨is, items⟩ := rfl

@[simp] theorem functions_stmts (b : List Stmt) :
    functions ⟨is, b.map .stmt ++ items⟩ = functions ⟨is, items⟩ := by
  simp [functions, List.filterMap_append, List.filterMap_map]

theorem mem_functions {p : Program} {f : Function} : f ∈ p.functions ↔ .function f ∈ p.items := by
  simp only [functions, List.mem_filterMap]
  constructor
  · rintro ⟨item, hitem, h⟩
    cases item with
    | function => exact Option.some.inj h ▸ hitem
    | stmt => cases h
  · exact fun h => ⟨_, h, rfl⟩

theorem mem_mainBody {p : Program} {s : Stmt} : s ∈ p.mainBody ↔ .stmt s ∈ p.items := by
  simp only [mainBody, List.mem_filterMap]
  constructor
  · rintro ⟨item, hitem, h⟩
    cases item with
    | function => cases h
    | stmt => exact Option.some.inj h ▸ hitem
  · exact fun h => ⟨_, h, rfl⟩

end Program

end StaticScript.Target
