import StaticScript.Source.Query
import Mathlib.Data.List.Basic

/-!
# Going down a tree

An expression is smaller than those it stands in, so what holds of an expression as soon as it holds
of those right below it holds of all (`Expr.induction`).  The nodes of an expression are the
expression and the nodes of those right below it (`Expr.nodes_eq`).  The same holds of a statement
and the statements of its blocks (`Stmt.induction`, `Stmt.nested_eq`).  The questions that are asked
of trees come apart in the same way: whether every `and` and `or` has operands (`hasOperands`), and
which functions are called (`callees`).
-/

namespace StaticScript.Source

namespace Expr

theorem nodesList_eq (es : List Expr) : nodesList es = es.flatMap nodes := by
  induction es with
  | nil => rfl
  | cons e es ih => simp [nodesList, ih]

theorem nodesKeywords_eq (ks : List (String × Expr)) :
    nodesKeywords ks = (ks.map Prod.snd).flatMap nodes := by
  induction ks with
  | nil => rfl
  | cons k ks ih =>
    obtain ⟨name, value⟩ := k
    simp [nodesKeywords, ih]

theorem nodes_eq (e : Expr) : e.nodes = e :: e.children.flatMap nodes := by
  cases e <;> simp [nodes, children, nodesList_eq, nodesKeywords_eq]

theorem sizeOf_lt_of_mem_children {c e : Expr} (h : c ∈ e.children) : sizeOf c < sizeOf e := by
  cases e with
  | int | float | bool | str | none | name | other => simp [children] at h
  | binary site op left right =>
    simp only [children, List.mem_cons, List.not_mem_nil, or_false] at h
    rcases h with rfl | rfl <;> simp only [binary.sizeOf_spec] <;> omega
  | boolOp site op values =>
    have := List.sizeOf_lt_of_mem h
    simp only [boolOp.sizeOf_spec, children] at this ⊢
    omega
  | unary site op operand =>
    simp only [children, List.mem_singleton] at h
    subst h
    simp only [unary.sizeOf_spec]
    omega
  | compare site left ops comparators =>
    rcases List.mem_cons.1 h with rfl | h
    · simp only [compare.sizeOf_spec]; omega
    · have := List.sizeOf_lt_of_mem h
      simp only [compare.sizeOf_spec]
      omega
  | call site function arguments keywords =>
    simp only [children, List.cons_append, List.mem_cons, List.mem_append, List.mem_map] at h
    rcases h with rfl | h | ⟨k, hk, rfl⟩
    · simp only [call.sizeOf_spec]; omega
    · have := List.sizeOf_lt_of_mem h
      simp only [call.sizeOf_spec]
      omega
    · have := List.sizeOf_lt_of_mem hk
      obtain ⟨name, value⟩ := k
      simp only [call.sizeOf_spec, Prod.mk.sizeOf_spec] at this ⊢
      omega
  | attr site object name =>
    simp only [children, List.mem_singleton] at h
    subst h
    simp only [attr.sizeOf_spec]
    omega
  | list site items | tuple site items | set site items =>
    have := List.sizeOf_lt_of_mem h
    simp only [children, list.sizeOf_spec, tuple.sizeOf_spec, set.sizeOf_spec] at this ⊢
    omega
  | dict site keys values =>
    rcases List.mem_append.1 h with h | h
    · have := List.sizeOf_lt_of_mem h
      simp only [dict.sizeOf_spec]
      omega
    · have := List.sizeOf_lt_of_mem h
      simp only [dict.sizeOf_spec]
      omega
  | named site target value =>
    simp only [children, List.mem_cons, List.not_mem_nil, or_false] at h
    rcases h with rfl | rfl <;> simp only [named.sizeOf_spec] <;> omega

/-- **Induction over expressions**: what passes from the expressions right below an expression to
the expression itself holds of all expressions. -/
theorem induction {P : Expr → Prop} (step : ∀ e : Expr, (∀ c ∈ e.children, P c) → P e) (e : Expr) :
    P e :=
  step e fun c hc =>
    have := sizeOf_lt_of_mem_children hc
    induction step c
termination_by sizeOf e

theorem mem_nodes_of_mem_children {c e n : Expr} (hc : c ∈ e.children) (hn : n ∈ c.nodes) :
    n ∈ e.nodes := by
  rw [nodes_eq]
  exact List.mem_cons_of_mem _ (List.mem_flatMap.2 ⟨c, hc, hn⟩)

theorem containsCall_of_mem_children {c e : Expr} (he : e.containsCall = false)
    (hc : c ∈ e.children) : c.containsCall = false := by
  simp only [containsCall, List.any_eq_false] at he ⊢
  exact fun n hn => he n (mem_nodes_of_mem_children hc hn)

theorem mentions_iff {x : String} {e : Expr} :
    e.mentions x = true ↔ e.asName = some x ∨ ∃ c ∈ e.children, c.mentions x = true := by
  simp only [mentions, List.any_eq_true, beq_iff_eq]
  rw [nodes_eq]
  simp only [List.mem_cons, List.mem_flatMap]
  constructor
  · rintro ⟨n, rfl | ⟨c, hc, hn⟩, hx⟩
    · exact .inl hx
    · exact .inr ⟨c, hc, n, hn, hx⟩
  · rintro (hx | ⟨c, hc, n, hn, hx⟩)
    · exact ⟨e, .inl rfl, hx⟩
    · exact ⟨n, .inr ⟨c, hc, hn⟩, hx⟩

theorem eq_name_of_asName {e : Expr} {x : String} (h : e.asName = some x) :
    ∃ site, e = .name site x := by
  cases e <;> simp_all [asName]

/-- Every `and` and `or` in the expression has operands. -/
def hasOperands (e : Expr) : Bool :=
  e.nodes.all fun
    | .boolOp _ _ values => !values.isEmpty
    | _ => true

theorem hasOperands_of_mem_children {c e : Expr} (he : e.hasOperands = true)
    (hc : c ∈ e.children) : c.hasOperands = true := by
  rw [hasOperands, List.all_eq_true] at he ⊢
  exact fun n hn => he n (mem_nodes_of_mem_children hc hn)

theorem ne_nil_of_hasOperands {site : Site} {op : BoolOp} {values : List Expr}
    (h : (boolOp site op values).hasOperands = true) : values ≠ [] := by
  rw [hasOperands, nodes_eq, List.all_cons, Bool.and_eq_true] at h
  simpa using h.1

/-- The names of the functions that are called in the expression. -/
def callees (e : Expr) : List String :=
  e.nodes.filterMap fun
    | .call _ function _ _ => function.asName
    | _ => Option.none

theorem callees_of_mem_children {c e : Expr} (hc : c ∈ e.children) : c.callees ⊆ e.callees := by
  intro f hf
  obtain ⟨n, hn, hcall⟩ := List.mem_filterMap.1 hf
  exact List.mem_filterMap.2 ⟨n, mem_nodes_of_mem_children hc hn, hcall⟩

theorem mem_callees_call {site : Site} {function : Expr} {arguments : List Expr}
    {keywords : List (String × Expr)} {f : String} (h : function.asName = some f) :
    f ∈ (call site function arguments keywords).callees := by
  rw [callees, nodes_eq]
  exact List.mem_filterMap.2 ⟨_, List.mem_cons_self, h⟩

end Expr

namespace Stmt

theorem nestedBlock_eq (ss : List Stmt) : nestedBlock ss = ss.flatMap nested := by
  induction ss with
  | nil => rfl
  | cons s ss ih => rw [nestedBlock, ih, List.flatMap_cons]

theorem nested_eq (s : Stmt) : s.nested = s :: s.blocks.flatMap nestedBlock := by
  cases s <;> simp [nested, blocks]

theorem sizeOf_lt_of_mem_blocks {s t : Stmt} {b : List Stmt} (hb : b ∈ s.blocks) (ht : t ∈ b) :
    sizeOf t < sizeOf s := by
  have hlt := List.sizeOf_lt_of_mem ht
  cases s with
  | ifElse | whileLoop | forLoop =>
    simp only [blocks, List.mem_cons, List.not_mem_nil, or_false] at hb
    rcases hb with rfl | rfl <;>
      simp only [ifElse.sizeOf_spec, whileLoop.sizeOf_spec, forLoop.sizeOf_spec] <;> omega
  | functionDef =>
    simp only [blocks, List.mem_singleton] at hb
    subst hb
    simp only [functionDef.sizeOf_spec]
    omega
  | _ => simp [blocks] at hb

/-- **Induction over statements**: what passes from the statements of the blocks of a statement to
the statement itself holds of all statements. -/
theorem induction {P : Stmt → Prop}
    (step : ∀ s : Stmt, (∀ b ∈ s.blocks, ∀ t ∈ b, P t) → P s) (s : Stmt) : P s :=
  step s fun b hb t ht =>
    have := sizeOf_lt_of_mem_blocks hb ht
    induction step t
termination_by sizeOf s

theorem mem_nested_self (s : Stmt) : s ∈ s.nested := by
  cases s <;> simp [nested]

theorem exists_of_mem_nestedBlock {t : Stmt} {ss : List Stmt} (h : t ∈ nestedBlock ss) :
    ∃ s ∈ ss, t ∈ s.nested := by
  rwa [nestedBlock_eq, List.mem_flatMap] at h

theorem nested_subset_of_mem {t : Stmt} {ss : List Stmt} (h : t ∈ ss) :
    t.nested ⊆ nestedBlock ss := by
  rw [nestedBlock_eq]
  exact fun u hu => List.mem_flatMap.2 ⟨t, h, hu⟩

theorem nested_subset_of_mem_blocks {s t : Stmt} {b : List Stmt} (hb : b ∈ s.blocks)
    (ht : t ∈ b) : t.nested ⊆ s.nested := by
  have hblock : nestedBlock b ⊆ s.nested := by
    rw [nested_eq]
    exact fun u hu => List.mem_cons_of_mem _ (List.mem_flatMap.2 ⟨b, hb, hu⟩)
  exact List.Subset.trans (nested_subset_of_mem ht) hblock

/-- What is nested in a statement that is nested in another is nested in the other. -/
theorem nested_subset_of_mem_nested {s t : Stmt} : t ∈ s.nested → t.nested ⊆ s.nested := by
  induction s using induction with
  | step s ih =>
    intro ht
    rw [nested_eq, List.mem_cons, List.mem_flatMap] at ht
    rcases ht with rfl | ⟨b, hb, ht⟩
    · exact List.Subset.refl _
    · obtain ⟨u, hu, ht⟩ := exists_of_mem_nestedBlock ht
      exact List.Subset.trans (ih b hb u hu ht) (nested_subset_of_mem_blocks hb hu)

theorem nested_subset_of_mem_nestedBlock {t : Stmt} {ss : List Stmt} (h : t ∈ nestedBlock ss) :
    t.nested ⊆ nestedBlock ss := by
  obtain ⟨s, hs, ht⟩ := exists_of_mem_nestedBlock h
  exact List.Subset.trans (nested_subset_of_mem_nested ht) (nested_subset_of_mem hs)

/-- The names of the functions that are called in the statement or in one nested in it. -/
def callees (s : Stmt) : List String :=
  s.nested.flatMap fun t => t.expressions.flatMap Expr.callees

theorem callees_of_mem_expressions {s : Stmt} {e : Expr} (he : e ∈ s.expressions) :
    e.callees ⊆ s.callees := fun _ hf =>
  List.mem_flatMap.2 ⟨s, s.mem_nested_self, List.mem_flatMap.2 ⟨e, he, hf⟩⟩

theorem callees_of_mem_blocks {s t : Stmt} {b : List Stmt} (hb : b ∈ s.blocks) (ht : t ∈ b) :
    t.callees ⊆ s.callees := by
  intro f hf
  obtain ⟨u, hu, hf⟩ := List.mem_flatMap.1 hf
  exact List.mem_flatMap.2 ⟨u, nested_subset_of_mem_blocks hb ht hu, hf⟩

/-- Every `and` and `or` in the statement, or in one nested in it, has operands. -/
def hasOperands (s : Stmt) : Bool := s.nested.all fun t => t.expressions.all Expr.hasOperands

theorem all_nestedBlock (p : Stmt → Bool) (ss : List Stmt) :
    (nestedBlock ss).all p = ss.all fun s => s.nested.all p := by
  rw [nestedBlock_eq, List.all_flatMap]

theorem hasOperands_ifElse {site : Site} {c : Expr} {body orelse : List Stmt} :
    (ifElse site c body orelse).hasOperands = true ↔ c.hasOperands = true ∧
      (∀ s ∈ body, s.hasOperands = true) ∧ ∀ s ∈ orelse, s.hasOperands = true := by
  simp [hasOperands, nested, expressions, all_nestedBlock]

theorem hasOperands_whileLoop {site : Site} {c : Expr} {body orelse : List Stmt} :
    (whileLoop site c body orelse).hasOperands = true ↔ c.hasOperands = true ∧
      (∀ s ∈ body, s.hasOperands = true) ∧ ∀ s ∈ orelse, s.hasOperands = true := by
  simp [hasOperands, nested, expressions, all_nestedBlock]

theorem hasOperands_forLoop {site : Site} {target iter : Expr} {body orelse : List Stmt} :
    (forLoop site target iter body orelse).hasOperands = true ↔
      (target.hasOperands = true ∧ iter.hasOperands = true) ∧
      (∀ s ∈ body, s.hasOperands = true) ∧ ∀ s ∈ orelse, s.hasOperands = true := by
  simp [hasOperands, nested, expressions, all_nestedBlock]

theorem hasOperands_functionDef {site : Site} {name : String} {parameters : List Parameter}
    {returns : Option String} {decorators : List Expr} {body : List Stmt}
    (h : (functionDef site name parameters returns decorators body).hasOperands = true) :
    ∀ s ∈ body, s.hasOperands = true := by
  simp only [hasOperands, nested, List.all_cons, Bool.and_eq_true, all_nestedBlock] at h
  exact List.all_eq_true.1 h.2

end Stmt

/-- Every `and` and `or` in the script has operands. -/
def Module.hasOperands (m : Module) : Bool := m.body.all Stmt.hasOperands

end StaticScript.Source
