import StaticScript.Proofs.Source.Relation
import StaticScript.Proofs.Source.Sites
import Mathlib.Data.Set.Card

/-!
# Places of nodes

Equal nodes may stand in several places of a script, so a node is known by its place: the steps that
lead to it from the script.  A step goes into a field of a node, to the node with an index there
(`Node.fields`, `Node.at?`).  Places are ordered: what leads to a node comes before what leads below
it, and what goes into an earlier field, or to an earlier index of one field, comes before what goes
into a later one (`Place.Before`).

The visit of a script (`Module.sites`) goes to each of its places once and in this order
(`Module.exists_lists`).  So what is counted along the visit is a number of places
(`Module.ncard_eq_countP`), and scripts with related sites have the same places, with related sites
in them (`Module.Rel.at?`).
-/

namespace StaticScript.Source

/-! ### Nodes and their fields -/

/-- A node of a script. -/
inductive Node where
  | expr (e : Expr)
  | stmt (s : Stmt)

/-- The fields of nodes that hold nodes, each before the fields of the same node that come later:
expressions in the order of evaluation, then blocks. -/
inductive Field where
  | function | arguments | keywords
  | left | right | comparators
  | operand | object | items | keys | values
  | targets | target | condition | iter | value
  | decorators | defaults
  | body | orelse
deriving DecidableEq

/-- The fields of an expression with the expressions in them. -/
def Expr.fields : Expr → List (Field × List Expr)
  | .int .. | .float .. | .bool .. | .str .. | .none .. | .name .. | .other .. => []
  | .binary _ _ left right => [(.left, [left]), (.right, [right])]
  | .boolOp _ _ values => [(.values, values)]
  | .unary _ _ operand => [(.operand, [operand])]
  | .compare _ left _ comparators => [(.left, [left]), (.comparators, comparators)]
  | .call _ function arguments keywords =>
    [(.function, [function]), (.arguments, arguments), (.keywords, keywords.map Prod.snd)]
  | .attr _ object _ => [(.object, [object])]
  | .list _ items | .tuple _ items | .set _ items => [(.items, items)]
  | .dict _ keys values => [(.keys, keys), (.values, values)]
  | .named _ target value => [(.target, [target]), (.value, [value])]

/-- The fields of a statement with the nodes in them. -/
def Stmt.fields : Stmt → List (Field × List Node)
  | .expr _ value => [(.value, [.expr value])]
  | .assign _ targets value => [(.targets, targets.map .expr), (.value, [.expr value])]
  | .augAssign _ target _ value => [(.target, [.expr target]), (.value, [.expr value])]
  | .ifElse _ condition body orelse | .whileLoop _ condition body orelse =>
    [(.condition, [.expr condition]), (.body, body.map .stmt), (.orelse, orelse.map .stmt)]
  | .forLoop _ target iter body orelse =>
    [(.target, [.expr target]), (.iter, [.expr iter]), (.body, body.map .stmt),
      (.orelse, orelse.map .stmt)]
  | .functionDef _ _ parameters _ decorators body =>
    [(.decorators, decorators.map .expr),
      (.defaults, (parameters.filterMap Parameter.default).map .expr), (.body, body.map .stmt)]
  | .ret _ value => [(.value, value.toList.map .expr)]
  | .brk _ | .cont _ | .pass _ | .importNames .. | .importFrom .. | .docString .. | .comment ..
  | .other .. => []

namespace Node

/-- Where a node stands. -/
def site : Node → Site
  | .expr e => e.site
  | .stmt s => s.site

/-- The sites of a node and of all nodes below it. -/
def sites : Node → List Site
  | .expr e => e.sites
  | .stmt s => s.sites

/-- The fields of a node with the nodes in them. -/
def fields : Node → List (Field × List Node)
  | .expr e => e.fields.map (Prod.map id (List.map .expr))
  | .stmt s => s.fields

/-- The nodes right below a node. -/
def children (n : Node) : List Node := n.fields.flatMap Prod.snd

theorem children_expr (e : Expr) : (expr e).children = e.children.map expr := by
  cases e <;> simp [children, fields, Expr.fields, Expr.children]

theorem children_stmt (s : Stmt) :
    (stmt s).children = s.expressions.map expr ++ s.blocks.flatten.map stmt := by
  cases s <;> simp [children, fields, Stmt.fields, Stmt.expressions, Stmt.blocks]

/-- **Induction over nodes**: what passes from the nodes right below a node to the node itself holds
of all nodes. -/
theorem induction {P : Node → Prop} (step : ∀ n : Node, (∀ c ∈ n.children, P c) → P n) (n : Node) :
    P n := by
  have hexpr : ∀ e, P (expr e) := by
    intro e
    induction e using Expr.induction with
    | step e ih =>
      refine step _ fun c hc => ?_
      rw [children_expr] at hc
      obtain ⟨d, hd, rfl⟩ := List.mem_map.1 hc
      exact ih d hd
  cases n with
  | expr e => exact hexpr e
  | stmt s =>
    induction s using Stmt.induction with
    | step s ih =>
      refine step _ fun c hc => ?_
      simp only [children_stmt, List.mem_append, List.mem_map, List.mem_flatten] at hc
      rcases hc with ⟨e, -, rfl⟩ | ⟨t, ⟨b, hb, ht⟩, rfl⟩
      · exact hexpr e
      · exact ih b hb t ht

/-- A node is visited before the nodes below it, and these field by field. -/
theorem sites_eq (n : Node) : n.sites = n.site :: n.children.flatMap sites := by
  cases n with
  | expr e =>
    rw [children_expr, List.flatMap_map, sites, Expr.sites, Expr.nodes_eq, List.map_cons,
      List.map_flatMap]
    rfl
  | stmt s =>
    have hblocks : s.blocks.flatMap sitesBlock = s.blocks.flatten.flatMap Stmt.sites := by
      rw [List.flatMap_congr fun b _ => Stmt.sitesBlock_eq b, List.flatten_eq_flatMap,
        List.flatMap_assoc]
      rfl
    rw [children_stmt, List.flatMap_append, List.flatMap_map, List.flatMap_map, sites,
      Stmt.sites_eq, hblocks]
    rfl

end Node

/-! ### Steps and places -/

/-- A step from a node to one right below it. -/
structure Step where
  field : Field
  index : Nat
deriving DecidableEq

/-- The steps that lead from a script to a node. -/
abbrev Place := List Step

/-- The step leads into an earlier field, or to an earlier node of the field. -/
def Step.Before (s t : Step) : Prop :=
  s.field.ctorIdx < t.field.ctorIdx ∨ s.field = t.field ∧ s.index < t.index

/-- The place comes earlier: it leads to a node above, or branches off earlier. -/
def Place.Before : Place → Place → Prop := List.Lex Step.Before

theorem Step.Before.asymm {s t : Step} (h : s.Before t) : ¬ t.Before s := by
  rcases h with h | ⟨hfield, h⟩ <;> rintro (h' | ⟨hfield', h'⟩)
  · omega
  · rw [hfield'] at h
    omega
  · rw [hfield] at h'
    omega
  · omega

theorem Place.Before.asymm {p q : Place} : p.Before q → ¬ q.Before p :=
  List.lex_asymm Step.Before.asymm

theorem Place.before_append_cons (p : Place) (s : Step) (q : Place) :
    p.Before (p ++ s :: q) := by
  induction p with
  | nil => exact .nil
  | cons t p ih => exact .cons ih

theorem Place.before_of_step {s t : Step} (h : s.Before t) (r p q : Place) :
    Place.Before (r ++ s :: p) (r ++ t :: q) := by
  induction r with
  | nil => exact .rel h
  | cons u r ih => exact .cons ih

/-- The steps into one field are in order. -/
theorem pairwise_zipIdx {α : Type} (f : Field) (g : α → Node) (as : List α) :
    (as.zipIdx.map fun c => (Step.mk f c.2, g c.1)).Pairwise fun x y => x.1.Before y.1 := by
  have hindices : (as.zipIdx.map Prod.snd).Pairwise (· < ·) := by
    rw [List.zipIdx_map_snd]
    exact List.pairwise_lt_range'
  rw [List.pairwise_map]
  exact (List.pairwise_map.1 hindices).imp fun h => .inr ⟨rfl, h⟩

namespace Node

/-- The node that a step leads to. -/
def child? (n : Node) (s : Step) : Option Node := (n.fields.lookup s.field).bind (·[s.index]?)

/-- The node that several steps lead to. -/
def at? (n : Node) : Place → Option Node
  | [] => some n
  | s :: p => (n.child? s).bind fun c => c.at? p

/-- The steps from a node with the nodes that they lead to. -/
def steps (n : Node) : List (Step × Node) :=
  n.fields.flatMap fun x => x.2.zipIdx.map fun c => (⟨x.1, c.2⟩, c.1)

theorem pairwise_fields (n : Node) : n.fields.Pairwise fun x y => x.1.ctorIdx < y.1.ctorIdx := by
  cases n with
  | expr e => cases e <;> simp [fields, Expr.fields, Field.ctorIdx]
  | stmt s => cases s <;> simp [fields, Stmt.fields, Field.ctorIdx]

theorem lookup_fields {n : Node} {f : Field} {cs : List Node} :
    n.fields.lookup f = some cs ↔ (f, cs) ∈ n.fields := by
  rw [List.lookup_eq_some_iff]
  constructor
  · rintro ⟨before, behind, heq, -⟩
    rw [heq]
    simp
  · intro h
    obtain ⟨before, behind, heq⟩ := List.append_of_mem h
    refine ⟨before, behind, heq, fun x hx => ?_⟩
    have hordered := n.pairwise_fields
    rw [heq, List.pairwise_append] at hordered
    have hlt := hordered.2.2 x hx _ List.mem_cons_self
    rw [bne_iff_ne]
    rintro rfl
    exact Nat.lt_irrefl _ hlt

theorem child?_eq_some_iff {n c : Node} {s : Step} : n.child? s = some c ↔ (s, c) ∈ n.steps := by
  simp only [child?, Option.bind_eq_some_iff, lookup_fields, steps, List.mem_flatMap, List.mem_map,
    Prod.exists, Prod.mk.injEq, List.mem_zipIdx_iff_getElem?]
  constructor
  · rintro ⟨cs, hcs, hc⟩
    exact ⟨s.field, cs, hcs, c, s.index, hc, rfl, rfl⟩
  · rintro ⟨f, cs, hcs, d, i, hd, rfl, rfl⟩
    exact ⟨cs, hcs, hd⟩

theorem pairwise_steps (n : Node) : n.steps.Pairwise fun x y => x.1.Before y.1 := by
  rw [steps, List.pairwise_flatMap]
  constructor
  · intro x _
    exact pairwise_zipIdx x.1 id x.2
  · refine n.pairwise_fields.imp fun hlt y hy z hz => ?_
    obtain ⟨c, -, rfl⟩ := List.mem_map.1 hy
    obtain ⟨d, -, rfl⟩ := List.mem_map.1 hz
    exact .inl hlt

theorem map_snd_steps (n : Node) : n.steps.map Prod.snd = n.children := by
  rw [steps, children, List.map_flatMap]
  refine List.flatMap_congr fun x _ => ?_
  rw [List.map_map]
  exact List.zipIdx_map_fst 0 x.2

theorem at?_cons_eq_some_iff {n c : Node} {s : Step} {p : Place} :
    n.at? (s :: p) = some c ↔ ∃ d, (s, d) ∈ n.steps ∧ d.at? p = some c := by
  simp only [at?, Option.bind_eq_some_iff, child?_eq_some_iff]

end Node

/-! ### Lists of all places -/

/-- All places below some steps are listed in order, with the nodes in them. -/
structure Lists (steps : List (Step × Node)) (l : List (Place × Node)) : Prop where
  mem_iff : ∀ p c, (p, c) ∈ l ↔ ∃ s q d, p = s :: q ∧ (s, d) ∈ steps ∧ d.at? q = some c
  ordered : l.Pairwise fun x y => x.1.Before y.1
  sites : l.map (fun x => x.2.site) = steps.flatMap fun x => x.2.sites

theorem Lists.nil : Lists [] [] where
  mem_iff := by simp
  ordered := .nil
  sites := rfl

/-- The place that the first step leads to, then those below it, then those of the other steps. -/
theorem Lists.cons {s : Step} {n : Node} {steps : List (Step × Node)}
    {below l : List (Place × Node)} (hs : ∀ x ∈ steps, s.Before x.1) (hbelow : Lists n.steps below)
    (hl : Lists steps l) :
    Lists ((s, n) :: steps) (([s], n) :: below.map (fun x => (s :: x.1, x.2)) ++ l) where
  mem_iff p c := by
    simp only [List.cons_append, List.mem_cons, List.mem_append, List.mem_map, Prod.exists,
      Prod.mk.injEq, hbelow.mem_iff, hl.mem_iff]
    constructor
    · rintro (⟨rfl, rfl⟩ | ⟨_, d, ⟨t, q, e, rfl, he, hd⟩, rfl, rfl⟩ | ⟨t, q, d, rfl, hd, hc⟩)
      · exact ⟨s, [], c, rfl, .inl ⟨rfl, rfl⟩, rfl⟩
      · exact ⟨s, t :: q, n, rfl, .inl ⟨rfl, rfl⟩, Node.at?_cons_eq_some_iff.2 ⟨e, he, hd⟩⟩
      · exact ⟨t, q, d, rfl, .inr hd, hc⟩
    · rintro ⟨t, q, d, rfl, ⟨rfl, rfl⟩ | hd, hc⟩
      · cases q with
        | nil => exact .inl ⟨rfl, (Option.some.inj hc).symm⟩
        | cons u q =>
          obtain ⟨e, he, hc⟩ := Node.at?_cons_eq_some_iff.1 hc
          exact .inr (.inl ⟨u :: q, c, ⟨u, q, e, rfl, he, hc⟩, rfl, rfl⟩)
      · exact .inr (.inr ⟨t, q, d, rfl, hd, hc⟩)
  ordered := by
    -- The places of the first step begin with it, and all others with a later one.
    have hlater : ∀ p : Place, ∀ y ∈ l, Place.Before (s :: p) y.1 := by
      intro p y hy
      obtain ⟨t, q, d, hq, hd, -⟩ := (hl.mem_iff y.1 y.2).1 hy
      rw [hq]
      exact .rel (hs _ hd)
    rw [List.pairwise_append, List.pairwise_cons, List.pairwise_map]
    refine ⟨⟨?_, hbelow.ordered.imp fun h => .cons h⟩, hl.ordered, ?_⟩
    · intro y hy
      obtain ⟨x, hx, rfl⟩ := List.mem_map.1 hy
      obtain ⟨t, q, d, hq, -⟩ := (hbelow.mem_iff x.1 x.2).1 hx
      rw [hq]
      exact .cons .nil
    · intro x hx y hy
      rcases List.mem_cons.1 hx with rfl | hx
      · exact hlater _ y hy
      · obtain ⟨z, -, rfl⟩ := List.mem_map.1 hx
        exact hlater _ y hy
  sites := by
    have hn : n.sites = n.site :: n.steps.flatMap fun x => x.2.sites := by
      rw [Node.sites_eq, ← Node.map_snd_steps, List.flatMap_map]
    rw [List.map_append, List.map_cons, List.map_map, List.flatMap_cons, hl.sites, hn,
      ← hbelow.sites]
    rfl

theorem exists_lists_of_steps {steps : List (Step × Node)}
    (hsteps : steps.Pairwise fun x y => x.1.Before y.1)
    (hnodes : ∀ x ∈ steps, ∃ below, Lists x.2.steps below) : ∃ l, Lists steps l := by
  induction steps with
  | nil => exact ⟨[], .nil⟩
  | cons x steps ih =>
    rw [List.pairwise_cons] at hsteps
    obtain ⟨below, hbelow⟩ := hnodes x List.mem_cons_self
    obtain ⟨l, hl⟩ := ih hsteps.2 fun y hy => hnodes y (List.mem_cons_of_mem _ hy)
    exact ⟨_, .cons hsteps.1 hbelow hl⟩

theorem Node.exists_lists (n : Node) : ∃ l, Lists n.steps l := by
  induction n using Node.induction with
  | step n ih =>
    refine exists_lists_of_steps n.pairwise_steps fun x hx => ih x.2 ?_
    rw [← map_snd_steps]
    exact List.mem_map_of_mem hx

namespace Module

/-- The steps from a script with the statements that they lead to. -/
def steps (m : Module) : List (Step × Node) :=
  m.body.zipIdx.map fun c => (⟨.body, c.2⟩, .stmt c.1)

/-- The node in a place of a script. -/
def at? (m : Module) : Place → Option Node
  | [] => none
  | s :: p => if s.field = .body then m.body[s.index]?.bind fun t => (Node.stmt t).at? p else none

/-- The places of a script. -/
def places (m : Module) : Set Place := {p | ∃ n, m.at? p = some n}

theorem at?_eq_some_iff {m : Module} {p : Place} {c : Node} :
    m.at? p = some c ↔ ∃ s q d, p = s :: q ∧ (s, d) ∈ m.steps ∧ d.at? q = some c := by
  cases p with
  | nil => simp [at?]
  | cons s p =>
    simp only [at?, steps, Option.ite_none_right_eq_some, Option.bind_eq_some_iff, List.cons.injEq,
      List.mem_map, Prod.exists, List.mem_zipIdx_iff_getElem?, Prod.mk.injEq]
    constructor
    · rintro ⟨hfield, t, ht, hc⟩
      refine ⟨s, p, .stmt t, ⟨rfl, rfl⟩, ⟨t, s.index, ht, ?_, rfl⟩, hc⟩
      rw [← hfield]
    · rintro ⟨_, _, _, ⟨rfl, rfl⟩, ⟨t, i, ht, rfl, rfl⟩, hc⟩
      exact ⟨rfl, t, ht, hc⟩

/-- **The visit of a script goes to each of its places once and in order.** -/
theorem exists_lists (m : Module) : ∃ l : List (Place × Node),
    (∀ p c, (p, c) ∈ l ↔ m.at? p = some c) ∧ (l.Pairwise fun x y => x.1.Before y.1) ∧
      l.map (fun x => x.2.site) = m.sites := by
  obtain ⟨l, hl⟩ :=
    exists_lists_of_steps (pairwise_zipIdx .body .stmt m.body) fun x _ => x.2.exists_lists
  refine ⟨l, fun p c => (hl.mem_iff p c).trans at?_eq_some_iff.symm, hl.ordered, ?_⟩
  rw [hl.sites, List.flatMap_map, sites, Stmt.sitesBlock_eq]
  conv => rhs; rw [← List.zipIdx_map_fst 0 m.body, List.flatMap_map]
  rfl

/-- What is counted along the visit is a number of places. -/
theorem ncard_eq_countP (m : Module) (P : Site → Bool) :
    {p | ∃ n, m.at? p = some n ∧ P n.site = true}.ncard = m.sites.countP P := by
  obtain ⟨l, hmem, hordered, hsites⟩ := m.exists_lists
  have hnodup : ((l.filter fun x => P x.2.site).map Prod.fst).Nodup := by
    refine List.pairwise_map.2 ((hordered.imp fun h => ?_).filter _)
    intro heq
    exact h.asymm (heq ▸ h)
  have hset : {p | ∃ n, m.at? p = some n ∧ P n.site = true} =
      ((l.filter fun x => P x.2.site).map Prod.fst).toFinset := by
    ext p
    simp [hmem]
  rw [hset, Set.ncard_coe_finset, List.toFinset_card_of_nodup hnodup, List.length_map,
    ← List.countP_eq_length_filter, ← hsites, List.countP_map]
  rfl

theorem ncard_places (m : Module) : m.places.ncard = m.sites.length := by
  have h := m.ncard_eq_countP fun _ => true
  simpa [places] using h

end Module

/-! ### Places of related scripts -/

/-- The nodes are the same up to their sites, which are related. -/
inductive Node.Rel (R : Site → Site → Prop) : Node → Node → Prop
  | expr {e e' : Expr} (h : e.Rel R e') : Rel R (.expr e) (.expr e')
  | stmt {s s' : Stmt} (h : s.Rel R s') : Rel R (.stmt s) (.stmt s')

/-- The fields are the same, and the nodes in them are related. -/
def SameFields {α : Type} (R : α → α → Prop) :
    List (Field × List α) → List (Field × List α) → Prop :=
  List.Forall₂ fun x y => x.1 = y.1 ∧ List.Forall₂ R x.2 y.2

variable {R : Site → Site → Prop}

theorem Expr.Rel.fields {e e' : Expr} (h : e.Rel R e') :
    SameFields (Expr.Rel R) e.fields e'.fields := by
  cases h <;> simp_all [SameFields, Expr.fields]

theorem forall₂_toList {e e' : Option Expr} (h : Option.Rel (Expr.Rel R) e e') :
    List.Forall₂ (Expr.Rel R) e.toList e'.toList := by
  cases h with
  | none => exact .nil
  | some h => exact .cons h .nil

theorem forall₂_default {ps ps' : List Parameter} (h : List.Forall₂ (Parameter.Rel R) ps ps') :
    List.Forall₂ (Expr.Rel R) (ps.filterMap Parameter.default)
      (ps'.filterMap Parameter.default) := by
  induction h with
  | nil => exact .nil
  | @cons p p' ps ps' hp _ ih =>
    obtain ⟨_, _, default, _⟩ := p
    obtain ⟨_, _, default', _⟩ := p'
    have hdefault : Option.Rel (Expr.Rel R) default default' := hp.default
    cases hdefault with
    | none => exact ih
    | some he => exact .cons he ih

namespace Node.Rel

theorem site {n n' : Node} (h : n.Rel R n') : R n.site n'.site := by
  cases h with
  | expr h => exact h.site
  | stmt h => exact h.site

theorem map_expr {es es' : List Expr} (h : List.Forall₂ (Expr.Rel R) es es') :
    List.Forall₂ (Node.Rel R) (es.map .expr) (es'.map .expr) := by
  rw [List.forall₂_map_left_iff, List.forall₂_map_right_iff]
  exact h.imp fun _ _ => .expr

theorem map_stmt {ss ss' : List Stmt} (h : List.Forall₂ (Stmt.Rel R) ss ss') :
    List.Forall₂ (Node.Rel R) (ss.map .stmt) (ss'.map .stmt) := by
  rw [List.forall₂_map_left_iff, List.forall₂_map_right_iff]
  exact h.imp fun _ _ => .stmt

theorem fields {n n' : Node} (h : n.Rel R n') : SameFields (Node.Rel R) n.fields n'.fields := by
  cases h with
  | expr h =>
    unfold SameFields Node.fields
    rw [List.forall₂_map_left_iff, List.forall₂_map_right_iff]
    exact h.fields.imp fun _ _ hx => ⟨hx.1, map_expr hx.2⟩
  | stmt h =>
    cases h with
    | expr _ value => exact .cons ⟨rfl, map_expr (.cons value .nil)⟩ .nil
    | assign _ targets value =>
      exact .cons ⟨rfl, map_expr targets⟩ (.cons ⟨rfl, map_expr (.cons value .nil)⟩ .nil)
    | augAssign _ target value =>
      exact .cons ⟨rfl, map_expr (.cons target .nil)⟩
        (.cons ⟨rfl, map_expr (.cons value .nil)⟩ .nil)
    | ifElse _ condition body orelse | whileLoop _ condition body orelse =>
      exact .cons ⟨rfl, map_expr (.cons condition .nil)⟩
        (.cons ⟨rfl, map_stmt body⟩ (.cons ⟨rfl, map_stmt orelse⟩ .nil))
    | forLoop _ target iter body orelse =>
      exact .cons ⟨rfl, map_expr (.cons target .nil)⟩ (.cons ⟨rfl, map_expr (.cons iter .nil)⟩
        (.cons ⟨rfl, map_stmt body⟩ (.cons ⟨rfl, map_stmt orelse⟩ .nil)))
    | functionDef _ parameters decorators body =>
      exact .cons ⟨rfl, map_expr decorators⟩ (.cons ⟨rfl, map_expr (forall₂_default parameters)⟩
        (.cons ⟨rfl, map_stmt body⟩ .nil))
    | ret _ value => exact .cons ⟨rfl, map_expr (forall₂_toList value)⟩ .nil
    | _ => exact .nil

end Node.Rel

section

variable {α β : Type} {R : α → α → Prop} {S : β → β → Prop}

theorem rel_bind {a b : Option α} {f g : α → Option β} (h : Option.Rel R a b)
    (hfg : ∀ x y, R x y → Option.Rel S (f x) (g y)) : Option.Rel S (a.bind f) (b.bind g) := by
  cases h with
  | none => exact .none
  | some h => exact hfg _ _ h

theorem rel_imp {R' : α → α → Prop} {a b : Option α} (h : Option.Rel R a b)
    (himp : ∀ x y, R x y → R' x y) : Option.Rel R' a b := by
  cases h with
  | none => exact .none
  | some h => exact .some (himp _ _ h)

theorem rel_getElem? {as bs : List α} (h : List.Forall₂ R as bs) (i : Nat) :
    Option.Rel R as[i]? bs[i]? := by
  induction h generalizing i with
  | nil => exact .none
  | cons hab _ ih =>
    cases i with
    | zero => exact .some hab
    | succ i => exact ih i

theorem SameFields.lookup {xs ys : List (Field × List α)} (h : SameFields R xs ys) (f : Field) :
    Option.Rel (List.Forall₂ R) (xs.lookup f) (ys.lookup f) := by
  induction h with
  | nil => exact .none
  | cons hxy _ ih =>
    rw [List.lookup_cons, List.lookup_cons, ← hxy.1]
    split
    · exact .some hxy.2
    · exact ih

end

/-- Related nodes have the same places, with related nodes in them. -/
theorem Node.Rel.at? {n n' : Node} (h : n.Rel R n') (p : Place) :
    Option.Rel (Node.Rel R) (n.at? p) (n'.at? p) := by
  induction p generalizing n n' with
  | nil => exact .some h
  | cons s p ih =>
    have hchild : Option.Rel (Node.Rel R) (n.child? s) (n'.child? s) :=
      rel_bind (h.fields.lookup s.field) fun _ _ hcs => rel_getElem? hcs s.index
    exact rel_bind hchild fun _ _ hc => ih hc

/-- **Related scripts have the same places**, with related nodes in them. -/
theorem Module.Rel.at? {m m' : Module} (h : m.Rel R m') (p : Place) :
    Option.Rel (Node.Rel R) (m.at? p) (m'.at? p) := by
  cases p with
  | nil => exact .none
  | cons s p =>
    simp only [Module.at?]
    split
    · exact rel_bind (rel_getElem? h.body s.index) fun _ _ ht => Node.Rel.at? (.stmt ht) p
    · exact .none

theorem Module.Rel.site_at? {m m' : Module} (h : m.Rel R m') (p : Place) :
    Option.Rel (fun a b : Node => R a.site b.site) (m.at? p) (m'.at? p) :=
  rel_imp (h.at? p) fun _ _ hab => hab.site

end StaticScript.Source
