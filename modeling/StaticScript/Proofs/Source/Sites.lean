import StaticScript.Source.Traversal
import StaticScript.Proofs.Source.Query
import Mathlib.Data.List.Flatten
import Mathlib.Data.List.Nodup

/-!
# Sites in the order of the visit

`mapSites` goes through the sites of a tree as through a list: the state is handed along the sites
of the tree in order (`Stmt.sites`), and the sites that come out are those of the tree that comes
out (`Expr.visit_sites`, `visit_sitesBlock`).  So the nodes of a numbered script are numbered by
their places in this list, and no two statements of the script have one number
(`nodup_ids_nested`), unless there are too many nodes for the numbers.
-/

namespace StaticScript.Source

variable {σ : Type}

/-! ### Lists of sites -/

/-- Replaces sites one after the other, and hands a state along. -/
def Site.visit (f : σ → Site → σ × Site) (s : σ) : List Site → σ × List Site
  | [] => (s, [])
  | site :: sites =>
    let (s, site) := f s site
    let (s, sites) := visit f s sites
    (s, site :: sites)

theorem Site.visit_append (f : σ → Site → σ × Site) (s : σ) (as bs : List Site) :
    visit f s (as ++ bs) = ((visit f (visit f s as).1 bs).1,
      (visit f s as).2 ++ (visit f (visit f s as).1 bs).2) := by
  induction as generalizing s with
  | nil => rfl
  | cons a as ih => simp [visit, ih]

/-- The sites of an expression and of all expressions below it. -/
def Expr.sites (e : Expr) : List Site := e.nodes.map Expr.site

mutual

/-- The sites of a statement, of its expressions, and of the statements nested in it. -/
def Stmt.sites (s : Stmt) : List Site :=
  s.site :: s.expressions.flatMap Expr.sites ++ match s with
    | .ifElse _ _ body orelse | .whileLoop _ _ body orelse | .forLoop _ _ _ body orelse =>
      sitesBlock body ++ sitesBlock orelse
    | .functionDef _ _ _ _ _ body => sitesBlock body
    | _ => []

/-- The sites of the statements of a block. -/
def sitesBlock : List Stmt → List Site
  | [] => []
  | s :: ss => s.sites ++ sitesBlock ss

end

/-- The sites of the nodes of a script. -/
def Module.sites (m : Module) : List Site := sitesBlock m.body

/-! ### Visiting a tree -/

section Visit

variable (f : σ → Site → σ × Site)

namespace Expr

mutual

theorem visit_nodes (s : σ) : (e : Expr) →
    Site.visit f s (e.nodes.map site) =
      ((e.mapSites f s).1, (e.mapSites f s).2.nodes.map site)
  | .int .. | .float .. | .bool .. | .str .. | .none .. | .name .. | .other .. => by
    simp [nodes, site, Site.visit, mapSites]
  | .binary _ _ left right | .named _ left right => by
    -- A part is visited in the state that the parts before it leave, so it is taken in all states.
    have hleft := fun s => visit_nodes s left
    have hright := fun s => visit_nodes s right
    simp [nodes, site, Site.visit, Site.visit_append, mapSites, hleft, hright]
  | .boolOp _ _ es | .list _ es | .tuple _ es | .set _ es => by
    have hes := fun s => visit_nodesList s es
    simp [nodes, site, Site.visit, mapSites, hes]
  | .unary _ _ e | .attr _ e _ => by
    have he := fun s => visit_nodes s e
    simp [nodes, site, Site.visit, mapSites, he]
  | .compare _ left _ es => by
    have hleft := fun s => visit_nodes s left
    have hes := fun s => visit_nodesList s es
    simp [nodes, site, Site.visit, Site.visit_append, mapSites, hleft, hes]
  | .call _ function es ks => by
    have hfunction := fun s => visit_nodes s function
    have hes := fun s => visit_nodesList s es
    have hks := fun s => visit_nodesKeywords s ks
    simp [nodes, site, Site.visit, Site.visit_append, mapSites, hfunction, hes, hks]
  | .dict _ keys values => by
    have hkeys := fun s => visit_nodesList s keys
    have hvalues := fun s => visit_nodesList s values
    simp [nodes, site, Site.visit, Site.visit_append, mapSites, hkeys, hvalues]

theorem visit_nodesList (s : σ) : (es : List Expr) →
    Site.visit f s ((nodesList es).map site) =
      ((mapSitesList f s es).1, (nodesList (mapSitesList f s es).2).map site)
  | [] => rfl
  | e :: es => by
    have he := fun s => visit_nodes s e
    have hes := fun s => visit_nodesList s es
    simp [nodesList, Site.visit_append, mapSitesList, he, hes]

theorem visit_nodesKeywords (s : σ) : (ks : List (String × Expr)) →
    Site.visit f s ((nodesKeywords ks).map site) =
      ((mapSitesKeywords f s ks).1, (nodesKeywords (mapSitesKeywords f s ks).2).map site)
  | [] => rfl
  | (_, e) :: ks => by
    have he := fun s => visit_nodes s e
    have hks := fun s => visit_nodesKeywords s ks
    simp [nodesKeywords, Site.visit_append, mapSitesKeywords, he, hks]

end

theorem visit_sites (s : σ) (e : Expr) :
    Site.visit f s e.sites = ((e.mapSites f s).1, (e.mapSites f s).2.sites) :=
  visit_nodes f s e

theorem visit_sitesList (s : σ) (es : List Expr) :
    Site.visit f s (es.flatMap sites) =
      ((mapSitesList f s es).1, (mapSitesList f s es).2.flatMap sites) := by
  have hes : ∀ es : List Expr, es.flatMap sites = (nodesList es).map site := by
    intro es
    rw [nodesList_eq, List.map_flatMap]
    rfl
  rw [hes, hes, visit_nodesList]

theorem visit_sitesOption (s : σ) (e : Option Expr) :
    Site.visit f s (e.toList.flatMap sites) =
      ((mapSitesOption f s e).1, (mapSitesOption f s e).2.toList.flatMap sites) := by
  cases e with
  | none => rfl
  | some e => simp [mapSitesOption, visit_sites]

end Expr

theorem flatMap_sites_default (p : Parameter) (ps : List Parameter) :
    ((p :: ps).filterMap Parameter.default).flatMap Expr.sites =
      p.default.toList.flatMap Expr.sites ++
        (ps.filterMap Parameter.default).flatMap Expr.sites := by
  cases hp : p.default <;> simp [hp]

theorem visit_sitesParameters (s : σ) (ps : List Parameter) :
    Site.visit f s ((ps.filterMap Parameter.default).flatMap Expr.sites) =
      ((mapSitesParameters f s ps).1,
        ((mapSitesParameters f s ps).2.filterMap Parameter.default).flatMap Expr.sites) := by
  induction ps generalizing s with
  | nil => rfl
  | cons p ps ih =>
    rw [flatMap_sites_default, Site.visit_append, Expr.visit_sitesOption, ih]
    simp only [mapSitesParameters, flatMap_sites_default]

namespace Stmt

mutual

theorem visit_sites (s : σ) : (stmt : Stmt) →
    Site.visit f s stmt.sites = ((stmt.mapSites f s).1, (stmt.mapSites f s).2.sites)
  | .brk _ | .cont _ | .pass _ | .importNames .. | .importFrom .. | .docString .. | .comment ..
  | .other .. => by
    simp [sites, site, expressions, Site.visit, mapSites]
  | .expr _ e => by
    simp [sites, site, expressions, Site.visit, mapSites, Expr.visit_sites]
  | .assign _ targets value => by
    simp [sites, site, expressions, Site.visit, Site.visit_append, mapSites, Expr.visit_sites,
      Expr.visit_sitesList]
  | .augAssign _ target _ value => by
    simp [sites, site, expressions, Site.visit, Site.visit_append, mapSites, Expr.visit_sites]
  | .ret _ value => by
    simp [sites, site, expressions, Site.visit, mapSites, Expr.visit_sitesOption]
  | .ifElse _ c body orelse | .whileLoop _ c body orelse => by
    have hbody := fun s => visit_sitesBlock s body
    have horelse := fun s => visit_sitesBlock s orelse
    simp [sites, site, expressions, Site.visit, Site.visit_append, mapSites, Expr.visit_sites,
      hbody, horelse]
  | .forLoop _ target iter body orelse => by
    have hbody := fun s => visit_sitesBlock s body
    have horelse := fun s => visit_sitesBlock s orelse
    simp [sites, site, expressions, Site.visit, Site.visit_append, mapSites, Expr.visit_sites,
      hbody, horelse]
  | .functionDef _ _ parameters _ decorators body => by
    have hbody := fun s => visit_sitesBlock s body
    simp only [sites, site, expressions, List.flatMap_append, List.cons_append, Site.visit,
      Site.visit_append, visit_sitesParameters, hbody]
    simp only [mapSites, Expr.visit_sitesList, sites, site, expressions, List.flatMap_append,
      List.cons_append]

theorem visit_sitesBlock (s : σ) : (stmts : List Stmt) →
    Site.visit f s (sitesBlock stmts) =
      ((mapSitesBlock f s stmts).1, sitesBlock (mapSitesBlock f s stmts).2)
  | [] => rfl
  | stmt :: stmts => by
    have hstmt := fun s => visit_sites s stmt
    have hstmts := fun s => visit_sitesBlock s stmts
    simp [sitesBlock, Site.visit_append, mapSitesBlock, hstmt, hstmts]

end

theorem sites_eq (s : Stmt) : s.sites =
    s.site :: (s.expressions.flatMap Expr.sites ++ s.blocks.flatMap sitesBlock) := by
  cases s <;> simp [sites, blocks]

theorem sitesBlock_eq (ss : List Stmt) : sitesBlock ss = ss.flatMap sites := by
  induction ss with
  | nil => rfl
  | cons s ss ih => rw [sitesBlock, ih, List.flatMap_cons]

/-- The statements in a statement are visited in order, among their expressions. -/
theorem sublist_sites (s : Stmt) : (s.nested.map site).Sublist s.sites := by
  induction s using induction with
  | step s ih =>
    rw [nested_eq, sites_eq, List.map_cons, List.map_flatMap]
    refine (List.Sublist.trans ?_ (List.sublist_append_right _ _)).cons_cons _
    refine List.Sublist.flatMap_right _ fun b hb => ?_
    rw [nestedBlock_eq, sitesBlock_eq, List.map_flatMap]
    exact List.Sublist.flatMap_right _ (ih b hb)

theorem sublist_sitesBlock (ss : List Stmt) :
    ((nestedBlock ss).map site).Sublist (sitesBlock ss) := by
  rw [nestedBlock_eq, sitesBlock_eq, List.map_flatMap]
  exact List.Sublist.flatMap_right _ fun s _ => s.sublist_sites

theorem sublist_nestedBlock (ss : List Stmt) : ss.Sublist (nestedBlock ss) := by
  induction ss with
  | nil => exact .slnil
  | cons s ss ih =>
    rw [nestedBlock, nested_eq, List.cons_append]
    exact (List.sublist_append_of_sublist_right ih).cons_cons _

end Stmt

end Visit

/-! ### Numbers -/

theorem Site.visit_number (n : Nat) (sites : List Site) :
    (visit number n sites).2.map id = (List.range' n sites.length).map UInt32.ofNat := by
  induction sites generalizing n with
  | nil => rfl
  | cons site sites ih => simp [visit, number, ih, List.range'_succ]

/-- The nodes of a numbered script are numbered from `1` on in the order of the visit. -/
theorem Module.ids_number (m : Module) :
    m.number.sites.map Site.id = (List.range' 1 m.sites.length).map UInt32.ofNat := by
  have h := congrArg Prod.snd (Stmt.visit_sitesBlock Site.number 1 m.body)
  rw [← Site.visit_number]
  exact (congrArg (List.map Site.id) h).symm

theorem Module.length_sites_number (m : Module) : m.number.sites.length = m.sites.length := by
  simpa using congrArg List.length m.ids_number

/-- **The numbers increase in the order of the visit**, if there is a number for every node. -/
theorem Module.pairwise_ids_number {m : Module} (h : m.sites.length < UInt32.size) :
    (m.number.sites.map Site.id).Pairwise (· < ·) := by
  rw [ids_number, List.pairwise_map]
  refine (List.pairwise_lt_range' 1).imp_of_mem fun ha hb hab => ?_
  have ha := List.mem_range'_1.1 ha
  have hb := List.mem_range'_1.1 hb
  rw [UInt32.lt_iff_toNat_lt, UInt32.toNat_ofNat_of_lt' (by omega),
    UInt32.toNat_ofNat_of_lt' (by omega)]
  exact hab

/-- **No two statements of a script have one number**, wherever they are nested. -/
theorem Module.nodup_ids_nested {m : Module} (h : m.sites.length < UInt32.size) :
    ((Stmt.nestedBlock m.number.body).map fun s => s.site.id).Nodup := by
  have hnodup : (m.number.sites.map Site.id).Nodup :=
    (pairwise_ids_number h).imp fun hlt => UInt32.ne_of_lt hlt
  have hsublist := (Stmt.sublist_sitesBlock m.number.body).map Site.id
  rw [List.map_map] at hsublist
  exact hnodup.sublist hsublist

theorem Module.nodup_ids_number {m : Module} (h : m.sites.length < UInt32.size) :
    (m.number.body.map fun s => s.site.id).Nodup :=
  (nodup_ids_nested h).sublist ((Stmt.sublist_nestedBlock _).map _)

end StaticScript.Source
