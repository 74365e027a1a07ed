import StaticScript.Proofs.Source.Shape

/-!
# Numbered scripts

A script is numbered if its nodes have the numbers from `1` on in the order of the visit, and it has
the number `0` itself (`Module.IsNumbered`).  Numbering a script gives it these numbers and changes
nothing else (`isNumbered_number`, `unnumbered_number`), and a script that is numbered stays as it
is (`number_of_isNumbered`).
-/

namespace StaticScript.Source

variable {σ : Type} {f : σ → Site → σ × Site}

/-! ### Sites that stay -/

/-- The sites come out of a visit as they were. -/
def Site.Stay (f : σ → Site → σ × Site) (s : σ) (sites : List Site) : Prop :=
  (visit f s sites).2 = sites

theorem Site.stay_cons {s : σ} {site : Site} {sites : List Site} :
    Stay f s (site :: sites) ↔ (f s site).2 = site ∧ Stay f (f s site).1 sites := by
  simp [Stay, visit]

theorem Site.stay_append {s : σ} {as bs : List Site} :
    Stay f s (as ++ bs) ↔ Stay f s as ∧ Stay f (visit f s as).1 bs := by
  induction as generalizing s with
  | nil => simp [Stay, visit]
  | cons a as ih => rw [List.cons_append, stay_cons, ih, stay_cons, and_assoc]; rfl

namespace Expr

mutual

theorem mapSites_of_stay (s : σ) : (e : Expr) →
    Site.Stay f s (e.nodes.map site) → (e.mapSites f s).2 = e
  | .int .., h | .float .., h | .bool .., h | .str .., h | .none .., h | .name .., h
  | .other .., h => by
    simp only [nodes, List.map_cons, Site.stay_cons, site] at h
    simp [mapSites, h.1]
  | .binary _ _ left right, h | .named _ left right, h => by
    simp only [nodes, List.map_cons, List.map_append, Site.stay_cons, Site.stay_append, site,
      visit_nodes] at h
    simp [mapSites, h.1, mapSites_of_stay _ left h.2.1, mapSites_of_stay _ right h.2.2]
  | .boolOp _ _ es, h | .list _ es, h | .tuple _ es, h | .set _ es, h => by
    simp only [nodes, List.map_cons, Site.stay_cons, site] at h
    simp [mapSites, h.1, mapSitesList_of_stay _ es h.2]
  | .unary _ _ e, h | .attr _ e _, h => by
    simp only [nodes, List.map_cons, Site.stay_cons, site] at h
    simp [mapSites, h.1, mapSites_of_stay _ e h.2]
  | .compare _ left _ es, h => by
    simp only [nodes, List.map_cons, List.map_append, Site.stay_cons, Site.stay_append, site,
      visit_nodes] at h
    simp [mapSites, h.1, mapSites_of_stay _ left h.2.1, mapSitesList_of_stay _ es h.2.2]
  | .call _ function es ks, h => by
    simp only [nodes, List.map_cons, List.map_append, Site.stay_cons, Site.stay_append, site,
      Site.visit_append, visit_nodes, visit_nodesList] at h
    simp [mapSites, h.1, mapSites_of_stay _ function h.2.1.1, mapSitesList_of_stay _ es h.2.1.2,
      mapSitesKeywords_of_stay _ ks h.2.2]
  | .dict _ keys values, h => by
    simp only [nodes, List.map_cons, List.map_append, Site.stay_cons, Site.stay_append, site,
      visit_nodesList] at h
    simp [mapSites, h.1, mapSitesList_of_stay _ keys h.2.1, mapSitesList_of_stay _ values h.2.2]

theorem mapSitesList_of_stay (s : σ) : (es : List Expr) →
    Site.Stay f s ((nodesList es).map site) → (mapSitesList f s es).2 = es
  | [], _ => rfl
  | e :: es, h => by
    simp only [nodesList, List.map_append, Site.stay_append, visit_nodes] at h
    simp [mapSitesList, mapSites_of_stay _ e h.1, mapSitesList_of_stay _ es h.2]

theorem mapSitesKeywords_of_stay (s : σ) : (ks : List (String × Expr)) →
    Site.Stay f s ((nodesKeywords ks).map site) → (mapSitesKeywords f s ks).2 = ks
  | [], _ => rfl
  | (_, e) :: ks, h => by
    simp only [nodesKeywords, List.map_append, Site.stay_append, visit_nodes] at h
    simp [mapSitesKeywords, mapSites_of_stay _ e h.1, mapSitesKeywords_of_stay _ ks h.2]

end

theorem mapSites_of_stay_sites {s : σ} {e : Expr} (h : Site.Stay f s e.sites) :
    (e.mapSites f s).2 = e := mapSites_of_stay s e h

theorem mapSitesList_of_stay_sites {s : σ} {es : List Expr}
    (h : Site.Stay f s (es.flatMap sites)) : (mapSitesList f s es).2 = es := by
  refine mapSitesList_of_stay s es ?_
  rw [nodesList_eq, List.map_flatMap]
  exact h

end Expr

theorem mapSitesOption_of_stay {s : σ} {e : Option Expr}
    (h : Site.Stay f s (e.toList.flatMap Expr.sites)) : (mapSitesOption f s e).2 = e := by
  cases e with
  | none => rfl
  | some e =>
    rw [Option.toList_some, List.flatMap_singleton] at h
    simp [mapSitesOption, Expr.mapSites_of_stay_sites h]

theorem mapSitesParameters_of_stay {s : σ} {ps : List Parameter}
    (h : Site.Stay f s ((ps.filterMap Parameter.default).flatMap Expr.sites)) :
    (mapSitesParameters f s ps).2 = ps := by
  induction ps generalizing s with
  | nil => rfl
  | cons p ps ih =>
    rw [flatMap_sites_default, Site.stay_append, Expr.visit_sitesOption] at h
    simp [mapSitesParameters, mapSitesOption_of_stay h.1, ih h.2]

namespace Stmt

mutual

theorem mapSites_of_stay (s : σ) : (stmt : Stmt) →
    Site.Stay f s stmt.sites → (stmt.mapSites f s).2 = stmt
  | .brk _, h | .cont _, h | .pass _, h | .importNames .., h | .importFrom .., h
  | .docString .., h | .comment .., h | .other .., h => by
    rw [sites_eq, Site.stay_cons, site] at h
    simp [mapSites, h.1]
  | .expr _ e, h => by
    simp only [sites, site, expressions, List.flatMap_singleton, List.append_nil,
      Site.stay_cons] at h
    simp [mapSites, h.1, Expr.mapSites_of_stay_sites h.2]
  | .assign _ targets value, h => by
    simp only [sites, site, expressions, List.flatMap_append, List.flatMap_singleton,
      List.append_nil, Site.stay_cons, Site.stay_append, Expr.visit_sitesList] at h
    simp [mapSites, h.1, Expr.mapSitesList_of_stay_sites h.2.1, Expr.mapSites_of_stay_sites h.2.2]
  | .augAssign _ target _ value, h => by
    simp only [sites, site, expressions, List.flatMap_cons, List.flatMap_nil, List.append_nil,
      Site.stay_cons, Site.stay_append, Expr.visit_sites] at h
    simp [mapSites, h.1, Expr.mapSites_of_stay_sites h.2.1, Expr.mapSites_of_stay_sites h.2.2]
  | .ret _ value, h => by
    simp only [sites, site, expressions, List.append_nil, Site.stay_cons] at h
    simp [mapSites, h.1, mapSitesOption_of_stay h.2]
  | .ifElse _ c body orelse, h | .whileLoop _ c body orelse, h => by
    simp only [sites, site, expressions, List.flatMap_singleton, List.cons_append,
      Site.stay_cons, Site.stay_append, Expr.visit_sites, visit_sitesBlock] at h
    simp [mapSites, h.1, Expr.mapSites_of_stay_sites h.2.1, mapSitesBlock_of_stay _ body h.2.2.1,
      mapSitesBlock_of_stay _ orelse h.2.2.2]
  | .forLoop _ target iter body orelse, h => by
    simp only [sites, site, expressions, List.flatMap_cons, List.flatMap_nil, List.append_nil,
      List.cons_append, List.append_assoc, Site.stay_cons, Site.stay_append, Expr.visit_sites,
      visit_sitesBlock] at h
    simp [mapSites, h.1, Expr.mapSites_of_stay_sites h.2.1, Expr.mapSites_of_stay_sites h.2.2.1,
      mapSitesBlock_of_stay _ body h.2.2.2.1, mapSitesBlock_of_stay _ orelse h.2.2.2.2]
  | .functionDef _ _ parameters _ decorators body, h => by
    simp only [sites, site, expressions, List.flatMap_append, List.cons_append,
      List.append_assoc, Site.stay_cons, Site.stay_append, visit_sitesParameters] at h
    rw [Expr.visit_sitesList] at h
    simp [mapSites, h.1, Expr.mapSitesList_of_stay_sites h.2.1,
      mapSitesParameters_of_stay h.2.2.1, mapSitesBlock_of_stay _ body h.2.2.2]

theorem mapSitesBlock_of_stay (s : σ) : (stmts : List Stmt) →
    Site.Stay f s (sitesBlock stmts) → (mapSitesBlock f s stmts).2 = stmts
  | [], _ => rfl
  | stmt :: stmts, h => by
    rw [sitesBlock, Site.stay_append, visit_sites] at h
    simp [mapSitesBlock, mapSites_of_stay _ stmt h.1, mapSitesBlock_of_stay _ stmts h.2]

end

end Stmt

/-! ### Numbers -/

theorem Site.stay_number {n : Nat} {sites : List Site}
    (h : sites.map (·.id.toNat) = List.range' n sites.length) : Stay number n sites := by
  induction sites generalizing n with
  | nil => rfl
  | cons site sites ih =>
    rw [List.map_cons, List.length_cons, List.range'_succ, List.cons.injEq] at h
    rw [stay_cons]
    refine ⟨?_, ih h.2⟩
    simp [number, ← h.1]

namespace Module

/-- The script is numbered in the order of the visit. -/
def IsNumbered (m : Module) : Prop :=
  m.id = 0 ∧ m.sites.map (·.id.toNat) = List.range' 1 m.sites.length

instance (m : Module) : Decidable m.IsNumbered := inferInstanceAs (Decidable (_ ∧ _))

/-- The script without its numbers. -/
def unnumbered (m : Module) : Module :=
  { m with id := 0, body := m.body.map (Stmt.mapSite Site.unnumbered) }

/-- Numbering changes nothing but the numbers. -/
theorem unnumbered_number (m : Module) : m.number.unnumbered = m.unnumbered := by
  unfold unnumbered
  rw [shape_number]
  rfl

/-- **Numbering numbers**, if there is a number for every node. -/
theorem isNumbered_number {m : Module} (h : m.sites.length < UInt32.size) :
    m.number.IsNumbered := by
  refine ⟨rfl, ?_⟩
  rw [length_sites_number]
  calc m.number.sites.map (·.id.toNat)
      = (m.number.sites.map Site.id).map UInt32.toNat := by rw [List.map_map]; rfl
    _ = (List.range' 1 m.sites.length).map fun n => (UInt32.ofNat n).toNat := by
      rw [ids_number, List.map_map]
      rfl
    _ = (List.range' 1 m.sites.length).map fun n => n := by
      refine List.map_congr_left fun n hn => ?_
      have hn := List.mem_range'_1.1 hn
      exact UInt32.toNat_ofNat_of_lt' (by omega)
    _ = List.range' 1 m.sites.length := List.map_id' _

/-- A script that is numbered stays as it is. -/
theorem number_of_isNumbered {m : Module} (h : m.IsNumbered) : m.number = m := by
  obtain ⟨hid, hids⟩ := h
  have hbody := Stmt.mapSitesBlock_of_stay 1 m.body (Site.stay_number hids)
  unfold number
  rw [hbody, ← hid]

end Module

end StaticScript.Source
