import StaticScript.Proofs.Source.Sites

/-!
# Trees up to their sites

`Expr.mapSite` and `Stmt.mapSite` replace all sites of a tree, each for itself.  Two trees that
become the same in this way have one shape, and may differ only in what is dropped from the sites.
A numbered tree has the shape of the tree that it was numbered from (`Stmt.mapSite_mapSitesBlock`),
and the answers to questions that are asked of trees depend on the shape only.
-/

namespace StaticScript.Source

variable (g : Site → Site)

/-- Replaces sites without a state. -/
def Site.each : Unit → Site → Unit × Site := fun _ site => ((), g site)

/-! ### Expressions -/

namespace Expr

/-- Replaces every site of an expression. -/
def mapSite (e : Expr) : Expr := (e.mapSites (Site.each g) ()).2

theorem mapSitesList_each (es : List Expr) :
    (mapSitesList (Site.each g) () es).2 = es.map (mapSite g) := by
  induction es with
  | nil => rfl
  | cons e es ih =>
    rw [mapSitesList, List.map_cons, ← ih]
    rfl

theorem mapSitesKeywords_each (ks : List (String × Expr)) :
    (mapSitesKeywords (Site.each g) () ks).2 = ks.map (Prod.map id (mapSite g)) := by
  induction ks with
  | nil => rfl
  | cons k ks ih =>
    rw [mapSitesKeywords, List.map_cons, ← ih]
    rfl

section

variable (site : Site)

@[simp] theorem mapSite_int (n : Int64) : (int site n).mapSite g = int (g site) n := rfl
@[simp] theorem mapSite_float (x : Double) : (float site x).mapSite g = float (g site) x := rfl
@[simp] theorem mapSite_bool (b : Bool) : (bool site b).mapSite g = bool (g site) b := rfl
@[simp] theorem mapSite_str (s : String) : (str site s).mapSite g = str (g site) s := rfl
@[simp] theorem mapSite_none : (none site).mapSite g = none (g site) := rfl
@[simp] theorem mapSite_name (x : String) : (name site x).mapSite g = name (g site) x := rfl
@[simp] theorem mapSite_other (c : String) : (other site c).mapSite g = other (g site) c := rfl

@[simp] theorem mapSite_binary (op : BinaryOp) (l r : Expr) :
    (binary site op l r).mapSite g = binary (g site) op (l.mapSite g) (r.mapSite g) := rfl

@[simp] theorem mapSite_boolOp (op : BoolOp) (es : List Expr) :
    (boolOp site op es).mapSite g = boolOp (g site) op (es.map (mapSite g)) := by
  rw [← mapSitesList_each]
  rfl

@[simp] theorem mapSite_unary (op : UnaryOp) (e : Expr) :
    (unary site op e).mapSite g = unary (g site) op (e.mapSite g) := rfl

@[simp] theorem mapSite_compare (e : Expr) (ops : List CompareOp) (es : List Expr) :
    (compare site e ops es).mapSite g =
      compare (g site) (e.mapSite g) ops (es.map (mapSite g)) := by
  rw [← mapSitesList_each]
  rfl

@[simp] theorem mapSite_call (f : Expr) (es : List Expr) (ks : List (String × Expr)) :
    (call site f es ks).mapSite g =
      call (g site) (f.mapSite g) (es.map (mapSite g)) (ks.map (Prod.map id (mapSite g))) := by
  rw [← mapSitesList_each, ← mapSitesKeywords_each]
  rfl

@[simp] theorem mapSite_attr (e : Expr) (a : String) :
    (attr site e a).mapSite g = attr (g site) (e.mapSite g) a := rfl

@[simp] theorem mapSite_list (es : List Expr) :
    (list site es).mapSite g = list (g site) (es.map (mapSite g)) := by
  rw [← mapSitesList_each]
  rfl

@[simp] theorem mapSite_tuple (es : List Expr) :
    (tuple site es).mapSite g = tuple (g site) (es.map (mapSite g)) := by
  rw [← mapSitesList_each]
  rfl

@[simp] theorem mapSite_set (es : List Expr) :
    (set site es).mapSite g = set (g site) (es.map (mapSite g)) := by
  rw [← mapSitesList_each]
  rfl

@[simp] theorem mapSite_dict (ks vs : List Expr) :
    (dict site ks vs).mapSite g = dict (g site) (ks.map (mapSite g)) (vs.map (mapSite g)) := by
  rw [← mapSitesList_each, ← mapSitesList_each]
  rfl

@[simp] theorem mapSite_named (t e : Expr) :
    (named site t e).mapSite g = named (g site) (t.mapSite g) (e.mapSite g) := rfl

end

@[simp] theorem site_mapSite (e : Expr) : (e.mapSite g).site = g e.site := by
  cases e <;> simp [site]

@[simp] theorem asName_mapSite (e : Expr) : (e.mapSite g).asName = e.asName := by
  cases e <;> simp [asName]

@[simp] theorem children_mapSite (e : Expr) :
    (e.mapSite g).children = e.children.map (mapSite g) := by
  cases e <;> simp [children, Function.comp_def]

@[simp] theorem nodes_mapSite (e : Expr) : (e.mapSite g).nodes = e.nodes.map (mapSite g) := by
  induction e using Expr.induction with
  | step e ih =>
    rw [nodes_eq, nodes_eq e, children_mapSite, List.map_cons, List.flatMap_map, List.map_flatMap]
    exact congrArg _ (List.flatMap_congr fun c hc => ih c hc)

theorem mapSite_id : mapSite id = id := by
  funext e
  induction e using Expr.induction with
  | step e ih =>
    have ihs : ∀ es : List Expr, (∀ c ∈ es, c ∈ e.children) → es.map (mapSite id) = es := by
      intro es hes
      rw [List.map_congr_left fun c hc => ih c (hes c hc), List.map_id]
    cases e with
    | call site function arguments keywords =>
      have hkeywords : keywords.map (Prod.map id (mapSite id)) = keywords := by
        refine (List.map_congr_left fun k hk => ?_).trans (List.map_id keywords)
        have hchild : k.2 ∈ (call site function arguments keywords).children := by
          simp only [children, List.mem_append, List.mem_map]
          exact .inr ⟨k, hk, rfl⟩
        exact Prod.ext rfl (ih k.2 hchild)
      rw [mapSite_call, hkeywords, ih function (by simp [children]),
        ihs arguments fun c hc => by simp [children, hc]]
      rfl
    | _ => simp_all [children]

@[simp] theorem containsCall_mapSite (e : Expr) :
    (e.mapSite g).containsCall = e.containsCall := by
  have h : ∀ n : Expr, (n.mapSite g).isCall = n.isCall := fun n => by cases n <;> simp [isCall]
  simp [containsCall, List.any_map, Function.comp_def, h]

@[simp] theorem containsNamed_mapSite (e : Expr) :
    (e.mapSite g).containsNamed = e.containsNamed := by
  have h : ∀ n : Expr, (n.mapSite g).isNamed = n.isNamed := fun n => by cases n <;> simp [isNamed]
  simp [containsNamed, List.any_map, Function.comp_def, h]

@[simp] theorem mentions_mapSite (x : String) (e : Expr) :
    (e.mapSite g).mentions x = e.mentions x := by
  simp [mentions, List.any_map, Function.comp_def]

@[simp] theorem names_mapSite (x : String) (e : Expr) : (e.mapSite g).names x = e.names x := by
  cases e <;> simp [names]

@[simp] theorem hasOperands_mapSite (e : Expr) : (e.mapSite g).hasOperands = e.hasOperands := by
  rw [hasOperands, hasOperands, nodes_mapSite, List.all_map]
  exact congrArg _ (funext fun n => by cases n <;> simp)

section

variable {g} {σ : Type} {f : σ → Site → σ × Site}

mutual

/-- Replacing sites one after the other keeps the shape, if what is left of each site is kept. -/
theorem mapSite_mapSites (hf : ∀ s site, g (f s site).2 = g site) (s : σ) : (e : Expr) →
    (e.mapSites f s).2.mapSite g = e.mapSite g
  | .int .. | .float .. | .bool .. | .str .. | .none .. | .name .. | .other .. => by
    simp [mapSites, hf]
  | .binary _ _ left right | .named _ left right => by
    have hleft := fun s => mapSite_mapSites hf s left
    have hright := fun s => mapSite_mapSites hf s right
    simp [mapSites, hf, hleft, hright]
  | .boolOp _ _ es | .list _ es | .tuple _ es | .set _ es => by
    have hes := fun s => mapSite_mapSitesList hf s es
    simp [mapSites, hf, hes]
  | .unary _ _ e | .attr _ e _ => by
    have he := fun s => mapSite_mapSites hf s e
    simp [mapSites, hf, he]
  | .compare _ left _ es => by
    have hleft := fun s => mapSite_mapSites hf s left
    have hes := fun s => mapSite_mapSitesList hf s es
    simp [mapSites, hf, hleft, hes]
  | .call _ function es ks => by
    have hfunction := fun s => mapSite_mapSites hf s function
    have hes := fun s => mapSite_mapSitesList hf s es
    have hks := fun s => mapSite_mapSitesKeywords hf s ks
    simp [mapSites, hf, hfunction, hes, hks]
  | .dict _ keys values => by
    have hkeys := fun s => mapSite_mapSitesList hf s keys
    have hvalues := fun s => mapSite_mapSitesList hf s values
    simp [mapSites, hf, hkeys, hvalues]

theorem mapSite_mapSitesList (hf : ∀ s site, g (f s site).2 = g site) (s : σ) : (es : List Expr) →
    (mapSitesList f s es).2.map (mapSite g) = es.map (mapSite g)
  | [] => rfl
  | e :: es => by
    have he := fun s => mapSite_mapSites hf s e
    have hes := fun s => mapSite_mapSitesList hf s es
    simp [mapSitesList, he, hes]

theorem mapSite_mapSitesKeywords (hf : ∀ s site, g (f s site).2 = g site) (s : σ) :
    (ks : List (String × Expr)) →
    (mapSitesKeywords f s ks).2.map (Prod.map id (mapSite g)) = ks.map (Prod.map id (mapSite g))
  | [] => rfl
  | (_, e) :: ks => by
    have he := fun s => mapSite_mapSites hf s e
    have hks := fun s => mapSite_mapSitesKeywords hf s ks
    simp [mapSitesKeywords, he, hks]

end

end

end Expr

/-! ### Statements -/

/-- Replaces every site of a parameter. -/
def Parameter.mapSite (p : Parameter) : Parameter :=
  { p with default := p.default.map (Expr.mapSite g) }

theorem Parameter.mapSite_id : Parameter.mapSite id = id := by
  funext p
  simp [Parameter.mapSite, Expr.mapSite_id]

theorem mapSitesOption_each (e : Option Expr) :
    (mapSitesOption (Site.each g) () e).2 = e.map (Expr.mapSite g) := by
  cases e <;> rfl

theorem mapSitesParameters_each (ps : List Parameter) :
    (mapSitesParameters (Site.each g) () ps).2 = ps.map (Parameter.mapSite g) := by
  induction ps with
  | nil => rfl
  | cons p ps ih =>
    rw [List.map_cons, ← ih, Parameter.mapSite, ← mapSitesOption_each]
    rfl

namespace Stmt

/-- Replaces every site of a statement. -/
def mapSite (s : Stmt) : Stmt := (s.mapSites (Site.each g) ()).2

theorem mapSitesBlock_each (ss : List Stmt) :
    (mapSitesBlock (Site.each g) () ss).2 = ss.map (mapSite g) := by
  induction ss with
  | nil => rfl
  | cons s ss ih =>
    rw [List.map_cons, ← ih]
    rfl

section

variable (site : Site)

@[simp] theorem mapSite_expr (e : Expr) :
    (expr site e).mapSite g = expr (g site) (e.mapSite g) := rfl

@[simp] theorem mapSite_assign (ts : List Expr) (e : Expr) :
    (assign site ts e).mapSite g = assign (g site) (ts.map (Expr.mapSite g)) (e.mapSite g) := by
  rw [← Expr.mapSitesList_each]
  rfl

@[simp] theorem mapSite_augAssign (t : Expr) (op : BinaryOp) (e : Expr) :
    (augAssign site t op e).mapSite g =
      augAssign (g site) (t.mapSite g) op (e.mapSite g) := rfl

@[simp] theorem mapSite_ifElse (c : Expr) (body orelse : List Stmt) :
    (ifElse site c body orelse).mapSite g =
      ifElse (g site) (c.mapSite g) (body.map (mapSite g)) (orelse.map (mapSite g)) := by
  rw [← mapSitesBlock_each, ← mapSitesBlock_each]
  rfl

@[simp] theorem mapSite_whileLoop (c : Expr) (body orelse : List Stmt) :
    (whileLoop site c body orelse).mapSite g =
      whileLoop (g site) (c.mapSite g) (body.map (mapSite g)) (orelse.map (mapSite g)) := by
  rw [← mapSitesBlock_each, ← mapSitesBlock_each]
  rfl

@[simp] theorem mapSite_forLoop (t e : Expr) (body orelse : List Stmt) :
    (forLoop site t e body orelse).mapSite g =
      forLoop (g site) (t.mapSite g) (e.mapSite g) (body.map (mapSite g))
        (orelse.map (mapSite g)) := by
  rw [← mapSitesBlock_each, ← mapSitesBlock_each]
  rfl

@[simp] theorem mapSite_functionDef (x : String) (ps : List Parameter) (returns : Option String)
    (ds : List Expr) (body : List Stmt) :
    (functionDef site x ps returns ds body).mapSite g =
      functionDef (g site) x (ps.map (Parameter.mapSite g)) returns (ds.map (Expr.mapSite g))
        (body.map (mapSite g)) := by
  rw [← mapSitesBlock_each, ← mapSitesParameters_each, ← Expr.mapSitesList_each]
  rfl

@[simp] theorem mapSite_ret (e : Option Expr) :
    (ret site e).mapSite g = ret (g site) (e.map (Expr.mapSite g)) := by
  rw [← mapSitesOption_each]
  rfl

@[simp] theorem mapSite_brk : (brk site).mapSite g = brk (g site) := rfl
@[simp] theorem mapSite_cont : (cont site).mapSite g = cont (g site) := rfl
@[simp] theorem mapSite_pass : (pass site).mapSite g = pass (g site) := rfl

@[simp] theorem mapSite_importNames (xs : List String) :
    (importNames site xs).mapSite g = importNames (g site) xs := rfl

@[simp] theorem mapSite_importFrom (package : String) (xs : List String) :
    (importFrom site package xs).mapSite g = importFrom (g site) package xs := rfl

@[simp] theorem mapSite_docString (text : String) :
    (docString site text).mapSite g = docString (g site) text := rfl

@[simp] theorem mapSite_comment (text : String) :
    (comment site text).mapSite g = comment (g site) text := rfl

@[simp] theorem mapSite_other (c : String) : (other site c).mapSite g = other (g site) c := rfl

end

@[simp] theorem site_mapSite (s : Stmt) : (s.mapSite g).site = g s.site := by
  cases s <;> simp [site]

@[simp] theorem expressions_mapSite (s : Stmt) :
    (s.mapSite g).expressions = s.expressions.map (Expr.mapSite g) := by
  cases s with
  | functionDef =>
    simp [expressions, List.filterMap_map, List.map_filterMap, Function.comp_def,
      Parameter.mapSite]
  | ret _ e => cases e <;> simp [expressions]
  | _ => simp [expressions]

mutual

theorem nested_mapSite : (s : Stmt) → (s.mapSite g).nested = s.nested.map (mapSite g)
  | .ifElse _ _ body orelse | .whileLoop _ _ body orelse | .forLoop _ _ _ body orelse => by
    simp [nested, nestedBlock_mapSite body, nestedBlock_mapSite orelse]
  | .functionDef _ _ _ _ _ body => by simp [nested, nestedBlock_mapSite body]
  | .expr .. | .assign .. | .augAssign .. | .ret .. | .brk _ | .cont _ | .pass _
  | .importNames .. | .importFrom .. | .docString .. | .comment .. | .other .. => by simp [nested]

theorem nestedBlock_mapSite : (ss : List Stmt) →
    nestedBlock (ss.map (mapSite g)) = (nestedBlock ss).map (mapSite g)
  | [] => rfl
  | s :: ss => by simp [nestedBlock, nested_mapSite s, nestedBlock_mapSite ss]

end

mutual

theorem mapSite_id : (s : Stmt) → s.mapSite id = s
  | .ifElse _ _ body orelse | .whileLoop _ _ body orelse | .forLoop _ _ _ body orelse => by
    simp [Expr.mapSite_id, mapBlock_id body, mapBlock_id orelse]
  | .functionDef _ _ _ _ _ body => by
    simp [Expr.mapSite_id, Parameter.mapSite_id, mapBlock_id body]
  | .expr .. | .assign .. | .augAssign .. | .ret .. | .brk _ | .cont _ | .pass _
  | .importNames .. | .importFrom .. | .docString .. | .comment .. | .other .. => by
    simp [Expr.mapSite_id]

theorem mapBlock_id : (ss : List Stmt) → ss.map (mapSite id) = ss
  | [] => rfl
  | s :: ss => by rw [List.map_cons, mapSite_id s, mapBlock_id ss]

end

@[simp] theorem assignsTo_mapSite (x : String) (s : Stmt) :
    (s.mapSite g).assignsTo x = s.assignsTo x := by
  have hstores : ∀ s : Stmt, (s.mapSite g).stores x = s.stores x := by
    intro s
    simp only [stores, expressions_mapSite, List.any_map, Function.comp_def, Expr.nodes_mapSite,
      Expr.names_mapSite]
    cases s <;> simp [List.any_map, Function.comp_def]
  simp only [assignsTo, nested_mapSite, List.any_map, Function.comp_def, hstores]

@[simp] theorem hasOperands_mapSite (s : Stmt) : (s.mapSite g).hasOperands = s.hasOperands := by
  simp [hasOperands, nested_mapSite, List.all_map, Function.comp_def]

section

variable {g} {σ : Type} {f : σ → Site → σ × Site}

theorem mapSite_mapSitesOption (hf : ∀ s site, g (f s site).2 = g site) (s : σ) (e : Option Expr) :
    (mapSitesOption f s e).2.map (Expr.mapSite g) = e.map (Expr.mapSite g) := by
  cases e <;> simp [mapSitesOption, Expr.mapSite_mapSites hf]

theorem mapSite_mapSitesParameters (hf : ∀ s site, g (f s site).2 = g site) (s : σ)
    (ps : List Parameter) :
    (mapSitesParameters f s ps).2.map (Parameter.mapSite g) = ps.map (Parameter.mapSite g) := by
  induction ps generalizing s with
  | nil => rfl
  | cons p ps ih =>
    simp [mapSitesParameters, Parameter.mapSite, mapSite_mapSitesOption hf, ih]

mutual

theorem mapSite_mapSites (hf : ∀ s site, g (f s site).2 = g site) (s : σ) : (stmt : Stmt) →
    (stmt.mapSites f s).2.mapSite g = stmt.mapSite g
  | .expr .. | .augAssign .. => by simp [mapSites, hf, Expr.mapSite_mapSites hf]
  | .assign .. => by
    simp [mapSites, hf, Expr.mapSite_mapSites hf, Expr.mapSite_mapSitesList hf]
  | .ret .. => by simp [mapSites, hf, mapSite_mapSitesOption hf]
  | .ifElse _ _ body orelse | .whileLoop _ _ body orelse | .forLoop _ _ _ body orelse => by
    have hbody := fun s => mapSite_mapSitesBlock hf s body
    have horelse := fun s => mapSite_mapSitesBlock hf s orelse
    simp [mapSites, hf, Expr.mapSite_mapSites hf, hbody, horelse]
  | .functionDef _ _ _ _ _ body => by
    have hbody := fun s => mapSite_mapSitesBlock hf s body
    simp [mapSites, hf, Expr.mapSite_mapSitesList hf, mapSite_mapSitesParameters hf, hbody]
  | .brk _ | .cont _ | .pass _ | .importNames .. | .importFrom .. | .docString .. | .comment ..
  | .other .. => by simp [mapSites, hf]

theorem mapSite_mapSitesBlock (hf : ∀ s site, g (f s site).2 = g site) (s : σ) :
    (stmts : List Stmt) →
    (mapSitesBlock f s stmts).2.map (mapSite g) = stmts.map (mapSite g)
  | [] => rfl
  | stmt :: stmts => by
    have hstmt := fun s => mapSite_mapSites hf s stmt
    have hstmts := fun s => mapSite_mapSitesBlock hf s stmts
    simp [mapSitesBlock, hstmt, hstmts]

end

end

end Stmt

/-- Forgets the number of a site. -/
def Site.unnumbered (s : Site) : Site := { s with id := 0 }

/-- Numbering keeps the shapes of statements. -/
theorem Module.shape_number (m : Module) :
    m.number.body.map (Stmt.mapSite Site.unnumbered) = m.body.map (Stmt.mapSite Site.unnumbered) :=
  Stmt.mapSite_mapSitesBlock (fun _ _ => rfl) 1 m.body

end StaticScript.Source
