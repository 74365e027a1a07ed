import StaticScript.Source.Traversal
import Mathlib.Data.List.Forall2

/-!
# Trees with related sites

`Expr.Rel R` and `Stmt.Rel R` hold of two trees that are built in the same way from the same data,
up to their sites: the two sites of every node, wherever it stands, are related by `R`.  There is
one rule for each construct, which names all of its parts, so nothing can be left out.

Going through a tree relates it to the tree that comes out, if each site is related to the one it is
replaced by (`Stmt.rel_mapSitesBlock`).  This is what the visit does for every node, and it does
nothing else.
-/

namespace StaticScript.Source

open List (Forall₂)

/-! ### Expressions -/

/-- The expressions are the same up to their sites, which are related. -/
inductive Expr.Rel (R : Site → Site → Prop) : Expr → Expr → Prop
  | int {s t : Site} {n : Int64} (h : R s t) : Rel R (.int s n) (.int t n)
  | float {s t : Site} {x : Double} (h : R s t) : Rel R (.float s x) (.float t x)
  | bool {s t : Site} {b : Bool} (h : R s t) : Rel R (.bool s b) (.bool t b)
  | str {s t : Site} {x : String} (h : R s t) : Rel R (.str s x) (.str t x)
  | none {s t : Site} (h : R s t) : Rel R (.none s) (.none t)
  | name {s t : Site} {x : String} (h : R s t) : Rel R (.name s x) (.name t x)
  | binary {s t : Site} {op : BinaryOp} {l l' r r' : Expr} (h : R s t) (left : Rel R l l')
      (right : Rel R r r') : Rel R (.binary s op l r) (.binary t op l' r')
  | boolOp {s t : Site} {op : BoolOp} {es es' : List Expr} (h : R s t)
      (values : Forall₂ (Rel R) es es') : Rel R (.boolOp s op es) (.boolOp t op es')
  | unary {s t : Site} {op : UnaryOp} {e e' : Expr} (h : R s t) (operand : Rel R e e') :
      Rel R (.unary s op e) (.unary t op e')
  | compare {s t : Site} {ops : List CompareOp} {l l' : Expr} {es es' : List Expr} (h : R s t)
      (left : Rel R l l') (comparators : Forall₂ (Rel R) es es') :
      Rel R (.compare s l ops es) (.compare t l' ops es')
  | call {s t : Site} {f f' : Expr} {es es' : List Expr} {ks ks' : List (String × Expr)} (h : R s t)
      (function : Rel R f f') (arguments : Forall₂ (Rel R) es es')
      (names : ks'.map Prod.fst = ks.map Prod.fst)
      (keywords : Forall₂ (Rel R) (ks.map Prod.snd) (ks'.map Prod.snd)) :
      Rel R (.call s f es ks) (.call t f' es' ks')
  | attr {s t : Site} {e e' : Expr} {x : String} (h : R s t) (object : Rel R e e') :
      Rel R (.attr s e x) (.attr t e' x)
  | list {s t : Site} {es es' : List Expr} (h : R s t) (items : Forall₂ (Rel R) es es') :
      Rel R (.list s es) (.list t es')
  | tuple {s t : Site} {es es' : List Expr} (h : R s t) (items : Forall₂ (Rel R) es es') :
      Rel R (.tuple s es) (.tuple t es')
  | set {s t : Site} {es es' : List Expr} (h : R s t) (items : Forall₂ (Rel R) es es') :
      Rel R (.set s es) (.set t es')
  | dict {s t : Site} {es es' vs vs' : List Expr} (h : R s t) (keys : Forall₂ (Rel R) es es')
      (values : Forall₂ (Rel R) vs vs') : Rel R (.dict s es vs) (.dict t es' vs')
  | named {s t : Site} {x x' e e' : Expr} (h : R s t) (target : Rel R x x') (value : Rel R e e') :
      Rel R (.named s x e) (.named t x' e')
  | other {s t : Site} {x : String} (h : R s t) : Rel R (.other s x) (.other t x)

variable {R : Site → Site → Prop} {σ : Type} {f : σ → Site → σ × Site}

theorem Expr.Rel.site {e e' : Expr} (h : e.Rel R e') : R e.site e'.site := by
  cases h <;> assumption

namespace Expr

mutual

theorem rel_mapSites (hf : ∀ s site, R site (f s site).2) (s : σ) : (e : Expr) →
    e.Rel R (e.mapSites f s).2
  | .int .. => .int (hf ..)
  | .float .. => .float (hf ..)
  | .bool .. => .bool (hf ..)
  | .str .. => .str (hf ..)
  | .none .. => .none (hf ..)
  | .name .. => .name (hf ..)
  | .other .. => .other (hf ..)
  | .binary _ _ left right => .binary (hf ..) (rel_mapSites hf _ left) (rel_mapSites hf _ right)
  | .boolOp _ _ es => .boolOp (hf ..) (rel_mapSitesList hf _ es)
  | .unary _ _ e => .unary (hf ..) (rel_mapSites hf _ e)
  | .compare _ left _ es => .compare (hf ..) (rel_mapSites hf _ left) (rel_mapSitesList hf _ es)
  | .call _ function es ks =>
    .call (hf ..) (rel_mapSites hf _ function) (rel_mapSitesList hf _ es)
      (rel_mapSitesKeywords hf _ ks).1 (rel_mapSitesKeywords hf _ ks).2
  | .attr _ e _ => .attr (hf ..) (rel_mapSites hf _ e)
  | .list _ es => .list (hf ..) (rel_mapSitesList hf _ es)
  | .tuple _ es => .tuple (hf ..) (rel_mapSitesList hf _ es)
  | .set _ es => .set (hf ..) (rel_mapSitesList hf _ es)
  | .dict _ keys values => .dict (hf ..) (rel_mapSitesList hf _ keys) (rel_mapSitesList hf _ values)
  | .named _ target value => .named (hf ..) (rel_mapSites hf _ target) (rel_mapSites hf _ value)

theorem rel_mapSitesList (hf : ∀ s site, R site (f s site).2) (s : σ) : (es : List Expr) →
    Forall₂ (Rel R) es (mapSitesList f s es).2
  | [] => .nil
  | e :: es => .cons (rel_mapSites hf s e) (rel_mapSitesList hf _ es)

theorem rel_mapSitesKeywords (hf : ∀ s site, R site (f s site).2) (s : σ) :
    (ks : List (String × Expr)) →
    (mapSitesKeywords f s ks).2.map Prod.fst = ks.map Prod.fst ∧
      Forall₂ (Rel R) (ks.map Prod.snd) ((mapSitesKeywords f s ks).2.map Prod.snd)
  | [] => ⟨rfl, .nil⟩
  | (x, e) :: ks =>
    have hks := rel_mapSitesKeywords hf (e.mapSites f s).1 ks
    ⟨congrArg (x :: ·) hks.1, .cons (rel_mapSites hf s e) hks.2⟩

end

end Expr

/-! ### Statements -/

/-- The parameters are the same up to the sites in their defaults, which are related. -/
structure Parameter.Rel (R : Site → Site → Prop) (p p' : Parameter) : Prop where
  name : p'.name = p.name
  hint : p'.hint = p.hint
  default : Option.Rel (Expr.Rel R) p.default p'.default
  kind : p'.kind = p.kind

/-- The statements are the same up to their sites, which are related. -/
inductive Stmt.Rel (R : Site → Site → Prop) : Stmt → Stmt → Prop
  | expr {s t : Site} {e e' : Expr} (h : R s t) (value : e.Rel R e') :
      Rel R (.expr s e) (.expr t e')
  | assign {s t : Site} {xs xs' : List Expr} {e e' : Expr} (h : R s t)
      (targets : Forall₂ (Expr.Rel R) xs xs') (value : e.Rel R e') :
      Rel R (.assign s xs e) (.assign t xs' e')
  | augAssign {s t : Site} {op : BinaryOp} {x x' e e' : Expr} (h : R s t) (target : x.Rel R x')
      (value : e.Rel R e') : Rel R (.augAssign s x op e) (.augAssign t x' op e')
  | ifElse {s t : Site} {c c' : Expr} {b b' o o' : List Stmt} (h : R s t) (condition : c.Rel R c')
      (body : Forall₂ (Rel R) b b') (orelse : Forall₂ (Rel R) o o') :
      Rel R (.ifElse s c b o) (.ifElse t c' b' o')
  | whileLoop {s t : Site} {c c' : Expr} {b b' o o' : List Stmt} (h : R s t)
      (condition : c.Rel R c') (body : Forall₂ (Rel R) b b') (orelse : Forall₂ (Rel R) o o') :
      Rel R (.whileLoop s c b o) (.whileLoop t c' b' o')
  | forLoop {s t : Site} {x x' e e' : Expr} {b b' o o' : List Stmt} (h : R s t)
      (target : x.Rel R x') (iter : e.Rel R e') (body : Forall₂ (Rel R) b b')
      (orelse : Forall₂ (Rel R) o o') : Rel R (.forLoop s x e b o) (.forLoop t x' e' b' o')
  | functionDef {s t : Site} {name : String} {ps ps' : List Parameter} {returns : Option String}
      {ds ds' : List Expr} {b b' : List Stmt} (h : R s t)
      (parameters : Forall₂ (Parameter.Rel R) ps ps') (decorators : Forall₂ (Expr.Rel R) ds ds')
      (body : Forall₂ (Rel R) b b') :
      Rel R (.functionDef s name ps returns ds b) (.functionDef t name ps' returns ds' b')
  | ret {s t : Site} {e e' : Option Expr} (h : R s t) (value : Option.Rel (Expr.Rel R) e e') :
      Rel R (.ret s e) (.ret t e')
  | brk {s t : Site} (h : R s t) : Rel R (.brk s) (.brk t)
  | cont {s t : Site} (h : R s t) : Rel R (.cont s) (.cont t)
  | pass {s t : Site} (h : R s t) : Rel R (.pass s) (.pass t)
  | importNames {s t : Site} {xs : List String} (h : R s t) :
      Rel R (.importNames s xs) (.importNames t xs)
  | importFrom {s t : Site} {package : String} {xs : List String} (h : R s t) :
      Rel R (.importFrom s package xs) (.importFrom t package xs)
  | docString {s t : Site} {x : String} (h : R s t) : Rel R (.docString s x) (.docString t x)
  | comment {s t : Site} {x : String} (h : R s t) : Rel R (.comment s x) (.comment t x)
  | other {s t : Site} {x : String} (h : R s t) : Rel R (.other s x) (.other t x)

theorem Stmt.Rel.site {s s' : Stmt} (h : s.Rel R s') : R s.site s'.site := by
  cases h <;> assumption

theorem rel_mapSitesOption (hf : ∀ s site, R site (f s site).2) (s : σ) (e : Option Expr) :
    Option.Rel (Expr.Rel R) e (mapSitesOption f s e).2 := by
  cases e with
  | none => exact .none
  | some e => exact .some (e.rel_mapSites hf s)

theorem rel_mapSitesParameters (hf : ∀ s site, R site (f s site).2) (s : σ) (ps : List Parameter) :
    Forall₂ (Parameter.Rel R) ps (mapSitesParameters f s ps).2 := by
  induction ps generalizing s with
  | nil => exact .nil
  | cons p ps ih => exact .cons ⟨rfl, rfl, rel_mapSitesOption hf s p.default, rfl⟩ (ih _)

namespace Stmt

mutual

theorem rel_mapSites (hf : ∀ s site, R site (f s site).2) (s : σ) : (stmt : Stmt) →
    stmt.Rel R (stmt.mapSites f s).2
  | .expr _ e => .expr (hf ..) (e.rel_mapSites hf _)
  | .assign _ targets value =>
    .assign (hf ..) (Expr.rel_mapSitesList hf _ targets) (value.rel_mapSites hf _)
  | .augAssign _ target _ value =>
    .augAssign (hf ..) (target.rel_mapSites hf _) (value.rel_mapSites hf _)
  | .ifElse _ c body orelse =>
    .ifElse (hf ..) (c.rel_mapSites hf _) (rel_mapSitesBlock hf _ body)
      (rel_mapSitesBlock hf _ orelse)
  | .whileLoop _ c body orelse =>
    .whileLoop (hf ..) (c.rel_mapSites hf _) (rel_mapSitesBlock hf _ body)
      (rel_mapSitesBlock hf _ orelse)
  | .forLoop _ target iter body orelse =>
    .forLoop (hf ..) (target.rel_mapSites hf _) (iter.rel_mapSites hf _)
      (rel_mapSitesBlock hf _ body) (rel_mapSitesBlock hf _ orelse)
  | .functionDef _ _ parameters _ decorators body =>
    .functionDef (hf ..) (rel_mapSitesParameters hf _ parameters)
      (Expr.rel_mapSitesList hf _ decorators) (rel_mapSitesBlock hf _ body)
  | .ret _ value => .ret (hf ..) (rel_mapSitesOption hf _ value)
  | .brk _ => .brk (hf ..)
  | .cont _ => .cont (hf ..)
  | .pass _ => .pass (hf ..)
  | .importNames .. => .importNames (hf ..)
  | .importFrom .. => .importFrom (hf ..)
  | .docString .. => .docString (hf ..)
  | .comment .. => .comment (hf ..)
  | .other .. => .other (hf ..)

/-- **Going through statements replaces their sites and nothing else.** -/
theorem rel_mapSitesBlock (hf : ∀ s site, R site (f s site).2) (s : σ) : (stmts : List Stmt) →
    Forall₂ (Rel R) stmts (mapSitesBlock f s stmts).2
  | [] => .nil
  | stmt :: stmts => .cons (rel_mapSites hf s stmt) (rel_mapSitesBlock hf _ stmts)

end

end Stmt

/-- The scripts are the same up to their sites, which are related, and their numbers. -/
structure Module.Rel (R : Site → Site → Prop) (m m' : Module) : Prop where
  file : m'.file = m.file
  span : m'.span = m.span
  body : Forall₂ (Stmt.Rel R) m.body m'.body

end StaticScript.Source
