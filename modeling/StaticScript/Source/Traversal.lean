import StaticScript.Source.Tree

/-!
# Going through the sites of a tree

`mapSites` visits every node of a tree once, each node before those below it and the expressions
of a statement before its blocks, and replaces its site; a state is handed from node to node.
Numbering the nodes (`Module.number`) and filling in their texts (`Module.attachText`) are the two
uses of it.
-/

namespace StaticScript.Source

section Sites

variable {σ : Type} (f : σ → Site → σ × Site)

mutual

/-- Replaces the sites of an expression. -/
def Expr.mapSites (s : σ) : Expr → σ × Expr
  | .int site value => let (s, site) := f s site; (s, .int site value)
  | .float site value => let (s, site) := f s site; (s, .float site value)
  | .bool site value => let (s, site) := f s site; (s, .bool site value)
  | .str site value => let (s, site) := f s site; (s, .str site value)
  | .none site => let (s, site) := f s site; (s, .none site)
  | .name site id => let (s, site) := f s site; (s, .name site id)
  | .binary site op left right =>
    let (s, site) := f s site
    let (s, left) := left.mapSites s
    let (s, right) := right.mapSites s
    (s, .binary site op left right)
  | .boolOp site op values =>
    let (s, site) := f s site
    let (s, values) := mapSitesList s values
    (s, .boolOp site op values)
  | .unary site op operand =>
    let (s, site) := f s site
    let (s, operand) := operand.mapSites s
    (s, .unary site op operand)
  | .compare site left ops comparators =>
    let (s, site) := f s site
    let (s, left) := left.mapSites s
    let (s, comparators) := mapSitesList s comparators
    (s, .compare site left ops comparators)
  | .call site function arguments keywords =>
    let (s, site) := f s site
    let (s, function) := function.mapSites s
    let (s, arguments) := mapSitesList s arguments
    let (s, keywords) := mapSitesKeywords s keywords
    (s, .call site function arguments keywords)
  | .attr site object attr =>
    let (s, site) := f s site
    let (s, object) := object.mapSites s
    (s, .attr site object attr)
  | .list site items =>
    let (s, site) := f s site
    let (s, items) := mapSitesList s items
    (s, .list site items)
  | .tuple site items =>
    let (s, site) := f s site
    let (s, items) := mapSitesList s items
    (s, .tuple site items)
  | .set site items =>
    let (s, site) := f s site
    let (s, items) := mapSitesList s items
    (s, .set site items)
  | .dict site keys values =>
    let (s, site) := f s site
    let (s, keys) := mapSitesList s keys
    let (s, values) := mapSitesList s values
    (s, .dict site keys values)
  | .named site target value =>
    let (s, site) := f s site
    let (s, target) := target.mapSites s
    let (s, value) := value.mapSites s
    (s, .named site target value)
  | .other site construct => let (s, site) := f s site; (s, .other site construct)

/-- Replaces the sites of expressions from left to right. -/
def mapSitesList (s : σ) : List Expr → σ × List Expr
  | [] => (s, [])
  | e :: es =>
    let (s, e) := e.mapSites s
    let (s, es) := mapSitesList s es
    (s, e :: es)

/-- Replaces the sites of the values of keywords from left to right. -/
def mapSitesKeywords (s : σ) : List (String × Expr) → σ × List (String × Expr)
  | [] => (s, [])
  | (name, value) :: ks =>
    let (s, value) := value.mapSites s
    let (s, ks) := mapSitesKeywords s ks
    (s, (name, value) :: ks)

end

/-- Replaces the sites of an expression that may be missing. -/
def mapSitesOption (s : σ) : Option Expr → σ × Option Expr
  | none => (s, none)
  | some e => let (s, e) := e.mapSites f s; (s, some e)

/-- Replaces the sites of the defaults of parameters from left to right. -/
def mapSitesParameters (s : σ) : List Parameter → σ × List Parameter
  | [] => (s, [])
  | p :: ps =>
    let (s, default) := mapSitesOption f s p.default
    let (s, ps) := mapSitesParameters s ps
    (s, { p with default } :: ps)

mutual

/-- Replaces the sites of a statement.  The decorators of a function come before the defaults of
its parameters. -/
def Stmt.mapSites (s : σ) : Stmt → σ × Stmt
  | .expr site value =>
    let (s, site) := f s site
    let (s, value) := value.mapSites f s
    (s, .expr site value)
  | .assign site targets value =>
    let (s, site) := f s site
    let (s, targets) := mapSitesList f s targets
    let (s, value) := value.mapSites f s
    (s, .assign site targets value)
  | .augAssign site target op value =>
    let (s, site) := f s site
    let (s, target) := target.mapSites f s
    let (s, value) := value.mapSites f s
    (s, .augAssign site target op value)
  | .ifElse site condition body orelse =>
    let (s, site) := f s site
    let (s, condition) := condition.mapSites f s
    let (s, body) := mapSitesBlock s body
    let (s, orelse) := mapSitesBlock s orelse
    (s, .ifElse site condition body orelse)
  | .whileLoop site condition body orelse =>
    let (s, site) := f s site
    let (s, condition) := condition.mapSites f s
    let (s, body) := mapSitesBlock s body
    let (s, orelse) := mapSitesBlock s orelse
    (s, .whileLoop site condition body orelse)
  | .forLoop site target iter body orelse =>
    let (s, site) := f s site
    let (s, target) := target.mapSites f s
    let (s, iter) := iter.mapSites f s
    let (s, body) := mapSitesBlock s body
    let (s, orelse) := mapSitesBlock s orelse
    (s, .forLoop site target iter body orelse)
  | .functionDef site name parameters returns decorators body =>
    let (s, site) := f s site
    let (s, decorators) := mapSitesList f s decorators
    let (s, parameters) := mapSitesParameters f s parameters
    let (s, body) := mapSitesBlock s body
    (s, .functionDef site name parameters returns decorators body)
  | .ret site value =>
    let (s, site) := f s site
    let (s, value) := mapSitesOption f s value
    (s, .ret site value)
  | .brk site => let (s, site) := f s site; (s, .brk site)
  | .cont site => let (s, site) := f s site; (s, .cont site)
  | .pass site => let (s, site) := f s site; (s, .pass site)
  | .importNames site names => let (s, site) := f s site; (s, .importNames site names)
  | .importFrom site package names => let (s, site) := f s site; (s, .importFrom site package names)
  | .docString site content => let (s, site) := f s site; (s, .docString site content)
  | .comment site content => let (s, site) := f s site; (s, .comment site content)
  | .other site construct => let (s, site) := f s site; (s, .other site construct)

/-- Replaces the sites of statements from first to last. -/
def mapSitesBlock (s : σ) : List Stmt → σ × List Stmt
  | [] => (s, [])
  | stmt :: stmts =>
    let (s, stmt) := stmt.mapSites s
    let (s, stmts) := mapSitesBlock s stmts
    (s, stmt :: stmts)

end

end Sites

/-! ### Numbers -/

/-- Gives a node the next number.  The counter has no bound, and a number has the lowest 32 bits of
it, so with too many nodes the numbers start again from `0`. -/
def Site.number (next : Nat) (site : Site) : Nat × Site :=
  (next + 1, { site with id := UInt32.ofNat next })

/-- Numbers a script: the script itself is `0`, and its nodes follow in the order in which they
are visited. -/
def Module.number (m : Module) : Module :=
  { m with id := 0, body := (mapSitesBlock Site.number 1 m.body).2 }

/-! ### Texts -/

/-- Fills in the text of a node from the script, unless it has one, and counts the nodes that
were filled. -/
def Site.attachText (source : List Char) (filled : Nat) (site : Site) : Nat × Site :=
  if site.text.isEmpty then
    match site.span.extract? source with
    | some text => (filled + 1, { site with text })
    | none => (filled, site)
  else (filled, site)

/-- Fills in the missing texts of all nodes, and says how many were filled. -/
def Module.attachText (source : String) (m : Module) : Nat × Module :=
  let (filled, body) := mapSitesBlock (Site.attachText source.toList) 0 m.body
  (filled, { m with body })

end StaticScript.Source
