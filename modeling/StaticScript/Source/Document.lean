import StaticScript.Json.Reader
import StaticScript.Json.Record
import StaticScript.Source.Traversal

/-!
# Trees as JSON documents

`Module.ofJson?` reads a tree from a document and `Module.toJson` writes it.  A node is a record of
its number, its kind, its span and its text; its kind is an alternative named by a tag.  Numbers,
spans and texts may be missing, as may the parts of a construct that are usually empty.

The readers take the number of levels of nesting that may still be opened, and reading ends there
at the latest: the readers of a node, of its kind and of the content of its kind each open one.
-/

namespace StaticScript.Source

open Json

/-- The value that has a tag. -/
def ofTag? {α : Type} (all : List α) (tag : α → String) (depth : Nat) (j : Json) : Option α := do
  let t ← j.tagWithin? depth
  all.find? fun a => tag a == t

/-! ### Reading -/

/-- Reads a place. -/
def Location.ofJson? : Nat → Json → Option Location
  | 0, _ => none
  | _ + 1, j => do
    let [file, line, column] ← j.record? ["filename", "line", "column"] | none
    return ⟨← (← file).toText?, ← (← line).toUInt32?, ← (← column).toUInt32?⟩

/-- Reads a span. -/
def Span.ofJson? : Nat → Json → Option Span
  | 0, _ => none
  | depth + 1, j => do
    let [start, stop] ← j.record? ["start", "end"] | none
    return ⟨← Location.ofJson? depth (← start), ← Location.ofJson? depth (← stop)⟩

/-- Reads the parts of a site. -/
def Site.ofFields? (depth : Nat) (id span text : Option Json) : Option Site := do
  return ⟨← getOr 0 toUInt32? id, ← getOr .unknown (Span.ofJson? depth) span,
    ← getOr "" toText? text⟩

/-- Reads a list of comparison operators. -/
def compareOps? : Nat → Json → Option (List CompareOp)
  | depth + 1, .array items => items.mapM (ofTag? CompareOp.all CompareOp.tag depth)
  | _, _ => none

/-- Reads an expression without parts from the tag and the content of its kind. -/
def leafOfContent? (site : Site) (tag : String) (j : Json) : Option Expr :=
  match tag with
  | "NoneLiteral" => if j.isNull then some (.none site) else none
  | "Int" => j.toInt64?.map (.int site)
  | "Float" => j.toDouble?.map (.float site)
  | "Bool" => j.toBool?.map (.bool site)
  | "Str" => j.toText?.map (.str site)
  | "Name" => j.toText?.map (.name site)
  | _ => none

mutual

/-- Reads an expression. -/
def Expr.ofJson? : Nat → Json → Option Expr
  | 0, _ => none
  | depth + 1, j => do
    let [id, kind, span, text] ← j.record? ["node_id", "kind", "span", "text"] | none
    exprOfKind? depth (← Site.ofFields? depth id span text) (← kind)

/-- Reads an expression from its kind. -/
def exprOfKind? : Nat → Site → Json → Option Expr
  | depth + 1, site, .object [(some tag, content)] => exprOfContent? depth site tag content
  | _, site, .string (some "NoneLiteral") => some (.none site)
  | _, _, _ => none

/-- Reads an expression from the tag and the content of its kind. -/
def exprOfContent? : Nat → Site → String → Json → Option Expr
  | 0, site, tag, j => leafOfContent? site tag j
  | depth + 1, site, tag, j =>
    match tag with
    | "Binary" => do
      let [op, left, right] ← j.record? ["op", "left", "right"] | none
      return .binary site (← ofTag? BinaryOp.all BinaryOp.tag depth (← op))
        (← Expr.ofJson? depth (← left)) (← Expr.ofJson? depth (← right))
    | "BoolOp" => do
      let [op, values] ← j.record? ["op", "values"] | none
      return .boolOp site (← ofTag? BoolOp.all BoolOp.tag depth (← op))
        (← exprList? depth (← values))
    | "Unary" => do
      let [op, operand] ← j.record? ["op", "operand"] | none
      return .unary site (← ofTag? UnaryOp.all UnaryOp.tag depth (← op))
        (← Expr.ofJson? depth (← operand))
    | "Compare" => do
      let [left, ops, comparators] ← j.record? ["left", "ops", "comparators"] | none
      return .compare site (← Expr.ofJson? depth (← left)) (← compareOps? depth (← ops))
        (← exprList? depth (← comparators))
    | "Call" => do
      let [function, arguments, keywords] ←
        j.record? ["function", "arguments", "keywords"] | none
      return .call site (← Expr.ofJson? depth (← function)) (← exprList? depth (← arguments))
        (← getOr [] (keywordList? depth) keywords)
    | "Attribute" => do
      let [base, attr] ← j.record? ["object", "attr"] | none
      return .attr site (← Expr.ofJson? depth (← base)) (← (← attr).toText?)
    | "List" => return .list site (← (← j.toItems?).mapM (Expr.ofJson? depth))
    | "Tuple" => return .tuple site (← (← j.toItems?).mapM (Expr.ofJson? depth))
    | "Set" => return .set site (← (← j.toItems?).mapM (Expr.ofJson? depth))
    | "Dict" => do
      let [keys, values] ← j.record? ["keys", "values"] | none
      return .dict site (← exprList? depth (← keys)) (← exprList? depth (← values))
    | "NamedExpr" => do
      let [target, value] ← j.record? ["target", "value"] | none
      return .named site (← Expr.ofJson? depth (← target)) (← Expr.ofJson? depth (← value))
    | "Other" => do
      let [construct] ← j.record? ["construct"] | none
      return .other site (← (← construct).toText?)
    | tag => leafOfContent? site tag j

/-- Reads a list of expressions. -/
def exprList? : Nat → Json → Option (List Expr)
  | depth + 1, .array items => items.mapM (Expr.ofJson? depth)
  | _, _ => none

/-- Reads a keyword. -/
def keyword? : Nat → Json → Option Keyword
  | 0, _ => none
  | depth + 1, j => do
    let [name, value] ← j.record? ["name", "value"] | none
    return (← (← name).toText?, ← Expr.ofJson? depth (← value))

/-- Reads a list of keywords. -/
def keywordList? : Nat → Json → Option (List Keyword)
  | depth + 1, .array items => items.mapM (keyword? depth)
  | _, _ => none

end

/-- All kinds of parameters. -/
def ParameterKind.all : List ParameterKind := [.positional, .varArgs, .kwArgs]

/-- The name in documents. -/
def ParameterKind.tag : ParameterKind → String
  | .positional => "Positional"
  | .varArgs => "VarArgs"
  | .kwArgs => "KwArgs"

/-- Reads a parameter. -/
def Parameter.ofJson? : Nat → Json → Option Parameter
  | 0, _ => none
  | depth + 1, j => do
    let [name, hint, default, kind] ←
      j.record? ["name", "annotation", "default", "kind"] | none
    return ⟨← (← name).toText?, ← getOption toText? hint,
      ← getOption (Expr.ofJson? depth) default,
      ← getOr .positional (ofTag? ParameterKind.all ParameterKind.tag depth) kind⟩

/-- Reads a list of parameters. -/
def parameterList? : Nat → Json → Option (List Parameter)
  | depth + 1, .array items => items.mapM (Parameter.ofJson? depth)
  | _, _ => none

/-- A statement without content, by its tag. -/
def bareStmt? (site : Site) : String → Option Stmt
  | "Break" => some (.brk site)
  | "Continue" => some (.cont site)
  | "Pass" => some (.pass site)
  | _ => none

/-- Reads a statement without nested statements from the tag and the content of its kind. -/
def simpleOfContent? (depth : Nat) (site : Site) (tag : String) (j : Json) : Option Stmt :=
  match tag with
  | "Expression" => (Expr.ofJson? depth j).map (.expr site)
  | "Return" => (getOption (Expr.ofJson? depth) (some j)).map (.ret site)
  | "DocString" => j.toText?.map (.docString site)
  | "Comment" => j.toText?.map (.comment site)
  | tag => if j.isNull then bareStmt? site tag else none

mutual

/-- Reads a statement. -/
def Stmt.ofJson? : Nat → Json → Option Stmt
  | 0, _ => none
  | depth + 1, j => do
    let [id, kind, span, text] ← j.record? ["node_id", "kind", "span", "text"] | none
    stmtOfKind? depth (← Site.ofFields? depth id span text) (← kind)

/-- Reads a statement from its kind. -/
def stmtOfKind? : Nat → Site → Json → Option Stmt
  | depth + 1, site, .object [(some tag, content)] => stmtOfContent? depth site tag content
  | _, site, .string (some tag) => bareStmt? site tag
  | _, _, _ => none

/-- Reads a statement from the tag and the content of its kind. -/
def stmtOfContent? : Nat → Site → String → Json → Option Stmt
  | 0, site, tag, j => simpleOfContent? 0 site tag j
  | depth + 1, site, tag, j =>
    match tag with
    | "Assign" => do
      let [targets, value] ← j.record? ["targets", "value"] | none
      return .assign site (← exprList? depth (← targets)) (← Expr.ofJson? depth (← value))
    | "AugAssign" => do
      let [target, op, value] ← j.record? ["target", "op", "value"] | none
      return .augAssign site (← Expr.ofJson? depth (← target))
        (← ofTag? BinaryOp.all BinaryOp.tag depth (← op)) (← Expr.ofJson? depth (← value))
    | "If" => do
      let [condition, body, orelse] ← j.record? ["condition", "body", "orelse"] | none
      return .ifElse site (← Expr.ofJson? depth (← condition)) (← stmtList? depth (← body))
        (← getOr [] (stmtList? depth) orelse)
    | "While" => do
      let [condition, body, orelse] ← j.record? ["condition", "body", "orelse"] | none
      return .whileLoop site (← Expr.ofJson? depth (← condition)) (← stmtList? depth (← body))
        (← getOr [] (stmtList? depth) orelse)
    | "For" => do
      let [target, iter, body, orelse] ← j.record? ["target", "iter", "body", "orelse"] | none
      return .forLoop site (← Expr.ofJson? depth (← target)) (← Expr.ofJson? depth (← iter))
        (← stmtList? depth (← body)) (← getOr [] (stmtList? depth) orelse)
    | "FunctionDef" => do
      let [name, parameters, returns, decorators, body] ←
        j.record? ["name", "parameters", "returns", "decorators", "body"] | none
      return .functionDef site (← (← name).toText?) (← parameterList? depth (← parameters))
        (← getOption toText? returns) (← getOr [] (exprList? depth) decorators)
        (← stmtList? depth (← body))
    | "Import" => do
      let [names] ← j.record? ["names"] | none
      return .importNames site (← (← names).textsWithin? depth)
    | "ImportFrom" => do
      let [package, names] ← j.record? ["module", "names"] | none
      return .importFrom site (← (← package).toText?) (← (← names).textsWithin? depth)
    | "Other" => do
      let [construct] ← j.record? ["construct"] | none
      return .other site (← (← construct).toText?)
    | tag => simpleOfContent? (depth + 1) site tag j

/-- Reads a list of statements. -/
def stmtList? : Nat → Json → Option (List Stmt)
  | depth + 1, .array items => items.mapM (Stmt.ofJson? depth)
  | _, _ => none

end

/-- Reads a script. -/
def Module.ofJson? : Nat → Json → Option Module
  | 0, _ => none
  | depth + 1, j => do
    let [id, file, body, span] ← j.record? ["node_id", "filename", "body", "span"] | none
    return ⟨← getOr 0 toUInt32? id, ← getOr "" toText? file, ← stmtList? depth (← body),
      ← getOr .unknown (Span.ofJson? depth) span⟩

/-- The script that a document holds, numbered. -/
def Module.ofDocument? (j : Json) : Option Module := (Module.ofJson? maxDepth j).map Module.number

/-- The script that the text of a document holds, numbered. -/
def Module.load? (s : String) : Option Module := (Json.parse? s).bind Module.ofDocument?

/-! ### Writing

Float literals are written as the caller says; `Number.ofDouble` loses nothing. -/

/-- An alternative with content. -/
def variant (tag : String) (content : Json) : Json := ofFields [(tag, content)]

/-- Writes a place. -/
def Location.toJson (l : Location) : Json :=
  ofFields [("filename", ofText l.file), ("line", ofNat l.line.toNat), ("column", ofNat l.column.toNat)]

/-- Writes a span. -/
def Span.toJson (s : Span) : Json :=
  ofFields [("start", s.start.toJson), ("end", s.stop.toJson)]

/-- Writes a node from its site and its kind. -/
def Site.toJson (site : Site) (kind : Json) : Json :=
  ofFields [("node_id", ofNat site.id.toNat), ("kind", kind), ("span", site.span.toJson),
    ("text", ofText site.text)]

section Writing

variable (float : Double → Json)

mutual

/-- Writes an expression. -/
def Expr.toJson : Expr → Json
  | .int site value => site.toJson (variant "Int" (ofInt value.toInt))
  | .float site value => site.toJson (variant "Float" (float value))
  | .bool site value => site.toJson (variant "Bool" (.bool value))
  | .str site value => site.toJson (variant "Str" (ofText value))
  | .none site => site.toJson (ofText "NoneLiteral")
  | .name site id => site.toJson (variant "Name" (ofText id))
  | .binary site op left right =>
    site.toJson (variant "Binary"
      (ofFields [("op", ofText op.tag), ("left", left.toJson), ("right", right.toJson)]))
  | .boolOp site op values =>
    site.toJson (variant "BoolOp"
      (ofFields [("op", ofText op.tag), ("values", .array (exprsToJson values))]))
  | .unary site op operand =>
    site.toJson (variant "Unary" (ofFields [("op", ofText op.tag), ("operand", operand.toJson)]))
  | .compare site left ops comparators =>
    site.toJson (variant "Compare"
      (ofFields [("left", left.toJson), ("ops", ofList (fun op => ofText op.tag) ops),
        ("comparators", .array (exprsToJson comparators))]))
  | .call site function arguments keywords =>
    site.toJson (variant "Call"
      (ofFields [("function", function.toJson), ("arguments", .array (exprsToJson arguments)),
        ("keywords", .array (keywordsToJson keywords))]))
  | .attr site base attr =>
    site.toJson (variant "Attribute" (ofFields [("object", base.toJson), ("attr", ofText attr)]))
  | .list site items => site.toJson (variant "List" (.array (exprsToJson items)))
  | .tuple site items => site.toJson (variant "Tuple" (.array (exprsToJson items)))
  | .set site items => site.toJson (variant "Set" (.array (exprsToJson items)))
  | .dict site keys values =>
    site.toJson (variant "Dict"
      (ofFields [("keys", .array (exprsToJson keys)), ("values", .array (exprsToJson values))]))
  | .named site target value =>
    site.toJson (variant "NamedExpr"
      (ofFields [("target", target.toJson), ("value", value.toJson)]))
  | .other site construct =>
    site.toJson (variant "Other" (ofFields [("construct", ofText construct)]))

/-- Writes expressions. -/
def exprsToJson : List Expr → List Json
  | [] => []
  | e :: es => e.toJson :: exprsToJson es

/-- Writes keywords. -/
def keywordsToJson : List (String × Expr) → List Json
  | [] => []
  | (name, value) :: ks =>
    ofFields [("name", ofText name), ("value", value.toJson)] :: keywordsToJson ks

end

/-- Writes a parameter. -/
def Parameter.toJson (p : Parameter) : Json :=
  ofFields [("name", ofText p.name), ("annotation", ofOption ofText p.hint),
    ("default", ofOption (Expr.toJson float) p.default), ("kind", ofText p.kind.tag)]

mutual

/-- Writes a statement. -/
def Stmt.toJson : Stmt → Json
  | .expr site value => site.toJson (variant "Expression" (value.toJson float))
  | .assign site targets value =>
    site.toJson (variant "Assign"
      (ofFields [("targets", .array (exprsToJson float targets)), ("value", value.toJson float)]))
  | .augAssign site target op value =>
    site.toJson (variant "AugAssign"
      (ofFields [("target", target.toJson float), ("op", ofText op.tag),
        ("value", value.toJson float)]))
  | .ifElse site condition body orelse =>
    site.toJson (variant "If"
      (ofFields [("condition", condition.toJson float), ("body", .array (stmtsToJson body)),
        ("orelse", .array (stmtsToJson orelse))]))
  | .whileLoop site condition body orelse =>
    site.toJson (variant "While"
      (ofFields [("condition", condition.toJson float), ("body", .array (stmtsToJson body)),
        ("orelse", .array (stmtsToJson orelse))]))
  | .forLoop site target iter body orelse =>
    site.toJson (variant "For"
      (ofFields [("target", target.toJson float), ("iter", iter.toJson float),
        ("body", .array (stmtsToJson body)), ("orelse", .array (stmtsToJson orelse))]))
  | .functionDef site name parameters returns decorators body =>
    site.toJson (variant "FunctionDef"
      (ofFields [("name", ofText name), ("parameters", ofList (Parameter.toJson float) parameters),
        ("returns", ofOption ofText returns), ("decorators", .array (exprsToJson float decorators)),
        ("body", .array (stmtsToJson body))]))
  | .ret site value => site.toJson (variant "Return" (ofOption (Expr.toJson float) value))
  | .brk site => site.toJson (ofText "Break")
  | .cont site => site.toJson (ofText "Continue")
  | .pass site => site.toJson (ofText "Pass")
  | .importNames site names =>
    site.toJson (variant "Import" (ofFields [("names", ofList ofText names)]))
  | .importFrom site package names =>
    site.toJson (variant "ImportFrom"
      (ofFields [("module", ofText package), ("names", ofList ofText names)]))
  | .docString site content => site.toJson (variant "DocString" (ofText content))
  | .comment site content => site.toJson (variant "Comment" (ofText content))
  | .other site construct =>
    site.toJson (variant "Other" (ofFields [("construct", ofText construct)]))

/-- Writes statements. -/
def stmtsToJson : List Stmt → List Json
  | [] => []
  | s :: ss => s.toJson :: stmtsToJson ss

end

/-- Writes a script. -/
def Module.toJson (m : Module) : Json :=
  ofFields [("node_id", ofNat m.id.toNat), ("filename", ofText m.file),
    ("body", .array (stmtsToJson float m.body)), ("span", m.span.toJson)]

end Writing

end StaticScript.Source
