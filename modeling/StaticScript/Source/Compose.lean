import StaticScript.Decimal.Shortest
import StaticScript.Source.Traversal
import StaticScript.Text.Quoted

/-!
# Composing trees from their parts

Each function makes a node from the nodes below it and writes the text that the node would have in
a script.  The places are unknown, and the numbers are given out when the statements are made into
a script (`Compose.script`).
-/

namespace StaticScript.Source.Compose

/-- The site of a node with a text. -/
def site (text : String) : Site := ⟨0, .unknown, text⟩

/-- The text of an operand: operators in it are set in parentheses. -/
def operandText (e : Expr) : String :=
  match e with
  | .binary .. | .boolOp .. | .compare .. | .named .. => "(" ++ e.site.text ++ ")"
  | _ => e.site.text

/-- The texts of expressions, separated by commas. -/
def joinedTexts (es : List Expr) : String := ", ".intercalate (es.map (·.site.text))

/-- A header and, indented below it, the lines of the statements of a block. -/
def blockText (header : String) (body : List Stmt) : String :=
  body.foldl (fun text s =>
    (Text.lines s.site.text.toList).foldl (fun text line =>
      text ++ "\n    " ++ String.ofList line) text) header

/-! ### Expressions -/

/-- An integer literal. -/
def int (value : Int64) : Expr := .int (site (toString value.toInt)) value

/-- A float literal. -/
def float (value : Double) : Expr := .float (site value.text) value

/-- A truth value. -/
def bool (value : Bool) : Expr := .bool (site (if value then "True" else "False")) value

/-- A string literal. -/
def str (value : String) : Expr := .str (site (Text.quoted value)) value

/-- The literal for no value. -/
def none : Expr := .none (site "None")

/-- A name. -/
def name (id : String) : Expr := .name (site id) id

/-- An operator between two operands. -/
def binary (left : Expr) (op : BinaryOp) (right : Expr) : Expr :=
  .binary (site (operandText left ++ " " ++ op.symbol ++ " " ++ operandText right)) op left right

/-- An operator between any number of operands. -/
def boolOp (op : BoolOp) (values : List Expr) : Expr :=
  .boolOp (site ((" " ++ op.symbol ++ " ").intercalate (values.map operandText))) op values

/-- An operator before its operand. -/
def unary (op : UnaryOp) (operand : Expr) : Expr :=
  .unary (site (op.symbol ++ operandText operand)) op operand

/-- A chain of comparisons. -/
def compare (left : Expr) (links : List (CompareOp × Expr)) : Expr :=
  let text := links.foldl (fun text (op, e) => text ++ " " ++ op.symbol ++ " " ++ operandText e)
    (operandText left)
  .compare (site text) left (links.map Prod.fst) (links.map Prod.snd)

/-- A call. -/
def call (function : Expr) (arguments : List Expr) (keywords : List Keyword) : Expr :=
  let parts := arguments.map (·.site.text) ++ keywords.map fun (n, e) => n ++ "=" ++ e.site.text
  .call (site (function.site.text ++ "(" ++ ", ".intercalate parts ++ ")")) function arguments
    keywords

/-- An attribute of an object. -/
def attr (object : Expr) (id : String) : Expr :=
  .attr (site (object.site.text ++ "." ++ id)) object id

/-- A list display. -/
def list (items : List Expr) : Expr := .list (site ("[" ++ joinedTexts items ++ "]")) items

/-- A tuple display. -/
def tuple (items : List Expr) : Expr := .tuple (site ("(" ++ joinedTexts items ++ ")")) items

/-- An assignment inside an expression. -/
def named (target : String) (value : Expr) : Expr :=
  .named (site (target ++ " := " ++ value.site.text)) (name target) value

/-- An expression that is not modelled. -/
def otherExpr (construct text : String) : Expr := .other (site text) construct

/-! ### Statements -/

/-- An expression as a statement. -/
def expr (value : Expr) : Stmt := .expr (site value.site.text) value

/-- An assignment to several targets. -/
def chained (targets : List Expr) (value : Expr) : Stmt :=
  let text := targets.foldl (fun text t => text ++ t.site.text ++ " = ") "" ++ value.site.text
  .assign (site text) targets value

/-- An assignment to one name. -/
def assign (target : String) (value : Expr) : Stmt := chained [name target] value

/-- An assignment with an operator. -/
def augAssign (target : String) (op : BinaryOp) (value : Expr) : Stmt :=
  .augAssign (site (target ++ " " ++ op.symbol ++ "= " ++ value.site.text)) (name target) op value

/-- A conditional. -/
def ifElse (condition : Expr) (body orelse : List Stmt) : Stmt :=
  let text := blockText ("if " ++ condition.site.text ++ ":") body ++
    if orelse.isEmpty then "" else "\n" ++ blockText "else:" orelse
  .ifElse (site text) condition body orelse

/-- A loop with a condition. -/
def whileLoop (condition : Expr) (body : List Stmt) : Stmt :=
  .whileLoop (site (blockText ("while " ++ condition.site.text ++ ":") body)) condition body []

/-- A loop over an iterable. -/
def forLoop (target : String) (iter : Expr) (body : List Stmt) : Stmt :=
  .forLoop (site (blockText ("for " ++ target ++ " in " ++ iter.site.text ++ ":") body))
    (name target) iter body []

/-- The text of a parameter. -/
def parameterText (p : Parameter) : String :=
  let stars := match p.kind with
    | .positional => ""
    | .varArgs => "*"
    | .kwArgs => "**"
  let hint := match p.hint with
    | some a => ": " ++ a
    | Option.none => ""
  let default := match p.default with
    | some d => "=" ++ d.site.text
    | Option.none => ""
  stars ++ p.name ++ hint ++ default

/-- A function definition. -/
def functionDef (id : String) (parameters : List Parameter) (returns : Option String)
    (body : List Stmt) : Stmt :=
  let arrow := match returns with
    | some r => " -> " ++ r
    | Option.none => ""
  let header := "def " ++ id ++ "(" ++ ", ".intercalate (parameters.map parameterText) ++ ")" ++
    arrow ++ ":"
  .functionDef (site (blockText header body)) id parameters returns [] body

/-- A return. -/
def ret (value : Option Expr) : Stmt :=
  let text := match value with
    | some v => "return " ++ v.site.text
    | Option.none => "return"
  .ret (site text) value

/-- A `break`. -/
def brk : Stmt := .brk (site "break")

/-- A `continue`. -/
def cont : Stmt := .cont (site "continue")

/-- A `pass`. -/
def pass : Stmt := .pass (site "pass")

/-- An import of whole modules. -/
def importNames (names : List String) : Stmt :=
  .importNames (site ("import " ++ ", ".intercalate names)) names

/-- An import of names from a module. -/
def importFrom (package : String) (names : List String) : Stmt :=
  .importFrom (site ("from " ++ package ++ " import " ++ ", ".intercalate names)) package names

/-- A documentation string. -/
def docString (content : String) : Stmt :=
  .docString (site ("\"\"\"" ++ content ++ "\"\"\"")) content

/-- A comment. -/
def comment (content : String) : Stmt := .comment (site ("#" ++ content)) content

/-- A statement that is not modelled. -/
def otherStmt (construct text : String) : Stmt := .other (site text) construct

/-- The script of these statements, numbered. -/
def script (body : List Stmt) : Module := Module.number ⟨0, "script.py", body, .unknown⟩

end StaticScript.Source.Compose
