import StaticScript.Decimal.Shortest
import StaticScript.Target.CommentText
import StaticScript.Target.Literal

/-!
# The text of C++ programs

A program is printed as its `#include` lines, a prototype of every function, the functions, and
`main` with the statements outside functions.  Every operation is set in parentheses, except where
its surroundings delimit it already (`Expr.bare`).  Default arguments stand on the prototypes only.
-/

namespace StaticScript.Target

namespace Expr

/-- Sets a text in parentheses unless its surroundings delimit it. -/
def enclose (delimited : Bool) (s : String) : String := if delimited then s else "(" ++ s ++ ")"

mutual

/-- The text of an expression, in surroundings that delimit it or do not. -/
def textIn (delimited : Bool) : Expr → String
  | .int value _ => toString value.toInt
  | .float value _ => value.text
  | .bool value _ => if value then "true" else "false"
  | .string value _ => literal value
  | .var name _ => name
  | .binary op left right _ =>
    enclose delimited (left.textIn false ++ " " ++ op.symbol ++ " " ++ right.textIn false)
  | .unary op operand _ => enclose delimited (op.symbol ++ operand.textIn false)
  | .call function arguments _ =>
    function ++ "(" ++ ", ".intercalate (argumentTexts arguments) ++ ")"
  | .cast operand target _ => "static_cast<" ++ target.cppName ++ ">(" ++ operand.textIn true ++ ")"

/-- The texts of the arguments of a call. -/
def argumentTexts : List Expr → List String
  | [] => []
  | e :: es => e.textIn true :: argumentTexts es

end

/-- The text of an expression. -/
def text (e : Expr) : String := e.textIn false

/-- The text of an expression whose surroundings delimit it. -/
def bare (e : Expr) : String := e.textIn true

/-- The text of a value that is printed; a truth value is spelled as scripts spell it. -/
def printed (e : Expr) : String :=
  if e.type = .boolean then "(" ++ e.text ++ " ? \"True\" : \"False\")" else e.text

end Expr

/-- A line of a program, indented by four blanks for every level. -/
def line (level : Nat) (text : String) : String :=
  String.ofList (List.replicate (4 * level) ' ') ++ text ++ "\n"

/-- The test and the update of a counting loop. -/
def loopHeader (counter : String) (start stop : Expr) (step : Int64) : String :=
  let size := toString step.toInt.natAbs
  let head := "for (int " ++ counter ++ " = " ++ start.bare ++ "; " ++ counter
  if step < 0 then head ++ " > " ++ stop.text ++ "; " ++ counter ++ " -= " ++ size ++ ")"
  else head ++ " < " ++ stop.text ++ "; " ++ counter ++ " += " ++ size ++ ")"

/-- The values of a print statement, with blanks between them. -/
def printedValues (es : List Expr) : String :=
  " << \" \"".intercalate (es.map fun e => " << " ++ e.printed)

namespace Stmt

mutual

/-- The text of a statement. -/
def text (level : Nat) : Stmt → String
  | .decl name type value =>
    line level (type.cppName ++ " " ++ name ++ " = " ++ value.bare ++ ";")
  | .assign name value => line level (name ++ " = " ++ value.bare ++ ";")
  | .expr value => line level (value.bare ++ ";")
  | .print values => line level ("std::cout" ++ printedValues values ++ " << std::endl;")
  | .ifElse branches orelse => branchesText level "if" branches ++ elseText level orelse
  | .whileLoop condition body =>
    line level ("while (" ++ condition.bare ++ ")") ++
      line level "\x7b" ++ blockText (level + 1) body ++ line level "\x7d"
  | .forLoop counter start stop step body =>
    line level (loopHeader counter start stop step) ++
      line level "\x7b" ++ blockText (level + 1) body ++ line level "\x7d"
  | .ret none => line level "return;"
  | .ret (some value) => line level ("return " ++ value.bare ++ ";")
  | .brk => line level "break;"
  | .cont => line level "continue;"
  | .comment c => String.join (c.textLines.map fun l => line level (String.ofList l))

/-- The text of statements. -/
def blockText (level : Nat) : List Stmt → String
  | [] => ""
  | s :: ss => s.text level ++ blockText level ss

/-- The text of the branches of a conditional, the first of which starts with `keyword`. -/
def branchesText (level : Nat) (keyword : String) : List (Expr × List Stmt) → String
  | [] => ""
  | (condition, body) :: branches =>
    line level (keyword ++ " (" ++ condition.bare ++ ")") ++
      line level "\x7b" ++ blockText (level + 1) body ++ line level "\x7d" ++
      branchesText level "else if" branches

/-- The text of the `else` of a conditional. -/
def elseText (level : Nat) : Option (List Stmt) → String
  | none => ""
  | some body =>
    line level "else" ++ line level "\x7b" ++ blockText (level + 1) body ++ line level "\x7d"

end

end Stmt

/-- The text of a block at the outermost level. -/
def bodyText (body : List Stmt) : String :=
  line 0 "\x7b" ++ Stmt.blockText 1 body ++ line 0 "\x7d"

/-- The spelling of the type of a parameter. -/
def ParamType.cppName : ParamType → String
  | .concrete t => t.cppName
  | .generic name => name

/-- The text of a parameter, with its default if that is asked for. -/
def Param.text (defaults : Bool) (p : Param) : String :=
  let head := p.type.cppName ++ " " ++ p.name
  match p.default with
  | some e => if defaults then head ++ " = " ++ e.bare else head
  | none => head

namespace Function

/-- The head of a function, with the defaults of its parameters if they are asked for. -/
def head (defaults : Bool) (f : Function) : String :=
  f.returns.cppName ++ " " ++ f.name ++ "(" ++
    ", ".intercalate (f.params.map (Param.text defaults)) ++ ")"

/-- The line that declares the type parameters of a function, if it has any. -/
def templateLine (f : Function) : String :=
  if f.typeParams.isEmpty then ""
  else line 0 ("template <" ++ ", ".intercalate (f.typeParams.map ("typename " ++ ·)) ++ ">")

/-- The prototype of a function. -/
def prototype (f : Function) : String := f.templateLine ++ line 0 (f.head true ++ ";")

/-- The definition of a function. -/
def text (f : Function) : String := f.templateLine ++ line 0 (f.head false) ++ bodyText f.body

end Function

namespace Program

/-- The lines that include the headers. -/
def includeLines (p : Program) : String :=
  let used := Include.all.filter (· ∈ p.includes)
  if used.isEmpty then ""
  else String.join (used.map fun i => line 0 ("#include <" ++ i.header ++ ">")) ++ "\n"

/-- The prototypes and definitions of the functions. -/
def functionLines (p : Program) : String :=
  if p.functions.isEmpty then ""
  else String.join (p.functions.map Function.prototype) ++ "\n" ++
    String.join (p.functions.map fun f => f.text ++ "\n")

/-- The text of a program. -/
def text (p : Program) : String :=
  p.includeLines ++ p.functionLines ++ line 0 "int main(int argc, char **argv)" ++
    bodyText p.mainBody

end Program

end StaticScript.Target
