import StaticScript.Target.Tree
import StaticScript.Text.Lines

/-!
# The text of comments

A comment must end where it is meant to end.  A block comment would end early at `*/`, and a
backslash at the end of a line, blanks behind it included, would draw the next line into a line
comment.  Texts with either are therefore written in the form that they cannot break.
-/

namespace StaticScript.Target

/-- The end of a block comment occurs in the text. -/
def hasClose : List Char → Bool
  | '*' :: '/' :: _ => true
  | _ :: cs => hasClose cs
  | [] => false

/-- A backslash is the last character that is not blank. -/
def endsInBackslash (cs : List Char) : Bool := (Text.trimEnd cs).getLast? == some '\\'

/-- The text can stand in a block comment. -/
def fitsBlock (cs : List Char) : Bool := !hasClose cs && !(Text.lines cs).any endsInBackslash

/-- A text as a line comment.  If it ends in a backslash it is written as a block comment, or, if
it would end that, with a further comment behind it. -/
def lineComment (cs : List Char) : List Char :=
  if !endsInBackslash cs then '/' :: '/' :: cs
  else if !hasClose cs then '/' :: '*' :: cs ++ ['*', '/']
  else '/' :: '/' :: Text.trimEnd cs ++ [' ', '/', '/']

/-- The lines of a comment, to be indented each. -/
def Comment.textLines : Comment → List (List Char)
  | .doc lines =>
    let lines := lines.map String.toList
    if lines.all fitsBlock then
      ['/', '*'] :: lines.map Text.trimEnd ++ [['*', '/']]
    else lines.map fun l => lineComment (Text.trimEnd l)
  | .line text => [lineComment text.toList]
  | .skipped reason source =>
    let cs := source.toList
    ("//TODO: " ++ reason.text).toList ::
      if fitsBlock cs then ['/' :: '*' :: cs ++ ['*', '/']]
      else (Text.lines cs).map lineComment

end StaticScript.Target
