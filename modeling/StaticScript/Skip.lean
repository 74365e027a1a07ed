import StaticScript.Category
import StaticScript.Diagnostic
import StaticScript.Source.Tree
import StaticScript.Target.Tree

/-!
# Constructs that are left out

A construct without a counterpart is left out of the program: a comment with its text stands in its
place, and a record is kept of it.
-/

namespace StaticScript

/-- A construct that is left out. -/
structure SkipRecord where
  span : Source.Span
  id : Source.NodeId
  category : Category
  reason : Reason
  /-- The text of the construct. -/
  source : String
deriving DecidableEq

/-- What the category of a construct says about its place. -/
inductive SkipError where
  | typeConflict (span : Source.Span)
  | unsupportedConstruct (category : Category) (span : Source.Span)
  | unresolvedCallee (category : Category) (span : Source.Span)
deriving DecidableEq

namespace SkipError

/-- The error that a category stands for, if it stands for one. -/
def ofCategory? (category : Category) (span : Source.Span) : Option SkipError :=
  match category with
  | .direct | .docOnly => none
  | .typeNarrowing => some (.typeConflict span)
  | .outOfScopeCall | .invalidMethodCall => some (.unresolvedCallee category span)
  | .valueUnused | .chainedAssignment | .dynamicCollection | .unsupported =>
    some (.unsupportedConstruct category span)

/-- The category of an error. -/
def category : SkipError → Category
  | .typeConflict _ => .typeNarrowing
  | .unsupportedConstruct c _ | .unresolvedCallee c _ => c

/-- The place of an error. -/
def span : SkipError → Source.Span
  | .typeConflict s | .unsupportedConstruct _ s | .unresolvedCallee _ s => s

/-- The wording of an error. -/
def message : SkipError → String
  | .typeConflict s => "Type cannot change without precision loss at " ++ s.text
  | .unsupportedConstruct c s => "Unsupported construct (" ++ c.name ++ ") at " ++ s.text
  | .unresolvedCallee c s => "Unresolved callee (" ++ c.name ++ ") at " ++ s.text

end SkipError

namespace SkipRecord

/-- The record of a construct at a site. -/
def ofSite (site : Source.Site) (category : Category) : SkipRecord :=
  ⟨site.span, site.id, category, category.reason, site.text⟩

/-- The comment that stands in the place of the construct. -/
def comment (r : SkipRecord) : Target.Stmt := .comment (.skipped r.reason r.source)

/-- The error that the record stands for, if it stands for one. -/
def error? (r : SkipRecord) : Option SkipError := SkipError.ofCategory? r.category r.span

/-- The first line of the construct. -/
def firstLine (r : SkipRecord) : String :=
  String.ofList ((Text.lines r.source.toList).headD [])

/-- The warning about the construct. -/
def diagnostic (r : SkipRecord) : Diagnostic where
  severity := .warning
  message := r.reason.text
  span := r.span
  notes := ("manual port required: " ++ r.firstLine) :: (r.error?.map SkipError.message).toList

end SkipRecord

/-- The report on constructs that are left out. -/
def Report.ofRecords (rs : List SkipRecord) : Report := ⟨rs.map SkipRecord.diagnostic⟩

/-! ### Documentation -/

/-- Removes the empty lines at the front and at the end. -/
def dropEmptyEnds (lines : List (List Char)) : List (List Char) :=
  ((lines.dropWhile List.isEmpty).reverse.dropWhile List.isEmpty).reverse

/-- The comment that stands for a statement of documentation. -/
def docComment : Source.Stmt → Target.Comment
  | .docString _ content =>
    .doc ((dropEmptyEnds ((Text.lines content.toList).map Text.trim)).map String.ofList)
  | .comment _ content => .line (String.ofList (Text.trim content.toList))
  | s => .line s.site.text

end StaticScript
