import StaticScript.Source.Location

/-!
# Diagnostics

Messages about places in a script, with notes, and the report that counts them.
-/

namespace StaticScript

/-- How grave a diagnostic is. -/
inductive Severity where
  | error | warning | note
deriving DecidableEq

/-- A message about a place. -/
structure Diagnostic where
  severity : Severity
  message : String
  span : Source.Span
  notes : List String
deriving DecidableEq

/-- Diagnostics in the order in which they were made. -/
structure Report where
  diagnostics : List Diagnostic

namespace Severity

/-- All severities. -/
def all : List Severity := [.error, .warning, .note]

/-- The name of a severity in documents. -/
def tag : Severity → String
  | .error => "Error"
  | .warning => "Warning"
  | .note => "Note"

/-- The word that a severity is shown as. -/
def label : Severity → String
  | .error => "error"
  | .warning => "warning"
  | .note => "note"

end Severity

namespace Diagnostic

/-- The diagnostic as a sentence, with a line for every note. -/
def text (d : Diagnostic) : String :=
  d.severity.label ++ ": " ++ d.message ++ " at " ++ d.span.text ++
    String.join (d.notes.map ("\n  note: " ++ ·))

/-- The diagnostic with its place in front, with a line for every note. -/
def located (d : Diagnostic) : String :=
  d.span.start.text ++ ": " ++ d.severity.label ++ ": " ++ d.message ++
    String.join (d.notes.map ("\n  = " ++ ·))

end Diagnostic

namespace Report

/-- The report without diagnostics. -/
def empty : Report := ⟨[]⟩

/-- Adds a diagnostic. -/
def add (r : Report) (d : Diagnostic) : Report := ⟨r.diagnostics ++ [d]⟩

/-- The number of diagnostics of a severity. -/
def count (r : Report) (s : Severity) : Nat := (r.diagnostics.filter (·.severity = s)).length

/-- A number of things, in words. -/
def counted (n : Nat) (noun : String) : String :=
  toString n ++ " " ++ noun ++ if n = 1 then "" else "s"

/-- How many errors and warnings there are. -/
def summary (r : Report) : String :=
  match r.count .error, r.count .warning with
  | 0, 0 => "No errors or warnings"
  | 0, w => counted w "warning"
  | e, 0 => counted e "error"
  | e, w => counted e "error" ++ " and " ++ counted w "warning"

end Report

end StaticScript
