import StaticScript.Json.Writer
import StaticScript.Skip
import StaticScript.Source.Document

/-!
# Records as a JSON document

The constructs that are left out of a program, in a form for other tools.
-/

namespace StaticScript.SkipRecord

open Json

/-- Writes a record. -/
def toJson (r : SkipRecord) : Json :=
  ofFields [("span", r.span.toJson), ("node_id", ofNat r.id.toNat),
    ("category", ofText r.category.name), ("reason", ofText r.reason.name),
    ("original_text", ofText r.source)]

/-- The document of all records, laid out in lines. -/
def document (rs : List SkipRecord) : String := (ofList toJson rs).pretty

end StaticScript.SkipRecord
