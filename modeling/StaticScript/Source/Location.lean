import StaticScript.Text.Lines

/-!
# Places in a script

Lines and columns count from one, and columns count bytes.  `Span.extract?` cuts the text that a
span covers out of a script, if the span lies inside it and cuts no character in two.
-/

namespace StaticScript.Source

/-- A place in a script. -/
structure Location where
  file : String
  line : UInt32
  column : UInt32
deriving DecidableEq

/-- The text between two places; the second place lies behind it. -/
structure Span where
  start : Location
  stop : Location
deriving DecidableEq

namespace Location

/-- A place that is not known. -/
def unknown : Location := ⟨"<unknown>", 0, 0⟩

/-- File, line and column. -/
def text (l : Location) : String :=
  l.file ++ ":" ++ toString l.line.toNat ++ ":" ++ toString l.column.toNat

/-- The byte offset of a place in a script.  The place right behind the line feed of a line still
belongs to that line. -/
def offset? (source : List Char) (l : Location) : Option Nat :=
  if l.line = 0 ∨ l.column = 0 then none
  else
    let pieces := Text.pieces source
    let above := pieces.take (l.line.toNat - 1)
    match pieces[l.line.toNat - 1]? with
    | none => none
    | some piece =>
      if l.column.toNat - 1 ≤ Text.byteCount piece then
        some (Text.byteCount above.flatten + (l.column.toNat - 1))
      else none

end Location

namespace Span

/-- The empty span at a place. -/
def ofLocation (l : Location) : Span := ⟨l, l⟩

/-- A span that is not known. -/
def unknown : Span := ofLocation .unknown

/-- The places of a span, without repeating what they share. -/
def text (s : Span) : String :=
  let column := toString s.start.column.toNat
  let line := s.start.file ++ ":" ++ toString s.start.line.toNat
  let stopColumn := toString s.stop.column.toNat
  if s.start.file ≠ s.stop.file then s.start.text ++ " to " ++ s.stop.text
  else if s.start.line = s.stop.line then
    if s.start.column = s.stop.column then line
    else line ++ ":" ++ column ++ "-" ++ stopColumn
  else line ++ ":" ++ column ++ "-" ++ toString s.stop.line.toNat ++ ":" ++ stopColumn

/-- The text that a span covers. -/
def extract? (source : List Char) (s : Span) : Option String := do
  let start ← s.start.offset? source
  let stop ← s.stop.offset? source
  if start ≤ stop then (Text.slice? source start stop).map String.ofList else none

end Span

end StaticScript.Source
