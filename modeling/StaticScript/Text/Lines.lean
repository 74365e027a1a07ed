/-!
# Lines of a text

A text is cut after each line feed.  `pieces` keeps the line feeds, so that the pieces put
together give back the text (`flatten_pieces`); `lines` drops each line feed and a carriage
return that stands right before it.
-/

namespace StaticScript.Text

/-- The pieces of a text, each ending with its line feed except perhaps the last. -/
def pieces : List Char → List (List Char)
  | [] => []
  | c :: cs =>
    if c = '\n' then ['\n'] :: pieces cs
    else match pieces cs with
      | [] => [[c]]
      | p :: ps => (c :: p) :: ps

/-- A piece without its line ending: a final line feed goes, and with it a carriage return
before it.  A piece that ends without a line feed is kept whole. -/
def dropEnding (piece : List Char) : List Char :=
  match piece.reverse with
  | '\n' :: '\r' :: rest => rest.reverse
  | '\n' :: rest => rest.reverse
  | _ => piece

/-- The lines of a text, without their endings; a text that ends with a line feed has no empty
last line. -/
def lines (cs : List Char) : List (List Char) := (pieces cs).map dropEnding

theorem flatten_pieces (cs : List Char) : (pieces cs).flatten = cs := by
  induction cs with
  | nil => rfl
  | cons c cs ih =>
    rw [pieces]
    split
    · next h => simp [ih, h]
    · cases hp : pieces cs with
      | nil => rw [hp] at ih; simpa using ih
      | cons p ps => rw [hp] at ih; simpa using ih

/-- The number of bytes of a text in UTF-8. -/
def byteCount : List Char → Nat
  | [] => 0
  | c :: cs => c.utf8Size + byteCount cs

/-- Cuts a text after `n` bytes, or gives nothing when no character ends there. -/
def splitAtByte? : Nat → List Char → Option (List Char × List Char)
  | 0, cs => some ([], cs)
  | _ + 1, [] => none
  | n + 1, c :: cs =>
    if c.utf8Size ≤ n + 1 then
      (splitAtByte? (n + 1 - c.utf8Size) cs).map fun (front, back) => (c :: front, back)
    else none

/-- The text between two byte offsets, if characters start or end at both. -/
def slice? (cs : List Char) (start stop : Nat) : Option (List Char) := do
  let (_, rest) ← splitAtByte? start cs
  let (middle, _) ← splitAtByte? (stop - start) rest
  return middle

end StaticScript.Text
