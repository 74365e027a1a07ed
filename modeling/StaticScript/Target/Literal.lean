/-!
# String literals of C++

A text between double quotes.  Control characters are written in octal, always with three digits,
and a question mark that follows another one is escaped, so that no two stand side by side.
-/

namespace StaticScript.Target

/-- Three octal digits. -/
def octal (n : Nat) : List Char :=
  [Nat.digitChar (n / 64 % 8), Nat.digitChar (n / 8 % 8), Nat.digitChar (n % 8)]

/-- The characters of a literal between its quotes; `mark` says that a question mark was written
last. -/
def escapeChars (mark : Bool) : List Char → List Char
  | [] => []
  | c :: cs =>
    if c = '"' then '\\' :: '"' :: escapeChars false cs
    else if c = '\\' then '\\' :: '\\' :: escapeChars false cs
    else if c = '\n' then '\\' :: 'n' :: escapeChars false cs
    else if c = '\t' then '\\' :: 't' :: escapeChars false cs
    else if c = '\r' then '\\' :: 'r' :: escapeChars false cs
    else if c.toNat < 0x20 ∨ c.toNat = 0x7F then
      '\\' :: octal c.toNat ++ escapeChars false cs
    else if c = '?' then
      if mark then '\\' :: '?' :: escapeChars true cs else '?' :: escapeChars true cs
    else c :: escapeChars false cs

/-- The literal of a text. -/
def literal (s : String) : String := String.ofList ('"' :: escapeChars false s.toList ++ ['"'])

end StaticScript.Target
