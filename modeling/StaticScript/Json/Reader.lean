import StaticScript.Decimal.Scaled
import StaticScript.Json.Value

/-!
# Reading JSON text

`Json.parse?` accepts exactly the documents of the JSON grammar: one value with blanks around it.
The text is first cut into tokens.  The tokens are then read one by one, by a machine whose state
is a stack of the arrays and objects still open and a phase that says what may come next, so that
no depth of nesting is beyond it.
-/

namespace StaticScript.Json

/-! ### Tokens -/

/-- The smallest parts of a document. -/
inductive Token where
  | openArray
  | closeArray
  | openObject
  | closeObject
  | colon
  | comma
  /-- A value without parts: a word, a number or a string. -/
  | scalar (value : Json)

/-- The blanks between tokens. -/
def isSpace (c : Char) : Bool := c == ' ' || c == '\t' || c == '\n' || c == '\r'

/-- One character of a string literal, or the code unit that an escape names. -/
inductive Piece where
  | char (c : Char)
  | unit (n : Nat)

/-- The value of a hexadecimal digit. -/
def hexDigit? (c : Char) : Option Nat :=
  if '0' ≤ c ∧ c ≤ '9' then some (c.toNat - '0'.toNat)
  else if 'a' ≤ c ∧ c ≤ 'f' then some (c.toNat - 'a'.toNat + 10)
  else if 'A' ≤ c ∧ c ≤ 'F' then some (c.toNat - 'A'.toNat + 10)
  else none

/-- The value of four hexadecimal digits. -/
def hexUnit? (a b c d : Char) : Option Nat := do
  return (((← hexDigit? a) * 16 + (← hexDigit? b)) * 16 + (← hexDigit? c)) * 16 + (← hexDigit? d)

/-- The character that a one-letter escape stands for. -/
def escape? : Char → Option Char
  | '"' => some '"'
  | '\\' => some '\\'
  | '/' => some '/'
  | 'b' => some '\x08'
  | 'f' => some '\x0c'
  | 'n' => some '\n'
  | 'r' => some '\r'
  | 't' => some '\t'
  | _ => none

/-- Reads a string literal after its opening quote: its pieces, and what follows the closing
quote. -/
def readPieces? : List Char → Option (List Piece × List Char)
  | [] => none
  | '"' :: rest => some ([], rest)
  | '\\' :: 'u' :: a :: b :: c :: d :: rest => do
    let n ← hexUnit? a b c d
    let (ps, rest) ← readPieces? rest
    return (.unit n :: ps, rest)
  | '\\' :: c :: rest => do
    let c ← escape? c
    let (ps, rest) ← readPieces? rest
    return (.char c :: ps, rest)
  | c :: rest =>
    if c.toNat < 0x20 ∨ c = '\\' then none
    else do
      let (ps, rest) ← readPieces? rest
      return (.char c :: ps, rest)

/-- The first half of a surrogate pair. -/
def isHighUnit (n : Nat) : Bool := decide (0xD800 ≤ n) && decide (n < 0xDC00)

/-- The second half of a surrogate pair. -/
def isLowUnit (n : Nat) : Bool := decide (0xDC00 ≤ n) && decide (n < 0xE000)

/-- The text that pieces spell.  Two code units that form a surrogate pair are one character; half
a pair alone is no character, and then there is no text. -/
def spell? : List Piece → Option (List Char)
  | [] => some []
  | .char c :: ps => (spell? ps).map (c :: ·)
  | .unit n :: ps =>
    if isHighUnit n then
      match ps with
      | .unit m :: ps =>
        if isLowUnit m then
          (spell? ps).map (Char.ofNat (0x10000 + (n - 0xD800) * 0x400 + (m - 0xDC00)) :: ·)
        else none
      | _ => none
    else if isLowUnit n then none
    else (spell? ps).map (Char.ofNat n :: ·)

/-- The longest run of digits at the front, and the rest. -/
def takeDigits (cs : List Char) : List Char × List Char :=
  (cs.takeWhile Char.isDigit, cs.dropWhile Char.isDigit)

/-- The value of a run of digits. -/
def digitsValue (ds : List Char) : Nat := ds.foldl (fun n d => n * 10 + (d.toNat - '0'.toNat)) 0

/-- Appends digits to `n` as long as the result fits into 64 bits, and gives the digits left. -/
def appendFitting (n : Nat) : List Char → Nat × List Char
  | [] => (n, [])
  | d :: ds =>
    let next := n * 10 + (d.toNat - '0'.toNat)
    if next < UInt64.size then appendFitting next ds else (n, d :: ds)

/-- Reads the digits before the point: a lone zero, or digits that do not start with zero. -/
def readWhole? (cs : List Char) : Option (List Char × List Char) :=
  match takeDigits cs with
  | ([], _) => none
  | ('0' :: _ :: _, _) => none
  | found => some found

/-- Reads a point and the digits after it, if a point comes next. -/
def readFraction? : List Char → Option (Option (List Char) × List Char)
  | '.' :: cs =>
    match takeDigits cs with
    | ([], _) => none
    | (ds, rest) => some (some ds, rest)
  | cs => some (none, cs)

/-- Reads the digits of an exponent. -/
def readPower? (cs : List Char) : Option (Nat × List Char) :=
  match takeDigits cs with
  | ([], _) => none
  | (ds, rest) => some (digitsValue ds, rest)

/-- Reads an exponent, if one comes next. -/
def readExponent? : List Char → Option (Option Int × List Char)
  | c :: cs =>
    if c = 'e' ∨ c = 'E' then
      match cs with
      | '-' :: cs => (readPower? cs).map fun (n, rest) => (some (-n), rest)
      | '+' :: cs => (readPower? cs).map fun (n, rest) => (some n, rest)
      | cs => (readPower? cs).map fun (n, rest) => (some n, rest)
    else some (none, c :: cs)
  | [] => some (none, [])

/-- The number of the digits before and after the point and an exponent.  Digits that do not fit
into 64 bits are not kept, but those before the point count for the power of ten.  Digits after the
point are tried anew, so that one of them may be kept where a greater one before the point was not.
An integer that does not fit is read like a number with an exponent. -/
def Number.ofDigits (negative : Bool) (whole : List Char) (fraction : Option (List Char))
    (power : Option Int) : Number :=
  let (n, above) := appendFitting 0 whole
  if fraction.isNone && power.isNone && above.isEmpty then .integer negative n
  else
    let part := fraction.getD []
    let (n, below) := appendFitting n part
    .decimal (Double.ofScaled? negative n
      (power.getD 0 + above.length - (part.length - below.length)))

/-- Reads a number after its sign. -/
def readNumber? (negative : Bool) (cs : List Char) : Option (Number × List Char) := do
  let (whole, cs) ← readWhole? cs
  let (fraction, cs) ← readFraction? cs
  let (power, cs) ← readExponent? cs
  return (.ofDigits negative whole fraction power, cs)

/-- Reads the token at the front of a text that does not start with a blank. -/
def readToken? : List Char → Option (Token × List Char)
  | '[' :: cs => some (.openArray, cs)
  | ']' :: cs => some (.closeArray, cs)
  | '\x7b' :: cs => some (.openObject, cs)
  | '\x7d' :: cs => some (.closeObject, cs)
  | ':' :: cs => some (.colon, cs)
  | ',' :: cs => some (.comma, cs)
  | 'n' :: 'u' :: 'l' :: 'l' :: cs => some (.scalar .null, cs)
  | 't' :: 'r' :: 'u' :: 'e' :: cs => some (.scalar (.bool true), cs)
  | 'f' :: 'a' :: 'l' :: 's' :: 'e' :: cs => some (.scalar (.bool false), cs)
  | '"' :: cs => do
    let (pieces, cs) ← readPieces? cs
    return (.scalar (.string ((spell? pieces).map String.ofList)), cs)
  | '-' :: cs => do
    let (n, cs) ← readNumber? true cs
    return (.scalar (.number n), cs)
  | cs => do
    let (n, cs) ← readNumber? false cs
    return (.scalar (.number n), cs)

/-- The tokens of a text.  Each token takes at least one character, so `fuel` need not exceed the
length of the text. -/
def tokensWithin? : Nat → List Char → Option (List Token)
  | fuel, cs =>
    match fuel, cs.dropWhile isSpace with
    | _, [] => some []
    | 0, _ => none
    | fuel + 1, cs => do
      let (token, cs) ← readToken? cs
      return token :: (← tokensWithin? fuel cs)

/-- The tokens of a text. -/
def tokens? (cs : List Char) : Option (List Token) := tokensWithin? cs.length cs

/-! ### The machine -/

/-- An array or object in which a value is awaited: what stands before that value, last first. -/
inductive Frame where
  | item (before : List Json)
  | field (before : List (Content × Json)) (name : Content)

/-- What may come next. -/
inductive Phase where
  /-- A value. -/
  | value
  /-- The first value of an array, or its end. -/
  | firstItem
  /-- The first name of an object, or its end. -/
  | firstName
  /-- A further name of an object. -/
  | name (before : List (Content × Json))
  /-- The colon after a name. -/
  | colon (before : List (Content × Json)) (name : Content)
  /-- What follows a complete value. -/
  | after (value : Json)

/-- A state of the machine: the open arrays and objects, innermost first, and the phase. -/
abbrev State := List Frame × Phase

/-- Starts a value with a token. -/
def beginValue? (stack : List Frame) : Token → Option State
  | .openArray => some (stack, .firstItem)
  | .openObject => some (stack, .firstName)
  | .scalar value => some (stack, .after value)
  | _ => none

/-- Takes one token. -/
def step? : State → Token → Option State
  | (stack, .value), token => beginValue? stack token
  | (stack, .firstItem), .closeArray => some (stack, .after (.array []))
  | (stack, .firstItem), token => beginValue? (.item [] :: stack) token
  | (stack, .firstName), .closeObject => some (stack, .after (.object []))
  | (stack, .firstName), .scalar (.string name) => some (stack, .colon [] name)
  | (stack, .name before), .scalar (.string name) => some (stack, .colon before name)
  | (stack, .colon before name), .colon => some (.field before name :: stack, .value)
  | (.item before :: stack, .after v), .comma => some (.item (v :: before) :: stack, .value)
  | (.item before :: stack, .after v), .closeArray =>
    some (stack, .after (.array (v :: before).reverse))
  | (.field before name :: stack, .after v), .comma => some (stack, .name ((name, v) :: before))
  | (.field before name :: stack, .after v), .closeObject =>
    some (stack, .after (.object ((name, v) :: before).reverse))
  | _, _ => none

/-- Takes all tokens. -/
def run? : State → List Token → Option State
  | state, [] => some state
  | state, token :: tokens => do run? (← step? state token) tokens

/-- The value that a document holds. -/
def parse? (s : String) : Option Json := do
  match ← run? ([], .value) (← tokens? s.toList) with
  | ([], .after value) => some value
  | _ => none

end StaticScript.Json
