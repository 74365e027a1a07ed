import StaticScript.Decimal.Double

/-!
# Shortest decimal text

`Double.shortest` gives the fewest decimal digits that read back as the same double.  The grids of
one, two, up to seventeen digits are tried in turn, and on each only the two neighbours of the
exact value; the first grid with a neighbour that reads back wins, and of two such neighbours the
nearer, the upper one in a tie.  `Double.text` lays these digits out.
-/

namespace StaticScript

namespace Double

/-- Whether a decimal reads back as `x`. -/
def readsBack (x : Double) (digits : Nat) (exponent : Int) : Bool :=
  ofDecimal? x.negative digits exponent == some x

/-- The neighbour of `x` on the grid of `n` digits that reads back as `x`, if there is one.  The
exact value is `digits * 10 ^ exponent`, and `digits` has `count` digits. -/
def onGrid? (x : Double) (digits : Nat) (exponent : Int) (count n : Nat) : Option (Nat × Int) :=
  let unit := Nat.pow 10 (count - n)
  let low := digits / unit
  let place := exponent + (count - n : Nat)
  let lowHits := x.readsBack low place
  let highHits := x.readsBack (low + 1) place
  if lowHits && (!highHits || decide (2 * (digits % unit) < unit)) then some (low, place)
  else if highHits then some (low + 1, place)
  else none

/-- Moves the zeros at the end of `digits` into the exponent; `fuel` bounds their number. -/
def stripZeros : Nat → Nat → Int → Nat × Int
  | 0, digits, exponent => (digits, exponent)
  | fuel + 1, digits, exponent =>
    if digits % 10 = 0 ∧ digits ≠ 0 then stripZeros fuel (digits / 10) (exponent + 1)
    else (digits, exponent)

/-- The fewest digits that read back as the magnitude of `x`, with their power of ten. -/
def shortest (x : Double) : Nat × Int :=
  let (digits, exponent) := x.exactDecimal
  let count := digitCount digits
  let hit := (List.range 17).findSome? fun n => x.onGrid? digits exponent count (n + 1)
  let (digits, exponent) := hit.getD (digits, exponent)
  stripZeros (digitCount digits) digits exponent

/-- How the digits of a number are laid out. -/
structure Layout where
  /-- Magnitudes from `10 ^ least` on are written without an exponent. -/
  least : Int
  /-- Magnitudes from `10 ^ most` on are written with an exponent. -/
  most : Int

/-- From a ten-thousandth up to `10 ^ 16` a number is written out, with at least one digit after
the point; other numbers have an exponent, and a point only if digits follow it. -/
def plainLayout : Layout := ⟨-4, 16⟩

/-- Writes the digits `ds`, of which the first stands for a multiple of `10 ^ lead`. -/
def layOut (layout : Layout) (ds : List Char) (lead : Int) : List Char :=
  if lead < layout.least ∨ layout.most ≤ lead then
    match ds with
    | [] => []
    | d :: rest =>
      let point := if rest.isEmpty then [] else '.' :: rest
      d :: point ++ 'e' :: (toString lead).toList
  else match lead with
    | .ofNat n =>
      let whole := ds.take (n + 1)
      let part := ds.drop (n + 1)
      whole ++ List.replicate (n + 1 - whole.length) '0' ++ '.' ::
        (if part.isEmpty then ['0'] else part)
    | .negSucc n => '0' :: '.' :: List.replicate n '0' ++ ds

/-- The text of a number: its sign, then the fewest digits that read back. -/
def text (x : Double) : String :=
  let sign := if x.negative then ['-'] else []
  let (digits, exponent) := x.shortest
  let ds := Nat.toDigits 10 digits
  let body :=
    if x.rank = 0 then ['0', '.', '0']
    else layOut plainLayout ds (exponent + ds.length - 1)
  String.ofList (sign ++ body)

end Double

end StaticScript
