/-!
# Finite double-precision numbers

A finite double is a sign and a magnitude.  The magnitudes are numbered upward from zero, and
`Double.rank` is the number of this one: rank `0` is zero, rank `1` the least positive magnitude
`2 ^ (-1074)`, and the step from one rank to the next doubles at every `2 ^ 52` ranks from the
second such block on.  Every magnitude is thus `significand * 2 ^ shift` units of `2 ^ (-1074)`,
and all that is asked of doubles here, reading a decimal number and writing one, is exact
arithmetic on natural numbers.
-/

namespace StaticScript

namespace Double

/-- The number of ranks that share one step. -/
def block : Nat := Nat.pow 2 52

/-- The number of finite magnitudes. -/
def ranks : Nat := 2047 * block

end Double

/-- A finite double-precision number. -/
structure Double where
  /-- The sign, which a zero has too. -/
  negative : Bool
  /-- The place of the magnitude among all finite ones. -/
  rank : Nat
  /-- There are only so many finite magnitudes. -/
  finite : rank < Double.ranks
deriving DecidableEq

namespace Double

/-- The exponent of the step at this magnitude, in units of `2 ^ (-1074)`. -/
def shift (x : Double) : Nat := x.rank / block - 1

/-- The magnitude in steps of its own size. -/
def significand (x : Double) : Nat := x.rank - x.shift * block

/-- Zero with a sign. -/
def zero (negative : Bool) : Double := ⟨negative, 0, by decide⟩

/-- The number with the other sign. -/
def neg (x : Double) : Double := { x with negative := !x.negative }

/-- The quotient `n / d` rounded to the nearest natural number, a half to the even neighbour. -/
def roundDiv (n d : Nat) : Nat :=
  let q := n / d
  let r := n % d
  if 2 * r < d ∨ (2 * r = d ∧ q % 2 = 0) then q else q + 1

/-- The rank nearest to `n / d`.  The step is chosen so that the rounded quotient has at most 53
bits; when rounding carries into a 54th bit, the sum is the first rank of the next block. -/
def nearestRank (n d : Nat) : Nat :=
  let units := n * Nat.pow 2 1074
  let shift := Nat.log2 (units / d) - 52
  shift * block + roundDiv units (d * Nat.pow 2 shift)

/-- The double of a given sign and rank, unless the rank is beyond the finite ones. -/
def ofRank? (negative : Bool) (rank : Nat) : Option Double :=
  if h : rank < ranks then some ⟨negative, rank, h⟩ else none

/-- The number of decimal digits. -/
def digitCount (n : Nat) : Nat := (Nat.toDigits 10 n).length

/-- The double nearest to `digits * 10 ^ exponent`, or nothing if that is too large.  Exponents
that are certain to overflow, or to round to zero, are settled before any power is formed. -/
def ofDecimal? (negative : Bool) (digits : Nat) (exponent : Int) : Option Double :=
  if digits = 0 then some (zero negative)
  else if 310 < exponent then none
  else if exponent + digitCount digits < -330 then some (zero negative)
  else ofRank? negative <|
    match exponent with
    | .ofNat e => nearestRank (digits * Nat.pow 10 e) 1
    | .negSucc e => nearestRank digits (Nat.pow 10 (e + 1))

/-- The magnitude as an exact decimal: the digits and the power of ten that they are multiplied
by. -/
def exactDecimal (x : Double) : Nat × Int :=
  if 1074 ≤ x.shift then (x.significand * Nat.pow 2 (x.shift - 1074), 0)
  else (x.significand * Nat.pow 5 (1074 - x.shift), -(1074 - x.shift : Nat))

end Double

end StaticScript
