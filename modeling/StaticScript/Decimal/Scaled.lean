import StaticScript.Decimal.Double

/-!
# Reading decimal numbers in steps

A decimal number is a significand of at most 64 bits and a power of ten.  `Double.ofScaled?` reads
it in steps, each of which rounds: the significand becomes the nearest double, which is multiplied
or divided by the double nearest to the power.  A power below `10 ^ (-308)` takes two divisions.

A significand below `2 ^ 53` with a power between `10 ^ (-22)` and `10 ^ 22` is rounded only once,
so that the outcome is the nearest double.  Elsewhere it may be a neighbour of that one, and a
number just below the first that is too large may be refused as well.
-/

namespace StaticScript.Double

/-- The magnitude in units of `2 ^ (-1074)`. -/
def units (x : Double) : Nat := x.significand * Nat.pow 2 x.shift

/-- The double nearest to the product, unless that is too large. -/
def mul? (x y : Double) : Option Double :=
  ofRank? (x.negative != y.negative) (nearestRank (x.units * y.units) (Nat.pow 2 (2 * 1074)))

/-- The double nearest to the quotient, unless that is too large or the divisor is zero. -/
def div? (x y : Double) : Option Double :=
  if y.rank = 0 then none
  else ofRank? (x.negative != y.negative) (nearestRank x.units y.units)

/-- The double nearest to `10 ^ n`, unless that is too large. -/
def tenPower? (n : Nat) : Option Double := ofDecimal? false 1 n

/-- The largest power of ten among the doubles is `10 ^ 308`. -/
def mostTens : Nat := 308

/-- Multiplies by `10 ^ exponent`.  A significand of 64 bits that is divided by more than
`10 ^ 616` is far below half of the least magnitude. -/
def scale? (x : Double) (exponent : Int) : Option Double :=
  if x.rank = 0 then some x
  else match exponent with
    | .ofNat n => do x.mul? (← tenPower? n)
    | .negSucc n =>
      if n + 1 ≤ mostTens then do x.div? (← tenPower? (n + 1))
      else if n + 1 ≤ 2 * mostTens then do
        (← x.div? (← tenPower? mostTens)).div? (← tenPower? (n + 1 - mostTens))
      else some (zero x.negative)

/-- The double that `significand * 10 ^ exponent` is read as, unless it is too large. -/
def ofScaled? (negative : Bool) (significand : Nat) (exponent : Int) : Option Double := do
  (← ofDecimal? negative significand 0).scale? exponent

end StaticScript.Double
