/-!
# Decimals

A *decimal* is a whole number times a power of ten. Floating-point numbers are
written and read by way of decimals, and both ways are exact up to the one
rounding that a float's own precision asks for: `Decimal.toFloat` takes the
float nearest to a decimal, and `Kode.Decimal.Shortest` finds the shortest
decimal that a float is nearest to.
-/

namespace Kode

/-- The number `coefficient · 10 ^ exponent`. -/
structure Decimal where
  coefficient : Nat
  exponent : Int
deriving DecidableEq, Repr

namespace Decimal

/-- The decimal digits of the coefficient. -/
def digits (d : Decimal) : List Char :=
  Nat.toDigits 10 d.coefficient

/-- The exponent of the first digit: the decimal is at least ten to this power
    and less than ten times that, if it is not zero. -/
def magnitude (d : Decimal) : Int :=
  d.exponent + d.digits.length - 1

/-- The magnitude from which on a decimal is beyond every finite float. -/
def overflowMagnitude : Int := 400

/-- The magnitude up to which a decimal is nearer to zero than to any other
    float. -/
def underflowMagnitude : Int := -400

/-- The float nearest to the decimal. Magnitudes far out of reach are cut off,
    so that no power of ten is formed for them. -/
def toFloat (d : Decimal) : Float :=
  if d.coefficient = 0 ∨ d.magnitude ≤ underflowMagnitude then 0
  else if overflowMagnitude ≤ d.magnitude then Float.ofScientific 1 false 400
  else Float.ofScientific d.coefficient (d.exponent < 0) d.exponent.natAbs

end Decimal

end Kode
