import Calculator.Binary64

/-!
# Decimals

A decimal is a natural number scaled by a power of ten.
-/

namespace Calculator

-- Here a power of a natural number is the one of the core library, whatever else is in scope.
attribute [local instance (high)] instPowNat

/-- The number `coefficient * 10 ^ exponent`. -/
structure Decimal where
  coefficient : Nat
  exponent : Int
  deriving DecidableEq, Repr

namespace Decimal

/-- Is the decimal zero, or so small that this is seen without computing a power of ten? Taking the
coefficient for the next power of two and ten for eight, it is at most half the least double. -/
def vanishes (d : Decimal) : Bool :=
  d.coefficient == 0 || decide ((d.coefficient.log2 : Int) + 1076 ≤ 3 * -d.exponent)

/-- The double nearest to a decimal. An exponent may have any size: a decimal that vanishes rounds to
zero, and one from `10 ^ 310` on to infinity. -/
def toFloat (d : Decimal) : Float :=
  if d.vanishes then Binary64.zero false
  else if 310 ≤ d.exponent then Binary64.infinity false
  else Binary64.nearest false (d.coefficient * 10 ^ d.exponent.toNat) (10 ^ (-d.exponent).toNat)

end Decimal

end Calculator
