import Calculator.Decimal

/-!
# Positional notation

A decimal written with digits alone, or with a point among them, and never with an exponent.
-/

namespace Calculator

namespace Decimal

/-- A decimal without a fraction has no point. Otherwise as many digits as the exponent asks for
stand after the point, and at least one before it. -/
def positional (d : Decimal) : List Char :=
  let digits := Nat.toDigits 10 d.coefficient
  if 0 ≤ d.exponent then digits ++ List.replicate d.exponent.toNat '0'
  else
    let places := (-d.exponent).toNat
    let padded := List.replicate (places + 1 - digits.length) '0' ++ digits
    padded.take (padded.length - places) ++ '.' :: padded.drop (padded.length - places)

end Decimal

end Calculator
