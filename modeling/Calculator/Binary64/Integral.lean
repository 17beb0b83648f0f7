import Calculator.Binary64

/-!
# Integral parts of doubles

Truncation, floor, ceiling and remainder, computed on the exact value. The result is always a double
exactly, so none of them rounds. The Euclidean remainder is computed from the remainder with a sum of
doubles.
-/

namespace Calculator

-- Here a power of a natural number is the one of the core library, whatever else is in scope.
attribute [local instance (high)] instPowNat

namespace Binary64

/-- The number of ones in `significand * 2 ^ exponent`. -/
def wholePart (significand : Nat) (exponent : Int) : Nat :=
  significand * 2 ^ exponent.toNat / 2 ^ (-exponent).toNat

/-- Is there anything after the point of `significand * 2 ^ exponent`? -/
def hasFraction (significand : Nat) (exponent : Int) : Bool :=
  significand % 2 ^ (-exponent).toNat != 0

/-- `x` without what stands after the point. A zero keeps its sign, and a number that loses all its
digits becomes a zero of its own sign. -/
def truncate (x : Float) : Float :=
  match ofFloat x with
  | finite negative m e => nearest negative (wholePart m e) 1
  | _ => x

/-- The greatest integer up to `x`. A zero keeps its sign. -/
def floor (x : Float) : Float :=
  match ofFloat x with
  | finite false m e => nearest false (wholePart m e) 1
  | finite true m e => nearest true (wholePart m e + (hasFraction m e).toNat) 1
  | _ => x

/-- The least integer from `x` on. The numbers between `-1` and `0` have the ceiling `-0`. -/
def ceiling (x : Float) : Float :=
  match ofFloat x with
  | finite false m e => nearest false (wholePart m e + (hasFraction m e).toNat) 1
  | finite true m e => nearest true (wholePart m e) 1
  | _ => x

/-- What is left of `x` after taking away `y` as often as it goes into `x` whole. The sign is that
of `x`, also on a zero. Nothing can be taken away from an infinity, and a zero goes into nothing. -/
def remainder (x y : Float) : Float :=
  match ofFloat x, ofFloat y with
  | finite negative mx ex, finite _ my ey =>
    if my = 0 then notANumber
    else
      let e := min ex ey
      nearestScaled negative (mx * 2 ^ (ex - e).toNat % (my * 2 ^ (ey - e).toNat)) e
  | finite _ _ _, infinite _ => x
  | _, _ => notANumber

/-- The remainder that is not negative. Where the sign of `x` makes it negative, the magnitude of
`y` is added, in the arithmetic of doubles. -/
def euclideanRemainder (x y : Float) : Float :=
  let r := remainder x y
  if r < 0 then r + y.abs else r

end Binary64

end Calculator
