import Calculator.Decimal

/-!
# Shortest decimals

Among the decimals that read back as a given double, `shortest` is one with the fewest digits, of
those the nearest to the double, and of two equally near ones the greater. The decimals that read
back are the ones in an interval around the double, which ends halfway to its neighbours and
includes its ends if the significand is even.

A decimal with fewer digits lies on a coarser grid of multiples of a power of ten. If any multiple
lies in the interval, then one of the two around the double does, so it is enough to try these two
on each grid, from the coarsest that can have a hit down to the first that has one.
-/

namespace Calculator

-- Here a power of a natural number is the one of the core library, whatever else is in scope.
attribute [local instance (high)] instPowNat

namespace Decimal

/-- How far the interval goes down from `significand * 2 ^ exponent`, in quarters of the last
place. Below a power of two the doubles lie twice as close. -/
def gapBelow (significand : Nat) (exponent : Int) : Nat :=
  if significand = 2 ^ (52 : Nat) ∧ -1074 < exponent then 1 else 2

/-- Does the decimal read back as the double `significand * 2 ^ exponent`? -/
def readsBack (significand : Nat) (exponent : Int) (d : Decimal) : Bool :=
  let decimal := d.coefficient * 10 ^ d.exponent.toNat * 2 ^ (2 - exponent).toNat
  let quarter := 10 ^ (-d.exponent).toNat * 2 ^ (exponent - 2).toNat
  let low := (4 * significand - gapBelow significand exponent) * quarter
  let high := (4 * significand + 2) * quarter
  if significand % 2 = 0 then decide (low ≤ decimal ∧ decimal ≤ high)
  else decide (low < decimal ∧ decimal < high)

/-- The double's neighbour among the multiples of `10 ^ place` that is to be taken: one that reads
back, the nearer one if both do, and the upper one of two equally near. -/
def onGrid? (significand : Nat) (exponent place : Int) : Option Decimal :=
  let num := significand * 2 ^ exponent.toNat * 10 ^ (-place).toNat
  let den := 2 ^ (-exponent).toNat * 10 ^ place.toNat
  let below : Decimal := ⟨num / den, place⟩
  let above : Decimal := ⟨num / den + 1, place⟩
  match readsBack significand exponent below, readsBack significand exponent above with
  | true, true => some (if 2 * (num % den) < den then below else above)
  | true, false => some below
  | false, true => some above
  | false, false => none

/-- The first hit on the grids `last + steps`, `last + steps - 1`, ... down to `last`, on which the
double itself lies. -/
def firstHit (significand : Nat) (exponent last : Int) : Nat → Decimal
  | 0 => ⟨significand * 2 ^ exponent.toNat * 10 ^ (-last).toNat / 2 ^ (-exponent).toNat, last⟩
  | steps + 1 =>
    match onGrid? significand exponent (last + (steps + 1)) with
    | some d => d
    | none => firstHit significand exponent last steps

/-- A place so high that no multiple of its power of ten reads back: the interval ends below the
power of two with exponent `bits`, and `30103 / 100000` is a little more than the decimal logarithm
of two. -/
def topPlace (significand : Nat) (exponent : Int) : Int :=
  let bits : Int := (4 * significand + 2).log2 + 1 + (exponent - 2)
  bits * 30103 / 100000 + 1

/-- The decimal to write for the positive double `significand * 2 ^ exponent`. Every double with a
negative exponent is a multiple of `10 ^ exponent`, and every other one is a natural number. -/
def shortest (significand : Nat) (exponent : Int) : Decimal :=
  let last := min exponent 0
  firstHit significand exponent last (topPlace significand exponent - last).toNat

end Decimal

end Calculator
