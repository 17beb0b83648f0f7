import Calculator.Binary64

/-!
# Sums over ranges

The sum of `start, start + step, start + 2 * step, ...` as far as these are at most `stop`, added up
in this order in the arithmetic of doubles. A term may be so large that adding the step gives the
same double again. If such a term is still in the range, the range never ends.
-/

namespace Calculator

namespace Range

/-- The place of a double in the order of all doubles. What is not a number has the last place. -/
def rank (x : Float) : UInt64 :=
  let bits := x.toBits
  if bits < 0x8000000000000000 then bits + 0x8000000000000000 else ~~~bits

/-- Adds the rest of a range, which begins with `term`, to `total`. Each term has a higher rank than
the one before, so there are only so many; a term without this property is followed by itself. -/
def addFrom (stop step : Float) (term total : Float) : Option Float :=
  if term ≤ stop then
    if rank term < rank (term + step) then addFrom stop step (term + step) (total + term) else none
  else some total
termination_by UInt64.size - (rank term).toNat
decreasing_by
  have := UInt64.lt_iff_toNat_lt.1 ‹rank term < rank (term + step)›
  have := (rank (term + step)).toNat_lt_size
  omega

/-- The step to take for a given one: anything that is not above zero stands for one. -/
def effectiveStep (step : Float) : Float :=
  if 0 < step then step else 1

/-- The sum over the range from `start` to `stop`, or `none` if the range never ends. -/
def sum? (start stop step : Float) : Option Float :=
  addFrom stop (effectiveStep step) start 0

end Range

end Calculator
