import Calculator.Binary64.Integral
import Calculator.Function.Listing
import Calculator.Function.Range
import Calculator.RandomSource

/-!
# Function values

A function takes any number of arguments: one that is missing is not a number, and one too many is
ignored. So a function has a value at all arguments, unless computing it never ends.
-/

namespace Calculator

namespace Function

/-- The argument at a position, counted from zero. -/
def argument (arguments : List Float) (i : Nat) : Float :=
  arguments.getD i Binary64.notANumber

/-- The integer nearest to `x`, the greater one of two that are equally near. -/
def roundHalfUp (x : Float) : Float :=
  let below := Binary64.floor x
  if x - below ≥ 0.5 then below + 1 else below

/-- The value of a function at its arguments, or `none` if computing it never ends. -/
def value? (f : Function) (source : RandomSource) (arguments : List Float) : Option Float :=
  let x := argument arguments 0
  let y := argument arguments 1
  let z := argument arguments 2
  match f with
  | sin => some x.sin
  | cos => some x.cos
  | tan => some x.tan
  | cot => some (1 / x.tan)
  | asin => some x.asin
  | acos => some x.acos
  | atan => some x.atan
  | atan2 => some (Float.atan2 x y)
  | sqrt => some x.sqrt
  | exp => some x.exp
  | log => some x.log
  | floor => some (Binary64.floor x)
  | round => some (roundHalfUp x)
  | ceil => some (Binary64.ceiling x)
  | rand => some source.draw
  | sum => Range.sum? x y z

end Function

end Calculator
