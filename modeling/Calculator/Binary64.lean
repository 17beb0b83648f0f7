/-!
# The parts of a double, and rounding to one

A finite double is `significand * 2 ^ exponent` with a sign. `Binary64.ofFloat` reads these parts
off the bits, and `Binary64.nearest` goes the other way from any quotient of naturals: it gives the
double nearest to the quotient, and of two equally near ones the one with the even significand. All
operations on doubles that this library adds compute an exact result from the parts and round it
once with `nearest`.
-/

namespace Calculator

-- Here a power of a natural number is the one of the core library, whatever else is in scope.
attribute [local instance (high)] instPowNat

/-- What a double is. -/
inductive Binary64 where
  | nan
  | infinite (negative : Bool)
  /-- The number `significand * 2 ^ exponent`, negated if `negative`. -/
  | finite (negative : Bool) (significand : Nat) (exponent : Int)
  deriving DecidableEq, Repr

namespace Binary64

/-- The parts of a double. A significand is below `2 ^ 53`, and one below `2 ^ 52` has the least
exponent. -/
def ofFloat (x : Float) : Binary64 :=
  let bits := x.toBits.toNat
  let negative := decide (2 ^ (63 : Nat) ≤ bits)
  let field : Nat := bits / 2 ^ (52 : Nat) % 2 ^ (11 : Nat)
  let fraction := bits % 2 ^ (52 : Nat)
  if field = 2047 then
    if fraction = 0 then infinite negative else nan
  else if field = 0 then finite negative fraction (-1074)
  else finite negative (2 ^ (52 : Nat) + fraction) (field - 1075)

/-- The double with the given sign and the given bits below the sign. -/
def signed (negative : Bool) (magnitude : Nat) : Float :=
  Float.ofBits (UInt64.ofNat (if negative then 2 ^ (63 : Nat) + magnitude else magnitude))

/-- The bits of positive infinity. A magnitude that rounds to more than the largest finite double
is infinite. -/
def infinityBits : Nat := 2047 * 2 ^ (52 : Nat)

def infinity (negative : Bool) : Float := signed negative infinityBits

def zero (negative : Bool) : Float := signed negative 0

def notANumber : Float := Float.ofBits 0x7ff8000000000000

/-- The natural nearest to `num / den`, the even one of two that are equally near. -/
def roundHalfEven (num den : Nat) : Nat :=
  let quotient := num / den
  let excess := 2 * (num % den)
  if excess < den ∨ (excess = den ∧ quotient % 2 = 0) then quotient else quotient + 1

/-- The exponent of the last place of the double nearest to `num / den`, counted from `-1074` on. It
is zero below `2 ^ 53` units of `2 ^ -1074`, and from there on it leaves 53 bits to the
significand. -/
def scale (num den : Nat) : Nat :=
  (num * 2 ^ (1074 : Nat) / den).log2 - 52

/-- The double nearest to `num / den`.

Its significand is the quotient in units of its last place, rounded. In the bits of a double the
exponent field stands above the fraction. It is the scale, or one more where the significand has its
leading bit, which is not stored and is worth just that. So the scale and the significand add up to
the bits, also where rounding carries into the next exponent. -/
def nearest (negative : Bool) (num den : Nat) : Float :=
  let s := scale num den
  let significand := roundHalfEven (num * 2 ^ (1074 : Nat)) (den * 2 ^ s)
  signed negative (min (s * 2 ^ (52 : Nat) + significand) infinityBits)

/-- The double nearest to `significand * 2 ^ exponent`. -/
def nearestScaled (negative : Bool) (significand : Nat) (exponent : Int) : Float :=
  nearest negative (significand * 2 ^ exponent.toNat) (2 ^ (-exponent).toNat)

/-- The double nearest to an integer; zero is positive. -/
def ofInt (n : Int) : Float :=
  nearest (decide (n < 0)) n.natAbs 1

end Binary64

end Calculator
