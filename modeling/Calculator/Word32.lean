import Calculator.Binary64.Integral

/-!
# 32-bit words

The shift operators work on words. A number becomes a word by dropping what stands after its point,
reducing the rest modulo `2 ^ 32` and converting that to a word, all of it on doubles. Of a shift
count only the low five bits matter.
-/

namespace Calculator

namespace Word32

/-- The number of words, as a double. -/
def modulus : Float := 4294967296

/-- The word of a number. What is not a number and the infinities have the word zero. The conversion
of the remainder would clamp a number that is no word. -/
def ofFloat (x : Float) : BitVec 32 :=
  if x.isFinite then
    (Binary64.euclideanRemainder (Binary64.truncate x) modulus).toUInt32.toBitVec
  else 0

/-- The bits of a shift count that matter. -/
def countMask : BitVec 32 := 0x1f

/-- By how many places a number shifts a word. -/
def count (x : Float) : Nat :=
  (ofFloat x &&& countMask).toNat

/-- Shifts to the left and takes the result as a signed word. -/
def shiftLeft (x n : Float) : Float :=
  Binary64.ofInt (ofFloat x <<< count n).toInt

/-- Shifts to the right and fills up with the sign. -/
def shiftRight (x n : Float) : Float :=
  Binary64.ofInt ((ofFloat x).sshiftRight (count n)).toInt

/-- Shifts to the right, fills up with zeros and takes the result as an unsigned word. -/
def shiftRightZero (x n : Float) : Float :=
  Binary64.ofInt (ofFloat x >>> count n).toNat

end Word32

end Calculator
