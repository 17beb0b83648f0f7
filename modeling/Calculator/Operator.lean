import Calculator.Word32

/-!
# Operators

The arithmetic of doubles never fails: dividing by zero gives an infinity or what is not a number.
-/

namespace Calculator

inductive Operator where
  | add | subtract | multiply | divide | remainder | power
  | shiftLeft | shiftRight | shiftRightZero
  deriving DecidableEq, Repr

namespace Operator

/-- The value of an operator between two operands. -/
def apply : Operator → Float → Float → Float
  | add, x, y => x + y
  | subtract, x, y => x - y
  | multiply, x, y => x * y
  | divide, x, y => x / y
  | remainder, x, y => Binary64.remainder x y
  | power, x, y => x.pow y
  | shiftLeft, x, y => Word32.shiftLeft x y
  | shiftRight, x, y => Word32.shiftRight x y
  | shiftRightZero, x, y => Word32.shiftRightZero x y

/-- The value of an operator before its only operand. Just the signs have one. -/
def applyPrefix? : Operator → Float → Option Float
  | add, x => some x
  | subtract, x => some (-x)
  | _, _ => none

end Operator

end Calculator
