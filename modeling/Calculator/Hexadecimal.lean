import Calculator.Binary64
import Calculator.Lexeme

/-!
# Hexadecimal numerals

The digits of a hexadecimal numeral are taken up from left to right. Multiplying by sixteen only
raises the exponent of a double, so every digit costs one rounding at most, and a numeral of any
length has a value.
-/

namespace Calculator

namespace Hexadecimal

/-- The value of a hexadecimal digit of either case. -/
def digitValue (c : Char) : Nat :=
  if c.isDigit then c.toNat - '0'.toNat
  else if 'a' ≤ c then c.toNat - 'a'.toNat + 10
  else c.toNat - 'A'.toNat + 10

/-- Appends a digit to a numeral with the value `x`. -/
def push (x : Float) (c : Char) : Float :=
  x * 16 + Binary64.ofInt (digitValue c)

/-- The number that some digits write, which must be there and be nothing but digits. -/
def ofDigits? (s : List Char) : Option Float :=
  if !s.isEmpty && s.all LexemeClass.isHexDigit then some (s.foldl push 0) else none

end Hexadecimal

end Calculator
