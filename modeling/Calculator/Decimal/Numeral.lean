import Calculator.Decimal

/-!
# Numerals

A numeral writes a decimal: digits, then perhaps a point with digits after it, then perhaps an
exponent after `e` or `E`. Before a point the digits may be missing.
-/

namespace Calculator

namespace Decimal

/-- The number that some digits write, which must be there and be nothing but digits. -/
def ofDigits? (s : List Char) : Option Nat :=
  if !s.isEmpty && s.all Char.isDigit then some (Nat.ofDigitChars 10 s 0) else none

/-- The exponent that the end of a numeral writes; no end is the exponent zero. -/
def ofExponent? : List Char → Option Int
  | [] => some 0
  | mark :: s =>
    if mark = 'e' ∨ mark = 'E' then
      match s with
      | '+' :: s => (ofDigits? s).map fun n => n
      | '-' :: s => (ofDigits? s).map fun n => -n
      | s => (ofDigits? s).map fun n => n
    else none

/-- The decimal that a numeral writes. Every digit after the point is worth one exponent less. -/
def ofNumeral? (s : List Char) : Option Decimal :=
  let whole := s.takeWhile Char.isDigit
  match s.dropWhile Char.isDigit with
  | '.' :: s => do
    let fraction := s.takeWhile Char.isDigit
    if fraction.isEmpty then none
    let exponent ← ofExponent? (s.dropWhile Char.isDigit)
    return ⟨Nat.ofDigitChars 10 (whole ++ fraction) 0, exponent - fraction.length⟩
  | s => do
    if whole.isEmpty then none
    let exponent ← ofExponent? s
    return ⟨Nat.ofDigitChars 10 whole 0, exponent⟩

end Decimal

end Calculator
