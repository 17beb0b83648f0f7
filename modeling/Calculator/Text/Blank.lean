/-!
# Blank characters

The property White_Space of Unicode. Blank characters separate lexemes and surround lines.
-/

namespace Calculator

namespace Text

def isBlank (c : Char) : Bool :=
  decide (
    '\t' ≤ c ∧ c ≤ '\r' ∨ c = ' ' ∨ c = '\u0085' ∨ c = '\u00a0' ∨ c = '\u1680' ∨
    '\u2000' ≤ c ∧ c ≤ '\u200a' ∨ c = '\u2028' ∨ c = '\u2029' ∨ c = '\u202f' ∨ c = '\u205f' ∨
    c = '\u3000')

end Text

end Calculator
