import Calculator.Decimal.Numeral
import Calculator.Failure
import Calculator.Hexadecimal

/-!
# The tokens of a text

Blank lexemes separate and stand for nothing; every other lexeme stands for one token, except that
binary numerals stand for none and are refused. The tokens of a text end with the end of the input.
-/

namespace Calculator

namespace Token

/-- The base of the natural logarithm. -/
def euler : Float := Float.ofBits 0x4005bf0a8b145769

/-- Half the circumference of the unit circle. -/
def pi : Float := Float.ofBits 0x400921fb54442d18

/-- The token of an identifier. Two of them are names of constants. -/
def ofIdentifier (s : String) : Token :=
  if s = "e" then number euler
  else if s = "pi" then number pi
  else name s

end Token

namespace Lexeme

/-- The tokens that a lexeme stands for, or `none` if it is refused. -/
def tokens? (l : Lexeme) : Option (List Token) :=
  match l.sort with
  | .blank => some []
  | .sign kind => some [.mark kind]
  | .hexadecimal => (Hexadecimal.ofDigits? (l.text.drop 2)).map fun x => [.number x]
  | .binary => none
  | .real | .integer => (Decimal.ofNumeral? l.text).map fun d => [.number d.toFloat]
  | .identifier => some [.ofIdentifier (String.ofList l.text)]

end Lexeme

namespace Token

/-- The tokens of a text. Where no lexeme begins, or one that is refused, the rest of the text is
reported. -/
def ofChars (s : List Char) : Except SyntaxError (List Token) :=
  if _ : s = [] then .ok [finish]
  else
    match _ : Lexeme.longest? s with
    | none => .error (.unrecognized (String.ofList s))
    | some l =>
      match l.tokens? with
      | none => .error (.unrecognized (String.ofList s))
      | some tokens => do
        let rest ← ofChars (s.drop l.text.length)
        .ok (tokens ++ rest)
termination_by s.length
decreasing_by exact Lexeme.length_drop_lt ‹_› ‹_›

def ofText (s : String) : Except SyntaxError (List Token) :=
  ofChars s.toList

end Token

end Calculator
