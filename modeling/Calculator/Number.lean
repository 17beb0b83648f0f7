import Calculator.Decimal.Numeral
import Calculator.Decimal.Positional
import Calculator.Decimal.Shortest

/-!
# The text of a number

A double is written as the shortest decimal that reads back as it, in positional notation, with `-`
before it if its sign is set, also on a zero. The values that are no decimal have names.
-/

namespace Calculator

namespace Number

def nanText : String := "NaN"

def infinityText : String := "inf"

/-- Puts the sign before a text. -/
def withSign (negative : Bool) (s : String) : String :=
  if negative then "-" ++ s else s

def text (x : Float) : String :=
  match Binary64.ofFloat x with
  | .nan => nanText
  | .infinite negative => withSign negative infinityText
  | .finite negative 0 _ => withSign negative "0"
  | .finite negative significand exponent =>
    withSign negative (String.ofList (Decimal.shortest significand exponent).positional)

/-- The number that an unsigned text writes: the name of infinity or a numeral. -/
def ofUnsigned? (s : List Char) : Option Float :=
  if s = infinityText.toList then some (Binary64.infinity false)
  else (Decimal.ofNumeral? s).map Decimal.toFloat

/-- The number that a text writes. Numerals may have an exponent. -/
def ofText? (s : String) : Option Float :=
  if s = nanText then some Binary64.notANumber
  else
    match s.toList with
    | '-' :: s => (ofUnsigned? s).map fun x => -x
    | s => ofUnsigned? s

end Number

end Calculator
