import Calculator.Grammar.Rule

/-!
# The grammar of arithmetic

From the loosest to the tightest: the shifts, the sum signs, the product signs, the power sign and
the signs before an operand, and calls. Only powers group to the right. A sign before an operand
binds as tightly as the power sign, so it goes to the base of a power: `-2^2` is four.
-/

namespace Calculator

namespace Grammar

/-- The rules that make `k` an operator between operands with one power on both sides. -/
def between (extension : Power → Extension) (p : Power) (k : Kind) (op : Operator) : List Rule :=
  [.power k p, ⟨k, .extension (extension p)⟩, .meaning k (.operator op)]

def arithmeticRules : List Rule :=
  between .leftward 100 .shiftLeft .shiftLeft ++
  between .leftward 100 .shiftRight .shiftRight ++
  between .leftward 100 .shiftRightZero .shiftRightZero ++
  between .leftward 110 .plus .add ++
  between .leftward 110 .minus .subtract ++
  between .leftward 120 .times .multiply ++
  between .leftward 120 .divide .divide ++
  between .leftward 120 .remainder .remainder ++
  between .rightward 130 .power .power ++
  [.operand .plus 130, .operand .minus 130,
    .leaf .literal, .power .literal 0, .meaning .literal .literal, .leaf .name, .power .name 0,
    .group .openParen, .power .openParen 150, .call .openParen, .meaning .openParen .call,
    .power .closeParen 0, .power .comma 0, .power .finish 0]

def arithmetic : Grammar := ofRules arithmeticRules

end Grammar

end Calculator
