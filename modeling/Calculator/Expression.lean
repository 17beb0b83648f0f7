import Calculator.Grammar.Arithmetic
import Calculator.Lexeme.Tokens
import Calculator.Text.Lowercase
import Calculator.Tree.Reading
import Calculator.Tree.Value

/-!
# Expressions as texts

The calculator takes an expression as a text, in which the case of letters does not matter, and
gives its tree or its value in the grammar of arithmetic.
-/

namespace Calculator

namespace Expression

/-- The tree of an expression. -/
def tree (trailing : Tree.Trailing) (text : String) : Except Failure Tree :=
  match Token.ofChars (Text.lowercase text.toList) with
  | .ok tokens => Tree.ofTokens .arithmetic trailing tokens
  | .error e => .error (.parse e)

/-- The value of an expression. -/
def value (source : RandomSource) (trailing : Tree.Trailing) (text : String) :
    Except Failure Float := do
  let t ← tree trailing text
  t.value .arithmetic source

/-- A result as a record, in which a failure has the answer zero and a message. -/
structure Report where
  success : Bool
  answer : Float
  message : Option String

namespace Report

/-- The record of a result. There is none if the work never ends. -/
def ofResult? : Except Failure Float → Option Report
  | .ok answer => some ⟨true, answer, none⟩
  | .error failure => failure.message?.map fun message => ⟨false, 0, some message⟩

end Report

end Expression

end Calculator
