import Calculator.Token

/-!
# Failures

Why a text has no tree, why a tree has no value, and how either is reported.
-/

namespace Calculator

/-- Why a text is not an expression. -/
inductive SyntaxError where
  /-- No lexeme that is in use begins where `remainder` does. -/
  | unrecognized (remainder : String)
  /-- A token stands where an expression has to start, and cannot start one. -/
  | cannotStart (kind : Kind)
  /-- A token stands where a parenthesis has to be closed. -/
  | unclosed (found : Kind)
  /-- A token binds to the expression before it, and cannot extend it. -/
  | cannotExtend (kind : Kind)
  /-- A token stands after a whole expression. -/
  | trailing (kind : Kind)
  deriving DecidableEq, Repr

/-- Why a tree has no value. -/
inductive EvalError where
  /-- The label gives the tree no meaning, or none for a tree of its shape. -/
  | meaningless (kind : Kind)
  /-- The callee is not a function. -/
  | unknownFunction (callee : String)
  deriving DecidableEq, Repr

/-- Why there is no result. -/
inductive Failure where
  | parse (error : SyntaxError)
  | eval (error : EvalError)
  /-- The work never ends: a sum runs over an endless range, or a grammar goes on reading after the
  end of the input. -/
  | endless
  deriving DecidableEq, Repr

def SyntaxError.message : SyntaxError → String
  | unrecognized remainder => s!"unrecognized syntax at `{remainder}`"
  | cannotStart kind => s!"syntax error near `{kind.symbol}`"
  | unclosed found => s!"expected ) near `{found.symbol}`"
  | cannotExtend kind => s!"unknown operator `{kind.symbol}`"
  | trailing kind => s!"unexpected `{kind.symbol}` after complete expression"

def EvalError.message : EvalError → String
  | meaningless kind => s!"unknown operation with `{kind.symbol}`"
  | unknownFunction callee => s!"unknown function `{callee}`"

/-- The message of a failure. Work that never ends reports nothing. -/
def Failure.message? : Failure → Option String
  | parse error => some error.message
  | eval error => some error.message
  | endless => none

end Calculator
