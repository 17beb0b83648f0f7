import Calculator.Number
import Calculator.Tree

/-!
# The text of a tree

A tree is written in parentheses: first its label, then its children, each after a blank. Of a node
whose label carries something, only that is written.
-/

namespace Calculator

namespace Tree

/-- The text of a node from what its label carries, the sign of the node and the text of its
children. -/
def nodeText (payload : Payload) (sign children : String) : String :=
  match payload with
  | .number value => "(literal " ++ Number.text value ++ ")"
  | .name identifier => "(name " ++ identifier ++ ")"
  | .none => "(" ++ sign ++ children ++ ")"

mutual

def text : Tree → String
  | leaf t => nodeText t.payload t.kind.symbol ""
  | unary t operand => nodeText t.payload t.kind.symbol (" " ++ operand.text)
  | binary t left right => nodeText t.payload t.kind.symbol (" " ++ left.text ++ " " ++ right.text)
  | call t callee arguments => nodeText t.payload "call" (" " ++ callee.text ++ listText arguments)

/-- The trees of a list, each after a blank. -/
def listText : List Tree → String
  | [] => ""
  | t :: ts => " " ++ t.text ++ listText ts

end

end Tree

end Calculator
