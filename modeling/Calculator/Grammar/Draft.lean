import Calculator.Grammar.Rule

/-!
# Grammars in the making

A draft takes rules one by one, and at any time the grammar that the rules so far build can be issued.
What has been issued is not touched by rules that come later.
-/

namespace Calculator

namespace Grammar

/-- One step in the making of grammars. -/
inductive Step where
  /-- There is one more rule. -/
  | rule (rule : Rule)
  /-- The grammar is issued as it is now. -/
  | issue
  deriving DecidableEq, Repr

/-- A grammar in the making, and the grammars that have been issued, the last one first. -/
structure Draft where
  current : Grammar := .empty
  issued : List Grammar := []

namespace Draft

def after (d : Draft) : Step → Draft
  | .rule rule => { d with current := d.current.add rule }
  | .issue => { d with issued := d.current :: d.issued }

/-- The draft that some steps make. -/
def ofSteps (steps : List Step) : Draft :=
  steps.foldl after {}

end Draft

end Grammar

end Calculator
