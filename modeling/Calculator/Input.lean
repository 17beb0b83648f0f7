import Calculator.Tree

/-!
# Inputs

What a tree is read from: some tokens, given as nodes, and after them the end of the input for ever.
Nothing is taken out of an input; whoever reads it keeps a position in it.
-/

namespace Calculator

structure Input where
  tokens : Array Tree

namespace Input

def ofList (ts : List Tree) : Input := ⟨ts.toArray⟩

/-- The token at a position. -/
def token (s : Input) (i : Nat) : Tree := s.tokens.getD i .finish

/-- The kind of the token at a position. -/
def kind (s : Input) (i : Nat) : Kind := (s.token i).kind

@[simp] theorem token_ofList (ts : List Tree) (i : Nat) :
    (ofList ts).token i = ts.getD i .finish := by
  simp [token, ofList]

/-- After the tokens there is nothing but the end of the input. -/
theorem token_eq_finish {s : Input} {i : Nat} (h : s.tokens.size ≤ i) : s.token i = .finish := by
  simp [token, Array.getD, Nat.not_lt.2 h]

end Input

end Calculator
