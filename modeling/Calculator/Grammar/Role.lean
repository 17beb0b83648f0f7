import Calculator.Operator
import Calculator.Token

/-!
# Roles and grammars

A grammar gives each kind of token a role: how tightly it binds, how it starts an expression, how it
extends the one before it, and what a tree labelled with it means.
-/

namespace Calculator

/-- How tightly a token binds to what stands before it. A token with power zero never extends an
expression. -/
abbrev Power := Nat

/-- How a token starts an expression. -/
inductive Start where
  /-- The token cannot start an expression. -/
  | never
  /-- The token is an expression by itself. -/
  | leaf
  /-- The token applies to the operand after it, which is read at the given power. -/
  | operand (power : Power)
  /-- The token opens a group, which a closing parenthesis ends. -/
  | group
  deriving DecidableEq, Repr

/-- How a token extends the expression before it. -/
inductive Extension where
  /-- The token cannot extend an expression. -/
  | never
  /-- The right operand is read at the given power: among equals the operator to the left wins. -/
  | leftward (power : Power)
  /-- The right operand is read at one less than the given power: among equals the operator to the
  right wins. -/
  | rightward (power : Power)
  /-- The token opens the arguments of a call, which a closing parenthesis ends. -/
  | call
  deriving DecidableEq, Repr

/-- What a tree means by its label. -/
inductive Meaning where
  | none
  | literal
  | operator (operator : Operator)
  | call
  deriving DecidableEq, Repr

/-- What a grammar knows about one kind. -/
structure Role where
  power : Power := 0
  start : Start := .never
  extension : Extension := .never
  meaning : Meaning := .none
  deriving DecidableEq, Repr

/-- The roles of all kinds. -/
structure Grammar where
  role : Kind → Role

namespace Grammar

@[ext] theorem ext {g h : Grammar} (agree : ∀ k, g.role k = h.role k) : g = h := by
  cases g
  cases h
  congr
  exact funext agree

/-- Two grammars are the same if they give the same role to every kind. -/
instance : DecidableEq Grammar := fun g h =>
  decidable_of_iff (∀ k ∈ Kind.all, g.role k = h.role k)
    ⟨fun agree => ext fun k => agree k k.mem_all, fun same _ _ => same ▸ rfl⟩

def power (g : Grammar) (k : Kind) : Power := (g.role k).power

def start (g : Grammar) (k : Kind) : Start := (g.role k).start

def extension (g : Grammar) (k : Kind) : Extension := (g.role k).extension

def meaning (g : Grammar) (k : Kind) : Meaning := (g.role k).meaning

/-- The grammar in which no token can do anything. -/
def empty : Grammar := ⟨fun _ => {}⟩

end Grammar

end Calculator
