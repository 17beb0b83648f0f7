/-!
# Tokens

A token is a kind together with what it carries: the value of a literal, the identifier of a name,
or nothing. The kinds are closed and ordered; the order is the one in which they are listed.
-/

namespace Calculator

/-- What a token is, and what the tree node built from it is. -/
inductive Kind where
  | literal | name
  | plus | minus | times | divide | remainder | power
  | shiftLeft | shiftRight | shiftRightZero
  | openParen | closeParen | comma
  /-- The end of the input. A stream of tokens that runs out goes on with this kind for ever. -/
  | finish
  deriving DecidableEq, Repr

namespace Kind

/-- Every kind, in order. -/
def all : List Kind :=
  [literal, name, plus, minus, times, divide, remainder, power, shiftLeft, shiftRight,
    shiftRightZero, openParen, closeParen, comma, finish]

theorem mem_all (k : Kind) : k ∈ all := by
  cases k <;> decide

/-- The sign a kind goes by in diagnostics and in the text of a tree. -/
def symbol : Kind → String
  | literal => "(literal)"
  | name => "(name)"
  | plus => "+"
  | minus => "-"
  | times => "*"
  | divide => "/"
  | remainder => "%"
  | power => "^"
  | shiftLeft => "<<"
  | shiftRight => ">>"
  | shiftRightZero => ">>>"
  | openParen => "("
  | closeParen => ")"
  | comma => ","
  | finish => "(end)"

/-- Different kinds have different signs. -/
theorem symbol_injective {a b : Kind} (h : a.symbol = b.symbol) : a = b := by
  revert h
  cases a <;> cases b <;> decide

/-- The kind that goes by the sign `s`. -/
def ofSymbol? (s : String) : Option Kind :=
  all.find? (·.symbol == s)

theorem ofSymbol?_symbol (k : Kind) : ofSymbol? k.symbol = some k := by
  cases k <;> decide

end Kind

/-- What a token carries besides its kind. -/
inductive Payload where
  | none
  | number (value : Float)
  | name (identifier : String)
  deriving DecidableEq

/-- A lexical unit of an expression. -/
structure Token where
  kind : Kind
  payload : Payload
  deriving DecidableEq

namespace Token

/-- Operators, brackets and separators carry nothing. -/
def mark (kind : Kind) : Token := ⟨kind, .none⟩

def number (value : Float) : Token := ⟨.literal, .number value⟩

def name (identifier : String) : Token := ⟨.name, .name identifier⟩

/-- The token that stands after the last one of every text. -/
def finish : Token := mark .finish

/-- The value a token carries, if it carries one. -/
def number? (t : Token) : Option Float :=
  match t.payload with
  | .number value => some value
  | _ => none

/-- The identifier a token carries, if it carries one. -/
def name? (t : Token) : Option String :=
  match t.payload with
  | .name identifier => some identifier
  | _ => none

end Token

end Calculator
