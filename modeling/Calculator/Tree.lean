import Calculator.Token

/-!
# Expression trees

Every node of a tree is labelled with a token. A node has no children, one operand, two operands,
or a callee with its arguments. Nothing ties the number of children to the label: which shapes mean
something is the grammar's business.
-/

namespace Calculator

inductive Tree where
  | leaf (label : Token)
  | unary (label : Token) (operand : Tree)
  | binary (label : Token) (left right : Tree)
  | call (label : Token) (callee : Tree) (arguments : List Tree)

namespace Tree

/-- The four ways a node can have children. -/
inductive Shape where
  | leaf | unary | binary | call
  deriving DecidableEq, Repr

def label : Tree → Token
  | leaf t | unary t _ | binary t _ _ | call t _ _ => t

def kind (t : Tree) : Kind := t.label.kind

def shape : Tree → Shape
  | leaf _ => .leaf
  | unary _ _ => .unary
  | binary _ _ _ => .binary
  | call _ _ _ => .call

/-- The operand of a unary node, the left operand of a binary one, the callee of a call. -/
def first? : Tree → Option Tree
  | leaf _ => none
  | unary _ operand => some operand
  | binary _ left _ => some left
  | call _ callee _ => some callee

/-- The right operand of a binary node. -/
def second? : Tree → Option Tree
  | binary _ _ right => some right
  | _ => none

/-- The arguments of a call; no other node has any. -/
def arguments : Tree → List Tree
  | call _ _ arguments => arguments
  | _ => []

def number? (t : Tree) : Option Float := t.label.number?

def name? (t : Tree) : Option String := t.label.name?

/-- The end of the input, as a node. -/
def finish : Tree := leaf .finish

/-! ## Equality -/

mutual

/-- Are two trees the same, labels and children and all? -/
def decEq (a b : Tree) : Decidable (a = b) :=
  match a, b with
  | leaf t, leaf u => decidable_of_iff (t = u) (by simp)
  | unary t x, unary u y =>
    have := decEq x y
    decidable_of_iff (t = u ∧ x = y) (by simp)
  | binary t x₁ x₂, binary u y₁ y₂ =>
    have := decEq x₁ y₁
    have := decEq x₂ y₂
    decidable_of_iff (t = u ∧ x₁ = y₁ ∧ x₂ = y₂) (by simp)
  | call t x xs, call u y ys =>
    have := decEq x y
    have := decEqList xs ys
    decidable_of_iff (t = u ∧ x = y ∧ xs = ys) (by simp)
  | leaf _, unary _ _ | leaf _, binary _ _ _ | leaf _, call _ _ _
  | unary _ _, leaf _ | unary _ _, binary _ _ _ | unary _ _, call _ _ _
  | binary _ _ _, leaf _ | binary _ _ _, unary _ _ | binary _ _ _, call _ _ _
  | call _ _ _, leaf _ | call _ _ _, unary _ _ | call _ _ _, binary _ _ _ => isFalse (by simp)

def decEqList (as bs : List Tree) : Decidable (as = bs) :=
  match as, bs with
  | [], [] => isTrue rfl
  | a :: as, b :: bs =>
    have := decEq a b
    have := decEqList as bs
    decidable_of_iff (a = b ∧ as = bs) (by simp)
  | [], _ :: _ | _ :: _, [] => isFalse (by simp)

end

instance : DecidableEq Tree := decEq

end Tree

end Calculator
