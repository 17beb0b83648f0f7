import Calculator.Failure
import Calculator.Function.Application
import Calculator.Grammar.Role
import Calculator.Tree.Text

/-!
# The value of a tree

What a tree means is decided by its label, and the shape of the tree has to fit. Operands are
evaluated from left to right; the callee of a call is looked up before its arguments are evaluated,
and never evaluated itself. The first failure on this way is the result.

Every node has a random source of its own, split from that of its parent.
-/

namespace Calculator

namespace Tree

/-- The failure of a node labelled `t` that means nothing. -/
def meaningless (t : Token) : Except Failure Float :=
  .error (.eval (.meaningless t.kind))

/-- A result that may not be there because computing it never ends. -/
def orEndless : Option Float → Except Failure Float
  | some x => .ok x
  | none => .error .endless

/-- The value of a literal is the one its label carries. -/
def literalValue (t : Token) : Except Failure Float :=
  match t.number? with
  | some x => .ok x
  | none => meaningless t

/-- The function that a callee names. A callee without a name is reported by its text. -/
def calledFunction (callee : Tree) : Except Failure Function :=
  match callee.name? with
  | some name =>
    match Function.named? name with
    | some f => .ok f
    | none => .error (.eval (.unknownFunction name))
  | none => .error (.eval (.unknownFunction callee.text))

mutual

/-- The value of a tree under the meanings of `g`. -/
def value (g : Grammar) (source : RandomSource) : Tree → Except Failure Float
  | leaf t =>
    match g.meaning t.kind with
    | .literal => literalValue t
    | _ => meaningless t
  | unary t operand =>
    match g.meaning t.kind with
    | .literal => literalValue t
    | .operator op => do
      let x ← operand.value g (source.child 0)
      match op.applyPrefix? x with
      | some y => .ok y
      | none => meaningless t
    | _ => meaningless t
  | binary t left right =>
    match g.meaning t.kind with
    | .literal => literalValue t
    | .operator op => do
      let x ← left.value g (source.child 0)
      let y ← right.value g (source.child 1)
      .ok (op.apply x y)
    | _ => meaningless t
  | call t callee arguments =>
    match g.meaning t.kind with
    | .literal => literalValue t
    | .call => do
      let f ← calledFunction callee
      let xs ← values g source 0 arguments
      orEndless (f.value? source xs)
    | _ => meaningless t

/-- The values of the arguments of a call, the first of them with number `i`. -/
def values (g : Grammar) (source : RandomSource) (i : Nat) : List Tree → Except Failure (List Float)
  | [] => .ok []
  | t :: ts => do
    let x ← t.value g (source.child i)
    let xs ← values g source (i + 1) ts
    .ok (x :: xs)

end

end Tree

end Calculator
