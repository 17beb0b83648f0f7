import Calculator.Failure
import Calculator.Grammar.Role
import Calculator.Input

/-!
# Reading trees

A tree is read from left to right by the power of its tokens. The first token starts an expression;
as long as the token that follows binds more tightly than the power at which the expression is read,
it extends the expression. Right operands, groups and arguments are expressions again, each read at
a power of its own.

An input goes on with the end of the input for ever, so a grammar in which that token starts or
extends expressions can make the reader go on without end. Every definition here has a bound on its
depth, and is `unfinished` where it meets the bound. `Reading.bound` is so large that no reading
which ends at all meets it.
-/

namespace Calculator

/-- What comes of reading something from an input, and the position of the next token. -/
inductive Reading (α : Type) where
  | done (value : α) (next : Nat)
  | failed (error : SyntaxError) (next : Nat)
  | unfinished
  deriving DecidableEq

namespace Reading

variable {α β : Type}

/-- Goes on with what has been read. -/
def andThen (r : Reading α) (go : α → Nat → Reading β) : Reading β :=
  match r with
  | done x i => go x i
  | failed e i => failed e i
  | unfinished => unfinished

@[simp] theorem andThen_done (x : α) (i : Nat) (go : α → Nat → Reading β) :
    (done x i).andThen go = go x i := rfl

@[simp] theorem andThen_failed (e : SyntaxError) (i : Nat) (go : α → Nat → Reading β) :
    (failed e i).andThen go = failed e i := rfl

@[simp] theorem andThen_unfinished (go : α → Nat → Reading β) :
    (unfinished : Reading α).andThen go = unfinished := rfl

theorem andThen_eq_done {r : Reading α} {go : α → Nat → Reading β} {y : β} {k : Nat} :
    r.andThen go = done y k ↔ ∃ x i, r = done x i ∧ go x i = done y k := by
  cases r <;> simp [and_assoc]

theorem andThen_eq_failed {r : Reading α} {go : α → Nat → Reading β} {e : SyntaxError} {k : Nat} :
    r.andThen go = failed e k ↔
      r = failed e k ∨ ∃ x i, r = done x i ∧ go x i = failed e k := by
  cases r <;> simp [and_assoc]

theorem andThen_eq_unfinished {r : Reading α} {go : α → Nat → Reading β} :
    r.andThen go = unfinished ↔ r = unfinished ∨ ∃ x i, r = done x i ∧ go x i = unfinished := by
  cases r <;> simp [and_assoc]

/-- Passes the closing parenthesis that has to follow `x`. -/
def close (s : Input) (x : α) (i : Nat) : Reading α :=
  if s.kind i = .closeParen then done x (i + 1) else failed (.unclosed (s.kind i)) i

/-! ## The parts of an expression

Each part is defined over a way `read` to read the expressions within it. -/

section Parts

variable (g : Grammar) (s : Input) (read : Power → Nat → Reading Tree)

/-- Starts an expression with the token `t`. -/
def start (t : Tree) (i : Nat) : Reading Tree :=
  match g.start t.kind with
  | .never => failed (.cannotStart t.kind) i
  | .leaf => done t i
  | .operand p => (read p i).andThen fun x => done (.unary t.label x)
  | .group => (read 0 i).andThen (close s)

/-- Reads arguments, at least one, with commas between them. -/
def arguments : Nat → Nat → Reading (List Tree)
  | 0, _ => unfinished
  | n + 1, i =>
    (read 0 i).andThen fun x i =>
      if s.kind i = .comma then (arguments n (i + 1)).andThen fun xs => done (x :: xs)
      else done [x] i

/-- Reads the arguments of a call, if any, and the parenthesis after them. -/
def enclosedArguments (n i : Nat) : Reading (List Tree) :=
  if s.kind i = .closeParen then done [] (i + 1) else (arguments s read n i).andThen (close s)

/-- Extends the expression `left` with the token `t`. -/
def extend (n : Nat) (t left : Tree) (i : Nat) : Reading Tree :=
  match g.extension t.kind with
  | .never => failed (.cannotExtend t.kind) i
  | .leftward p => (read p i).andThen fun x => done (.binary t.label left x)
  | .rightward p => (read (p - 1) i).andThen fun x => done (.binary t.label left x)
  | .call => (enclosedArguments s read n i).andThen fun xs => done (.call t.label left xs)

/-- Extends the expression `left` as long as tokens follow that bind more tightly than `p`. -/
def extensions : Nat → Power → Tree → Nat → Reading Tree
  | 0, _, _, _ => unfinished
  | n + 1, p, left, i =>
    if p < g.power (s.kind i) then
      (extend g s read n (s.token i) left (i + 1)).andThen (extensions n p)
    else done left i

end Parts

/-- Reads an expression whose operators all bind more tightly than `p`. -/
def expression (g : Grammar) (s : Input) : Nat → Power → Nat → Reading Tree
  | 0, _, _ => unfinished
  | n + 1, p, i =>
    (start g s (expression g s n) (s.token i) (i + 1)).andThen
      (extensions g s (expression g s n) n p)

/-- A depth that is enough for every reading that ends. An expression within another one, and every
round of a loop, begins after at least one more token, and at most two of the tokens passed stand
after the input. -/
def bound (s : Input) (i : Nat) : Nat := s.tokens.size - i + 3

end Reading

namespace Tree

/-- Reads, from a position on, an expression whose operators all bind more tightly than `p`. -/
def read (g : Grammar) (s : Input) (p : Power) (i : Nat) : Reading Tree :=
  Reading.expression g s (Reading.bound s i) p i

/-- What to do with tokens after a whole expression. -/
inductive Trailing where
  | refuse
  | ignore
  deriving DecidableEq, Repr

/-- The tree of a whole input. -/
def ofInput (g : Grammar) (trailing : Trailing) (s : Input) : Except Failure Tree :=
  match read g s 0 0 with
  | .done t i =>
    if trailing = .refuse ∧ s.kind i ≠ .finish then .error (.parse (.trailing (s.kind i)))
    else .ok t
  | .failed e _ => .error (.parse e)
  | .unfinished => .error .endless

/-- The tree of a list of tokens. -/
def ofTokens (g : Grammar) (trailing : Trailing) (tokens : List Token) : Except Failure Tree :=
  ofInput g trailing (Input.ofList (tokens.map leaf))

end Tree

end Calculator
