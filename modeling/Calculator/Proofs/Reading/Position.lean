import Calculator.Grammar.Arithmetic
import Calculator.Proofs.Input
import Calculator.Proofs.Reading.Bound

/-!
# Readings at a position

Where a reading begins matters only through the tokens that are left there: with positions counted
from there, it goes the same way on what is left of the input (`read_drop`). So a reader that has
stopped in the middle of an input stands before the rest of it as before an input of its own. Hence
readings from any two positions of any two inputs are the same if the tokens that one of them passes
come next in both inputs and after these a token of one kind (`read_sameAhead`).
-/

namespace Calculator

namespace Input

/-- What is left of an input at a position. -/
def drop (s : Input) (i : Nat) : Input := ⟨s.tokens.drop i⟩

theorem size_drop (s : Input) (i : Nat) : (s.drop i).tokens.size = s.tokens.size - i := by
  simp [drop]

@[simp] theorem token_drop (s : Input) (i k : Nat) : (s.drop i).token k = s.token (i + k) := by
  by_cases inner : i + k < s.tokens.size
  · have : k < (s.drop i).tokens.size := by
      rw [size_drop]
      omega
    simp only [token, Array.getD, this, inner, dif_pos]
    exact Array.getElem_extract ..
  · rw [token_eq_finish (s := s) (Nat.le_of_not_lt inner), token_eq_finish]
    rw [size_drop]
    omega

@[simp] theorem kind_drop (s : Input) (i k : Nat) : (s.drop i).kind k = s.kind (i + k) := by
  rw [kind, token_drop, kind]

/-- From two positions on, two inputs have the same `n` tokens and then a token of the same kind. -/
structure SameAhead (s s' : Input) (i i' n : Nat) : Prop where
  token : ∀ k < n, s'.token (i' + k) = s.token (i + k)
  kind : s'.kind (i' + n) = s.kind (i + n)

end Input

namespace Reading

variable {α β : Type}

/-- The same reading with its position further on by `i`. -/
def moved (i : Nat) : Reading α → Reading α
  | done x k => done x (i + k)
  | failed e k => failed e (i + k)
  | unfinished => unfinished

@[simp] theorem moved_done (i : Nat) (x : α) (k : Nat) : (done x k).moved i = done x (i + k) := rfl

@[simp] theorem moved_failed (i : Nat) (e : SyntaxError) (k : Nat) :
    (failed e k : Reading α).moved i = failed e (i + k) := rfl

@[simp] theorem moved_unfinished (i : Nat) : (unfinished : Reading α).moved i = unfinished := rfl

theorem moved_injective {i : Nat} {r q : Reading α} (same : r.moved i = q.moved i) : r = q := by
  cases r <;> cases q <;> simp_all

/-- A reading that goes on is moved if its first part is moved and so is what comes after it. -/
theorem andThen_moved {i : Nat} {r : Reading α} {go go' : α → Nat → Reading β}
    (later : ∀ x k, go x (i + k) = (go' x k).moved i) :
    (r.moved i).andThen go = (r.andThen go').moved i := by
  cases r with
  | done x k => exact later x k
  | failed e k => rfl
  | unfinished => rfl

section Parts

variable (g : Grammar) (s : Input) (i : Nat) {read read' : Power → Nat → Reading Tree}

theorem close_drop (x : α) (k : Nat) : close s x (i + k) = (close (s.drop i) x k).moved i := by
  unfold close
  rw [Input.kind_drop]
  split
  · rfl
  · rfl

variable (reads : ∀ p k, read p (i + k) = (read' p k).moved i)

include reads

theorem start_drop (t : Tree) (k : Nat) :
    start g s read t (i + k) = (start g (s.drop i) read' t k).moved i := by
  unfold start
  split
  · rfl
  · rfl
  · rw [reads]
    exact andThen_moved fun _ _ => rfl
  · rw [reads]
    exact andThen_moved (close_drop s i)

theorem arguments_drop (n k : Nat) :
    arguments s read n (i + k) = (arguments (s.drop i) read' n k).moved i := by
  induction n generalizing k with
  | zero => rfl
  | succ n ih =>
    rw [arguments_succ, arguments_succ, reads]
    apply andThen_moved
    intro x k
    unfold argumentsAfter
    rw [Input.kind_drop]
    split
    · rw [Nat.add_assoc, ih]
      exact andThen_moved fun _ _ => rfl
    · rfl

theorem enclosedArguments_drop (n k : Nat) :
    enclosedArguments s read n (i + k) = (enclosedArguments (s.drop i) read' n k).moved i := by
  unfold enclosedArguments
  rw [Input.kind_drop]
  split
  · rfl
  · rw [arguments_drop s i reads]
    exact andThen_moved (close_drop s i)

theorem extend_drop (n : Nat) (t left : Tree) (k : Nat) :
    extend g s read n t left (i + k) = (extend g (s.drop i) read' n t left k).moved i := by
  unfold extend
  split
  · rfl
  · rw [reads]
    exact andThen_moved fun _ _ => rfl
  · rw [reads]
    exact andThen_moved fun _ _ => rfl
  · rw [enclosedArguments_drop s i reads]
    exact andThen_moved fun _ _ => rfl

theorem extensions_drop (n : Nat) (p : Power) (left : Tree) (k : Nat) :
    extensions g s read n p left (i + k) = (extensions g (s.drop i) read' n p left k).moved i := by
  induction n generalizing left k with
  | zero => rfl
  | succ n ih =>
    rw [extensions, extensions, Input.kind_drop, Input.token_drop]
    split
    · rw [Nat.add_assoc, extend_drop g s i reads]
      exact andThen_moved ih
    · rfl

end Parts

/-- Reading from a position on is reading what is left there, whatever the depth is enough for. -/
theorem expression_drop (g : Grammar) (s : Input) (i n : Nat) (p : Power) (k : Nat) :
    expression g s n p (i + k) = (expression g (s.drop i) n p k).moved i := by
  induction n generalizing p k with
  | zero => rfl
  | succ n ih =>
    rw [expression, expression, Input.token_drop, Nat.add_assoc, start_drop g s i ih]
    exact andThen_moved (extensions_drop g s i ih n p)

theorem alike_of_sameAhead {s s' : Input} {i i' : Nat} {r : Reading α}
    (same : s.SameAhead s' i i' r.next) : Alike (s.drop i) (s'.drop i') 0 r := by
  have token (k : Nat) (lt : k < r.next) : (s'.drop i').token k = (s.drop i).token k := by
    rw [Input.token_drop, Input.token_drop]
    exact same.token k lt
  refine ⟨fun k _ lt => token k lt, fun k _ lt => ?_⟩
  -- the one token that is looked at and not passed is the one right after those passed
  have le : k ≤ r.next := Nat.le_of_lt_succ (Nat.lt_of_lt_of_le lt r.seen_le_next_succ)
  rcases Nat.lt_or_eq_of_le le with passed | rfl
  · rw [Input.kind, token k passed, Input.kind]
  · rw [Input.kind_drop, Input.kind_drop]
    exact same.kind

end Reading

namespace Tree

open Reading

variable {g : Grammar}

/-- The bound on the depth is counted from the position on, too. -/
theorem read_drop (s : Input) (p : Power) (i k : Nat) :
    read g s p (i + k) = (read g (s.drop i) p k).moved i := by
  have depth : bound (s.drop i) k = bound s (i + k) := by
    rw [bound, bound, Input.size_drop, Nat.sub_sub]
  rw [read, read, expression_drop, depth]

/-- What comes of a reading that ends is decided by the tokens it passes and by the kind of the next
one. From wherever these are the same, reading at the same power gives the same tree or the same
error and passes as many tokens. The rest of the input is left as it is: what is read of it later is
what would be read of an input of its own. -/
theorem read_sameAhead {s s' : Input} {p : Power} {i i' : Nat} {r : Reading Tree}
    (ended : r ≠ unfinished) (first : read g s p i = r.moved i)
    (same : s.SameAhead s' i i' r.next) :
    read g s' p i' = r.moved i' ∧
      ∀ q k, read g s' q (i' + r.next + k) =
        (read g (s'.drop (i' + r.next)) q k).moved (i' + r.next) := by
  have alone : read g (s.drop i) p 0 = r := moved_injective ((read_drop s p i 0).symm.trans first)
  have alike := alike_of_sameAhead same
  rw [← alone] at ended alike
  have again : read g (s'.drop i') p 0 = r := (read_congr ended alike).trans alone
  refine ⟨?_, fun q k => read_drop s' q _ k⟩
  rw [← again]
  exact read_drop s' p i' 0

/-- The tokens of `2 * 3 4`. -/
def productAndLiteral : List Token :=
  [.number 2, .mark .times, .number 3, .number 4]

/-- The tokens of `(2 * 3 5 +`. -/
def openedProduct : List Token :=
  [.mark .openParen, .number 2, .mark .times, .number 3, .number 5, .mark .plus]

/-- The tree of `2 * 3`. -/
def productTree : Tree :=
  .binary (.mark .times) (.leaf (.number 2)) (.leaf (.number 3))

/-- For `2 * 3` it does not matter which literal follows, nor what stands before and after. -/
theorem read_sameAhead_literal :
    done productTree 3 ≠ unfinished ∧
    read .arithmetic (.ofTokens productAndLiteral) 0 0 = (done productTree 3).moved 0 ∧
    (Input.ofTokens productAndLiteral).SameAhead (.ofTokens openedProduct) 0 1 3 ∧
    read .arithmetic (.ofTokens openedProduct) 0 1 = (done productTree 3).moved 1 ∧
      ∀ q k, read .arithmetic (.ofTokens openedProduct) q (1 + 3 + k) =
        (read .arithmetic ((Input.ofTokens openedProduct).drop (1 + 3)) q k).moved (1 + 3) := by
  have ended : done productTree 3 ≠ unfinished := by simp
  have first : read .arithmetic (.ofTokens productAndLiteral) 0 0 =
      (done productTree 3).moved 0 := by rfl
  have same : (Input.ofTokens productAndLiteral).SameAhead (.ofTokens openedProduct) 0 1 3 :=
    ⟨by decide, by decide⟩
  exact ⟨ended, first, same, read_sameAhead ended first same⟩

end Tree

end Calculator
