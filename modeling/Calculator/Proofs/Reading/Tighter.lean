import Calculator.Grammar.Arithmetic
import Calculator.Proofs.Input
import Calculator.Proofs.Reading.Bound

/-!
# Reading at a tighter power

The power at which an expression is read only decides where the loop over its extensions stops. What
starts the expression is read in the same way at every power, and so are right operands, groups and
arguments, which are read at powers of their own. So a reading at a tighter power goes the same way
as one at a looser power and stops no later, with a tree that is a left part of the other one
(`read_tighter`).
-/

namespace Calculator

namespace Tree

/-- The first tree is the second one, or it is reached from it through left operands and callees. -/
inductive LeftPart (t : Tree) : Tree → Prop where
  | refl : LeftPart t t
  | binary {label : Token} {left right : Tree} (part : LeftPart t left) :
    LeftPart t (.binary label left right)
  | call {label : Token} {callee : Tree} {arguments : List Tree} (part : LeftPart t callee) :
    LeftPart t (.call label callee arguments)

theorem LeftPart.trans {t u v : Tree} (first : LeftPart t u) (second : LeftPart u v) :
    LeftPart t v := by
  induction second with
  | refl => exact first
  | binary _ ih => exact .binary ih
  | call _ ih => exact .call ih

end Tree

namespace Reading

open Calculator.Tree (LeftPart)

variable {g : Grammar} {s : Input} {n i j : Nat} {p q : Power} {left t : Tree}

section Parts

variable {read : Power → Nat → Reading Tree}

/-- What is extended becomes the left operand or the callee. -/
theorem leftPart_of_extend {token : Tree} (success : extend g s read n token left i = done t j) :
    LeftPart left t := by
  unfold extend at success
  split at success
  · cases success
  · obtain ⟨x, k, -, rest⟩ := andThen_eq_done.1 success
    obtain ⟨rfl, -⟩ := Reading.done.inj rest
    exact .binary .refl
  · obtain ⟨x, k, -, rest⟩ := andThen_eq_done.1 success
    obtain ⟨rfl, -⟩ := Reading.done.inj rest
    exact .binary .refl
  · obtain ⟨xs, k, -, rest⟩ := andThen_eq_done.1 success
    obtain ⟨rfl, -⟩ := Reading.done.inj rest
    exact .call .refl

theorem leftPart_of_extensions (success : extensions g s read n p left i = done t j) :
    LeftPart left t := by
  induction n generalizing left i with
  | zero => exact nomatch success
  | succ n ih =>
    rw [extensions] at success
    split at success
    · obtain ⟨x, k, extended, rest⟩ := andThen_eq_done.1 success
      exact (leftPart_of_extend extended).trans (ih rest)
    · obtain ⟨rfl, -⟩ := Reading.done.inj success
      exact .refl

/-- The loops at two powers go the same way until the one at the tighter power stops. What it leaves
to the other one only grows around its tree. -/
theorem extensions_tighter (advances : Advances read) (le : p ≤ q)
    (success : extensions g s read n p left i = done t j) :
    ∃ u k, extensions g s read n q left i = done u k ∧ k ≤ j ∧ LeftPart u t := by
  induction n generalizing left i with
  | zero => exact nomatch success
  | succ n ih =>
    by_cases tighter : q < g.power (s.kind i)
    · rw [extensions, if_pos (Nat.lt_of_le_of_lt le tighter)] at success
      obtain ⟨x, k, extended, rest⟩ := andThen_eq_done.1 success
      rw [extensions, if_pos tighter, extended, andThen_done]
      exact ih rest
    · have looks := looksAt_extensions advances (g := g) (s := s) (n + 1) p left i
      rw [success] at looks
      refine ⟨left, i, ?_, (looks (by simp)).le_next, leftPart_of_extensions success⟩
      rw [extensions, if_neg tighter]

end Parts

theorem expression_tighter (le : p ≤ q) (success : expression g s n p i = done t j) :
    ∃ u k, expression g s n q i = done u k ∧ k ≤ j ∧ LeftPart u t := by
  cases n with
  | zero => exact nomatch success
  | succ n =>
    obtain ⟨x, k, started, rest⟩ := andThen_eq_done.1 success
    rw [expression, started, andThen_done]
    exact extensions_tighter (advances_expression g s n) le rest

end Reading

namespace Tree

open Reading

/-- If an expression can be read at some power, then also at a tighter one. No more tokens are passed,
and the tree is a left part of the other tree. -/
theorem read_tighter {g : Grammar} {s : Input} {p q : Power} {i j : Nat} {t : Tree} (le : p ≤ q)
    (success : read g s p i = done t j) :
    ∃ u k, read g s q i = done u k ∧ k ≤ j ∧ LeftPart u t :=
  expression_tighter le success

/-- The tokens of `f(1) * 2 + 3`. -/
def scaledCall : List Token :=
  [.name "f", .mark .openParen, .number 1, .mark .closeParen, .mark .times, .number 2, .mark .plus,
    .number 3]

/-- The tree of `f(1) * 2 + 3`. -/
def scaledCallTree : Tree :=
  .binary (.mark .plus)
    (.binary (.mark .times)
      (.call (.mark .openParen) (.leaf (.name "f")) [.leaf (.number 1)]) (.leaf (.number 2)))
    (.leaf (.number 3))

/-- At the power of the product signs, only the call is read of `f(1) * 2 + 3`. -/
theorem read_tighter_call : read .arithmetic (.ofTokens scaledCall) 0 0 = done scaledCallTree 8 ∧
    ∃ u k, read .arithmetic (.ofTokens scaledCall) 120 0 = done u k ∧ k ≤ 8 ∧
      LeftPart u scaledCallTree := by
  have success : read .arithmetic (.ofTokens scaledCall) 0 0 = done scaledCallTree 8 := by rfl
  exact ⟨success, read_tighter (by decide) success⟩

end Tree

end Calculator
