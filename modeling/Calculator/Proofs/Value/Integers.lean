import Calculator.Proofs.Value.Nodes
import Calculator.Proofs.Word32.Shifts

/-!
# Integer expressions

A tree of integers and signs, of sums, products and quotients without a rest, of remainders and
shifts has a value among the integers (`Tree.integer?`). As long as neither the tree nor any part of
it has an integer above `2 ^ 53`, evaluating the tree gives a double equal to that integer
(`hasValue_of_integer?`).

A zero may have either sign on the way. It goes into the next operator as the same number.
-/

namespace Calculator

open Binary64 (HasValue representable_int)

/-! ## Integer operators -/

/-- The integer that an operator between two integers gives, if it gives one. Quotients have to be
whole, remainders have the sign of the dividend, and shifts work on words. -/
def betweenIntegers? (k : Kind) (a b : Int) : Option Int :=
  match k with
  | .plus => some (a + b)
  | .minus => some (a - b)
  | .times => some (a * b)
  | .divide => if b ≠ 0 ∧ b ∣ a then some (a / b) else none
  | .remainder => if b ≠ 0 then some (a.tmod b) else none
  | .shiftLeft => some ((a * 2 ^ Word32.places b).bmod (2 ^ 32))
  | .shiftRight => some (a.bmod (2 ^ 32) / 2 ^ Word32.places b)
  | .shiftRightZero => some (a % 2 ^ 32 / 2 ^ Word32.places b)
  | _ => none

/-- The integer that a sign before an integer gives. -/
def beforeInteger? (k : Kind) (a : Int) : Option Int :=
  match k with
  | .plus => some a
  | .minus => some (-a)
  | _ => none

/-- The integer that a literal holds, if it holds one. -/
def literalInteger? (t : Token) : Option Int := do
  let x ← t.number?
  let q ← (Binary64.ofFloat x).value?
  if q.den = 1 then some q.num else none

theorem literalInteger?_eq_some {t : Token} {n : Int} :
    literalInteger? t = some n ↔ ∃ x, t.number? = some x ∧ HasValue x n := by
  have integral (q : ℚ) : (if q.den = 1 then some q.num else none) = some n ↔ q = n := by
    constructor
    · intro whole
      split at whole
      · next one => rw [← Option.some.inj whole, Rat.coe_int_num_of_den_eq_one one]
      · exact nomatch whole
    · rintro rfl
      rfl
  simp only [literalInteger?, Option.bind_eq_bind, Option.bind_eq_some_iff, integral, HasValue]
  simp only [exists_eq_right]

/-- The integer value of a tree. -/
def Tree.integer? : Tree → Option Int
  | .leaf t => if t.kind = .literal then literalInteger? t else none
  | .unary t operand => do
    let a ← operand.integer?
    beforeInteger? t.kind a
  | .binary t left right => do
    let a ← left.integer?
    let b ← right.integer?
    betweenIntegers? t.kind a b
  | .call _ _ _ => none

/-! ## Operators on doubles equal to integers -/

section Operators

variable {k : Kind} {a b n : Int} {x y : Float} (first : HasValue x a) (second : HasValue y b)
  (small : |n| ≤ 2 ^ 53)

include first second small in
/-- An operator between doubles that are equal to integers gives the integer of the operator. -/
theorem hasValue_betweenIntegers? (exact : betweenIntegers? k a b = some n) :
    ∃ op, Grammar.arithmetic.meaning k = .operator op ∧ HasValue (op.apply x y) n := by
  have representable := representable_int small
  cases k with
  | plus =>
    obtain rfl := Option.some.inj exact
    rw [Int.cast_add] at representable ⊢
    exact ⟨.add, rfl, first.add second representable⟩
  | minus =>
    obtain rfl := Option.some.inj exact
    rw [Int.cast_sub] at representable ⊢
    exact ⟨.subtract, rfl, first.sub second representable⟩
  | times =>
    obtain rfl := Option.some.inj exact
    rw [Int.cast_mul] at representable ⊢
    exact ⟨.multiply, rfl, first.mul second representable⟩
  | divide =>
    obtain ⟨⟨nonzero, whole⟩, ⟨⟩⟩ := Option.ite_none_right_eq_some.1 exact
    have divisor : (b : ℚ) ≠ 0 := Int.cast_ne_zero.2 nonzero
    rw [Int.cast_div whole divisor] at representable ⊢
    exact ⟨.divide, rfl, first.div second divisor representable⟩
  | remainder =>
    obtain ⟨nonzero, ⟨⟩⟩ := Option.ite_none_right_eq_some.1 exact
    exact ⟨.remainder, rfl, first.remainder second nonzero⟩
  | shiftLeft =>
    obtain rfl := Option.some.inj exact
    exact ⟨.shiftLeft, rfl, Word32.hasValue_shiftLeft first second⟩
  | shiftRight =>
    obtain rfl := Option.some.inj exact
    exact ⟨.shiftRight, rfl, Word32.hasValue_shiftRight first second⟩
  | shiftRightZero =>
    obtain rfl := Option.some.inj exact
    exact ⟨.shiftRightZero, rfl, Word32.hasValue_shiftRightZero first second⟩
  | literal | name | power | openParen | closeParen | comma | finish => exact nomatch exact

include first in
theorem hasValue_beforeInteger? (exact : beforeInteger? k a = some n) :
    ∃ op y, Grammar.arithmetic.meaning k = .operator op ∧ op.applyPrefix? x = some y ∧
      HasValue y n := by
  cases k with
  | plus =>
    obtain rfl := Option.some.inj exact
    exact ⟨.add, x, rfl, rfl, first⟩
  | minus =>
    obtain rfl := Option.some.inj exact
    have opposite := first.neg
    rw [← Int.cast_neg] at opposite
    exact ⟨.subtract, -x, rfl, rfl, opposite⟩
  | literal | name | times | divide | remainder | power | shiftLeft | shiftRight | shiftRightZero
  | openParen | closeParen | comma | finish => exact nomatch exact

end Operators

/-! ## Trees -/

namespace Tree

/-- Neither the tree nor any part of it has an integer above `2 ^ 53`. -/
def Small (t : Tree) : Prop :=
  ∀ u ∈ t.nodes, ∀ n ∈ u.integer?, |n| ≤ 2 ^ 53

instance (t : Tree) : Decidable t.Small :=
  inferInstanceAs (Decidable (∀ u ∈ t.nodes, ∀ n ∈ u.integer?, |n| ≤ 2 ^ 53))

theorem Small.mono {t u : Tree} (small : u.Small) (within : t.nodes ⊆ u.nodes) : t.Small :=
  fun v below => small v (within below)

theorem hasValue_of_integer? : ∀ (t : Tree) {n : Int} (source : RandomSource),
    t.integer? = some n → t.Small → ∃ x, t.value .arithmetic source = .ok x ∧ HasValue x n
  | leaf t, n, source, exact, small => by
    obtain ⟨literal, holds⟩ := Option.ite_none_right_eq_some.1 exact
    obtain ⟨x, held, value⟩ := literalInteger?_eq_some.1 holds
    refine ⟨x, ?_, value⟩
    have role : Grammar.arithmetic.meaning t.kind = .literal := by rw [literal]; rfl
    simp only [Tree.value, role, literalValue, held]
  | unary t operand, n, source, exact, small => by
    obtain ⟨a, operandExact, result⟩ := Option.bind_eq_some_iff.1 exact
    obtain ⟨x, evaluated, value⟩ := hasValue_of_integer? operand (source.child 0) operandExact
      (small.mono (List.subset_cons_self ..))
    obtain ⟨op, y, role, applied, value⟩ := hasValue_beforeInteger? value result
    refine ⟨y, ?_, value⟩
    simp only [Tree.value, role, evaluated, bind, Except.bind, applied]
  | binary t left right, n, source, exact, small => by
    have bound := small _ (mem_nodes_self _) n exact
    obtain ⟨a, leftExact, exact⟩ := Option.bind_eq_some_iff.1 exact
    obtain ⟨b, rightExact, result⟩ := Option.bind_eq_some_iff.1 exact
    obtain ⟨x, leftEvaluated, leftValue⟩ := hasValue_of_integer? left (source.child 0) leftExact
      (small.mono (nodes_subset_of_left t left right))
    obtain ⟨y, rightEvaluated, rightValue⟩ := hasValue_of_integer? right (source.child 1) rightExact
      (small.mono (nodes_subset_of_right t left right))
    obtain ⟨op, role, value⟩ := hasValue_betweenIntegers? leftValue rightValue bound result
    refine ⟨op.apply x y, ?_, value⟩
    simp only [Tree.value, role, leftEvaluated, rightEvaluated, bind, Except.bind]
  | call _ _ _, _, _, exact, _ => nomatch exact

/-- The tree of `(-4 % 2 - 7) >> 33`. The remainder is a negative zero, and the shift is one by one
place. -/
def shiftedRemainder : Tree :=
  .binary (.mark .shiftRight)
    (.binary (.mark .minus)
      (.binary (.mark .remainder)
        (.unary (.mark .minus) (.leaf (.number (Binary64.ofInt 4))))
        (.leaf (.number (Binary64.ofInt 2))))
      (.leaf (.number (Binary64.ofInt 7))))
    (.leaf (.number (Binary64.ofInt 33)))

theorem hasValue_shiftedRemainder : shiftedRemainder.integer? = some (-4) ∧ shiftedRemainder.Small ∧
    ∃ x, shiftedRemainder.value .arithmetic (.ofSeed 0) = .ok x ∧ HasValue x (-4 : Int) := by
  have exact : shiftedRemainder.integer? = some (-4) := by decide +kernel
  have small : shiftedRemainder.Small := by decide +kernel
  exact ⟨exact, small, hasValue_of_integer? shiftedRemainder (.ofSeed 0) exact small⟩

end Tree

end Calculator
