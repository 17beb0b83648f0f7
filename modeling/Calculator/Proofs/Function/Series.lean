import Calculator.Function.Application
import Calculator.Proofs.Binary64.Operations

/-!
# Sums over exact ranges

Where all numbers on the way through a range are multiples of one power of two and not too large,
none of the additions rounds. Then the sum is the one of an arithmetic series, and the number of
additions is the one of the terms up to the end (`Function.value?_sum`).

The loop over a range is the relation `Range.Rounds`, which counts the additions. Each round puts
the next term and the next partial sum in place of the last ones (`Range.exists_rounds`).
-/

namespace Calculator

namespace Range

open Binary64 (HasValue Representable Canonical signed infinityBits)
open Float.Model.UnpackedFloat

/-! ## The order of ranks -/

theorem toNat_rank_signed (negative : Bool) {b : Nat} (le : b ≤ infinityBits) :
    (rank (signed negative b)).toNat = if negative then 2 ^ 63 - 1 - b else 2 ^ 63 + b := by
  have bits : (signed negative b).toBits.toNat = _ := Binary64.toNat_toBits_signed le
  have small : b < 2 ^ 63 := Nat.lt_of_le_of_lt le (by decide)
  have half : (0x8000000000000000 : UInt64).toNat = 2 ^ 63 := rfl
  simp only [rank, UInt64.lt_iff_toNat_lt, half]
  cases negative
  · simp only [Bool.false_eq_true, if_false] at bits ⊢
    rw [if_pos (by omega), UInt64.toNat_add, bits, half]
    omega
  · simp only [if_true] at bits ⊢
    rw [if_neg (by omega), UInt64.toNat_not, bits, UInt64.size]
    omega

theorem rank_lt_rank {x y : Float} {p q : ℚ} (first : HasValue x p) (second : HasValue y q)
    (less : p < q) : rank x < rank y := by
  obtain ⟨negative, m, k, canonical, rfl, rfl⟩ := first.exists_signed
  obtain ⟨negative', n, l, canonical', rfl, rfl⟩ := second.exists_signed
  have bound := canonical.le_infinityBits
  have bound' := canonical'.le_infinityBits
  have magnitude (m : Nat) (e : Int) : (0 : ℚ) ≤ m * 2 ^ e := by positivity
  rw [UInt64.lt_iff_toNat_lt, toNat_rank_signed _ bound, toNat_rank_signed _ bound']
  unfold infinityBits at bound bound'
  cases negative <;> cases negative' <;>
    simp only [Binary64.sign, Sign.apply, Bool.false_eq_true, if_true, if_false, Int.cast_neg,
      Int.cast_natCast, neg_mul, neg_lt_neg_iff] at less ⊢
  · have := (canonical.lt_iff canonical').1 less
    omega
  · have := magnitude m (k - 1074)
    have := magnitude n (l - 1074)
    linarith
  · omega
  · have := (canonical'.lt_iff canonical).1 less
    omega

/-! ## Rounds -/

/-- The loop over the rest of a range, which begins with `term`, makes `n` additions to `total`, and
then it has the sum. -/
inductive Rounds (stop step : Float) : Nat → Float → Float → Float → Prop where
  | finish {term total : Float} (beyond : ¬ term ≤ stop) : Rounds stop step 0 term total total
  | add {n : Nat} {term total sum : Float} (within : term ≤ stop)
    (higher : rank term < rank (term + step))
    (rest : Rounds stop step n (term + step) (total + term) sum) :
    Rounds stop step (n + 1) term total sum

theorem addFrom_eq_some_iff {stop step term total sum : Float} :
    addFrom stop step term total = some sum ↔ ∃ n, Rounds stop step n term total sum := by
  constructor
  · intro finished
    fun_induction addFrom stop step term total with
    | case1 term total within higher ih =>
      obtain ⟨n, rest⟩ := ih finished
      exact ⟨n + 1, .add within higher rest⟩
    | case2 => cases finished
    | case3 term total beyond =>
      obtain rfl := Option.some.inj finished
      exact ⟨0, .finish beyond⟩
  · rintro ⟨n, rounds⟩
    induction rounds with
    | finish beyond => rw [addFrom, if_neg beyond]
    | add within higher _ ih => rw [addFrom, if_pos within, if_pos higher, ih]

/-! ## Series -/

/-- The sum of the first `n` terms of the series that begins with `p` and goes on by `d`. -/
def partialSum (p d : ℚ) (n : Nat) : ℚ :=
  ∑ i ∈ Finset.range n, (p + i * d)

theorem partialSum_succ (p d : ℚ) (n : Nat) :
    partialSum p d (n + 1) = p + partialSum (p + d) d n := by
  rw [partialSum, Finset.sum_range_succ', partialSum, add_comm, Nat.cast_zero, zero_mul, add_zero]
  congr 1
  refine Finset.sum_congr rfl fun i _ => ?_
  push_cast
  ring

theorem partialSum_eq (p d : ℚ) (n : Nat) : partialSum p d n = n * p + d * n * (n - 1) / 2 := by
  induction n with
  | zero => simp [partialSum]
  | succ n ih =>
    rw [partialSum, Finset.sum_range_succ, ← partialSum, ih]
    push_cast
    ring

section Series

variable {stop step : Float} {q d : ℚ} (atStop : HasValue stop q) (atStep : HasValue step d)
  (positive : 0 < d)

include atStop atStep positive in
/-- The rounds over the rest of a range, as long as no addition rounds. -/
theorem exists_rounds {n : Nat} {p t : ℚ} {term total : Float} (first : HasValue term p)
    (second : HasValue total t) (within : ∀ i < n, p + i * d ≤ q) (beyond : q < p + n * d)
    (terms : ∀ i ≤ n, Representable (p + i * d))
    (sums : ∀ i ≤ n, Representable (t + partialSum p d i)) :
    ∃ sum, Rounds stop step n term total sum ∧ HasValue sum (t + partialSum p d n) := by
  induction n generalizing p t term total with
  | zero =>
    rw [Nat.cast_zero, zero_mul, add_zero] at beyond
    refine ⟨total, .finish ?_, by simpa [partialSum] using second⟩
    rw [first.le_iff atStop]
    exact not_le.2 beyond
  | succ n ih =>
    have start : p ≤ q := by simpa using within 0 (Nat.succ_pos n)
    have next : HasValue (term + step) (p + d) :=
      first.add atStep (by simpa using terms 1 (by omega))
    have added : HasValue (total + term) (t + p) :=
      second.add first (by simpa [partialSum] using sums 1 (by omega))
    have shifted (i : Nat) : p + d + i * d = p + (i + 1 : Nat) * d := by
      push_cast
      ring
    have summed (i : Nat) : t + p + partialSum (p + d) d i = t + partialSum p d (i + 1) := by
      rw [partialSum_succ, add_assoc]
    obtain ⟨sum, rounds, value⟩ := ih next added
      (fun i less => by rw [shifted]; exact within _ (by omega))
      (by rw [shifted]; exact beyond)
      (fun i le => by rw [shifted]; exact terms _ (by omega))
      (fun i le => by rw [summed]; exact sums _ (by omega))
    rw [summed] at value
    have higher := rank_lt_rank first next (by linarith)
    exact ⟨sum, .add ((first.le_iff atStop).2 start) higher rounds, value⟩

end Series

/-! ## Exact ranges -/

/-- The range from `p` to `q` by `d` is exact: the first term and the step are multiples of `2 ^ k`,
and no number on the way is too large for the doubles with this last place. -/
structure Exact (start stop step : Float) (p q d : ℚ) (k : Int) : Prop where
  start : HasValue start p
  stop : HasValue stop q
  step : if 0 < step then HasValue step d else d = 1
  unit : -1074 ≤ k ∧ k ≤ 970
  multiples : ∃ a b : Int, p = a * 2 ^ k ∧ d = b * 2 ^ k
  first : |p| ≤ 2 ^ 53 * 2 ^ k
  last : |q + d| ≤ 2 ^ 53 * 2 ^ k
  sums : ∀ n : Nat, (∀ i : Nat, i < n → p + i * d ≤ q) → |partialSum p d n| ≤ 2 ^ 53 * 2 ^ k

section Exact

variable {start stop step : Float} {p q d : ℚ} {k : Int} (range : Exact start stop step p q d k)

include range in
theorem Exact.hasValue_effectiveStep : HasValue (effectiveStep step) d ∧ 0 < d := by
  have given := range.step
  rw [effectiveStep]
  split at given
  · next above =>
    rw [if_pos above]
    exact ⟨given, (Binary64.hasValue_zero.lt_iff given).1 above⟩
  · next other =>
    rw [if_neg other, given]
    exact ⟨Binary64.hasValue_one, one_pos⟩

include range in
/-- Multiples of the unit that are not too large are doubles. -/
theorem Exact.representable {r : ℚ} (multiple : ∃ c : Int, r = c * 2 ^ k)
    (small : |r| ≤ 2 ^ 53 * 2 ^ k) : Representable r := by
  obtain ⟨c, rfl⟩ := multiple
  have power : 0 < (2 : ℚ) ^ k := zpow_pos two_pos k
  rw [abs_mul, abs_of_pos power, mul_le_mul_iff_left₀ power, ← Int.cast_abs,
    Int.abs_eq_natAbs] at small
  exact Binary64.representable_multiple (by exact_mod_cast small) range.unit.1 range.unit.2

include range in
theorem Exact.multiple_term (i : Nat) : ∃ c : Int, p + i * d = c * 2 ^ k := by
  obtain ⟨a, b, rfl, rfl⟩ := range.multiples
  refine ⟨a + i * b, ?_⟩
  push_cast
  ring

include range in
theorem Exact.multiple_partialSum (n : Nat) : ∃ c : Int, partialSum p d n = c * 2 ^ k := by
  induction n with
  | zero => exact ⟨0, by simp [partialSum]⟩
  | succ n ih =>
    obtain ⟨c, sum⟩ := ih
    obtain ⟨e, term⟩ := range.multiple_term n
    refine ⟨c + e, ?_⟩
    rw [partialSum, Finset.sum_range_succ, ← partialSum, sum, term, Int.cast_add, add_mul]

variable {n : Nat} (count : (n : Int) = max 0 (⌊(q - p) / d⌋ + 1))

include range count in
theorem Exact.term_le {i : Nat} (less : i < n) : p + i * d ≤ q := by
  obtain ⟨-, positive⟩ := range.hasValue_effectiveStep
  have below : (i : Int) ≤ ⌊(q - p) / d⌋ := by omega
  rw [Int.le_floor, Int.cast_natCast, le_div_iff₀ positive] at below
  linarith

include range count in
theorem Exact.lt_term : q < p + n * d := by
  obtain ⟨-, positive⟩ := range.hasValue_effectiveStep
  have above : ⌊(q - p) / d⌋ < (n : Int) := by omega
  rw [Int.floor_lt, Int.cast_natCast, div_lt_iff₀ positive] at above
  linarith

include range count in
/-- The terms of the range are doubles, and so is the first one that is not in it any more. -/
theorem Exact.representable_term {i : Nat} (le : i ≤ n) : Representable (p + i * d) := by
  refine range.representable (range.multiple_term i) ?_
  cases i with
  | zero => simpa using range.first
  | succ i =>
    obtain ⟨-, positive⟩ := range.hasValue_effectiveStep
    have upper := (abs_le.1 range.last).2
    have lower := (abs_le.1 range.first).1
    have previous := range.term_le count le
    have forward : 0 ≤ (i + 1 : Nat) * d := by positivity
    push_cast at forward ⊢
    exact abs_le.2 ⟨by linarith, by linarith⟩

include range count in
theorem Exact.representable_partialSum {i : Nat} (le : i ≤ n) :
    Representable (partialSum p d i) := by
  refine range.representable (range.multiple_partialSum i) (range.sums i fun j less => ?_)
  exact range.term_le count (less.trans_le le)

include range count in
theorem Exact.exists_rounds :
    ∃ sum, Rounds stop (effectiveStep step) n start 0 sum ∧ HasValue sum (partialSum p d n) := by
  obtain ⟨atStep, positive⟩ := range.hasValue_effectiveStep
  have rounds := Range.exists_rounds range.stop atStep positive range.start Binary64.hasValue_zero
    (fun i => range.term_le count) (range.lt_term count) (fun i => range.representable_term count)
  simp only [zero_add] at rounds
  exact rounds fun i => range.representable_partialSum count

end Exact

end Range

namespace Function

open Binary64 (HasValue)

theorem argument_take (arguments : List Float) {i : Nat} (less : i < 3) :
    argument (arguments.take 3) i = argument arguments i := by
  simp [argument, less]

theorem argument_of_length_le {arguments : List Float} {i : Nat} (missing : arguments.length ≤ i) :
    argument arguments i = Binary64.notANumber := by
  rw [argument, List.getD_eq_default _ _ missing]

/-- The sum over an exact range is that of an arithmetic series, after one addition for each term.
Arguments after the third have no influence, and without both bounds there is nothing to add. -/
theorem value?_sum (source : RandomSource) (arguments : List Float) :
    (∀ p q d k, Range.Exact (argument arguments 0) (argument arguments 1) (argument arguments 2)
        p q d k →
      ∃ n : Nat, (n : Int) = max 0 (⌊(q - p) / d⌋ + 1) ∧ ∃ x,
        value? .sum source arguments = some x ∧
        Range.Rounds (argument arguments 1) (Range.effectiveStep (argument arguments 2)) n
          (argument arguments 0) 0 x ∧
        HasValue x (n * p + d * n * (n - 1) / 2)) ∧
    value? .sum source arguments = value? .sum source (arguments.take 3) ∧
    (arguments.length < 2 ∨ (argument arguments 0).isNaN = true ∨
      (argument arguments 1).isNaN = true → value? .sum source arguments = some 0) := by
  refine ⟨?_, ?_, ?_⟩
  · intro p q d k range
    obtain ⟨n, count⟩ := Int.eq_ofNat_of_zero_le (Int.le_max_left 0 (⌊(q - p) / d⌋ + 1))
    obtain ⟨x, rounds, value⟩ := range.exists_rounds count.symm
    rw [Range.partialSum_eq] at value
    exact ⟨n, count.symm, x, Range.addFrom_eq_some_iff.2 ⟨n, rounds⟩, rounds, value⟩
  · have same (i : Nat) (less : i < 3) := argument_take arguments less
    simp only [value?, same 0 (by decide), same 1 (by decide), same 2 (by decide)]
  · intro missing
    have either : (argument arguments 0).isNaN = true ∨ (argument arguments 1).isNaN = true := by
      rcases missing with short | either
      · rw [argument_of_length_le (i := 1) (by omega)]
        exact .inr (by decide +kernel)
      · exact either
    simp only [value?, Range.sum?]
    rw [Range.addFrom, if_neg (Binary64.not_le_of_isNaN either)]

/-- The first odd numbers up to ten. -/
theorem exact_odd : Range.Exact 1 10 2 1 10 2 0 := by
  have two : HasValue 2 2 :=
    Binary64.hasValue_of_ofFloat (m := 2 ^ 52) (e := -51) (by decide +kernel) (by norm_num)
  have ten : HasValue 10 10 :=
    Binary64.hasValue_of_ofFloat (m := 5 * 2 ^ 50) (e := -49) (by decide +kernel) (by norm_num)
  have forward : (0 : Float) < 2 := (Binary64.hasValue_zero.lt_iff two).2 two_pos
  refine ⟨Binary64.hasValue_one, ten, ?_, by decide, ⟨1, 2, ?_, ?_⟩, ?_, ?_, ?_⟩
  · rw [if_pos forward]
    exact two
  · norm_num
  · norm_num
  · norm_num
  · norm_num
  · intro n within
    have few : n ≤ 5 := by
      by_contra many
      have beyond := within 5 (by omega)
      norm_num at beyond
    rw [Range.partialSum_eq]
    interval_cases n <;> norm_num

theorem value?_sum_odd : ∃ x, value? .sum (.ofSeed 0) [1, 10, 2, 7] = some x ∧ HasValue x 25 := by
  obtain ⟨n, count, x, value, -, sum⟩ := (value?_sum (.ofSeed 0) [1, 10, 2, 7]).1 1 10 2 0 exact_odd
  have five : n = 5 := by
    norm_num at count
    omega
  rw [five] at sum
  norm_num at sum
  exact ⟨x, value, sum⟩

end Function

end Calculator
