import Calculator.Proofs.Binary64.Values

/-!
# The order of doubles

Finite doubles are ordered as the numbers they are equal to (`HasValue.le_iff`). Their bits below
the sign are ordered as their magnitudes (`Canonical.le_iff`): the exponent field stands above the
fraction, and a greater exponent goes with a leading bit.
-/

namespace Calculator

namespace Binary64

open Float.Model (Format UnpackedFloat)
open Float.Model.UnpackedFloat

/-! ## Magnitudes -/

section Canonical

variable {m k n l : Nat} (first : Canonical m k) (second : Canonical n l)

include first second in
theorem Canonical.lt_of_bits (less : k * 2 ^ 52 + m < l * 2 ^ 52 + n) :
    m * 2 ^ k < n * 2 ^ l := by
  have := second.short
  have le : k ≤ l := by
    by_contra greater
    have := first.leading
    omega
  rcases Nat.lt_or_eq_of_le le with lower | rfl
  · have leading := second.leading.resolve_right (by omega)
    calc m * 2 ^ k < 2 ^ 53 * 2 ^ k := Nat.mul_lt_mul_of_pos_right first.short (Nat.two_pow_pos k)
      _ = 2 ^ 52 * 2 ^ (k + 1) := by ring
      _ ≤ n * 2 ^ l := Nat.mul_le_mul leading (Nat.pow_le_pow_right (by decide) lower)
  · exact Nat.mul_lt_mul_of_pos_right (by omega) (Nat.two_pow_pos k)

include first second in
theorem Canonical.eq_of_bits (same : k * 2 ^ 52 + m = l * 2 ^ 52 + n) : m = n ∧ k = l := by
  have := first.short
  have := second.short
  have := first.leading
  have := second.leading
  omega

theorem mul_two_pow_lt_iff {a b : Nat} : (a : ℚ) * 2 ^ (k - 1074 : Int) < b * 2 ^ (l - 1074 : Int) ↔
    a * 2 ^ k < b * 2 ^ l := by
  have power : 0 < (2 : ℚ) ^ (1074 : Int) := zpow_pos two_pos _
  rw [zpow_sub₀ two_ne_zero, zpow_sub₀ two_ne_zero, ← mul_div_assoc, ← mul_div_assoc,
    div_lt_div_iff_of_pos_right power]
  exact_mod_cast Iff.rfl

include first second in
theorem Canonical.lt_iff : (m : ℚ) * 2 ^ (k - 1074 : Int) < n * 2 ^ (l - 1074 : Int) ↔
    k * 2 ^ 52 + m < l * 2 ^ 52 + n := by
  rw [mul_two_pow_lt_iff]
  rcases Nat.lt_trichotomy (k * 2 ^ 52 + m) (l * 2 ^ 52 + n) with less | same | greater
  · exact iff_of_true (first.lt_of_bits second less) less
  · obtain ⟨rfl, rfl⟩ := first.eq_of_bits second same
    exact iff_of_false (lt_irrefl _) (lt_irrefl _)
  · exact iff_of_false (second.lt_of_bits first greater).not_gt greater.not_gt

include first second in
/-- A greater exponent makes a greater number, and so the library of doubles compares the exponents
first. -/
theorem Canonical.compare_eq : (compare (k - 1074 : Int) (l - 1074)).then (compare m n) =
    compare (m * 2 ^ (k - 1074 : Int) : ℚ) (n * 2 ^ (l - 1074 : Int)) := by
  have := first.short
  have := second.short
  have := first.leading
  have := second.leading
  rcases Nat.lt_trichotomy (k * 2 ^ 52 + m) (l * 2 ^ 52 + n) with less | same | greater
  · rw [compare_lt_iff_lt.2 ((first.lt_iff second).2 less), Ordering.then_eq_lt,
      Int.compare_eq_lt, Int.compare_eq_eq, Nat.compare_eq_lt]
    omega
  · obtain ⟨rfl, rfl⟩ := first.eq_of_bits second same
    rw [compare_eq_iff_eq.2 rfl, compare_eq_iff_eq.2 rfl, compare_eq_iff_eq.2 rfl]
    rfl
  · rw [compare_gt_iff_gt.2 ((second.lt_iff first).2 greater), Ordering.then_eq_gt,
      Int.compare_eq_gt, Int.compare_eq_eq, Nat.compare_eq_gt]
    omega

end Canonical

/-- All bits below those of infinity are the magnitude of a finite double. -/
theorem exists_canonical_of_lt {b : Nat} (less : b < infinityBits) :
    ∃ m k, Canonical m k ∧ b = k * 2 ^ 52 + m := by
  unfold infinityBits at less
  by_cases small : b < 2 ^ 52
  · exact ⟨b, 0, ⟨by omega, .inr rfl, by decide⟩, by omega⟩
  · exact ⟨2 ^ 52 + b % 2 ^ 52, b / 2 ^ 52 - 1, ⟨by omega, .inl (by omega), by omega⟩, by omega⟩

/-! ## Numbers with a sign -/

theorem compare_neg_neg (p q : ℚ) : compare (-p) (-q) = (compare p q).swap := by
  rcases lt_trichotomy p q with less | rfl | greater
  · rw [compare_lt_iff_lt.2 less, compare_gt_iff_gt.2 (neg_lt_neg less)]
    rfl
  · rw [compare_eq_iff_eq.2 rfl, compare_eq_iff_eq.2 rfl]
    rfl
  · rw [compare_gt_iff_gt.2 greater, compare_lt_iff_lt.2 (neg_lt_neg greater)]
    rfl

theorem Exactly.compare_eq {f g : UnpackedFloat} {p q : ℚ} (first : Exactly f p)
    (second : Exactly g q) : f.compare g = some (compare p q) := by
  have magnitude {m : Nat} (positive : 0 < m) (e : Int) : (0 : ℚ) < m * 2 ^ e :=
    mul_pos (Nat.cast_pos.2 positive) (zpow_pos two_pos _)
  cases first with
  | zero s =>
    cases second with
    | zero t => rw [compare_eq_iff_eq.2 rfl, UnpackedFloat.compare]
    | @finite t n l canonical' positive' =>
      have above := magnitude positive' (l - 1074)
      cases t
      · rw [UnpackedFloat.compare, compare_gt_iff_gt.2 (by simpa [Sign.apply] using above)]
      · rw [UnpackedFloat.compare, compare_lt_iff_lt.2 (by simpa [Sign.apply] using above)]
  | @finite s m k canonical positive =>
    have above := magnitude positive (k - 1074)
    cases second with
    | zero t =>
      cases s
      · rw [UnpackedFloat.compare, compare_lt_iff_lt.2 (by simpa [Sign.apply] using above)]
      · rw [UnpackedFloat.compare, compare_gt_iff_gt.2 (by simpa [Sign.apply] using above)]
    | @finite t n l canonical' positive' =>
      have above' := magnitude positive' (l - 1074)
      cases s <;> cases t <;> simp only [Sign.apply, Int.cast_neg, Int.cast_natCast, neg_mul]
      · rw [UnpackedFloat.compare, canonical.compare_eq canonical', compare_neg_neg]
      · rw [UnpackedFloat.compare, compare_lt_iff_lt.2 (by linarith)]
      · rw [UnpackedFloat.compare, compare_gt_iff_gt.2 (by linarith)]
      · rw [UnpackedFloat.compare, canonical.compare_eq canonical']

section Doubles

variable {x y : Float} {p q : ℚ} (first : HasValue x p) (second : HasValue y q)

include first second in
theorem HasValue.lt_iff : x < y ↔ p < q := by
  have compared : x < y ↔ x.toModel.unpack.lt y.toModel.unpack = true := decide_eq_true_iff
  rw [compared, UnpackedFloat.lt, first.exactly.compare_eq second.exactly, ← compare_lt_iff_lt,
    beq_iff_eq, Option.some.injEq]

include first second in
theorem HasValue.le_iff : x ≤ y ↔ p ≤ q := by
  have compared : x ≤ y ↔ x.toModel.unpack.le y.toModel.unpack = true := decide_eq_true_iff
  rw [compared, UnpackedFloat.le, first.exactly.compare_eq second.exactly, ← compare_le_iff_le,
    Option.any_some]
  cases compare p q <;> decide

end Doubles

/-- What is not a number is not comparable with anything. -/
theorem compare_of_isNaN {f g : UnpackedFloat} (either : f.isNaN = true ∨ g.isNaN = true) :
    f.compare g = none := by
  rcases either with isNaN | isNaN
  · cases f with
    | notANumber => rfl
    | infinity | zero | finite => cases isNaN
  · cases g with
    | notANumber => cases f <;> rfl
    | infinity | zero | finite => cases isNaN

theorem not_le_of_isNaN {x y : Float} (either : x.isNaN = true ∨ y.isNaN = true) : ¬ x ≤ y := by
  have compared : x ≤ y ↔ x.toModel.unpack.le y.toModel.unpack = true := decide_eq_true_iff
  rw [compared, UnpackedFloat.le, compare_of_isNaN either]
  decide

theorem hasValue_zero : HasValue 0 0 :=
  hasValue_of_ofFloat (m := 0) (e := -1074) (by decide +kernel) (by norm_num)

theorem hasValue_one : HasValue 1 1 :=
  hasValue_of_ofFloat (m := 2 ^ 52) (e := -52) (by decide +kernel) (by norm_num)

end Binary64

end Calculator
