import Calculator.Proofs.Binary64.Integers

/-!
# Floors of doubles

The floor of a double is the greatest integer up to it, and is computed without rounding
(`HasValue.floor`). What stands above the floor need not be a double: a tiny negative number has the
floor `-1`, and its distance from there has too many digits. But only distances from one half on can
be like that (`representable_fract`).
-/

namespace Calculator

namespace Binary64

open Float.Model.UnpackedFloat

/-! ## The floor of a significand and an exponent -/

theorem hasFraction_eq_false_iff {m : Nat} {e : Int} :
    hasFraction m e = false ↔ 2 ^ (-e).toNat ∣ m * 2 ^ e.toNat := by
  rw [hasFraction, bne_eq_false_iff_eq, Nat.dvd_iff_mod_eq_zero]
  rcases Int.lt_or_le e 0 with below | above
  · rw [show e.toNat = 0 by omega, Nat.pow_zero, Nat.mul_one]
  · rw [show (-e).toNat = 0 by omega, Nat.pow_zero, Nat.mod_one, Nat.mod_one]

theorem floor_neg_eq_wholePart (m : Nat) (e : Int) :
    ⌊-((m : ℚ) * 2 ^ e)⌋ = -((wholePart m e + (hasFraction m e).toNat : Nat) : Int) := by
  have quotient := Rat.floor_intCast_div_natCast (-(m * 2 ^ e.toNat : Nat) : Int) (2 ^ (-e).toNat)
  rw [Int.cast_neg, Int.cast_natCast, neg_div, ← mul_two_pow_eq_div, Int.neg_ediv,
    Int.sign_natCast_of_ne_zero (Nat.ne_of_gt (Nat.two_pow_pos _)), ← Int.natCast_div] at quotient
  simp only [Int.natCast_dvd_natCast, ← hasFraction_eq_false_iff] at quotient
  rw [quotient, wholePart]
  cases hasFraction m e with
  | false => simp
  | true =>
    simp only [Bool.true_eq_false, if_false, Bool.toNat_true]
    omega

theorem floor_apply (negative : Bool) (m : Nat) (e : Int) :
    ⌊((sign negative).apply m * 2 ^ e : ℚ)⌋ = (sign negative).apply
      (wholePart m e + if negative then (hasFraction m e).toNat else 0 : Nat) := by
  cases negative
  · simpa [sign, Sign.apply] using floor_eq_wholePart m e
  · simpa [sign, Sign.apply] using floor_neg_eq_wholePart m e

/-! ## Floors -/

section Floor

variable {x : Float} {q : ℚ} (value : HasValue x q)

include value

/-- Only what is below `2 ^ 53` has digits after the point. -/
theorem integral_or_small : (∃ n : Int, q = n) ∨
    |q| < 2 ^ 53 ∧ ∃ n e : Int, |n| < 2 ^ 53 ∧ (-1074 ≤ e ∧ e < 0) ∧ q = n * 2 ^ e := by
  obtain ⟨negative, m, k, -, canonical, rfl⟩ := value.parts
  rcases Int.lt_or_le (k - 1074) 0 with below | above
  · have magnitude := abs_apply (sign negative) m
    have short : |(sign negative).apply m| < 2 ^ 53 := by
      have := canonical.short
      rw [← Int.cast_abs] at magnitude
      have : |(sign negative).apply m| = m := by exact_mod_cast magnitude
      omega
    refine .inr ⟨?_, _, _, short, ⟨by omega, below⟩, rfl⟩
    have power : (2 : ℚ) ^ (k - 1074 : Int) ≤ 1 := zpow_le_one_of_nonpos₀ one_le_two below.le
    rw [abs_mul, magnitude, abs_of_pos (zpow_pos two_pos _)]
    exact (mul_le_of_le_one_right (Nat.cast_nonneg m) power).trans_lt
      (by exact_mod_cast canonical.short)
  · have whole := (wholePart_of_nonneg m above).symm
    refine .inl ⟨(sign negative).apply (wholePart m (k - 1074)), ?_⟩
    rw [← mul_one (wholePart m (k - 1074) : ℚ)] at whole
    rw [apply_congr _ whole, mul_one]

theorem representable_floor : Representable ⌊q⌋ := by
  rcases integral_or_small value with ⟨n, rfl⟩ | ⟨small, -⟩
  · rw [Int.floor_intCast]
    exact ⟨x, value⟩
  · obtain ⟨lower, upper⟩ := abs_lt.1 small
    refine representable_int (abs_le.2 ⟨?_, ?_⟩)
    · exact Int.le_floor.2 (by exact_mod_cast lower.le)
    · exact (Int.floor_lt.2 (by exact_mod_cast upper)).le

theorem HasValue.floor : HasValue (floor x) ⌊q⌋ := by
  obtain ⟨y, atFloor⟩ := representable_floor value
  obtain ⟨negative, m, k, parts, -, rfl⟩ := value.parts
  have magnitude := atFloor.abs
  rw [floor_apply, abs_apply, ← div_one (Nat.cast _), ← Nat.cast_one] at magnitude
  have whole := hasValue_nearest negative Nat.one_pos ⟨_, magnitude⟩
  rw [Nat.cast_one, div_one] at whole
  rw [floor_apply, Binary64.floor, parts]
  cases negative
  · simpa using whole
  · exact whole

/-- Above a double that is no integer there is a next integer, and it is a double. -/
theorem representable_floor_add_one (half : 1 / 2 ≤ Int.fract q) :
    Representable (⌊q⌋ + 1 : Int) := by
  rcases integral_or_small value with ⟨n, rfl⟩ | ⟨small, -⟩
  · rw [Int.fract_intCast] at half
    norm_num at half
  · obtain ⟨lower, upper⟩ := abs_lt.1 small
    refine representable_int (abs_le.2 ⟨?_, ?_⟩)
    · exact Int.le_of_lt (by exact_mod_cast lower.trans (Int.lt_floor_add_one q))
    · exact Int.add_one_le_iff.2 (Int.floor_lt.2 (by exact_mod_cast upper))

end Floor

/-! ## Distances from the floor -/

/-- A residue in the lower half of the modulus is no greater than the magnitude of the number. -/
theorem emod_le_of_two_mul_lt {n d : Int} (positive : 0 < d) (half : 2 * (n % d) < d) :
    n % d ≤ |n| := by
  have parts := Int.mul_ediv_add_emod n d
  have least := Int.emod_nonneg n positive.ne'
  have upper := le_abs_self n
  have lower := neg_le_abs n
  rcases Int.lt_or_le (n / d) 0 with negative | nonnegative
  · have := Int.mul_le_mul_of_nonneg_left (Int.le_sub_one_of_lt negative) positive.le
    omega
  · have := Int.mul_nonneg positive.le nonnegative
    omega

theorem two_pow_of_neg {e : Int} (negative : e < 0) :
    (2 : ℚ) ^ e = ((2 ^ (-e).toNat : Nat) : ℚ)⁻¹ := by
  rw [Nat.cast_pow, Nat.cast_ofNat, ← zpow_natCast, ← zpow_neg,
    show -((-e).toNat : Int) = e by omega]

theorem fract_eq_emod (n : Int) {e : Int} (negative : e < 0) :
    Int.fract ((n : ℚ) * 2 ^ e) = (n % (2 ^ (-e).toNat : Nat) : Int) * 2 ^ e := by
  rw [two_pow_of_neg negative, ← div_eq_mul_inv, ← div_eq_mul_inv,
    Int.fract_div_intCast_eq_div_intCast_mod]

/-- Below one half, the distance has no more digits than the number itself. -/
theorem representable_fract {x : Float} {q : ℚ} (value : HasValue x q)
    (half : Int.fract q < 1 / 2) : Representable (Int.fract q) := by
  rcases integral_or_small value with ⟨n, rfl⟩ | ⟨-, n, e, short, ⟨low, negative⟩, rfl⟩
  · rw [Int.fract_intCast]
    exact ⟨0, hasValue_zero⟩
  · have power : (0 : Int) < (2 ^ (-e).toNat : Nat) := by positivity
    rw [fract_eq_emod n negative] at half ⊢
    have least := Int.emod_nonneg n power.ne'
    have residue : 2 * (n % (2 ^ (-e).toNat : Nat)) < (2 ^ (-e).toNat : Nat) := by
      rw [two_pow_of_neg negative, ← div_eq_mul_inv,
        div_lt_div_iff₀ (by exact_mod_cast power) two_pos, one_mul, mul_comm] at half
      exact_mod_cast half
    have digits := (emod_le_of_two_mul_lt power residue).trans_lt short
    exact representable_scaled (by omega) low (by omega)

end Binary64

end Calculator
