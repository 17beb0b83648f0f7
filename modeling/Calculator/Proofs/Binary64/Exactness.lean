import Calculator.Binary64.Integral
import Calculator.Proofs.Binary64.Rounding
import Calculator.Proofs.Binary64.Values

/-!
# Exact results

What needs no rounding is not changed by it. The rounding of the library of doubles moves a
significand down to the exponent that its size asks for, and of a rounded number only zeros are
dropped on the way (`roundWithAccuracy_exact`). The rounding of this library finds the parts of a
double again (`nearest_exact`).

So an opposite, a magnitude and a quotient that is a double are exact (`HasValue.neg`,
`HasValue.abs`, `HasValue.div`).
-/

namespace Calculator

namespace Binary64

open Float.Model (Format UnpackedFloat totalExponent)
open Float.Model.UnpackedFloat

/-! ## Equal numbers with different exponents -/

theorem eq_mul_two_pow {a b : Nat} {d e : Int} (le : d ≤ e) (same : (a : ℚ) * 2 ^ d = b * 2 ^ e) :
    a = b * 2 ^ (e - d).toNat := by
  have exponent : e = (e - d).toNat + d := by omega
  have nonzero : (2 : ℚ) ^ d ≠ 0 := zpow_ne_zero d two_ne_zero
  rw [exponent, zpow_add₀ two_ne_zero, zpow_natCast, ← mul_assoc] at same
  have := mul_right_cancel₀ nonzero same
  exact_mod_cast this

theorem mul_two_pow_sub (n j : Nat) (e : Int) :
    ((n * 2 ^ j : Nat) : ℚ) * 2 ^ (e - j) = n * 2 ^ e := by
  rw [Nat.cast_mul, Nat.cast_pow, Nat.cast_ofNat, mul_assoc, ← zpow_natCast,
    ← zpow_add₀ two_ne_zero, add_sub_cancel]

theorem mul_two_pow_of_le (n : Nat) {d e : Int} (le : d ≤ e) :
    ((n * 2 ^ (e - d).toNat : Nat) : ℚ) * 2 ^ d = n * 2 ^ e := by
  have moved := mul_two_pow_sub n (e - d).toNat e
  rwa [show e - (e - d).toNat = d by omega] at moved

theorem mul_two_pow_eq_div (m : Nat) (e : Int) :
    (m : ℚ) * 2 ^ e = ((m * 2 ^ e.toNat : Nat) : ℚ) / ((2 ^ (-e).toNat : Nat) : ℚ) := by
  push_cast
  rw [eq_div_iff (pow_ne_zero _ two_ne_zero), mul_assoc, ← zpow_natCast, ← zpow_natCast,
    ← zpow_add₀ two_ne_zero, show e + (-e).toNat = e.toNat by omega]

theorem apply_congr {a b : Nat} {p q : ℚ} (s : Sign) (same : a * p = b * q) :
    s.apply a * p = s.apply b * q := by
  cases s
  · simpa [Sign.apply] using same
  · simpa [Sign.apply] using same

theorem log2_mul_two_pow {n : Nat} (positive : 0 < n) (j : Nat) :
    (n * 2 ^ j).log2 = n.log2 + j := by
  apply log2_eq
  · rw [Nat.pow_add]
    exact Nat.mul_le_mul_right _ (Nat.log2_self_le (Nat.ne_of_gt positive))
  · rw [Nat.add_right_comm, Nat.pow_add]
    exact Nat.mul_lt_mul_of_pos_right Nat.lt_log2_self (Nat.two_pow_pos j)

theorem totalExponent_mul {n : Nat} (positive : 0 < n) (j : Nat) (e : Int) :
    totalExponent (n * 2 ^ j) (e - j) = totalExponent n e := by
  simp only [totalExponent, log2_mul_two_pow positive]
  omega

/-- The place of the leading bit belongs to the number, whatever its exponent. -/
theorem totalExponent_congr {a b : Nat} {d e : Int} (positive : 0 < a) (positive' : 0 < b)
    (same : (a : ℚ) * 2 ^ d = b * 2 ^ e) : totalExponent a d = totalExponent b e := by
  rcases Int.le_total d e with le | le
  · have moved := totalExponent_mul positive' (e - d).toNat e
    rwa [← eq_mul_two_pow le same, show e - (e - d).toNat = d by omega] at moved
  · have moved := totalExponent_mul positive (d - e).toNat d
    rw [← eq_mul_two_pow le same.symm, show d - (d - e).toNat = e by omega] at moved
    exact moved.symm

/-! ## Rounding what needs no rounding -/

/-- The significand and the exponent, counted from `-1074` on, are those of a rounded number. Such a
number can be too large for a double. -/
structure Normalized (m k : Nat) : Prop where
  short : m < 2 ^ 53
  leading : 2 ^ 52 ≤ m ∨ k = 0

theorem Canonical.normalized {m k : Nat} (canonical : Canonical m k) : Normalized m k :=
  ⟨canonical.short, canonical.leading⟩

section Normalized

variable {m k : Nat} (normalized : Normalized m k) (positive : 0 < m)

include normalized positive in
theorem targetExponent_normalized :
    Format.binary64.targetExponent (totalExponent m (k - 1074)) = k - 1074 := by
  have short := (Nat.log2_lt (Nat.ne_of_gt positive)).2 normalized.short
  have full : m.log2 = 52 ∨ k = 0 := by
    refine normalized.leading.imp_left fun leading => ?_
    have := (Nat.le_log2 (Nat.ne_of_gt positive)).2 leading
    omega
  have bits : (Format.binary64.mantissaBits : Int) = 53 := rfl
  have least : Format.binary64.minExponent = -1074 := rfl
  simp only [Format.targetExponent, totalExponent, bits, least]
  omega

/-- Zeros at the end of a significand can be dropped. -/
theorem shiftRight_exact (m j : Nat) :
    ExtendedMantissa.ofMantissaAndAccuracy (m * 2 ^ j) .exact >>> j =
      .ofMantissaAndAccuracy m .exact := by
  change j.repeat ExtendedMantissa.shiftRightOne _ = _
  induction j generalizing m with
  | zero => simp [Nat.repeat]
  | succ j ih =>
    have : m * 2 ^ (j + 1) = m * 2 * 2 ^ j := by rw [Nat.pow_succ, Nat.mul_comm _ 2, Nat.mul_assoc]
    rw [Nat.repeat, this, ih]
    simp [ExtendedMantissa.ofMantissaAndAccuracy, ExtendedMantissa.shiftRightOne]

include normalized positive in
theorem shiftToTargetExponent_exact (j : Nat) :
    shiftToTargetExponent Format.binary64 (m * 2 ^ j) (k - 1074 - j) .exact =
      (.ofMantissaAndAccuracy m .exact, (k - 1074 : Int)) := by
  have distance : ((k - 1074 : Int) - (k - 1074 - j)).toNat = j := by omega
  rw [shiftToTargetExponent, totalExponent_mul positive,
    targetExponent_normalized normalized positive, shiftToExponent, distance, shiftRight_exact,
    sub_add_cancel]

include normalized in
/-- Rounding moves a significand a second time, by the place that it may have got by rounding. -/
theorem roundWithAccuracy_of_shift {s : Sign} {n i : Nat} {e target : Int} {a : Accuracy}
    {x : ExtendedMantissa} (shifted : shiftToTargetExponent Format.binary64 n e a = (x, target))
    (rounded : x.roundedMantissa = m * 2 ^ i) (exponent : target = k - 1074 - i) :
    roundWithAccuracy Format.binary64 s n e a = .finite s m (k - 1074) positive := by
  have again := shiftToTargetExponent_exact normalized positive i
  simp only [roundWithAccuracy, shifted, rounded, exponent, again]
  exact dif_neg (Nat.ne_of_gt positive)

theorem roundWithAccuracy_of_shift_zero {s : Sign} {n : Nat} {e target : Int} {a : Accuracy}
    {x : ExtendedMantissa} (shifted : shiftToTargetExponent Format.binary64 n e a = (x, target))
    (rounded : x.roundedMantissa = 0) : roundWithAccuracy Format.binary64 s n e a = .zero s := by
  have again : (shiftToTargetExponent Format.binary64 0 target .exact).1.mantissa = 0 := by
    rw [shiftToTargetExponent, shiftToExponent]
    generalize (_ - target : Int).toNat = j
    have zeros := shiftRight_exact 0 j
    rw [Nat.zero_mul] at zeros
    rw [zeros]
    rfl
  simp only [roundWithAccuracy, shifted, rounded]
  exact dif_pos again

include normalized in
theorem roundWithAccuracy_exact (s : Sign) (j : Nat) :
    roundWithAccuracy Format.binary64 s (m * 2 ^ j) (k - 1074 - j) .exact =
      .finite s m (k - 1074) positive := by
  have shifted := shiftToTargetExponent_exact normalized positive j
  exact roundWithAccuracy_of_shift (i := 0) normalized positive shifted (Nat.mul_one m).symm
    (by omega)

end Normalized

/-! ## Opposites, magnitudes and quotients -/

theorem apply_neg (s : Sign) (n : Int) : (-s).apply n = -s.apply n := by
  cases s
  · exact (Int.neg_neg n).symm
  · rfl

theorem Exactly.neg {f : UnpackedFloat} {q : ℚ} (value : Exactly f q) : Exactly f.neg (-q) := by
  cases value with
  | zero s =>
    rw [neg_zero]
    exact .zero (-s)
  | @finite s m k canonical positive =>
    have exactly := Exactly.finite (-s) canonical positive
    rwa [apply_neg, Int.cast_neg, neg_mul] at exactly

theorem Exactly.abs {f : UnpackedFloat} {q : ℚ} (value : Exactly f q) : Exactly f.abs |q| := by
  cases value with
  | zero s =>
    rw [abs_zero]
    exact .zero .positive
  | @finite s m k canonical positive =>
    rw [abs_mul, abs_apply, abs_of_pos (zpow_pos two_pos _)]
    exact .finite .positive canonical positive

theorem apply_div_mul (s t : Sign) (m n : Int) : (s / t).apply m * t.apply n = s.apply (m * n) := by
  cases s <;> cases t
  · exact Int.mul_neg m n
  · exact Int.neg_mul m n
  · exact Int.neg_mul_neg m n
  · rfl

theorem log2_mul_le {m n : Nat} (positive : 0 < m) (positive' : 0 < n) :
    (m * n).log2 ≤ m.log2 + n.log2 + 1 := by
  refine Nat.le_of_lt_succ ((Nat.log2_lt (Nat.ne_of_gt (Nat.mul_pos positive positive'))).2 ?_)
  have upper := Nat.mul_lt_mul'' (@Nat.lt_log2_self m) (@Nat.lt_log2_self n)
  rwa [← Nat.pow_add, show m.log2 + 1 + (n.log2 + 1) = m.log2 + n.log2 + 1 + 1 by omega] at upper

section Quotient

variable {m n c k : Nat} {d e : Int} (canonical : Canonical c k) (positive : 0 < c)
  (positive' : 0 < n) (same : (m : ℚ) * 2 ^ d = ((c * n : Nat) : ℚ) * 2 ^ (k - 1074 + e : Int))

include canonical positive positive' same in
/-- The exponent that a quotient is computed with is low enough for all its digits. -/
theorem target_le_quotient (nonzero : 0 < m) :
    Format.binary64.targetExponent (totalExponent m d - totalExponent n e) ≤ k - 1074 := by
  have short := (Nat.log2_lt (Nat.ne_of_gt positive)).2 canonical.short
  have width := log2_mul_le positive positive'
  have bits : (Format.binary64.mantissaBits : Int) = 53 := rfl
  have least : Format.binary64.minExponent = -1074 := rfl
  rw [totalExponent_congr nonzero (Nat.mul_pos positive positive') same]
  simp only [Format.targetExponent, totalExponent, bits, least]
  omega

include canonical positive positive' same in
/-- A division that leaves nothing over is computed without a rest. -/
theorem divCore_exact (nonzero : 0 < m) :
    ∃ j : Nat, divCore Format.binary64 m d n e = (c * 2 ^ j, (k - 1074 - j : Int), .exact) := by
  have le := target_le_quotient canonical positive positive' same nonzero
  simp only [divCore, Nat.shiftLeft_eq]
  generalize Format.binary64.targetExponent (totalExponent m d - totalExponent n e) = low at le
  generalize lower : min (d - e) low = target
  have moved := mul_two_pow_sub m (d - e - target).toNat d
  rw [same, show d - (d - e - target).toNat = target + e by omega] at moved
  have digits := eq_mul_two_pow (by omega) moved
  rw [digits, Nat.mul_right_comm, Nat.mul_div_cancel _ positive', Nat.mul_mod_left]
  refine ⟨(k - 1074 + e - (target + e)).toNat, ?_⟩
  rw [accuracyOfFraction, if_pos rfl, show (k - 1074 - (k - 1074 + e - (target + e)).toNat : Int) =
    target by omega]

end Quotient

theorem Exactly.div {f g : UnpackedFloat} {p q : ℚ} (first : Exactly f p) (second : Exactly g q)
    (nonzero : q ≠ 0) (representable : Representable (p / q)) :
    Exactly (UnpackedFloat.div Format.binary64 f g) (p / q) := by
  cases second with
  | zero t => exact absurd rfl nonzero
  | @finite t n l canonical' positive' =>
    cases first with
    | zero s =>
      rw [zero_div]
      exact .zero _
    | @finite s m k canonical positive =>
      have power (e : Int) : 0 < (2 : ℚ) ^ e := zpow_pos two_pos e
      have divisor : (0 : ℚ) < n * 2 ^ (l - 1074 : Int) :=
        mul_pos (Nat.cast_pos.2 positive') (power _)
      obtain ⟨c, j, quotient, magnitude⟩ := representable_iff.1 representable
      simp only [abs_div, abs_mul, abs_apply, abs_of_pos (power _)] at magnitude
      have same : (m : ℚ) * 2 ^ (k - 1074 : Int) =
          ((c * n : Nat) : ℚ) * 2 ^ (j - 1074 + (l - 1074) : Int) := by
        rw [(div_eq_iff divisor.ne').1 magnitude, zpow_add₀ two_ne_zero, Nat.cast_mul]
        ring
      have some : 0 < c := by
        have above := div_pos (mul_pos (Nat.cast_pos.2 positive) (power (k - 1074))) divisor
        rw [magnitude] at above
        exact Nat.cast_pos.1 (pos_of_mul_pos_left above (power _).le)
      have value : (s.apply m * 2 ^ (k - 1074 : Int) / (t.apply n * 2 ^ (l - 1074 : Int)) : ℚ) =
          (s / t).apply c * 2 ^ (j - 1074 : Int) := by
        rw [div_eq_iff nonzero, apply_congr s same, Nat.cast_mul, ← apply_div_mul s t,
          zpow_add₀ two_ne_zero]
        push_cast
        ring
      obtain ⟨places, core⟩ := divCore_exact quotient some positive' same positive
      rw [value]
      simp only [UnpackedFloat.div, core, roundWithAccuracy_exact quotient.normalized some]
      exact .finite _ quotient some

/-! ## On doubles -/

section Doubles

variable {x y : Float} {p q : ℚ}

theorem HasValue.neg (value : HasValue x q) : HasValue (-x) (-q) :=
  value.exactly.neg.hasValue

theorem HasValue.abs (value : HasValue x q) : HasValue x.abs |q| :=
  value.exactly.abs.hasValue

theorem HasValue.div (first : HasValue x p) (second : HasValue y q) (nonzero : q ≠ 0)
    (representable : Representable (p / q)) : HasValue (x / y) (p / q) :=
  (first.exactly.div second.exactly nonzero representable).hasValue

end Doubles

/-! ## Rounding a quotient -/

theorem near_of_eq {m k num den : Nat} (positive : 0 < den) (same : num = m * den * 2 ^ k) :
    Near m k num den := by
  have unit : 0 < den * 2 ^ k := Nat.mul_pos positive (Nat.two_pow_pos k)
  have some : 0 < reach m k * (den * 2 ^ k) := by
    refine Nat.mul_pos ?_ unit
    unfold reach
    split <;> decide
  rw [Nat.mul_assoc] at same
  subst same
  exact ⟨by omega, by omega, fun _ => ⟨by omega, by omega⟩⟩

section Nearest

variable {m k num den : Nat} (canonical : Canonical m k) (positive : 0 < den)
  (same : (num : ℚ) / den = m * 2 ^ (k - 1074 : Int))

include canonical positive same in
theorem roundedBits_exact : roundedBits num den = k * 2 ^ 52 + m := by
  rw [div_eq_iff (Nat.cast_ne_zero.2 (Nat.ne_of_gt positive))] at same
  have moved : ((num * 2 ^ 1074 : Nat) : ℚ) * 2 ^ (0 - (1074 : Nat) : Int) =
      ((m * den : Nat) : ℚ) * 2 ^ (k - 1074 : Int) := by
    rw [mul_two_pow_sub num 1074, zpow_zero, mul_one, same, Nat.cast_mul, mul_right_comm]
  have units := eq_mul_two_pow (by omega) moved
  rw [show (k - 1074 - (0 - (1074 : Nat)) : Int).toNat = k by omega] at units
  exact roundedBits_of_near canonical positive (near_of_eq positive units)

include canonical positive same in
theorem nearest_exact (negative : Bool) :
    nearest negative num den = signed negative (k * 2 ^ 52 + m) := by
  rw [nearest_eq, roundedBits_exact canonical positive same,
    Nat.min_eq_left canonical.le_infinityBits]

end Nearest

theorem hasValue_nearest (negative : Bool) {num den : Nat} (positive : 0 < den)
    (representable : Representable (num / den)) :
    HasValue (nearest negative num den) ((sign negative).apply num / den) := by
  obtain ⟨m, k, canonical, magnitude⟩ := representable_iff.1 representable
  rw [abs_div, Nat.abs_cast, Nat.abs_cast] at magnitude
  rw [nearest_exact canonical positive magnitude]
  convert hasValue_signed negative canonical using 1
  cases negative
  · simpa [sign, Sign.apply] using magnitude
  · simpa [sign, Sign.apply, neg_div] using magnitude

end Binary64

end Calculator
