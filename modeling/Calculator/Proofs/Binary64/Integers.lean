import Calculator.Proofs.Binary64.Operations

/-!
# Integers as doubles

Truncation gives the integer next to a number on the way to zero (`HasValue.truncate`), however
large the number is, and on integers the remainder is that of the integers, with the sign of the
dividend (`HasValue.remainder`). Neither rounds. A double that is a word is converted to that word
(`HasValue.toNat_toUInt32`).
-/

namespace Calculator

namespace Binary64

open Float.Model (Format UnpackedFloat)
open Float.Model.UnpackedFloat

/-! ## Truncation -/

/-- The integer next to a number on the way to zero. -/
def towardZero (q : ℚ) : Int :=
  if 0 ≤ q then ⌊q⌋ else ⌈q⌉

theorem towardZero_neg (q : ℚ) : towardZero (-q) = -towardZero q := by
  rcases lt_trichotomy q 0 with below | rfl | above
  · rw [towardZero, towardZero, if_pos (by linarith), if_neg (not_le.2 below), Int.floor_neg]
  · rfl
  · rw [towardZero, towardZero, if_neg (by linarith), if_pos above.le, Int.ceil_neg]

theorem floor_eq_wholePart (m : Nat) (e : Int) : ⌊(m : ℚ) * 2 ^ e⌋ = wholePart m e := by
  rw [mul_two_pow_eq_div, wholePart, Int.natCast_div]
  exact Rat.floor_intCast_div_natCast _ _

theorem towardZero_apply (s : Sign) (m : Nat) (e : Int) :
    towardZero (s.apply m * 2 ^ e) = s.apply (wholePart m e) := by
  have positive : towardZero (m * 2 ^ e) = wholePart m e := by
    rw [towardZero, if_pos (by positivity), floor_eq_wholePart]
  cases s
  · simpa [Sign.apply, towardZero_neg] using positive
  · exact positive

theorem wholePart_of_nonneg (m : Nat) {e : Int} (nonnegative : 0 ≤ e) :
    (wholePart m e : ℚ) = m * 2 ^ e := by
  have integral : (m : ℚ) * 2 ^ e = ((m * 2 ^ e.toNat : Nat) : ℚ) := by
    rw [mul_two_pow_eq_div, show (-e).toNat = 0 by omega, Nat.pow_zero, Nat.cast_one, div_one]
  rw [integral, wholePart, show (-e).toNat = 0 by omega, Nat.pow_zero, Nat.div_one]

theorem wholePart_le {m : Nat} {e : Int} (negative : e < 0) : wholePart m e ≤ m := by
  rw [wholePart, show e.toNat = 0 by omega, Nat.pow_zero, Nat.mul_one]
  exact Nat.div_le_self ..

theorem representable_wholePart {m k : Nat} (canonical : Canonical m k) :
    Representable (wholePart m (k - 1074)) := by
  rcases Int.lt_or_le (k - 1074) 0 with small | large
  · have le := Nat.le_of_lt (Nat.lt_of_le_of_lt (wholePart_le small) canonical.short)
    exact representable_int (n := wholePart m (k - 1074)) (by rw [Nat.abs_cast]; omega)
  · rw [wholePart_of_nonneg m large]
    exact representable_iff.2 ⟨m, k, canonical, abs_of_nonneg (by positivity)⟩

theorem HasValue.truncate {x : Float} {q : ℚ} (value : HasValue x q) :
    HasValue (truncate x) (towardZero q) := by
  obtain ⟨negative, m, k, parts, canonical, rfl⟩ := value.parts
  have representable := representable_wholePart canonical
  rw [← div_one (wholePart m (k - 1074) : ℚ), ← Nat.cast_one] at representable
  have whole := hasValue_nearest negative Nat.one_pos representable
  rw [Nat.cast_one, div_one] at whole
  rwa [towardZero_apply, Binary64.truncate, parts]

/-! ## Remainders -/

/-- The remainder of two numbers written with the same exponent does not depend on the exponent. -/
theorem mod_mul_two_pow {a b m n : Nat} {d e : Int} (first : (a : ℚ) * 2 ^ d = m * 2 ^ e)
    (second : (b : ℚ) * 2 ^ d = n * 2 ^ e) :
    ((a % b : Nat) : ℚ) * 2 ^ d = ((m % n : Nat) : ℚ) * 2 ^ e := by
  wlog le : d ≤ e generalizing a b m n d e
  · exact (this first.symm second.symm (Int.le_of_not_le le)).symm
  · rw [eq_mul_two_pow le first, eq_mul_two_pow le second, Nat.mul_mod_mul_right]
    exact mul_two_pow_of_le (m % n) le

theorem hasValue_nearestScaled (negative : Bool) (m : Nat) (e : Int)
    (representable : Representable (m * 2 ^ e)) :
    HasValue (nearestScaled negative m e) ((sign negative).apply m * 2 ^ e) := by
  have positive : 0 < 2 ^ (-e).toNat := Nat.two_pow_pos _
  rw [mul_two_pow_eq_div] at representable
  have value := hasValue_nearest negative positive representable
  have same := (mul_two_pow_eq_div m e).trans (div_eq_mul_inv ..)
  rwa [div_eq_mul_inv, ← apply_congr _ same] at value

theorem tmod_apply (s t : Sign) (m n : Nat) :
    (s.apply m).tmod (t.apply n) = s.apply (m % n : Nat) := by
  have natural : (m : Int).tmod n = (m % n : Nat) := Int.ofNat_tmod m n
  cases s <;> cases t <;> simp [Sign.apply, Int.neg_tmod, Int.tmod_neg, natural]

theorem eq_apply_natAbs {s : Sign} {m : Nat} {a e : Int} (same : (a : ℚ) = s.apply m * 2 ^ e) :
    a = s.apply a.natAbs ∧ (a.natAbs : ℚ) * 2 ^ (0 : Int) = m * 2 ^ e := by
  have magnitude : (a.natAbs : ℚ) = m * 2 ^ e := by
    rw [Nat.cast_natAbs, Int.cast_abs, same, abs_mul, abs_apply, abs_of_pos (zpow_pos two_pos e)]
  refine ⟨?_, by rw [zpow_zero, mul_one, magnitude]⟩
  have signed := apply_congr s ((mul_one _).trans magnitude)
  rw [mul_one, ← same] at signed
  exact_mod_cast signed.symm

/-- The significand of a remainder is no longer than that of the operand with the lower exponent. -/
theorem representable_remainder {m k n l r : Nat} {e : Int} (canonical : Canonical m k)
    (canonical' : Canonical n l) (positive : 0 < n) (low : min (k - 1074 : Int) (l - 1074) = e)
    (rest : m * 2 ^ (k - 1074 - e : Int).toNat % (n * 2 ^ (l - 1074 - e : Int).toNat) = r) :
    Representable (r * 2 ^ e) := by
  have short : r < 2 ^ 53 := by
    rw [← rest]
    rcases Int.le_total k l with le | le
    · rw [show (k - 1074 - e : Int).toNat = 0 by omega, Nat.pow_zero, Nat.mul_one]
      exact Nat.lt_of_le_of_lt (Nat.mod_le ..) canonical.short
    · rw [show (l - 1074 - e : Int).toNat = 0 by omega, Nat.pow_zero, Nat.mul_one]
      exact Nat.lt_trans (Nat.mod_lt _ positive) canonical'.short
  have := canonical.finite
  exact representable_scaled (n := r) short (by omega) (by omega)

theorem HasValue.remainder {x y : Float} {a b : Int} (first : HasValue x a) (second : HasValue y b)
    (nonzero : b ≠ 0) : HasValue (remainder x y) (a.tmod b) := by
  obtain ⟨negative, m, k, parts, canonical, same⟩ := first.parts
  obtain ⟨negative', n, l, parts', canonical', same'⟩ := second.parts
  obtain ⟨signed, magnitude⟩ := eq_apply_natAbs same
  obtain ⟨signed', magnitude'⟩ := eq_apply_natAbs same'
  have positive : 0 < n := by
    rcases Nat.eq_zero_or_pos n with rfl | positive
    · rw [Nat.cast_zero, apply_zero, Int.cast_zero, zero_mul] at same'
      exact absurd (Int.cast_eq_zero.1 same') nonzero
    · exact positive
  simp only [Binary64.remainder, parts, parts', if_neg (Nat.ne_of_gt positive)]
  generalize low : min (k - 1074 : Int) (l - 1074) = e
  have rest := mod_mul_two_pow
    (magnitude.trans (mul_two_pow_of_le m (d := e) (by omega)).symm)
    (magnitude'.trans (mul_two_pow_of_le n (d := e) (by omega)).symm)
  have value := hasValue_nearestScaled negative _ _
    (representable_remainder canonical canonical' positive low rfl)
  rw [← apply_congr _ rest, zpow_zero, mul_one, ← tmod_apply _ (sign negative'), ← signed,
    ← signed'] at value
  exact value

/-! ## Finite doubles -/

theorem isFinite_iff {x : Float} : x.isFinite = true ↔ ∃ q, HasValue x q := by
  have unpacked : x.isFinite = (ofFloat x).unpacked.isFinite := by
    rw [← unpack_toModel]
    rfl
  rw [unpacked]
  constructor
  · intro finite
    cases parts : ofFloat x with
    | finite negative m e => exact ⟨_, by rw [HasValue, parts, value?]⟩
    | nan | infinite =>
      rw [parts] at finite
      cases finite
  · rintro ⟨q, value⟩
    obtain ⟨negative, m, k, parts, -, -⟩ := value.parts
    rw [parts, Binary64.unpacked]
    split <;> rfl

/-! ## Remainders that are not negative -/

theorem emod_eq_of_tmod (a b : Int) :
    a % b = if a.tmod b < 0 then a.tmod b + |b| else a.tmod b := by
  have sign : 0 ≤ a ∨ b ∣ a ↔ ¬ a.tmod b < 0 := by
    constructor
    · rintro (nonnegative | divides)
      · exact Int.not_lt.2 (Int.tmod_nonneg b nonnegative)
      · rw [Int.dvd_iff_tmod_eq_zero.1 divides]
        exact Int.lt_irrefl 0
    · intro nonnegative
      by_contra neither
      rw [not_or, Int.dvd_iff_tmod_eq_zero] at neither
      have opposite := Int.tmod_nonneg (a := -a) b (by omega)
      rw [Int.neg_tmod] at opposite
      omega
  rw [Int.emod_eq_tmod, Int.abs_eq_natAbs]
  simp only [sign, ite_not]
  split
  · rfl
  · exact Int.add_zero _

theorem HasValue.euclideanRemainder {x y : Float} {a b : Int} (first : HasValue x a)
    (second : HasValue y b) (nonzero : b ≠ 0) (small : |b| ≤ 2 ^ 53) :
    HasValue (euclideanRemainder x y) (a % b : Int) := by
  have rest := first.remainder second nonzero
  have below := Int.emod_lt_abs a nonzero
  have above := Int.emod_nonneg a nonzero
  have representable : Representable (a % b : Int) :=
    representable_int (by rw [abs_of_nonneg above]; exact (below.trans_le small).le)
  rw [emod_eq_of_tmod] at representable ⊢
  simp only [Binary64.euclideanRemainder, rest.lt_iff hasValue_zero, Int.cast_lt_zero]
  split
  · next negative =>
    rw [if_pos negative, Int.cast_add, Int.cast_abs] at representable
    rw [Int.cast_add, Int.cast_abs]
    exact rest.add second.abs representable
  · exact rest

/-! ## Doubles that are words -/

theorem roundToInt_exact {s : Sign} {m : Nat} {n e : Int} (same : (n : ℚ) = s.apply m * 2 ^ e) :
    roundToInt s m e = n := by
  obtain ⟨signed, magnitude⟩ := eq_apply_natAbs same
  have moved := mul_two_pow_sub m e.toNat e
  rw [← magnitude] at moved
  have digits := eq_mul_two_pow (by omega) moved
  simp only [roundToInt, decreaseExponent, shiftToExponent, Nat.shiftLeft_eq, Int.sub_zero, digits,
    shiftRight_exact]
  exact signed.symm

theorem Exactly.toInt {f : UnpackedFloat} {n : Int} (value : Exactly f n) (low high : Int) :
    f.toInt low high = n := by
  generalize same : (n : ℚ) = q at value
  cases value with
  | zero s => exact (Int.cast_eq_zero.1 same).symm
  | finite s canonical positive => exact roundToInt_exact same

/-- A double that is a word is converted to that word; nothing is clamped. -/
theorem HasValue.toNat_toUInt32 {x : Float} {n : Nat} (value : HasValue x n) (word : n < 2 ^ 32) :
    x.toUInt32.toNat = n := by
  have converted : x.toUInt32 = .ofNatClamp (x.toModel.unpack.toInt 0 (UInt32.size - 1)).toNat :=
    rfl
  have fits : n < UInt32.size := word
  rw [converted, Exactly.toInt (n := n) value.exactly, Int.toNat_natCast, UInt32.ofNatClamp,
    dif_pos fits, UInt32.toNat_ofNatLT]

/-- A word of 64 bits is converted to a double exactly if the double has room for all its bits. -/
theorem hasValue_toFloat {n : UInt64} (representable : Representable n.toNat) :
    HasValue n.toFloat n.toNat := by
  have rounded := rounded_normalize n.toNat 0 .positive
  rw [zpow_zero, mul_one, Int.cast_natCast] at rounded
  exact rounded.hasValue representable

/-! ## Integers -/

theorem sign_apply_natAbs (n : Int) : (sign (decide (n < 0))).apply n.natAbs = n := by
  by_cases negative : n < 0
  · rw [decide_eq_true negative]
    exact Int.neg_eq_comm.1 (Int.ofNat_natAbs_of_nonpos (Int.le_of_lt negative)).symm
  · rw [decide_eq_false negative]
    exact Int.natAbs_of_nonneg (Int.not_lt.1 negative)

theorem hasValue_ofInt {n : Int} (representable : Representable n) : HasValue (ofInt n) n := by
  have magnitude : Representable (n.natAbs / (1 : Nat)) := by
    obtain ⟨x, value⟩ := representable
    refine ⟨x.abs, ?_⟩
    have absolute := value.abs
    rwa [← Int.cast_abs, ← Nat.cast_natAbs, ← div_one (n.natAbs : ℚ), ← Nat.cast_one] at absolute
  have nearest := hasValue_nearest (decide (n < 0)) Nat.one_pos magnitude
  rwa [sign_apply_natAbs, Nat.cast_one, div_one] at nearest

end Binary64

end Calculator
