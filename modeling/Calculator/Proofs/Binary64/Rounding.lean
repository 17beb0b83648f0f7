import Calculator.Proofs.Binary64.Unsigned

/-!
# Rounding to the nearest double

Whatever lies near enough to a double is rounded to it (`nearest_of_near`). Near enough means up to
halfway to the next double on either side, and on the halfway point itself only if the significand
is even. Magnitudes are counted in units of the least double, `2 ^ -1074`.
-/

namespace Calculator

namespace Binary64

/-- How far the double reaches down, in quarters of its last place. -/
def reach (m k : Nat) : Nat :=
  if m = 2 ^ 52 ∧ 0 < k then 1 else 2

/-- The quotient `num / den` is as near to `m * 2 ^ k` as to any other double. -/
structure Near (m k num den : Nat) : Prop where
  low : 4 * (m * (den * 2 ^ k)) ≤ 4 * num + reach m k * (den * 2 ^ k)
  high : 4 * num ≤ 4 * (m * (den * 2 ^ k)) + 2 * (den * 2 ^ k)
  odd : m % 2 = 1 → 4 * (m * (den * 2 ^ k)) < 4 * num + reach m k * (den * 2 ^ k) ∧
    4 * num < 4 * (m * (den * 2 ^ k)) + 2 * (den * 2 ^ k)

/-- A quotient is rounded to a natural that is no more than one half away, or less if odd. -/
theorem roundHalfEven_eq {num den m : Nat} (low : 2 * (m * den) ≤ 2 * num + den)
    (high : 2 * num ≤ 2 * (m * den) + den)
    (odd : m % 2 = 1 → 2 * (m * den) < 2 * num + den ∧ 2 * num < 2 * (m * den) + den)
    (positive : 0 < den) : roundHalfEven num den = m := by
  have whole := Nat.div_add_mod num den
  have rest := Nat.mod_lt num positive
  rw [Nat.mul_comm] at whole
  simp only [roundHalfEven]
  generalize num / den = q at *
  generalize num % den = r at *
  subst whole
  have step {a b : Nat} (lt : a < b) : a * den + den ≤ b * den := by
    rw [← Nat.succ_mul]
    exact Nat.mul_le_mul_right den lt
  rcases Nat.lt_trichotomy q m with less | rfl | greater
  · -- the quotient is just below, and its rest is not less than one half
    have near : ¬ q + 1 < m := fun far => by
      have := step far
      rw [Nat.add_one_mul] at this
      omega
    obtain rfl : m = q + 1 := by omega
    simp only [Nat.add_one_mul] at low odd
    rw [if_neg]
    omega
  · rw [if_pos]
    omega
  · have := step greater
    omega

theorem log2_eq {n l : Nat} (lower : 2 ^ l ≤ n) (upper : n < 2 ^ (l + 1)) : n.log2 = l := by
  have nonzero : n ≠ 0 := by
    have := Nat.two_pow_pos l
    omega
  have := (Nat.le_log2 nonzero).2 lower
  have := (Nat.log2_lt nonzero).2 upper
  omega

/-- The exponent of what is near to a double is that of the double, or one less just below a power
of two. -/
theorem scale_of_near {m k num den : Nat} (canonical : Canonical m k) (positive : 0 < den)
    (near : Near m k num den) :
    (num / den).log2 - 52 = k ∨
      m = 2 ^ 52 ∧ 0 < k ∧ (num / den).log2 - 52 = k - 1 ∧ num < m * (den * 2 ^ k) := by
  obtain ⟨low, high, -⟩ := near
  have short := canonical.short
  have places := Nat.two_pow_pos k
  have unit : 0 < den * 2 ^ k := Nat.mul_pos positive places
  -- a product of the last place and a bound on the significand bounds the quotient by a power of two
  have upper {l : Nat} (lt : num < 2 ^ l * (den * 2 ^ k)) : num / den < 2 ^ (l + k) := by
    apply Nat.div_lt_of_lt_mul
    rwa [Nat.pow_add, Nat.mul_left_comm]
  have lower {l : Nat} (le : 2 ^ l * (den * 2 ^ k) ≤ num) : 2 ^ (l + k) ≤ num / den := by
    rw [Nat.le_div_iff_mul_le positive, Nat.pow_add, Nat.mul_right_comm, Nat.mul_assoc]
    exact le
  have most : num < 2 ^ 53 * (den * 2 ^ k) := by
    have := Nat.mul_le_mul_right (den * 2 ^ k) (Nat.le_sub_one_of_lt short)
    omega
  by_cases large : 2 ^ 52 * (den * 2 ^ k) ≤ num
  · have exact := log2_eq (lower large) (by rw [Nat.add_right_comm]; exact upper most)
    omega
  · have below := upper (Nat.lt_of_not_le large)
    rcases Nat.eq_zero_or_pos k with rfl | nonzero
    · have : (num / den).log2 ≤ 52 := by
        by_cases zero : num / den = 0
        · simp [zero]
        · have := (Nat.log2_lt zero).2 below
          omega
      omega
    · have leading := canonical.leading.resolve_right (Nat.pos_iff_ne_zero.1 nonzero)
      have least : m = 2 ^ 52 := by
        refine Nat.le_antisymm (Nat.le_of_not_lt fun greater => ?_) leading
        rw [reach, if_neg (by omega)] at low
        have := Nat.mul_le_mul_right (den * 2 ^ k) greater
        omega
      subst least
      rw [reach, if_pos ⟨rfl, nonzero⟩] at low
      have half : 2 ^ 51 * (den * 2 ^ k) ≤ num := by omega
      have exact := log2_eq (lower half) (by rw [Nat.add_right_comm]; exact below)
      exact .inr ⟨rfl, nonzero, by omega, by omega⟩

/-- The bits below the sign of the double nearest to `num / den`, as far as there are doubles. -/
def roundedBits (num den : Nat) : Nat :=
  scale num den * 2 ^ 52 + roundHalfEven (num * 2 ^ 1074) (den * 2 ^ scale num den)

theorem nearest_eq (negative : Bool) (num den : Nat) :
    nearest negative num den = signed negative (min (roundedBits num den) infinityBits) :=
  rfl

section Near

variable {m k num den : Nat} (canonical : Canonical m k) (positive : 0 < den)
  (near : Near m k (num * 2 ^ 1074) den)

include canonical positive near in
theorem roundedBits_of_near : roundedBits num den = k * 2 ^ 52 + m := by
  have scaled := scale_of_near canonical positive near
  obtain ⟨low, high, odd⟩ := near
  simp only [reach] at low odd
  rw [roundedBits, scale]
  generalize num * 2 ^ 1074 = n at *
  rcases scaled with same | ⟨rfl, nonzero, less, below⟩
  · rw [same, roundHalfEven_eq (m := m)]
    · split at low <;> omega
    · omega
    · split at odd <;> omega
    · exact Nat.mul_pos positive (Nat.two_pow_pos k)
  · obtain ⟨k, rfl⟩ : ∃ j, k = j + 1 := ⟨k - 1, by omega⟩
    have double : den * 2 ^ (k + 1) = 2 * (den * 2 ^ k) := by
      rw [Nat.pow_succ, ← Nat.mul_assoc, Nat.mul_comm]
    rw [if_pos ⟨rfl, nonzero⟩, double] at low
    rw [double] at below
    rw [less, Nat.add_sub_cancel, roundHalfEven_eq (m := 2 ^ 53)]
    · omega
    · omega
    · omega
    · exact fun h => absurd h (by decide)
    · exact Nat.mul_pos positive (Nat.two_pow_pos k)

include canonical positive near in
theorem nearest_of_near (negative : Bool) :
    nearest negative num den = signed negative (k * 2 ^ 52 + m) := by
  rw [nearest_eq, roundedBits_of_near canonical positive near,
    Nat.min_eq_left canonical.le_infinityBits]

end Near

end Binary64

end Calculator
