import Calculator.Decimal.Shortest
import Calculator.Proofs.Binary64.Rounding

/-!
# Decimals that read back as a double

A decimal that `readsBack` accepts for a double is rounded to this double (`toFloat_of_readsBack`),
and the shortest decimal is one of them (`readsBack_shortest`): either it has passed the test on some
grid, or it is the exact value of the double.
-/

namespace Calculator

namespace Decimal

open Binary64 (Canonical Near reach signed)

/-! ## The interval around a double -/

theorem gapBelow_eq_reach (m k : Nat) : gapBelow m ((k : Int) - 1074) = reach m k := by
  have : (-1074 < (k : Int) - 1074) = (0 < k) := by
    rw [eq_iff_iff]
    omega
  simp only [gapBelow, reach, this]

theorem reach_pos (m k : Nat) : 0 < reach m k ∧ reach m k ≤ 2 := by
  unfold reach
  split <;> decide

/-- The comparison of a decimal and a double leaves out a factor common to both sides. -/
theorem common_factor (num den k least : Nat) :
    num * 2 ^ (2 - ((k : Int) - least)).toNat * 2 ^ min k (least + 2) = 4 * (num * 2 ^ least) ∧
      den * 2 ^ ((k : Int) - least - 2).toNat * 2 ^ min k (least + 2) = den * 2 ^ k := by
  have left : (2 - ((k : Int) - least)).toNat + min k (least + 2) = least + 2 := by omega
  have right : ((k : Int) - least - 2).toNat + min k (least + 2) = k := by omega
  rw [Nat.mul_assoc, Nat.mul_assoc, ← Nat.pow_add, ← Nat.pow_add, left, right, Nat.pow_add,
    ← Nat.mul_assoc, Nat.mul_comm _ (2 ^ 2)]
  exact ⟨rfl, rfl⟩

/-- The bounds of the interval, with both sides counted in units of the least double. -/
theorem near_of_readsBack {m k : Nat} {d : Decimal}
    (back : readsBack m ((k : Int) - 1074) d = true) :
    Near m k (d.coefficient * 10 ^ d.exponent.toNat * 2 ^ 1074) (10 ^ (-d.exponent).toNat) := by
  simp only [readsBack, gapBelow_eq_reach] at back
  obtain ⟨left, right⟩ := common_factor (d.coefficient * 10 ^ d.exponent.toNat)
    (10 ^ (-d.exponent).toNat) k 1074
  have positive : 0 < 2 ^ min k (1074 + 2) := Nat.two_pow_pos _
  generalize 2 ^ min k (1074 + 2) = factor at *
  generalize d.coefficient * 10 ^ d.exponent.toNat * 2 ^ 1074 = n at *
  generalize _ * 2 ^ (2 - ((k : Int) - 1074)).toNat = decimal at *
  generalize _ * 2 ^ ((k : Int) - 1074 - 2).toNat = quarter at *
  generalize 10 ^ (-d.exponent).toNat = den at *
  have low : (4 * m - reach m k) * quarter * factor =
      4 * (m * (den * 2 ^ k)) - reach m k * (den * 2 ^ k) := by
    rw [Nat.mul_assoc, right, Nat.sub_mul, Nat.mul_assoc]
  have high : (4 * m + 2) * quarter * factor =
      4 * (m * (den * 2 ^ k)) + 2 * (den * 2 ^ k) := by
    rw [Nat.mul_assoc, right, Nat.add_mul, Nat.mul_assoc]
  split at back
  · obtain ⟨above, below⟩ := of_decide_eq_true back
    have above := Nat.mul_le_mul_right factor above
    have below := Nat.mul_le_mul_right factor below
    exact ⟨by omega, by omega, fun odd => by omega⟩
  · obtain ⟨above, below⟩ := of_decide_eq_true back
    have above := Nat.mul_lt_mul_of_pos_right above positive
    have below := Nat.mul_lt_mul_of_pos_right below positive
    exact ⟨by omega, by omega, fun _ => ⟨by omega, by omega⟩⟩

/-- A decimal that is read as a positive double is more than half of the least one. -/
theorem lt_of_near {m k num den : Nat} (positive : 0 < m) (some : 0 < den)
    (near : Near m k num den) : den < 2 * num := by
  have unit : den ≤ den * 2 ^ k := Nat.le_mul_of_pos_right den (Nat.two_pow_pos k)
  obtain ⟨low, -, odd⟩ := near
  have gap : reach m k * (den * 2 ^ k) ≤ 2 * (den * 2 ^ k) :=
    Nat.mul_le_mul_right _ (reach_pos m k).2
  rcases Nat.lt_or_eq_of_le (Nat.succ_le_of_lt positive) with more | rfl
  · have := Nat.mul_le_mul_right (den * 2 ^ k) more
    omega
  · have := (odd rfl).1
    omega

/-- What vanishes is at most half of the least double. -/
theorem le_of_vanishes {d : Decimal} (least : Nat)
    (vanishes : d.coefficient = 0 ∨
      (d.coefficient.log2 : Int) + (least + 2 : Nat) ≤ 3 * -d.exponent) :
    2 * (d.coefficient * 10 ^ d.exponent.toNat * 2 ^ least) ≤ 10 ^ (-d.exponent).toNat := by
  rcases vanishes with zero | small
  · simp [zero]
  · have below : d.exponent.toNat = 0 := by omega
    generalize places : (-d.exponent).toNat = n
    rw [below, Nat.pow_zero, Nat.mul_one]
    calc 2 * (d.coefficient * 2 ^ least)
        ≤ 2 * (2 ^ (d.coefficient.log2 + 1) * 2 ^ least) :=
          Nat.mul_le_mul_left 2 (Nat.mul_le_mul_right _ (Nat.le_of_lt Nat.lt_log2_self))
      _ = 2 ^ (d.coefficient.log2 + 1 + least + 1) := by
          rw [← Nat.pow_add, Nat.pow_succ 2 (_ + _ + least), Nat.mul_comm]
      _ ≤ 2 ^ (3 * n) := Nat.pow_le_pow_right (by decide) (by omega)
      _ = 8 ^ n := Nat.pow_mul 2 3 n
      _ ≤ 10 ^ n := Nat.pow_le_pow_left (by decide) n

theorem vanishes_eq_false_of_near {m k : Nat} {d : Decimal} (positive : 0 < m)
    (near : Near m k (d.coefficient * 10 ^ d.exponent.toNat * 2 ^ 1074)
      (10 ^ (-d.exponent).toNat)) : d.vanishes = false := by
  have more := lt_of_near positive (Nat.pow_pos (by decide)) near
  apply Bool.eq_false_iff.2
  intro vanishes
  simp only [Decimal.vanishes, Bool.or_eq_true, beq_iff_eq, decide_eq_true_eq] at vanishes
  exact absurd more (Nat.not_lt.2 (le_of_vanishes 1074 vanishes))

/-- Every finite double is less than `10 ^ 310`. -/
theorem exponent_lt_of_near {m k : Nat} {d : Decimal} (canonical : Canonical m k)
    (some : d.coefficient ≠ 0)
    (near : Near m k (d.coefficient * 10 ^ d.exponent.toNat * 2 ^ 1074)
      (10 ^ (-d.exponent).toNat)) : d.exponent < 310 := by
  apply Int.lt_of_not_ge
  intro large
  have places : (-d.exponent).toNat = 0 := by omega
  have high := near.high
  have short := canonical.short
  have bound : d.coefficient * 10 ^ d.exponent.toNat * 2 ^ 1074 ≤ 2 ^ 53 * 2 ^ k := by
    have := Nat.mul_le_mul_right (2 ^ k) (Nat.succ_le_of_lt short)
    rw [places, Nat.pow_zero, Nat.one_mul] at high
    rw [Nat.succ_mul] at this
    omega
  have zeros : 310 ≤ d.exponent.toNat := by omega
  have power := Nat.le_trans (Nat.pow_le_pow_right (n := 10) (by decide) zeros)
    (Nat.le_mul_of_pos_left _ (Nat.pos_iff_ne_zero.2 some))
  have low := Nat.mul_le_mul_right (2 ^ 1074) power
  have top := Nat.mul_le_mul_left (2 ^ 53) (Nat.pow_le_pow_right Nat.two_pos canonical.finite)
  exact absurd (Nat.le_trans low (Nat.le_trans bound top)) (by decide +kernel)

theorem toFloat_of_readsBack {m k : Nat} {d : Decimal} (canonical : Canonical m k)
    (positive : 0 < m) (back : readsBack m ((k : Int) - 1074) d = true) :
    d.toFloat = signed false (k * 2 ^ 52 + m) := by
  have near := near_of_readsBack back
  have lasting := vanishes_eq_false_of_near positive near
  have some : d.coefficient ≠ 0 := by
    intro zero
    simp [Decimal.vanishes, zero] at lasting
  have small := exponent_lt_of_near canonical some near
  rw [toFloat, lasting, if_neg (by decide), if_neg (by omega)]
  exact Binary64.nearest_of_near canonical (Nat.pow_pos (by decide)) near _

/-! ## The shortest decimal -/

/-- The exact value of a double lies in its interval. -/
theorem readsBack_of_exact {m : Nat} {e : Int} {d : Decimal} (positive : 0 < m)
    (exact : d.coefficient * 10 ^ d.exponent.toNat * 2 ^ (2 - e).toNat =
      4 * m * (10 ^ (-d.exponent).toNat * 2 ^ (e - 2).toNat)) : readsBack m e d = true := by
  have quarter : 0 < 10 ^ (-d.exponent).toNat * 2 ^ (e - 2).toNat :=
    Nat.mul_pos (Nat.pow_pos (by decide)) (Nat.two_pow_pos _)
  have gap : 0 < gapBelow m e := by
    unfold gapBelow
    split <;> decide
  have low : (4 * m - gapBelow m e) * (10 ^ (-d.exponent).toNat * 2 ^ (e - 2).toNat) <
      4 * m * (10 ^ (-d.exponent).toNat * 2 ^ (e - 2).toNat) :=
    Nat.mul_lt_mul_of_pos_right (by omega) quarter
  have high : 4 * m * (10 ^ (-d.exponent).toNat * 2 ^ (e - 2).toNat) <
      (4 * m + 2) * (10 ^ (-d.exponent).toNat * 2 ^ (e - 2).toNat) :=
    Nat.mul_lt_mul_of_pos_right (by omega) quarter
  simp only [readsBack, exact]
  split
  · exact decide_eq_true ⟨Nat.le_of_lt low, Nat.le_of_lt high⟩
  · exact decide_eq_true ⟨low, high⟩

theorem readsBack_of_onGrid? {m : Nat} {e place : Int} {d : Decimal}
    (hit : onGrid? m e place = some d) : readsBack m e d = true := by
  simp only [onGrid?] at hit
  split at hit
  · next below above =>
    obtain rfl := Option.some.inj hit
    split
    · exact below
    · exact above
  · next below _ =>
    obtain rfl := Option.some.inj hit
    exact below
  · next _ above =>
    obtain rfl := Option.some.inj hit
    exact above
  · cases hit

/-- On the last grid stands the double itself. -/
theorem readsBack_firstHit_zero {m : Nat} (positive : 0 < m) (e : Int) :
    readsBack m e (firstHit m e (min e 0) 0) = true := by
  apply readsBack_of_exact positive
  simp only [firstHit]
  rcases Int.le_total 0 e with whole | fraction
  · have powers : 2 ^ e.toNat * 2 ^ (2 - e).toNat = 4 * 2 ^ (e - 2).toNat := by
      have : e.toNat + (2 - e).toNat = 2 + (e - 2).toNat := by omega
      rw [← Nat.pow_add, this, Nat.pow_add]
    have none : (-e).toNat = 0 := by omega
    rw [Int.min_eq_right whole, none]
    simp only [Int.neg_zero, Int.toNat_zero, Nat.pow_zero, Nat.mul_one, Nat.one_mul, Nat.div_one]
    rw [Nat.mul_assoc, powers, Nat.mul_left_comm, Nat.mul_assoc]
  · have none : e.toNat = 0 := by omega
    have few : (e - 2).toNat = 0 := by omega
    have places : (2 - e).toNat = (-e).toNat + 2 := by omega
    have divides : 2 ^ (-e).toNat ∣ m * 10 ^ (-e).toNat :=
      Nat.dvd_mul_left_of_dvd ⟨5 ^ (-e).toNat, Nat.mul_pow 2 5 _⟩ m
    rw [Int.min_eq_left fraction, none, few, places, Nat.pow_add]
    simp only [Nat.pow_zero, Nat.mul_one]
    rw [← Nat.mul_assoc, Nat.div_mul_cancel divides, Nat.mul_comm _ (2 ^ 2), ← Nat.mul_assoc]

theorem readsBack_firstHit {m : Nat} {e last : Int} (steps : Nat)
    (exact : readsBack m e (firstHit m e last 0) = true) :
    readsBack m e (firstHit m e last steps) = true := by
  induction steps with
  | zero => exact exact
  | succ steps ih =>
    rw [firstHit]
    split
    · next d hit => exact readsBack_of_onGrid? hit
    · exact ih

theorem readsBack_shortest {m : Nat} (positive : 0 < m) (e : Int) :
    readsBack m e (shortest m e) = true :=
  readsBack_firstHit _ (readsBack_firstHit_zero positive e)

end Decimal

end Calculator
