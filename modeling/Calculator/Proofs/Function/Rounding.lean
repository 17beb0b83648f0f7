import Calculator.Function.Application
import Calculator.Proofs.Binary64.Floor

/-!
# Rounding to integers

`round` compares what stands above the floor with one half, and this difference of doubles can be
rounded. It is not where the comparison could be decided by it: a distance below one half is a
double, and one from there on is not rounded across one half (`half_le_sub_floor_iff`). So no number
is rounded to a wrong integer (`Function.value?_round`).
-/

namespace Calculator

namespace Binary64

theorem hasValue_half : HasValue 0.5 (1 / 2) :=
  hasValue_of_ofFloat (m := 2 ^ 52) (e := -53) (by decide +kernel) (by norm_num)

theorem half_le_sub_floor_iff {x : Float} {q : ℚ} (value : HasValue x q) :
    0.5 ≤ x - floor x ↔ 1 / 2 ≤ Int.fract q := by
  rcases lt_or_ge (Int.fract q) (1 / 2) with below | above
  · have difference := value.sub value.floor (representable_fract value below)
    rw [hasValue_half.le_iff difference, Int.self_sub_floor]
  · have nonzero : q - ⌊q⌋ ≠ 0 := by
      rw [Int.self_sub_floor]
      linarith
    refine iff_of_true ?_ above
    rw [value.sub_eq value.floor nonzero, Int.self_sub_floor]
    rcases le_ofRat ⟨_, hasValue_half⟩ one_half_pos.le above with infinite | ⟨r, rounded, le⟩
    · rw [infinite]
      decide +kernel
    · exact (hasValue_half.le_iff rounded).2 le

end Binary64

namespace Function

open Binary64 (HasValue)

theorem floor_add_half (q : ℚ) : ⌊q + 1 / 2⌋ = if 1 / 2 ≤ Int.fract q then ⌊q⌋ + 1 else ⌊q⌋ := by
  have parts := Int.floor_add_fract q
  have upper := Int.fract_lt_one q
  have lower := Int.fract_nonneg q
  rw [Int.floor_eq_iff]
  split <;> push_cast <;> constructor <;> linarith

/-- Rounding gives the integer next to a number, and of two that are equally near the greater. -/
theorem hasValue_roundHalfUp {x : Float} {q : ℚ} (value : HasValue x q) :
    HasValue (roundHalfUp x) ⌊q + 1 / 2⌋ := by
  simp only [roundHalfUp, ge_iff_le, Binary64.half_le_sub_floor_iff value, floor_add_half]
  split
  · next above =>
    have next := Binary64.representable_floor_add_one value above
    rw [Int.cast_add, Int.cast_one] at next ⊢
    exact value.floor.add Binary64.hasValue_one next
  · exact value.floor

theorem eq_floor_add_half_iff {q : ℚ} {n : Int} :
    n = ⌊q + 1 / 2⌋ ↔ n - 1 / 2 ≤ q ∧ q < n + 1 / 2 := by
  rw [eq_comm, Int.floor_eq_iff]
  constructor
  · rintro ⟨lower, upper⟩
    constructor <;> linarith
  · rintro ⟨lower, upper⟩
    constructor <;> linarith

/-- A finite number is rounded to the only integer that it is at most one half below and less than
one half above. -/
theorem value?_round (source : RandomSource) {x : Float} (finite : x.isFinite = true)
    (more : List Float) : ∃ q y, ∃ r : Int, HasValue x q ∧
      value? .round source (x :: more) = some y ∧ HasValue y r ∧ r = ⌊q + 1 / 2⌋ ∧
      ∀ n : Int, n = r ↔ n - 1 / 2 ≤ q ∧ q < n + 1 / 2 := by
  obtain ⟨q, value⟩ := Binary64.isFinite_iff.1 finite
  exact ⟨q, _, _, value, rfl, hasValue_roundHalfUp value, rfl, fun _ => eq_floor_add_half_iff⟩

/-- The greatest number below zero is rounded to zero, although the difference between it and its
floor is rounded to `1`. -/
theorem value?_round_tiny : ∃ y,
    value? .round (.ofSeed 0) [Float.ofBits 0x8000000000000001] = some y ∧ HasValue y 0 := by
  have finite : (Float.ofBits 0x8000000000000001).isFinite = true := by decide +kernel
  obtain ⟨q, y, r, value, rounded, integer, -, only⟩ := value?_round (.ofSeed 0) finite []
  have tiny : HasValue (Float.ofBits 0x8000000000000001) (-2 ^ (-1074 : Int)) := by
    have parts : Binary64.ofFloat (Float.ofBits 0x8000000000000001) = .finite true 1 (-1074) := by
      decide +kernel
    rw [HasValue, parts]
    norm_num [Binary64.value?, Binary64.sign, Float.Model.UnpackedFloat.Sign.apply]
  have above : (0 : ℚ) < 2 ^ (-1074 : Int) := zpow_pos two_pos _
  have below : (2 : ℚ) ^ (-1074 : Int) ≤ 2 ^ (-1 : Int) := zpow_le_zpow_right₀ one_le_two (by decide)
  rw [zpow_neg_one] at below
  have zero : 0 = r := by
    rw [only, value.unique tiny, Int.cast_zero]
    constructor <;> linarith
  rw [← zero] at integer
  exact ⟨y, rounded, integer⟩

end Function

end Calculator
