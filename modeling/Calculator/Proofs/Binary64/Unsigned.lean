import Calculator.Proofs.Binary64.Bits

/-!
# Doubles with a clear sign

Zero, the positive doubles and positive infinity are closed under addition and under multiplication
by a positive finite double. None of these operations gives what is not a number: the only way to it
from here would be zero times infinity.
-/

namespace Calculator

namespace Binary64

open Float.Model (Format UnpackedFloat)
open Float.Model.UnpackedFloat

/-- The double is a number with a clear sign. -/
def Unsigned (x : Float) : Prop :=
  x.isNaN = false ∧ x.toBits.toNat < 2 ^ 63

instance (x : Float) : Decidable (Unsigned x) :=
  inferInstanceAs (Decidable (_ ∧ _))

/-- The unpacked double is a number with a clear sign. -/
def Positive : UnpackedFloat → Prop
  | .infinity s | .zero s | .finite s _ _ _ => s = .positive
  | .notANumber => False

/-! ## On the bits -/

theorem ofBitVec_eq_positive {b : BitVec 1} : Sign.ofBitVec b = .positive ↔ b.toNat = 0 := by
  have zero : b = 0#1 ↔ b.toNat = 0 := BitVec.toNat_inj.symm
  unfold Sign.ofBitVec
  split
  · next h => simp [zero.1 h]
  · next h => simpa using fun z => h (zero.2 z)

theorem isNaN_unpack {b : Bits} : (unpack Format.binary64 b).isNaN = true ↔ NaNBits b.toNat := by
  simp only [NaNBits, ← exponent_eq_top, ← mantissa_eq_zero, ne_eq]
  rw [unpack]
  split
  · split <;> simp_all [UnpackedFloat.isNaN]
  · split
    · split <;> simp_all [UnpackedFloat.isNaN]
    · simp_all [UnpackedFloat.isNaN]

theorem positive_unpack {b : Bits} :
    Positive (unpack Format.binary64 b) ↔ ¬ NaNBits b.toNat ∧ b.toNat < 2 ^ 63 := by
  have sign : Sign.ofBitVec (unpackSign b) = .positive ↔ b.toNat < 2 ^ 63 := by
    rw [ofBitVec_eq_positive, toNat_unpackSign]
    omega
  simp only [NaNBits, ← exponent_eq_top, ← mantissa_eq_zero, ← sign, ne_eq]
  rw [unpack]
  split
  · split <;> simp_all [Positive]
  · split
    · split <;> simp_all [Positive]
    · simp_all [Positive]

theorem unsigned_iff_positive {x : Float} : Unsigned x ↔ Positive x.toModel.unpack := by
  have number : x.isNaN = false ↔ ¬ NaNBits x.toBits.toNat := by
    change _ ↔ ¬ NaNBits x.toBits.toBitVec.toNat
    rw [← isNaN_unpack, Bool.not_eq_true]
    rfl
  rw [Unsigned, number]
  exact positive_unpack.symm

/-- The bits of these doubles are the least ones, up to those of infinity. -/
theorem unsigned_iff_toBits {x : Float} : Unsigned x ↔ x.toBits.toNat ≤ infinityBits := by
  rw [unsigned_iff_positive]
  refine positive_unpack.trans ?_
  simp only [NaNBits, infinityBits]
  change ¬ (x.toBits.toNat / _ % _ = _ ∧ x.toBits.toNat % _ ≠ 0) ∧ x.toBits.toNat < _ ↔ _
  omega

theorem ofFloat_of_unsigned {x : Float} (unsigned : Unsigned x) :
    ofFloat x = .infinite false ∨ ∃ m e, ofFloat x = .finite false m e := by
  have le := unsigned_iff_toBits.1 unsigned
  simp only [infinityBits] at le
  have sign : decide (2 ^ 63 ≤ x.toBits.toNat) = false := decide_eq_false (by omega)
  simp only [ofFloat, sign]
  split
  · next top =>
    rw [if_pos (by omega)]
    exact .inl rfl
  · split
    · exact .inr ⟨_, _, rfl⟩
    · exact .inr ⟨_, _, rfl⟩

theorem unsigned_signed {n : Nat} (le : n ≤ infinityBits) : Unsigned (signed false n) := by
  rw [unsigned_iff_toBits, toNat_toBits_signed le]
  exact le

theorem unsigned_nearest (num den : Nat) : Unsigned (nearest false num den) :=
  unsigned_signed (Nat.min_le_right ..)

/-! ## Sums and products -/

/-- Packing keeps the sign and makes no number into anything else. -/
theorem Positive.unpack_pack {f : UnpackedFloat} (positive : Positive f) :
    Positive (UnpackedFloat.unpack Format.binary64 (UnpackedFloat.pack Format.binary64 f)) := by
  have components (e : BitVec Format.binary64.exponentBits)
      (m : BitVec Format.binary64.mantissaBitsWithoutImplicit) (number : e.toNat < 2047 ∨ m = 0) :
      Positive (unpack Format.binary64 (packComponents Format.binary64 .positive e m)) := by
    have : e.toNat < 2 ^ 11 := e.isLt
    have : m.toNat < 2 ^ 52 := m.isLt
    have : e.toNat < 2047 ∨ m.toNat = 0 := number.imp_right (by rintro rfl; rfl)
    rw [positive_unpack, toNat_packComponents]
    simp only [NaNBits, Sign.toBitVec, BitVec.toNat_ofNat]
    omega
  cases f with
  | infinity s =>
    obtain rfl : s = .positive := positive
    exact components _ _ (.inr rfl)
  | notANumber => exact absurd positive id
  | zero s =>
    obtain rfl : s = .positive := positive
    exact components _ _ (.inr rfl)
  | finite s m e nonzero =>
    obtain rfl : s = .positive := positive
    simp only [UnpackedFloat.pack]
    split
    · exact components _ _ (.inr rfl)
    · next small =>
      split
      · refine components _ _ (.inl ?_)
        change ¬ 2 ^ 11 ≤ _ at small
        rw [BitVec.toNat_ofNat]
        exact Nat.lt_of_le_of_lt (Nat.mod_le ..) (by omega)
      · exact components _ _ (.inl (by decide))

theorem positive_roundWithAccuracy (m : Nat) (e : Int) (a : Accuracy) :
    Positive (roundWithAccuracy Format.binary64 .positive m e a) := by
  simp only [roundWithAccuracy]
  split <;> rfl

theorem positive_normalize {m : Int} (e : Int) (nonnegative : 0 ≤ m) :
    Positive (UnpackedFloat.normalize Format.binary64 m e .positive) := by
  unfold UnpackedFloat.normalize
  split
  · next less => exact absurd (Int.compare_eq_lt.1 less) (by omega)
  · rfl
  · exact positive_roundWithAccuracy ..

theorem Positive.add {f g : UnpackedFloat} (first : Positive f) (second : Positive g) :
    Positive (UnpackedFloat.add Format.binary64 f g) := by
  cases f <;> cases g <;> simp only [Positive] at first second <;> subst_vars
  case finite.finite =>
    exact positive_normalize _ (Int.add_nonneg (Int.natCast_nonneg _) (Int.natCast_nonneg _))
  all_goals rfl

theorem Positive.mul {f : UnpackedFloat} (first : Positive f) (m : Nat) (e : Int)
    (nonzero : 0 < m) :
    Positive (UnpackedFloat.mul Format.binary64 f (.finite .positive m e nonzero)) := by
  cases f <;> simp only [Positive] at first <;> subst_vars
  case finite => exact positive_roundWithAccuracy ..
  all_goals rfl

theorem Unsigned.add {x y : Float} (first : Unsigned x) (second : Unsigned y) :
    Unsigned (x + y) := by
  rw [unsigned_iff_positive] at *
  exact (first.add second).unpack_pack

/-- A factor that is finite and positive keeps away from zero times infinity. -/
theorem Unsigned.mul {x y : Float} (first : Unsigned x) {m : Nat} {e : Int} {nonzero : 0 < m}
    (second : y.toModel.unpack = .finite .positive m e nonzero) : Unsigned (x * y) := by
  rw [unsigned_iff_positive] at *
  have := (first.mul m e nonzero).unpack_pack
  rw [← second] at this
  exact this

end Binary64

end Calculator
