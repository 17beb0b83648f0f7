import Mathlib
import Calculator.Binary64

/-!
# The bits of a double

A double is determined by its bits, and all bits but those of what is not a number are the bits of a
double (`toBits_ofBits`). So what `Binary64.signed` makes of a magnitude can be read off again.
-/

namespace Calculator

namespace Binary64

open Float.Model (Format UnpackedFloat)
open Float.Model.UnpackedFloat

/-- The bits are those of what is not a number. -/
def NaNBits (n : Nat) : Prop :=
  n / 2 ^ 52 % 2 ^ 11 = 2047 ∧ n % 2 ^ 52 ≠ 0

/-! ## Taking bits apart and putting them together -/

/-- The bits of a double, as the library of doubles takes them apart. -/
abbrev Bits := BitVec Format.binary64.numBits

theorem toNat_unpackMantissa (b : Bits) : (unpackMantissa b).toNat = b.toNat % 2 ^ 52 := by
  simp [unpackMantissa]

theorem toNat_unpackExponent (b : Bits) :
    (unpackExponent b).toNat = b.toNat / 2 ^ 52 % 2 ^ 11 := by
  simp [unpackExponent, Nat.shiftRight_eq_div_pow]

theorem toNat_unpackSign (b : Bits) : (unpackSign b).toNat = b.toNat / 2 ^ 63 := by
  have : b.toNat < 2 ^ 64 := b.isLt
  simp only [unpackSign, Nat.shiftRight_eq_div_pow, BitVec.toNat_cast, BitVec.extractLsb_toNat]
  omega

theorem toNat_packComponents (s : Sign) (e : BitVec Format.binary64.exponentBits)
    (m : BitVec Format.binary64.mantissaBitsWithoutImplicit) :
    (packComponents Format.binary64 s e m).toNat =
      s.toBitVec.toNat * 2 ^ 63 + e.toNat * 2 ^ 52 + m.toNat := by
  have := e.isLt
  have := m.isLt
  simp only [packComponents, BitVec.toNat_append]
  rw [← Nat.shiftLeft_add_eq_or_of_lt e.isLt, ← Nat.shiftLeft_add_eq_or_of_lt m.isLt]
  simp only [Nat.shiftLeft_eq]
  omega

theorem exponent_eq_top {b : Bits} :
    unpackExponent b = -1#_ ↔ b.toNat / 2 ^ 52 % 2 ^ 11 = 2047 := by
  rw [← toNat_unpackExponent]
  exact BitVec.toNat_inj.symm

theorem mantissa_eq_zero {b : Bits} : unpackMantissa b = 0#_ ↔ b.toNat % 2 ^ 52 = 0 := by
  rw [← toNat_unpackMantissa]
  exact BitVec.toNat_inj.symm

theorem isNaNBits_iff {b : Bits} : isNaNBits b = true ↔ NaNBits b.toNat := by
  rw [isNaNBits, decide_eq_true_eq, exponent_eq_top, ne_eq, mantissa_eq_zero]
  rfl

/-- All bits are those of a double but the ones that are not a number. -/
theorem toBits_ofBits {b : UInt64} (number : ¬ NaNBits b.toNat) : (Float.ofBits b).toBits = b := by
  have same := @UnpackedFloat.pack_unpack Format.binary64 b.toBitVec (by decide)
  rw [if_neg fun isNaN => number (isNaNBits_iff.1 isNaN)] at same
  exact congrArg UInt64.ofBitVec same

theorem not_NaNBits {n : Nat} (le : n ≤ infinityBits) : ¬ NaNBits n := by
  simp only [NaNBits, infinityBits] at *
  omega

theorem toNat_toBits_signed {negative : Bool} {n : Nat} (le : n ≤ infinityBits) :
    (signed negative n).toBits.toNat = if negative then 2 ^ 63 + n else n := by
  have small : n < 2 ^ 63 := Nat.lt_of_le_of_lt le (by decide)
  have number := not_NaNBits le
  have same (m : Nat) (lt : m < 2 ^ 64) (number : ¬ NaNBits m) :
      (Float.ofBits (UInt64.ofNat m)).toBits.toNat = m := by
    have value : (UInt64.ofNat m).toNat = m := Nat.mod_eq_of_lt lt
    rw [toBits_ofBits (by rwa [value]), value]
  unfold signed
  split
  · apply same _ (by omega)
    simp only [NaNBits] at number ⊢
    omega
  · exact same n (by omega) number

/-! ## The parts of a double -/

/-- The significand `m` and the exponent `k`, counted from `-1074` on, are those of a finite
double. -/
structure Canonical (m k : Nat) : Prop where
  short : m < 2 ^ 53
  leading : 2 ^ 52 ≤ m ∨ k = 0
  finite : k ≤ 2045

/-- The magnitude of a finite double, as bits. -/
theorem Canonical.le_infinityBits {m k : Nat} (canonical : Canonical m k) :
    k * 2 ^ 52 + m ≤ infinityBits := by
  have := canonical.short
  have := canonical.finite
  simp only [infinityBits]
  omega

/-- A double is the one that its sign and its magnitude make. -/
theorem eq_signed {x : Float} {n : Nat} (le : n ≤ infinityBits)
    (magnitude : x.toBits.toNat % 2 ^ 63 = n) :
    x = signed (decide (2 ^ 63 ≤ x.toBits.toNat)) n := by
  have : x.toBits.toNat < 2 ^ 64 := x.toBits.toBitVec.isLt
  refine Float.toBits_inj.1 (UInt64.toNat_inj.1 ?_)
  rw [toNat_toBits_signed le]
  simp only [decide_eq_true_eq]
  split <;> omega

theorem eq_signed_of_ofFloat {x : Float} {negative : Bool} {m : Nat} {e : Int}
    (parts : ofFloat x = .finite negative m e) :
    ∃ k : Nat, e = k - 1074 ∧ Canonical m k ∧ x = signed negative (k * 2 ^ 52 + m) := by
  have canonical {m k : Nat} (short : m < 2 ^ 53) (leading : 2 ^ 52 ≤ m ∨ k = 0)
      (finite : k ≤ 2045) (magnitude : x.toBits.toNat % 2 ^ 63 = k * 2 ^ 52 + m) :
      Canonical m k ∧ x = signed (decide (2 ^ 63 ≤ x.toBits.toNat)) (k * 2 ^ 52 + m) :=
    have canonical : Canonical m k := ⟨short, leading, finite⟩
    ⟨canonical, eq_signed canonical.le_infinityBits magnitude⟩
  simp only [ofFloat] at parts
  split at parts
  · split at parts <;> cases parts
  · next notTop =>
    split at parts
    · next bottom =>
      obtain ⟨rfl, rfl, rfl⟩ := finite.inj parts
      exact ⟨0, rfl, canonical (by omega) (.inr rfl) (by decide) (by omega)⟩
    · next inner =>
      obtain ⟨rfl, rfl, rfl⟩ := finite.inj parts
      refine ⟨x.toBits.toNat / 2 ^ 52 % 2 ^ 11 - 1, by omega, canonical ?_ (.inl ?_) ?_ ?_⟩ <;> omega

theorem eq_infinity_of_ofFloat {x : Float} {negative : Bool}
    (parts : ofFloat x = .infinite negative) : x = infinity negative := by
  simp only [ofFloat] at parts
  split at parts
  · split at parts
    · obtain rfl := infinite.inj parts
      apply eq_signed (Nat.le_refl _)
      simp only [infinityBits]
      omega
    · cases parts
  · split at parts <;> cases parts

end Binary64

end Calculator
