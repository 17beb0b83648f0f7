import Calculator.Operator
import Calculator.Proofs.Binary64.Integers

/-!
# Shifts

The word of a number is its integral part modulo `2 ^ 32`, whatever the size of the number
(`toNat_ofFloat`), and the shift operators are operations on integers (`shifts_exact`): no step on
the way rounds, and no conversion has to clamp. Between doubles that are equal to integers they are
what they are between the integers (`hasValue_shiftLeft` and so on).
-/

namespace Calculator

open Binary64 (HasValue hasValue_ofInt representable_int towardZero)

/-! ## The word of a number -/

/-- What stands before the point of a number. What is not a number and the infinities have the
integral part zero. -/
def integralPart (x : Float) : Int :=
  match (Binary64.ofFloat x).value? with
  | some q => towardZero q
  | none => 0

theorem integralPart_of_hasValue {x : Float} {q : ℚ} (value : HasValue x q) :
    integralPart x = towardZero q := by
  rw [HasValue] at value
  rw [integralPart, value]

theorem integralPart_of_not_finite {x : Float} (infinite : ¬ x.isFinite = true) :
    integralPart x = 0 := by
  rw [Binary64.isFinite_iff, not_exists] at infinite
  rw [integralPart, Option.eq_none_iff_forall_ne_some.2 infinite]

namespace Word32

/-- The number `r` is the word congruent to `n`, as an unsigned number. -/
structure Unsigned (r n : Int) : Prop where
  low : 0 ≤ r
  high : r < 2 ^ 32
  congruent : r ≡ n [ZMOD 2 ^ 32]

/-- The number `r` is the word congruent to `n`, as a signed number. -/
structure Signed (r n : Int) : Prop where
  low : -2 ^ 31 ≤ r
  high : r < 2 ^ 31
  congruent : r ≡ n [ZMOD 2 ^ 32]

theorem hasValue_modulus : HasValue modulus ((2 ^ 32 : Int) : ℚ) := by
  have parts : Binary64.ofFloat modulus = .finite false (2 ^ 52) (-20) := by decide +kernel
  rw [HasValue, parts, Binary64.value?]
  norm_num [Binary64.sign, Float.Model.UnpackedFloat.Sign.apply]

section Conversion

variable {x : Float} {q : ℚ} (value : HasValue x q)

include value in
theorem hasValue_truncate : HasValue (Binary64.truncate x) (integralPart x) := by
  rw [integralPart_of_hasValue value]
  exact value.truncate

include value in
theorem hasValue_reduced : HasValue (Binary64.euclideanRemainder (Binary64.truncate x) modulus)
    (integralPart x % 2 ^ 32 : Int) :=
  (hasValue_truncate value).euclideanRemainder hasValue_modulus (by decide) (by decide)

end Conversion

theorem toNat_ofFloat (x : Float) : ((ofFloat x).toNat : Int) = integralPart x % 2 ^ 32 := by
  unfold ofFloat
  split
  · next finite =>
    obtain ⟨q, value⟩ := Binary64.isFinite_iff.1 finite
    have above := Int.emod_nonneg (integralPart x) (show (2 ^ 32 : Int) ≠ 0 by decide)
    have below := Int.emod_lt_of_pos (integralPart x) (show (0 : Int) < 2 ^ 32 by decide)
    obtain ⟨n, natural⟩ := Int.eq_ofNat_of_zero_le above
    have reduced := hasValue_reduced value
    rw [natural] at below reduced ⊢
    exact congrArg _ (HasValue.toNat_toUInt32 reduced (by omega))
  · next infinite =>
    rw [integralPart_of_not_finite infinite]
    rfl

theorem unsigned_toNat (w : BitVec 32) : Unsigned w.toNat w.toNat :=
  ⟨Int.natCast_nonneg _, Int.ofNat_lt.2 w.isLt, rfl⟩

theorem signed_toInt (w : BitVec 32) : Signed w.toInt w.toNat :=
  ⟨w.le_toInt, w.toInt_lt, by rw [BitVec.toInt_eq_toNat_bmod]; exact Int.bmod_emod⟩

theorem toNat_count (x : Float) : (count x : Int) = integralPart x % 32 := by
  have mask : countMask.toNat = 2 ^ 5 - 1 := rfl
  rw [count, BitVec.toNat_and, mask, Nat.and_two_pow_sub_one_eq_mod, Int.natCast_mod, toNat_ofFloat]
  exact Int.emod_emod_of_dvd _ (by decide)

/-! ## The operators -/

theorem Signed.hasValue_ofInt {r n : Int} (word : Signed r n) : HasValue (Binary64.ofInt r) r := by
  obtain ⟨low, high, -⟩ := word
  exact Binary64.hasValue_ofInt (representable_int (by rw [abs_le]; omega))

theorem Unsigned.hasValue_ofInt {r n : Int} (word : Unsigned r n) :
    HasValue (Binary64.ofInt r) r := by
  obtain ⟨low, high, -⟩ := word
  exact Binary64.hasValue_ofInt (representable_int (by rw [abs_le]; omega))

theorem unsigned_ofFloat (x : Float) : Unsigned (ofFloat x).toNat (integralPart x) := by
  obtain ⟨low, high, -⟩ := unsigned_toNat (ofFloat x)
  exact ⟨low, high, by rw [toNat_ofFloat]; exact Int.mod_modEq ..⟩

theorem signed_ofFloat (x : Float) : Signed (ofFloat x).toInt (integralPart x) := by
  obtain ⟨low, high, congruent⟩ := signed_toInt (ofFloat x)
  exact ⟨low, high, congruent.trans (unsigned_ofFloat x).congruent⟩

theorem signed_shiftLeft (x : Float) (k : Nat) :
    Signed (ofFloat x <<< k).toInt (integralPart x * 2 ^ k) := by
  obtain ⟨low, high, congruent⟩ := signed_toInt (ofFloat x <<< k)
  have shifted : ((ofFloat x <<< k).toNat : Int) = (ofFloat x).toNat * 2 ^ k % 2 ^ 32 := by
    rw [BitVec.toNat_shiftLeft, Nat.shiftLeft_eq]
    push_cast
    rfl
  rw [shifted] at congruent
  exact ⟨low, high, (congruent.trans (Int.mod_modEq ..)).trans
    ((unsigned_ofFloat x).congruent.mul_right _)⟩

theorem toInt_sshiftRight (w : BitVec 32) (k : Nat) :
    (w.sshiftRight k).toInt = ⌊(w.toInt : ℚ) / 2 ^ k⌋ := by
  have floor := Rat.floor_intCast_div_natCast w.toInt (2 ^ k)
  rw [Nat.cast_pow, Nat.cast_ofNat] at floor
  rw [BitVec.toInt_sshiftRight, Int.shiftRight_eq_div_pow, floor]

theorem toNat_ushiftRight (w : BitVec 32) (k : Nat) :
    ((w >>> k).toNat : Int) = ⌊(w.toNat : ℚ) / 2 ^ k⌋ := by
  have floor := Rat.floor_intCast_div_natCast w.toNat (2 ^ k)
  rw [Nat.cast_pow, Nat.cast_ofNat, Int.cast_natCast] at floor
  rw [BitVec.toNat_ushiftRight, Nat.shiftRight_eq_div_pow, Int.natCast_div, floor]

/-- On the way from a number to its word, truncation and reduction are exact, and the conversion of
what they leave has nothing to clamp. -/
structure ConvertsExactly (x : Float) : Prop where
  truncated : x.isFinite = true → HasValue (Binary64.truncate x) (integralPart x)
  reduced : x.isFinite = true →
    HasValue (Binary64.euclideanRemainder (Binary64.truncate x) modulus) (ofFloat x).toNat
  word : Unsigned (ofFloat x).toNat (integralPart x)

theorem convertsExactly (x : Float) : ConvertsExactly x := by
  refine ⟨fun finite => ?_, fun finite => ?_, unsigned_ofFloat x⟩
  · obtain ⟨q, value⟩ := Binary64.isFinite_iff.1 finite
    exact hasValue_truncate value
  · obtain ⟨q, value⟩ := Binary64.isFinite_iff.1 finite
    rw [← Int.cast_natCast, toNat_ofFloat]
    exact hasValue_reduced value

/-- The shift operators work on words, and of the count they take the residue modulo 32. Every step
is exact, however large the numbers are. -/
theorem shifts_exact (a b : Float) : ∃ U S r : Int, ∃ n : Nat,
    Unsigned U (integralPart a) ∧ Signed S (integralPart a) ∧
      Signed r (integralPart a * 2 ^ n) ∧ (n : Int) = integralPart b % 32 ∧
      (ofFloat a).toNat = U ∧ (ofFloat a).toInt = S ∧ count b = n ∧
      HasValue (Operator.shiftLeft.apply a b) r ∧
      HasValue (Operator.shiftRight.apply a b) (⌊(S : ℚ) / 2 ^ n⌋ : Int) ∧
      HasValue (Operator.shiftRightZero.apply a b) (⌊(U : ℚ) / 2 ^ n⌋ : Int) ∧
      ConvertsExactly a ∧ ConvertsExactly b := by
  refine ⟨_, _, _, count b, unsigned_ofFloat a, signed_ofFloat a, signed_shiftLeft a (count b),
    toNat_count b, rfl, rfl, rfl, (signed_shiftLeft a (count b)).hasValue_ofInt, ?_, ?_,
    convertsExactly a, convertsExactly b⟩
  · rw [← toInt_sshiftRight]
    exact (signed_toInt _).hasValue_ofInt
  · rw [Int.cast_natCast, ← toNat_ushiftRight]
    exact (unsigned_toNat _).hasValue_ofInt

/-! ## Shifts of integers -/

/-- By how many places an integer shifts a word. -/
def places (b : Int) : Nat :=
  (b % 32).toNat

theorem integralPart_intCast {x : Float} {a : Int} (value : HasValue x a) : integralPart x = a := by
  rw [integralPart_of_hasValue value, towardZero]
  split
  · exact Int.floor_intCast a
  · exact Int.ceil_intCast a

theorem count_eq_places {x : Float} {b : Int} (value : HasValue x b) : count x = places b := by
  have residue := toNat_count x
  rw [integralPart_intCast value] at residue
  rw [places]
  omega

theorem Signed.eq_bmod {r n : Int} (word : Signed r n) : r = n.bmod (2 ^ 32) := by
  obtain ⟨low, high, congruent⟩ := word
  have same : r.bmod (2 ^ 32) = n.bmod (2 ^ 32) := by
    rw [← Int.emod_bmod r, ← Int.emod_bmod n]
    exact congrArg (Int.bmod · _) congruent
  rw [← same]
  exact (Int.bmod_eq_of_le low high).symm

section Shifts

variable {x y : Float} {a b : Int} (first : HasValue x a) (second : HasValue y b)

include first second

theorem hasValue_shiftLeft :
    HasValue (shiftLeft x y) ((a * 2 ^ places b).bmod (2 ^ 32) : Int) := by
  have word := signed_shiftLeft x (count y)
  rw [integralPart_intCast first] at word
  rw [← count_eq_places second, ← word.eq_bmod]
  exact word.hasValue_ofInt

theorem hasValue_shiftRight :
    HasValue (shiftRight x y) (a.bmod (2 ^ 32) / 2 ^ places b : Int) := by
  have word := signed_ofFloat x
  rw [integralPart_intCast first] at word
  have shifted : ((ofFloat x).sshiftRight (count y)).toInt = a.bmod (2 ^ 32) / 2 ^ places b := by
    rw [BitVec.toInt_sshiftRight, Int.shiftRight_eq_div_pow, word.eq_bmod, count_eq_places second,
      Nat.cast_pow, Nat.cast_ofNat]
  rw [← shifted]
  exact (signed_toInt _).hasValue_ofInt

theorem hasValue_shiftRightZero :
    HasValue (shiftRightZero x y) (a % 2 ^ 32 / 2 ^ places b : Int) := by
  have shifted : ((ofFloat x >>> count y).toNat : Int) = a % 2 ^ 32 / 2 ^ places b := by
    rw [BitVec.toNat_ushiftRight, Nat.shiftRight_eq_div_pow, Int.natCast_div, toNat_ofFloat,
      integralPart_intCast first, count_eq_places second, Nat.cast_pow, Nat.cast_ofNat]
  rw [← shifted]
  exact (unsigned_toNat _).hasValue_ofInt

end Shifts

end Word32

end Calculator
