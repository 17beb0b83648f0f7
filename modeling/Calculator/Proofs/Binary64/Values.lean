import Calculator.Proofs.Binary64.Unsigned

/-!
# The values of doubles

A finite double is equal to a rational number (`HasValue`), and the numbers that some double is
equal to are the representable ones (`Representable`): those with a short significand and an exponent
within bounds (`representable_scaled`). So all multiples of a power of two up to a bound are among
them (`representable_multiple`), and all integers up to `2 ^ 53` (`representable_int`).

The library of doubles takes the bits apart in a form of its own. `unpack_toModel` gives that form,
and `Exactly` says of it what `HasValue` says of the double.
-/

namespace Calculator

namespace Binary64

open Float.Model (Format UnpackedFloat)
open Float.Model.UnpackedFloat

/-! ## The two forms of the parts of a double -/

/-- The sign that a sign bit stands for. -/
def sign (negative : Bool) : Sign :=
  if negative then .negative else .positive

theorem exists_sign (s : Sign) : ∃ negative, sign negative = s := by
  cases s
  · exact ⟨true, rfl⟩
  · exact ⟨false, rfl⟩

/-- The parts as the library of doubles has them. There, zeros are told from other finite
doubles. -/
def unpacked : Binary64 → UnpackedFloat
  | nan => .notANumber
  | infinite negative => .infinity (sign negative)
  | finite negative m e =>
    if positive : 0 < m then .finite (sign negative) m e positive else .zero (sign negative)

theorem ofBitVec_unpackSign (b : Bits) :
    Sign.ofBitVec (unpackSign b) = sign (decide (2 ^ 63 ≤ b.toNat)) := by
  have field := toNat_unpackSign b
  have : b.toNat < 2 ^ 64 := b.isLt
  by_cases set : 2 ^ 63 ≤ b.toNat
  · have one : unpackSign b = 1#1 := BitVec.toNat_inj.1 (by rw [field, BitVec.toNat_ofNat]; omega)
    rw [one, decide_eq_true set]
    rfl
  · have zero : unpackSign b = 0#1 := BitVec.toNat_inj.1 (by rw [field, BitVec.toNat_ofNat]; omega)
    rw [zero, decide_eq_false set]
    rfl

theorem exponent_eq_bottom {b : Bits} :
    unpackExponent b = 0#_ ↔ b.toNat / 2 ^ 52 % 2 ^ 11 = 0 := by
  rw [← toNat_unpackExponent]
  exact BitVec.toNat_inj.symm

theorem finite_congr {s : Sign} {m m' : Nat} {e e' : Int} {h : 0 < m} {h' : 0 < m'}
    (significand : m = m') (exponent : e = e') :
    UnpackedFloat.finite s m e h = .finite s m' e' h' := by
  subst significand exponent
  rfl

theorem unpack_toModel (x : Float) : x.toModel.unpack = (ofFloat x).unpacked := by
  obtain ⟨b, bits, unpack⟩ : ∃ b : Bits, x.toBits.toNat = b.toNat ∧
      x.toModel.unpack = unpack Format.binary64 b := ⟨x.toBits.toBitVec, rfl, rfl⟩
  have fraction := toNat_unpackMantissa b
  have field := toNat_unpackExponent b
  have bias : Format.binary64.exponentBias = 1023 := rfl
  simp only [unpack, UnpackedFloat.unpack, ofFloat, bits, ofBitVec_unpackSign]
  split
  · next top =>
    rw [if_pos (exponent_eq_top.1 top)]
    split
    · next zero => rw [if_pos (mantissa_eq_zero.1 zero), unpacked]
    · next nonzero => rw [if_neg (nonzero ∘ mantissa_eq_zero.2), unpacked]
  · next inner =>
    rw [if_neg (inner ∘ exponent_eq_top.2)]
    split
    · next bottom =>
      rw [exponent_eq_bottom.1 bottom] at field
      rw [if_pos (exponent_eq_bottom.1 bottom), unpacked]
      split
      · next zero => rw [dif_neg (by rw [mantissa_eq_zero.1 zero]; decide)]
      · next nonzero =>
        rw [dif_pos (Nat.pos_of_ne_zero (nonzero ∘ mantissa_eq_zero.2))]
        exact finite_congr fraction (by rw [field, bias]; rfl)
    · next normal =>
      rw [if_neg (normal ∘ exponent_eq_bottom.2), unpacked, dif_pos (by omega)]
      refine finite_congr ?_ (by rw [field, bias]; rfl)
      rw [BitVec.toNat_append, ← Nat.shiftLeft_add_eq_or_of_lt (unpackMantissa b).isLt, fraction]
      rfl

theorem ofModel_pack (x : Float) : Float.ofModel (.pack x.toModel.unpack) = x :=
  Float.ofBits_toBits x

/-! ## The parts of a double made from parts -/

section Canonical

variable {m k : Nat} (negative : Bool) (canonical : Canonical m k)

include canonical in
theorem toNat_toBits_canonical : (signed negative (k * 2 ^ 52 + m)).toBits.toNat =
    negative.toNat * 2 ^ 63 + (k * 2 ^ 52 + m) := by
  rw [toNat_toBits_signed canonical.le_infinityBits]
  cases negative <;> simp [Nat.add_comm]

include canonical in
theorem ofFloat_signed :
    ofFloat (signed negative (k * 2 ^ 52 + m)) = .finite negative m (k - 1074) := by
  have bits := toNat_toBits_canonical negative canonical
  obtain ⟨short, leading, last⟩ := canonical
  have set : decide (2 ^ 63 ≤ negative.toNat * 2 ^ 63 + (k * 2 ^ 52 + m)) = negative := by
    cases negative
    · simp
      omega
    · simp
  have field : (negative.toNat * 2 ^ 63 + (k * 2 ^ 52 + m)) / 2 ^ 52 % 2 ^ 11 =
      k + m / 2 ^ 52 := by
    cases negative <;> simp only [Bool.toNat_false, Bool.toNat_true] <;> omega
  have fraction : (negative.toNat * 2 ^ 63 + (k * 2 ^ 52 + m)) % 2 ^ 52 = m % 2 ^ 52 := by
    omega
  simp only [ofFloat, bits, set, field, fraction]
  rw [if_neg (by omega)]
  by_cases small : m < 2 ^ 52
  · obtain rfl := leading.resolve_left (by omega)
    rw [if_pos (by omega), Nat.mod_eq_of_lt small]
    rfl
  · have significand : 2 ^ 52 + m % 2 ^ 52 = m := by omega
    have exponent : ((k + m / 2 ^ 52 : Nat) : Int) - 1075 = k - 1074 := by omega
    rw [if_neg (by omega), significand, exponent]

include canonical in
/-- Packing the parts of a finite double gives that double. -/
theorem ofModel_pack_unpacked : Float.ofModel (.pack (finite negative m (k - 1074)).unpacked) =
    signed negative (k * 2 ^ 52 + m) := by
  rw [← ofFloat_signed negative canonical, ← unpack_toModel, ofModel_pack]

end Canonical

/-! ## Changing the sign -/

theorem unpacked_neg (negative : Bool) (m : Nat) (e : Int) :
    (finite negative m e).unpacked.neg = (finite (!negative) m e).unpacked := by
  by_cases positive : 0 < m
  · rw [unpacked, unpacked, dif_pos positive, dif_pos positive]
    cases negative <;> rfl
  · rw [unpacked, unpacked, dif_neg positive, dif_neg positive]
    cases negative <;> rfl

theorem neg_signed (negative : Bool) {m k : Nat} (canonical : Canonical m k) :
    -signed negative (k * 2 ^ 52 + m) = signed (!negative) (k * 2 ^ 52 + m) := by
  have negated (x : Float) : -x = Float.ofModel (.pack x.toModel.unpack.neg) := rfl
  rw [negated, unpack_toModel, ofFloat_signed negative canonical, unpacked_neg,
    ofModel_pack_unpacked (!negative) canonical]

/-- Only one double is not a number. -/
theorem eq_notANumber {x : Float} (parts : ofFloat x = .nan) : x = notANumber := by
  have same : ofFloat notANumber = .nan := by decide +kernel
  rw [← ofModel_pack x, ← ofModel_pack notANumber, unpack_toModel, unpack_toModel, parts, same]

theorem canonical_zero : Canonical 0 0 :=
  ⟨by decide, .inr rfl, by decide⟩

/-! ## Values -/

/-- The number that the parts of a finite double write. -/
def value? : Binary64 → Option ℚ
  | finite negative m e => some ((sign negative).apply m * 2 ^ e)
  | _ => none

/-- The double is finite and equal to `q`. Both zeros are equal to zero. -/
def HasValue (x : Float) (q : ℚ) : Prop :=
  (ofFloat x).value? = some q

theorem hasValue_of_ofFloat {x : Float} {m : Nat} {e : Int} {q : ℚ}
    (parts : ofFloat x = .finite false m e) (same : (m : ℚ) * 2 ^ e = q) : HasValue x q := by
  rw [HasValue, parts, value?, ← same]
  rfl

theorem HasValue.unique {x : Float} {p q : ℚ} (first : HasValue x p) (second : HasValue x q) :
    p = q :=
  Option.some.inj (first.symm.trans second)

/-- The unpacked double is that of a finite double equal to `q`. -/
inductive Exactly : UnpackedFloat → ℚ → Prop where
  | zero (s : Sign) : Exactly (.zero s) 0
  | finite (s : Sign) {m k : Nat} (canonical : Canonical m k) (positive : 0 < m) :
    Exactly (.finite s m (k - 1074) positive) (s.apply m * 2 ^ (k - 1074 : Int))

theorem apply_zero (s : Sign) : s.apply 0 = 0 := by
  cases s <;> rfl

theorem hasValue_signed (negative : Bool) {m k : Nat} (canonical : Canonical m k) :
    HasValue (signed negative (k * 2 ^ 52 + m))
      ((sign negative).apply m * 2 ^ (k - 1074 : Int)) := by
  rw [HasValue, ofFloat_signed negative canonical]
  rfl

theorem HasValue.parts {x : Float} {q : ℚ} (value : HasValue x q) : ∃ negative m, ∃ k : Nat,
    ofFloat x = .finite negative m (k - 1074) ∧ Canonical m k ∧
      q = (sign negative).apply m * 2 ^ (k - 1074 : Int) := by
  rw [HasValue] at value
  cases parts : ofFloat x with
  | nan =>
    rw [parts] at value
    exact nomatch value
  | infinite negative =>
    rw [parts] at value
    exact nomatch value
  | finite negative m e =>
    obtain ⟨k, rfl, canonical, -⟩ := eq_signed_of_ofFloat parts
    rw [parts] at value
    exact ⟨negative, m, k, rfl, canonical, (Option.some.inj value).symm⟩

/-- A finite double is the one that its sign and its significand and exponent make. -/
theorem HasValue.exists_signed {x : Float} {q : ℚ} (value : HasValue x q) :
    ∃ negative m k, Canonical m k ∧ x = signed negative (k * 2 ^ 52 + m) ∧
      q = (sign negative).apply m * 2 ^ (k - 1074 : Int) := by
  obtain ⟨negative, m, k, parts, -, same⟩ := value.parts
  obtain ⟨l, exponent, canonical, bits⟩ := eq_signed_of_ofFloat parts
  obtain rfl : k = l := by omega
  exact ⟨negative, m, k, canonical, bits, same⟩

theorem HasValue.exactly {x : Float} {q : ℚ} (value : HasValue x q) :
    Exactly x.toModel.unpack q := by
  obtain ⟨negative, m, k, parts, canonical, rfl⟩ := value.parts
  rw [unpack_toModel, parts, unpacked]
  split
  · next positive => exact .finite _ canonical positive
  · next zero =>
    obtain rfl : m = 0 := by omega
    simpa [apply_zero] using Exactly.zero (sign negative)

theorem Exactly.hasValue {f : UnpackedFloat} {q : ℚ} (exactly : Exactly f q) :
    HasValue (.ofModel (.pack f)) q := by
  cases exactly with
  | zero s =>
    obtain ⟨negative, rfl⟩ := exists_sign s
    have value := hasValue_signed negative canonical_zero
    rw [← ofModel_pack_unpacked negative canonical_zero] at value
    simpa [unpacked, apply_zero] using value
  | @finite s m k canonical positive =>
    obtain ⟨negative, rfl⟩ := exists_sign s
    have value := hasValue_signed negative canonical
    rwa [← ofModel_pack_unpacked negative canonical, unpacked, dif_pos positive] at value

/-! ## Representable numbers -/

/-- The number is the value of a double. -/
def Representable (q : ℚ) : Prop :=
  ∃ x, HasValue x q

theorem abs_apply (s : Sign) (m : Nat) : |((s.apply m : Int) : ℚ)| = m := by
  cases s <;> simp [Sign.apply]

theorem representable_iff {q : ℚ} :
    Representable q ↔ ∃ m k, Canonical m k ∧ |q| = m * 2 ^ (k - 1074 : Int) := by
  constructor
  · rintro ⟨x, value⟩
    have exactly := value.exactly
    generalize x.toModel.unpack = f at exactly
    cases exactly with
    | zero => exact ⟨0, 0, canonical_zero, by simp⟩
    | @finite s m k canonical positive =>
      refine ⟨m, k, canonical, ?_⟩
      rw [abs_mul, abs_apply, abs_of_pos (zpow_pos two_pos _)]
  · rintro ⟨m, k, canonical, magnitude⟩
    rcases abs_choice q with same | opposite
    · rw [same] at magnitude
      have value := hasValue_signed false canonical
      exact ⟨_, by simpa [sign, Sign.apply, magnitude] using value⟩
    · rw [opposite, neg_eq_iff_eq_neg] at magnitude
      have value := hasValue_signed true canonical
      exact ⟨_, by simpa [sign, Sign.apply, magnitude] using value⟩

/-- A short significand can be moved up until it has its leading bit or the least exponent. -/
theorem exists_canonical {n : Nat} {e : Int} (short : n < 2 ^ 53) (low : -1074 ≤ e)
    (high : e ≤ 971) : ∃ m k, Canonical m k ∧ (m : ℚ) * 2 ^ (k - 1074 : Int) = n * 2 ^ e := by
  rcases Nat.eq_zero_or_pos n with rfl | positive
  · exact ⟨0, 0, canonical_zero, by simp⟩
  · have width : n.log2 < 53 := (Nat.log2_lt (Nat.ne_of_gt positive)).2 short
    have upper : n < 2 ^ (n.log2 + 1) := Nat.lt_log2_self
    have lower : 2 ^ n.log2 ≤ n := Nat.log2_self_le (Nat.ne_of_gt positive)
    obtain ⟨j, fits, full⟩ : ∃ j : Nat, (j ≤ 52 - n.log2 ∧ (j : Int) ≤ e + 1074) ∧
        (j = 52 - n.log2 ∨ j = e + 1074) :=
      ⟨min (52 - n.log2) (e + 1074).toNat, by omega, by omega⟩
    refine ⟨n * 2 ^ j, (e + 1074 - j).toNat, ⟨?_, ?_, ?_⟩, ?_⟩
    · have room : 2 ^ (n.log2 + 1) * 2 ^ j ≤ 2 ^ 53 := by
        rw [← Nat.pow_add]
        exact Nat.pow_le_pow_right (by decide) (by omega)
      exact Nat.lt_of_lt_of_le (Nat.mul_lt_mul_of_pos_right upper (Nat.two_pow_pos j)) room
    · rcases full with whole | least
      · have scaled := Nat.mul_le_mul_right (2 ^ j) lower
        rw [← Nat.pow_add, show n.log2 + j = 52 by omega] at scaled
        exact .inl scaled
      · exact .inr (by omega)
    · omega
    · have exponent : ((e + 1074 - j).toNat : Int) - 1074 = e - j := by omega
      rw [exponent, Nat.cast_mul, Nat.cast_pow, Nat.cast_ofNat, mul_assoc, ← zpow_natCast,
        ← zpow_add₀ two_ne_zero, add_sub_cancel]

theorem representable_scaled {n e : Int} (short : n.natAbs < 2 ^ 53) (low : -1074 ≤ e)
    (high : e ≤ 971) : Representable (n * 2 ^ e) := by
  obtain ⟨m, k, canonical, same⟩ := exists_canonical short low high
  refine representable_iff.2 ⟨m, k, canonical, ?_⟩
  have magnitude : |(n : ℚ)| = n.natAbs := by
    rw [← Int.cast_abs, Int.abs_eq_natAbs, Int.cast_natCast]
  have positive : 0 < (2 : ℚ) ^ e := zpow_pos two_pos e
  rw [same, abs_mul, magnitude, abs_of_pos positive]

/-- All multiples of a power of two up to `2 ^ 53` times this power are doubles. -/
theorem representable_multiple {n e : Int} (small : n.natAbs ≤ 2 ^ 53) (low : -1074 ≤ e)
    (high : e ≤ 970) : Representable (n * 2 ^ e) := by
  rcases Nat.lt_or_eq_of_le small with short | last
  · exact representable_scaled short low (by omega)
  · refine representable_iff.2 ⟨2 ^ 52, (e + 1075).toNat, ⟨by decide, .inl le_rfl, by omega⟩, ?_⟩
    have exponent : ((e + 1075).toNat - 1074 : Int) = e + 1 := by omega
    have power : 0 < (2 : ℚ) ^ e := zpow_pos two_pos e
    rw [exponent, zpow_add_one₀ two_ne_zero, abs_mul, abs_of_pos power, ← Int.cast_abs,
      Int.abs_eq_natAbs, last]
    push_cast
    ring

/-- The integers up to `2 ^ 53` are doubles. -/
theorem representable_int {n : Int} (small : |n| ≤ 2 ^ 53) : Representable n := by
  rw [Int.abs_eq_natAbs] at small
  simpa using representable_multiple (n := n) (e := 0) (by omega) (by decide) (by decide)

end Binary64

end Calculator
