import Calculator.Proofs.Binary64.Nearest

/-!
# Sums and products

A sum, a difference or a product of doubles is the double nearest to the exact result
(`HasValue.add_eq`, `HasValue.sub_eq`, `HasValue.mul_eq`). So where the exact result is a double it is
the result (`HasValue.add`, `HasValue.sub`, `HasValue.mul`).

The library of doubles rounds by another way than `Binary64.nearest`: it drops the places that are
too many one by one, and two bits tell of what has been dropped whether it is more or less than one
half (`Dropped`).
-/

namespace Calculator

namespace Binary64

open Float.Model (Format UnpackedFloat totalExponent)
open Float.Model.UnpackedFloat

/-! ## Dropping places -/

/-- What is left of the significand `n` when `j` places have been dropped. -/
structure Dropped (n j : Nat) (x : ExtendedMantissa) : Prop where
  mantissa : x.mantissa = n / 2 ^ j
  roundBit : x.roundBit = true ↔ 2 ^ j ≤ 2 * (n % 2 ^ j)
  stickyBit : x.stickyBit = true ↔ n % 2 ^ j ≠ 0 ∧ 2 * (n % 2 ^ j) ≠ 2 ^ j

theorem Dropped.shiftRightOne {n j : Nat} {x : ExtendedMantissa} (dropped : Dropped n j x) :
    Dropped n (j + 1) x.shiftRightOne := by
  have rest : n % (2 ^ j * 2) = n % 2 ^ j + 2 ^ j * (n / 2 ^ j % 2) := Nat.mod_mul
  have last : n / 2 ^ j % 2 = 0 ∨ n / 2 ^ j % 2 = 1 := Nat.mod_two_eq_zero_or_one _
  have less : n % 2 ^ j < 2 ^ j := Nat.mod_lt _ (Nat.two_pow_pos j)
  obtain ⟨mantissa, roundBit, stickyBit⟩ := dropped
  refine ⟨?_, ?_, ?_⟩
  · rw [ExtendedMantissa.shiftRightOne, mantissa, Nat.div_div_eq_div_mul, Nat.pow_succ]
  · simp only [ExtendedMantissa.shiftRightOne, mantissa, Nat.pow_succ, rest, bne_iff_ne]
    rcases last with even | odd
    · rw [even]
      omega
    · rw [odd]
      omega
  · simp only [ExtendedMantissa.shiftRightOne, Bool.or_eq_true, roundBit, stickyBit, Nat.pow_succ,
      rest]
    rcases last with even | odd
    · rw [even]
      omega
    · rw [odd]
      omega

theorem dropped (n j : Nat) :
    Dropped n j (ExtendedMantissa.ofMantissaAndAccuracy n .exact >>> j) := by
  induction j with
  | zero =>
    have same : ExtendedMantissa.ofMantissaAndAccuracy n .exact >>> 0 = ⟨n, false, false⟩ := rfl
    rw [same]
    exact ⟨(Nat.div_one n).symm, by simp [Nat.mod_one], by simp [Nat.mod_one]⟩
  | succ j ih => exact ih.shiftRightOne

theorem Dropped.roundedMantissa {n j : Nat} {x : ExtendedMantissa} (dropped : Dropped n j x) :
    x.roundedMantissa = roundHalfEven n (2 ^ j) := by
  have less : n % 2 ^ j < 2 ^ j := Nat.mod_lt _ (Nat.two_pow_pos j)
  obtain ⟨mantissa, round, sticky⟩ := x
  obtain ⟨rfl, roundBit, stickyBit⟩ := dropped
  simp only [ExtendedMantissa.roundedMantissa, roundHalfEven]
  cases round <;> cases sticky <;>
    simp only [ExtendedMantissa.accuracy, Accuracy.roundToNearestEven, Bool.false_eq_true,
      false_iff, true_iff] at *
  · rw [if_pos (by omega)]
  · rw [if_pos (by omega)]
  · split <;> omega
  · rw [if_neg (by omega)]

/-! ## Packing a rounded number -/

theorem ofFloat_infinity (negative : Bool) : ofFloat (infinity negative) = .infinite negative := by
  cases negative <;> decide +kernel

theorem ofModel_pack_infinity (negative : Bool) :
    Float.ofModel (.pack (.infinity (sign negative))) = infinity negative := by
  have packed := ofModel_pack (infinity negative)
  rwa [unpack_toModel, ofFloat_infinity, unpacked] at packed

/-- A rounded number that is too large for a double is packed as infinity. -/
theorem ofModel_pack_normalized (negative : Bool) {m k : Nat} (normalized : Normalized m k)
    (positive : 0 < m) : Float.ofModel (.pack (.finite (sign negative) m (k - 1074) positive)) =
      signed negative (min (k * 2 ^ 52 + m) infinityBits) := by
  obtain ⟨short, leading⟩ := normalized
  rcases Nat.lt_or_ge 2045 k with large | small
  · have field : (k - 1074 + Format.binary64.exponentBias +
        Format.binary64.mantissaBitsWithoutImplicit : Int).toNat = k + 1 := by
      have bias : Format.binary64.exponentBias = 1023 := rfl
      simp only [bias]
      omega
    have infinite :
        UnpackedFloat.pack Format.binary64 (.finite (sign negative) m (k - 1074) positive) =
          UnpackedFloat.pack Format.binary64 (.infinity (sign negative)) := by
      simp only [UnpackedFloat.pack, field]
      exact if_pos (by omega)
    have bits : infinityBits ≤ k * 2 ^ 52 + m := by
      unfold infinityBits
      omega
    rw [Nat.min_eq_right bits, Float.Model.pack]
    simp only [infinite]
    exact ofModel_pack_infinity negative
  · have canonical : Canonical m k := ⟨short, leading, small⟩
    rw [Nat.min_eq_left canonical.le_infinityBits, ← ofModel_pack_unpacked negative canonical,
      unpacked, dif_pos positive]

/-! ## Rounding a significand -/

theorem log2_div_two_pow (n j : Nat) : (n / 2 ^ j).log2 = n.log2 - j := by
  simp only [Nat.log2_eq_log_two, Nat.log_div_base_pow]

/-- A full significand may have got one more place by rounding. Then it is moved by this place. -/
theorem exists_normalized {r k : Nat} (short : r ≤ 2 ^ 53) (leading : k = 0 ∨ 2 ^ 52 ≤ r) :
    ∃ m j, Normalized m (k + j) ∧ r = m * 2 ^ j ∧ (k + j) * 2 ^ 52 + m = k * 2 ^ 52 + r := by
  rcases Nat.lt_or_eq_of_le short with fits | rfl
  · exact ⟨r, 0, ⟨fits, leading.symm⟩, by simp, by simp⟩
  · exact ⟨2 ^ 52, 1, ⟨by decide, .inl (Nat.le_refl _)⟩, by decide, by omega⟩

section Rounding

variable (s : Sign) {n : Nat} (positive : 0 < n) (e : Int)

include positive in
/-- The scale of a number is the exponent that the library of doubles moves it to. -/
theorem targetExponent_eq_scale : Format.binary64.targetExponent (totalExponent n e) =
    scale (n * 2 ^ e.toNat) (2 ^ (-e).toNat) - 1074 := by
  have bits : (Format.binary64.mantissaBits : Int) = 53 := rfl
  have least : Format.binary64.minExponent = -1074 := rfl
  have moved : 0 < n * 2 ^ e.toNat := Nat.mul_pos positive (Nat.two_pow_pos _)
  rw [scale, log2_div_two_pow, log2_mul_two_pow moved 1074, log2_mul_two_pow positive]
  simp only [Format.targetExponent, totalExponent, bits, least]
  omega

theorem roundHalfEven_units {k u : Nat} (le : e ≤ k - u) :
    roundHalfEven (n * 2 ^ e.toNat * 2 ^ u) (2 ^ (-e).toNat * 2 ^ k) =
      roundHalfEven n (2 ^ (k - u - e).toNat) := by
  refine roundHalfEven_congr (by positivity) (by positivity) ?_
  have places : e.toNat + u + (k - u - e).toNat = (-e).toNat + k := by omega
  rw [Nat.mul_assoc n, Nat.mul_assoc n, ← Nat.pow_add, ← Nat.pow_add, ← Nat.pow_add, places]

include positive in
theorem ofModel_pack_roundWithAccuracy
    (le : e ≤ Format.binary64.targetExponent (totalExponent n e)) :
    Float.ofModel (.pack (roundWithAccuracy Format.binary64 s n e .exact)) =
      ofRat (s.apply n * 2 ^ e) := by
  obtain ⟨negative, rfl⟩ := exists_sign s
  have target := targetExponent_eq_scale positive e
  have bounds := significand_bounds (n * 2 ^ e.toNat) (2 ^ (-e).toNat)
  rw [← nearestScaled_eq_ofRat negative positive, nearestScaled, nearest_eq, roundedBits]
  generalize scale (n * 2 ^ e.toNat) (2 ^ (-e).toNat) = k at *
  rw [target] at le
  rw [roundHalfEven_units (u := 1074) e le] at bounds ⊢
  generalize distance : (k - (1074 : Nat) - e).toNat = j at *
  have shifted : shiftToTargetExponent Format.binary64 n e .exact =
      (ExtendedMantissa.ofMantissaAndAccuracy n .exact >>> j, (k - 1074 : Int)) := by
    have exponent : e + j = k - 1074 := by omega
    have distance' : (k - 1074 - e : Int).toNat = j := distance
    rw [shiftToTargetExponent, target, shiftToExponent, distance', exponent]
  have rounded := (dropped n j).roundedMantissa
  rcases Nat.eq_zero_or_pos (roundHalfEven n (2 ^ j)) with zero | nonzero
  · obtain rfl : k = 0 := by omega
    rw [zero] at rounded ⊢
    rw [roundWithAccuracy_of_shift_zero shifted rounded]
    exact ofModel_pack_unpacked negative canonical_zero
  · obtain ⟨m, i, normalized, parts, bits⟩ := exists_normalized bounds.1 bounds.2
    rw [parts] at nonzero rounded
    rw [roundWithAccuracy_of_shift normalized (Nat.pos_of_mul_pos_right nonzero) shifted rounded
      (by omega), ofModel_pack_normalized negative normalized, bits]

include positive in
theorem ofModel_pack_round : Float.ofModel (.pack (UnpackedFloat.round Format.binary64 s n e)) =
    ofRat (s.apply n * 2 ^ e) := by
  rw [UnpackedFloat.round, decreaseExponent]
  simp only [Nat.shiftLeft_eq]
  generalize distance : (e - Format.binary64.targetExponent (totalExponent n e)).toNat = j
  rw [← apply_congr s (mul_two_pow_sub n j e)]
  apply ofModel_pack_roundWithAccuracy s (Nat.mul_pos positive (Nat.two_pow_pos j))
  rw [totalExponent_mul positive]
  omega

end Rounding

theorem ofModel_pack_normalize {n : Int} (nonzero : n ≠ 0) (e : Int) (zeroSign : Sign) :
    Float.ofModel (.pack (UnpackedFloat.normalize Format.binary64 n e zeroSign)) =
      ofRat (n * 2 ^ e) := by
  unfold UnpackedFloat.normalize
  split
  · next less =>
    have below : n < 0 := Int.compare_eq_lt.1 less
    have signed : Sign.negative.apply (-n).toNat = n := by
      simp only [Sign.apply]
      omega
    rw [ofModel_pack_round _ (by omega), signed]
  · next equal => exact absurd (Int.compare_eq_eq.1 equal) nonzero
  · next greater =>
    have above : 0 < n := Int.compare_eq_gt.1 greater
    have signed : Sign.positive.apply n.toNat = n := by
      simp only [Sign.apply]
      omega
    rw [ofModel_pack_round _ (by omega), signed]

/-! ## Rounded results -/

/-- The unpacked double is what `q` is rounded to. Either zero can stand for zero. -/
structure Rounded (f : UnpackedFloat) (q : ℚ) : Prop where
  zero : q = 0 → Exactly f 0
  nearest : q ≠ 0 → Float.ofModel (.pack f) = ofRat q

theorem Exactly.rounded {f : UnpackedFloat} {q : ℚ} (value : Exactly f q) : Rounded f q :=
  ⟨fun zero => zero ▸ value, value.hasValue.eq_ofRat⟩

/-- Rounding changes nothing where there is nothing to round. -/
theorem Rounded.hasValue {f : UnpackedFloat} {q : ℚ} (rounded : Rounded f q)
    (representable : Representable q) : HasValue (.ofModel (.pack f)) q := by
  rcases eq_or_ne q 0 with rfl | nonzero
  · exact (rounded.zero rfl).hasValue
  · obtain ⟨x, value⟩ := representable
    rwa [rounded.nearest nonzero, ← value.eq_ofRat nonzero]

theorem rounded_normalize (n e : Int) (zeroSign : Sign) :
    Rounded (UnpackedFloat.normalize Format.binary64 n e zeroSign) (n * 2 ^ e) := by
  constructor
  · intro zero
    have power : (2 : ℚ) ^ e ≠ 0 := zpow_ne_zero e two_ne_zero
    obtain rfl : n = 0 := Int.cast_eq_zero.1 ((mul_eq_zero.1 zero).resolve_right power)
    exact .zero zeroSign
  · intro nonzero
    exact ofModel_pack_normalize (Int.cast_ne_zero.1 (left_ne_zero_of_mul nonzero)) e zeroSign

/-! ## Sums -/

/-- Two numbers written with the same exponent. -/
theorem aligned {s : Sign} {n : Nat} {e target : Int} (le : target ≤ e) :
    (s.apply (decreaseExponent n e target).1 * 2 ^ target : ℚ) = s.apply n * 2 ^ e := by
  rw [decreaseExponent, Nat.shiftLeft_eq]
  exact apply_congr s (mul_two_pow_of_le n le)

theorem Exactly.add {f g : UnpackedFloat} {p q : ℚ} (first : Exactly f p) (second : Exactly g q) :
    Rounded (UnpackedFloat.add Format.binary64 f g) (p + q) := by
  cases first with
  | zero s =>
    rw [zero_add]
    cases second with
    | zero t =>
      simp only [UnpackedFloat.add]
      split <;> exact (Exactly.zero _).rounded
    | finite t canonical positive => exact (Exactly.finite t canonical positive).rounded
  | @finite s m k canonical positive =>
    cases second with
    | zero t =>
      rw [add_zero]
      exact (Exactly.finite s canonical positive).rounded
    | @finite t n l canonical' positive' =>
      simp only [UnpackedFloat.add]
      have left := aligned (s := s) (n := m) (Int.min_le_left (k - 1074 : Int) (l - 1074))
      have right := aligned (s := t) (n := n) (Int.min_le_right (k - 1074 : Int) (l - 1074))
      rw [← left, ← right, ← add_mul, ← Int.cast_add]
      exact rounded_normalize _ _ _

/-- A difference is the sum with the opposite, also for what is not finite. -/
theorem sub_eq_add (f g : UnpackedFloat) :
    UnpackedFloat.sub Format.binary64 f g = UnpackedFloat.add Format.binary64 f g.neg := by
  cases f <;> cases g <;> simp only [UnpackedFloat.sub, UnpackedFloat.add, UnpackedFloat.neg]
  simp only [apply_neg, Int.sub_eq_add_neg]

theorem Exactly.sub {f g : UnpackedFloat} {p q : ℚ} (first : Exactly f p) (second : Exactly g q) :
    Rounded (UnpackedFloat.sub Format.binary64 f g) (p - q) := by
  rw [sub_eq_add_neg, sub_eq_add]
  exact first.add second.neg

/-! ## Products -/

theorem apply_mul (s t : Sign) (m n : Int) : (s * t).apply (m * n) = s.apply m * t.apply n := by
  cases s <;> cases t
  · exact (neg_mul_neg m n).symm
  · exact (neg_mul m n).symm
  · exact (mul_neg m n).symm
  · rfl

/-- The product of two numbers with signs. -/
theorem apply_mul_apply (s t : Sign) (m n : Nat) (d e : Int) :
    (s.apply m * 2 ^ d * (t.apply n * 2 ^ e) : ℚ) = (s * t).apply (m * n : Nat) * 2 ^ (d + e) := by
  rw [Nat.cast_mul, apply_mul, zpow_add₀ two_ne_zero]
  push_cast
  ring

theorem apply_mul_two_pow_ne_zero (s : Sign) {n : Nat} (positive : 0 < n) (e : Int) :
    (s.apply n * 2 ^ e : ℚ) ≠ 0 := by
  have power : 0 < (2 : ℚ) ^ e := zpow_pos two_pos e
  rw [← abs_pos, abs_mul, abs_apply, abs_of_pos power]
  exact mul_pos (Nat.cast_pos.2 positive) power

theorem mul_le_target {m k n l : Nat} (canonical : Canonical m k) (canonical' : Canonical n l)
    (positive : 0 < m) (positive' : 0 < n) :
    (k - 1074 + (l - 1074) : Int) ≤
      Format.binary64.targetExponent (totalExponent (m * n) (k - 1074 + (l - 1074))) := by
  have bits : (Format.binary64.mantissaBits : Int) = 53 := rfl
  have least : Format.binary64.minExponent = -1074 := rfl
  simp only [Format.targetExponent, totalExponent, bits, least]
  by_cases large : 2 ^ 52 ≤ m * n
  · have := (Nat.le_log2 (Nat.ne_of_gt (Nat.mul_pos positive positive'))).2 large
    omega
  · -- two factors without their leading bit have the least exponent
    have first := canonical.leading.resolve_left fun full =>
      large (Nat.le_trans full (Nat.le_mul_of_pos_right m positive'))
    have second := canonical'.leading.resolve_left fun full =>
      large (Nat.le_trans full (Nat.le_mul_of_pos_left n positive))
    omega

theorem Exactly.mul {f g : UnpackedFloat} {p q : ℚ} (first : Exactly f p) (second : Exactly g q) :
    Rounded (UnpackedFloat.mul Format.binary64 f g) (p * q) := by
  cases first with
  | zero s =>
    rw [zero_mul]
    cases second <;> exact (Exactly.zero _).rounded
  | @finite s m k canonical positive =>
    cases second with
    | zero t =>
      rw [mul_zero]
      exact (Exactly.zero _).rounded
    | @finite t n l canonical' positive' =>
      rw [apply_mul_apply]
      have some : 0 < m * n := Nat.mul_pos positive positive'
      have le := mul_le_target canonical canonical' positive positive'
      refine ⟨fun zero => ?_, fun _ => ofModel_pack_roundWithAccuracy _ some _ le⟩
      exact absurd zero (apply_mul_two_pow_ne_zero _ some _)

/-! ## On doubles -/

section Doubles

variable {x y : Float} {p q : ℚ} (first : HasValue x p) (second : HasValue y q)

include first second in
theorem HasValue.add_eq (nonzero : p + q ≠ 0) : x + y = ofRat (p + q) :=
  (first.exactly.add second.exactly).nearest nonzero

include first second in
theorem HasValue.add (representable : Representable (p + q)) : HasValue (x + y) (p + q) :=
  (first.exactly.add second.exactly).hasValue representable

include first second in
theorem HasValue.sub_eq (nonzero : p - q ≠ 0) : x - y = ofRat (p - q) :=
  (first.exactly.sub second.exactly).nearest nonzero

include first second in
theorem HasValue.sub (representable : Representable (p - q)) : HasValue (x - y) (p - q) :=
  (first.exactly.sub second.exactly).hasValue representable

include first second in
theorem HasValue.mul_eq (nonzero : p * q ≠ 0) : x * y = ofRat (p * q) :=
  (first.exactly.mul second.exactly).nearest nonzero

include first second in
theorem HasValue.mul (representable : Representable (p * q)) : HasValue (x * y) (p * q) :=
  (first.exactly.mul second.exactly).hasValue representable

end Doubles

/-! ## Infinity -/

section Infinity

variable (negative : Bool) {y : Float} {q : ℚ} (second : HasValue y q)

theorem unpack_infinity :
    (infinity negative).toModel.unpack = .infinity (sign negative) := by
  rw [unpack_toModel, ofFloat_infinity, unpacked]

include second in
theorem infinity_add : infinity negative + y = infinity negative := by
  have sum : infinity negative + y =
      .ofModel (.pack (UnpackedFloat.add Format.binary64 (infinity negative).toModel.unpack
        y.toModel.unpack)) := rfl
  have finite := second.exactly
  rw [sum, unpack_infinity]
  generalize y.toModel.unpack = g at finite
  cases finite with
  | zero | finite => exact ofModel_pack_infinity negative

include second in
theorem infinity_mul (above : 0 < q) : infinity negative * y = infinity negative := by
  have product : infinity negative * y =
      .ofModel (.pack (UnpackedFloat.mul Format.binary64 (infinity negative).toModel.unpack
        y.toModel.unpack)) := rfl
  have finite := second.exactly
  rw [product, unpack_infinity]
  generalize y.toModel.unpack = g at finite
  cases finite with
  | zero => exact absurd above (lt_irrefl 0)
  | @finite t n l canonical positive =>
    have magnitude : (0 : ℚ) < n * 2 ^ (l - 1074 : Int) :=
      mul_pos (Nat.cast_pos.2 positive) (zpow_pos two_pos _)
    cases t
    · exact absurd above (by simpa [Sign.apply] using magnitude.le)
    · have same : sign negative * .positive = sign negative := by cases negative <;> rfl
      rw [UnpackedFloat.mul, same]
      exact ofModel_pack_infinity negative

end Infinity

end Binary64

end Calculator
