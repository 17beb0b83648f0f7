import Calculator.Proofs.Binary64.Integers
import Calculator.Proofs.Lexeme.Denotation

/-!
# The values of hexadecimal numerals

Every digit of a numeral costs one rounding (`push_eq`), so a long numeral is rounded many times.
Where the number that it denotes is a double, none of these roundings changes anything: a number
with a short significand keeps a short one when its last digit is taken away (`Short.of_push`), and
so all beginnings of the numeral denote doubles, too.

Where the number is too large for a double, rounding may make the beginnings smaller than they are,
but never below the power of two with their leading bit (`atLeast_foldl_push`). So the value is
infinite in the end.
-/

namespace Calculator

namespace Hexadecimal

open Binary64 (HasValue Representable Unsigned AtLeast infinity ofRat representable_int
  representable_scaled hasValue_zero hasValue_ofInt)
open LexemeClass (isHexDigit Run)

/-! ## The number that digits denote -/

theorem isHexDigit_iff {c : Char} : isHexDigit c = true ↔
    '0' ≤ c ∧ c ≤ '9' ∨ 'a' ≤ c ∧ c ≤ 'f' ∨ 'A' ≤ c ∧ c ≤ 'F' := by
  simp [isHexDigit, Char.isDigit, or_assoc, Char.le_def]

theorem digitValue_lt {c : Char} (digit : isHexDigit c = true) : digitValue c < 16 := by
  simp only [isHexDigit_iff, Char.le_def, UInt32.le_iff_toNat_le, Char.reduceVal,
    UInt32.reduceToNat] at digit
  simp only [digitValue, Char.isDigit, Bool.and_eq_true, decide_eq_true_eq, ge_iff_le, Char.le_def,
    UInt32.le_iff_toNat_le, Char.toNat, Char.reduceVal, UInt32.reduceToNat]
  split
  · omega
  · split <;> omega

/-- The number that hexadecimal digits denote. -/
def number (s : List Char) : Nat :=
  Nat.ofDigits 16 (s.map digitValue).reverse

theorem number_append (s : List Char) (c : Char) :
    number (s ++ [c]) = number s * 16 + digitValue c := by
  simp [number, Nat.ofDigits_cons, Nat.add_comm, Nat.mul_comm]

/-! ## Numbers with a short significand -/

/-- The number has no more than 53 bits before the zeros at its end. -/
def Short (n : Nat) : Prop :=
  ∃ m k, m < 2 ^ 53 ∧ n = m * 2 ^ k

theorem Short.mul_sixteen {n : Nat} (short : Short n) : Short (n * 16) := by
  obtain ⟨m, k, less, rfl⟩ := short
  exact ⟨m, k + 4, less, by ring⟩

theorem Short.of_push {n d : Nat} (less : d < 16) (short : Short (n * 16 + d)) : Short n := by
  obtain ⟨m, k, short, same⟩ := short
  have quotient : n = m * 2 ^ k / 16 := by omega
  rcases Nat.lt_or_ge k 4 with few | many
  · refine ⟨n, 0, ?_, (Nat.mul_one n).symm⟩
    have : 2 ^ k ≤ 2 ^ 3 := Nat.pow_le_pow_right (by decide) (by omega)
    have : m * 2 ^ k ≤ m * 2 ^ 3 := Nat.mul_le_mul_left m this
    omega
  · refine ⟨m, k - 4, short, ?_⟩
    obtain ⟨j, rfl⟩ := Nat.exists_eq_add_of_le many
    rw [quotient, Nat.pow_add, Nat.mul_left_comm, Nat.mul_div_cancel_left _ (by decide),
      Nat.add_sub_cancel_left]

theorem mul_two_pow_lt {m j b u : Nat} (less : m * 2 ^ (j + u) < 2 ^ (b + u)) :
    m * 2 ^ j < 2 ^ b := by
  rw [Nat.pow_add, Nat.pow_add, ← Nat.mul_assoc] at less
  exact Nat.lt_of_mul_lt_mul_right less

theorem Short.representable {n : Nat} (short : Short n) (small : n < 2 ^ 1024) :
    Representable n := by
  obtain ⟨m, k, short, rfl⟩ := short
  have scaled {m k : Nat} (short : m < 2 ^ 53) (low : k ≤ 971) :
      Representable ((m * 2 ^ k : Nat) : ℚ) := by
    have representable := representable_scaled (n := m) (e := k) short (by omega) (by omega)
    exact_mod_cast representable
  rcases Nat.le_total k 971 with low | high
  · exact scaled short low
  · -- a higher exponent leaves room for its zeros in the significand
    obtain ⟨j, rfl⟩ := Nat.exists_eq_add_of_le' high
    generalize unit : 971 = u at *
    rw [show 1024 = 53 + u by omega] at small
    have representable := scaled (mul_two_pow_lt small) (Nat.le_refl u)
    rwa [Nat.mul_assoc, ← Nat.pow_add] at representable

/-! ## Taking up a digit -/

theorem hasValue_sixteen : HasValue 16 16 :=
  Binary64.hasValue_of_ofFloat (m := 2 ^ 52) (e := -48) (by decide +kernel) (by norm_num)

section Push

variable {x : Float} {c : Char} (digit : isHexDigit c = true)

include digit in
theorem hasValue_digitValue : HasValue (Binary64.ofInt (digitValue c)) (digitValue c) := by
  have less := digitValue_lt digit
  have representable := representable_int (n := digitValue c) (by rw [Nat.abs_cast]; omega)
  exact_mod_cast hasValue_ofInt representable

include digit in
theorem hasValue_push {n : Nat} (value : HasValue x n) (short : Short (n * 16 + digitValue c))
    (small : n * 16 + digitValue c < 2 ^ 1024) :
    HasValue (push x c) (n * 16 + digitValue c : Nat) := by
  have shifted := (short.of_push (digitValue_lt digit)).mul_sixteen.representable (by omega)
  have whole := short.representable small
  push_cast at shifted whole ⊢
  exact (value.mul hasValue_sixteen shifted).add (hasValue_digitValue digit) whole

theorem representable_mul_sixteen {p : ℚ} (value : HasValue x p) :
    Representable (p * 16) ∨ 2 ^ 1024 ≤ |p * 16| := by
  obtain ⟨m, k, canonical, magnitude⟩ := Binary64.representable_iff.1 ⟨x, value⟩
  have moved : |p * 16| = m * 2 ^ (k - 1070 : Int) := by
    rw [abs_mul, magnitude, show (k - 1070 : Int) = k - 1074 + 4 by omega, zpow_add₀ two_ne_zero,
      ← mul_assoc]
    norm_num
  rw [moved]
  rcases Nat.lt_or_ge k 2042 with low | high
  · obtain ⟨n, l, canonical', same⟩ :=
      Binary64.exists_canonical (e := k - 1070) canonical.short (by omega) (by omega)
    exact .inl (Binary64.representable_iff.2 ⟨n, l, canonical', moved.trans same.symm⟩)
  · have leading : ((2 ^ 52 : Nat) : ℚ) ≤ m :=
      Nat.cast_le.2 (canonical.leading.resolve_right (by omega))
    have exponent : (2 : ℚ) ^ (972 : Int) ≤ 2 ^ (k - 1070 : Int) :=
      zpow_le_zpow_right₀ one_le_two (by omega)
    have product := mul_le_mul leading exponent (by positivity) (Nat.cast_nonneg m)
    refine .inr (le_trans (le_of_eq ?_) product)
    rw [Nat.cast_pow, Nat.cast_ofNat, ← zpow_natCast, ← zpow_natCast, ← zpow_add₀ two_ne_zero]
    rfl

include digit in
/-- A digit is taken up with one rounding. -/
theorem push_eq {p : ℚ} (value : HasValue x p) (above : 0 < p) :
    push x c = ofRat (p * 16 + digitValue c) := by
  have last := hasValue_digitValue digit
  have nonnegative : (0 : ℚ) ≤ digitValue c := Nat.cast_nonneg _
  rcases representable_mul_sixteen value with representable | large
  · exact (value.mul hasValue_sixteen representable).add_eq last (by positivity)
  · rw [abs_of_pos (by positivity)] at large
    rw [push, value.mul_eq hasValue_sixteen (by positivity), Binary64.ofRat_of_le large,
      Binary64.infinity_add false last,
      Binary64.ofRat_of_le (le_add_of_le_of_nonneg large nonnegative)]

include digit in
theorem atLeast_push {l : Nat} (atLeast : AtLeast l x) : AtLeast (l + 4) (push x c) := by
  rcases atLeast with rfl | ⟨p, value, le⟩
  · rw [push, Binary64.infinity_mul false hasValue_sixteen (by norm_num),
      Binary64.infinity_add false (hasValue_digitValue digit)]
    exact .inl rfl
  · have above : 0 < p := lt_of_lt_of_le (by positivity) le
    rw [push_eq digit value above]
    refine Binary64.atLeast_ofRat ?_
    have nonnegative : (0 : ℚ) ≤ digitValue c := Nat.cast_nonneg _
    calc (2 : ℚ) ^ (l + 4) = 2 ^ l * 16 := by ring
      _ ≤ p * 16 := by linarith
      _ ≤ p * 16 + digitValue c := le_add_of_nonneg_right nonnegative

end Push

/-! ## Numerals -/

section Numerals

variable {s : List Char} (digits : ∀ c ∈ s, isHexDigit c = true)

include digits in
theorem hasValue_foldl_push (short : Short (number s)) (small : number s < 2 ^ 1024) :
    HasValue (s.foldl push 0) (number s) := by
  induction s using List.reverseRecOn with
  | nil => simpa [number] using hasValue_zero
  | append_singleton s c ih =>
    have digit := digits c (by simp)
    rw [number_append] at short small ⊢
    rw [List.foldl_concat]
    refine hasValue_push digit (ih (fun c mem => digits c (by simp [mem])) ?_ ?_) short small
    · exact short.of_push (digitValue_lt digit)
    · omega

theorem log2_push {n d : Nat} (positive : 0 < n) (less : d < 16) :
    (n * 16 + d).log2 = n.log2 + 4 := by
  have lower := Nat.log2_self_le (Nat.ne_of_gt positive)
  have upper := @Nat.lt_log2_self n
  apply Binary64.log2_eq
  · rw [Nat.pow_add]
    omega
  · rw [Nat.add_right_comm, Nat.pow_add]
    omega

include digits in
theorem atLeast_foldl_push (positive : 0 < number s) :
    AtLeast (number s).log2 (s.foldl push 0) := by
  induction s using List.reverseRecOn with
  | nil => exact absurd positive (by simp [number])
  | append_singleton s c ih =>
    have digit := digits c (by simp)
    have less := digitValue_lt digit
    rcases Nat.eq_zero_or_pos (number s) with zero | above
    · have whole : number (s ++ [c]) < 16 := by
        rw [number_append]
        omega
      have less : number (s ++ [c]) < 1024 := by omega
      have small : number (s ++ [c]) < 2 ^ 1024 :=
        Nat.lt_trans less (Nat.lt_two_pow_self (n := 1024))
      have short : Short (number (s ++ [c])) := ⟨_, 0, by omega, (Nat.mul_one _).symm⟩
      refine .inr ⟨_, hasValue_foldl_push digits short small, ?_⟩
      exact_mod_cast Nat.log2_self_le (Nat.ne_of_gt positive)
    · rw [number_append, log2_push above less, List.foldl_concat]
      exact atLeast_push digit (ih (fun c mem => digits c (by simp [mem])) above)

end Numerals

theorem ofDigits?_eq_some_iff {s : List Char} {x : Float} :
    ofDigits? s = some x ↔ Run isHexDigit s ∧ s.foldl push 0 = x := by
  simp [ofDigits?, Run]

theorem ofDigits?_eq_none_iff {s : List Char} :
    ofDigits? s = none ↔ s = [] ∨ ∃ c ∈ s, ¬ isHexDigit c = true := by
  simp [ofDigits?, or_iff_not_imp_left]

/-- A numeral has a value just if there are digits and nothing else. If the number that it denotes
is a double then this is the value, and from `2 ^ 1024` on the value is infinite. -/
theorem ofDigits?_exact (s : List Char) :
    (ofDigits? s = none ↔ s = [] ∨ ∃ c ∈ s,
      ¬ ('0' ≤ c ∧ c ≤ '9' ∨ 'a' ≤ c ∧ c ≤ 'f' ∨ 'A' ≤ c ∧ c ≤ 'F')) ∧
    ∀ x, ofDigits? s = some x →
      (∀ m k, m < 2 ^ 53 → number s = m * 2 ^ k → number s < 2 ^ 1024 →
        Unsigned x ∧ HasValue x (number s)) ∧
      (2 ^ 1024 ≤ number s → x = infinity false) := by
  constructor
  · simp only [ofDigits?_eq_none_iff, isHexDigit_iff]
  · intro x value
    obtain ⟨run, rfl⟩ := ofDigits?_eq_some_iff.1 value
    constructor
    · intro m k less same small
      exact ⟨unsigned_of_ofDigits? value, hasValue_foldl_push run.2 ⟨m, k, less, same⟩ small⟩
    · intro large
      have positive : 0 < number s := Nat.lt_of_lt_of_le (Nat.two_pow_pos 1024) large
      have width := (Nat.le_log2 (Nat.ne_of_gt positive)).2 large
      exact (atLeast_foldl_push run.2 positive).eq_infinity width

theorem ofDigits?_exact_long :
    (∃ x, ofDigits? ("00f".toList ++ List.replicate 40 '0') = some x ∧
      Unsigned x ∧ HasValue x (15 * 2 ^ 160 : Nat)) ∧
    ∃ x, ofDigits? (List.replicate 257 'F') = some x ∧ x = infinity false := by
  constructor
  · have same : number ("00f".toList ++ List.replicate 40 '0') = 15 * 2 ^ 160 := by
      decide +kernel
    have valued : (ofDigits? ("00f".toList ++ List.replicate 40 '0')).isSome = true := by
      decide +kernel
    obtain ⟨x, value⟩ := Option.isSome_iff_exists.1 valued
    have whole := ((ofDigits?_exact _).2 x value).1 15 160 (by decide) same
    rw [same] at whole
    exact ⟨x, value, whole (by decide +kernel)⟩
  · have valued : (ofDigits? (List.replicate 257 'F')).isSome = true := by decide +kernel
    obtain ⟨x, value⟩ := Option.isSome_iff_exists.1 valued
    exact ⟨x, value, ((ofDigits?_exact _).2 x value).2 (by decide +kernel)⟩

end Hexadecimal

end Calculator
