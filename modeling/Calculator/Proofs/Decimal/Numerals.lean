import Calculator.Decimal.Numeral
import Calculator.Decimal.Positional
import Calculator.Decimal.Shortest
import Calculator.Proofs.Lexeme.Classes

/-!
# The decimals that numerals write

Every integer lexeme and every real one is a numeral (`ofNumeral?_isSome`). Positional notation gives
lexemes of these classes, and what they write has the value of the decimal they were made of.
-/

namespace Calculator

namespace Decimal

open LexemeClass (Run Exponent Real)

/-- Digits end where something else begins. -/
theorem span_digits {digits rest : List Char} (all : ∀ c ∈ digits, c.isDigit = true)
    (stop : ∀ c ∈ rest.head?, c.isDigit = false) :
    (digits ++ rest).takeWhile Char.isDigit = digits ∧
      (digits ++ rest).dropWhile Char.isDigit = rest := by
  rw [List.takeWhile_append_of_pos all, List.dropWhile_append_of_pos all]
  cases rest with
  | nil => simp
  | cons c rest => simp [stop c rfl]

/-- What stands after the digits of a numeral does not begin with a digit or a point. -/
theorem head_of_exponent {exponent : List Char} (perhaps : exponent = [] ∨ Exponent exponent) :
    ∀ c ∈ exponent.head?, c.isDigit = false ∧ c ≠ '.' := by
  rintro c head
  rcases perhaps with rfl | exponent
  · cases head
  · obtain ⟨mark, rest, rfl, other, point⟩ := LexemeClass.exists_of_exponent exponent
    cases head
    exact ⟨other, point⟩

theorem ofDigits?_of_run {digits : List Char} (run : Run Char.isDigit digits) :
    ofDigits? digits = some (Nat.ofDigitChars 10 digits 0) := by
  simp [ofDigits?, run.1, List.all_eq_true.2 run.2]

theorem ofExponent?_isSome {exponent : List Char} (perhaps : exponent = [] ∨ Exponent exponent) :
    ∃ x, ofExponent? exponent = some x := by
  rcases perhaps with rfl | exponent
  · exact ⟨0, rfl⟩
  · obtain ⟨mark, sign, digits, rfl, listed, kinds, run⟩ := exponent
    obtain ⟨d, digits, rfl⟩ := List.exists_cons_of_ne_nil run.1
    have digit := run.2 d (List.mem_cons_self ..)
    have value := ofDigits?_of_run run
    simp only [ofExponent?, if_pos listed]
    rcases kinds with rfl | rfl | rfl
    · split
      · next h =>
        obtain ⟨rfl, -⟩ := List.cons.inj h
        cases digit
      · next h =>
        obtain ⟨rfl, -⟩ := List.cons.inj h
        cases digit
      · simp [value]
    · simp [value]
    · simp [value]

/-- A numeral without a point. -/
theorem ofNumeral?_whole {whole exponent : List Char} (run : Run Char.isDigit whole)
    (perhaps : exponent = [] ∨ Exponent exponent) :
    ofNumeral? (whole ++ exponent) =
      (ofExponent? exponent).map fun x => ⟨Nat.ofDigitChars 10 whole 0, x⟩ := by
  have head := head_of_exponent perhaps
  obtain ⟨take, drop⟩ := span_digits run.2 fun c h => (head c h).1
  simp only [ofNumeral?, take, drop]
  split
  · exact absurd rfl (head '.' rfl).2
  · simp only [List.isEmpty_iff, run.1, if_false]
    cases ofExponent? exponent <;> rfl

/-- A numeral with a point. -/
theorem ofNumeral?_point {whole digits exponent : List Char}
    (all : ∀ c ∈ whole, c.isDigit = true) (run : Run Char.isDigit digits)
    (perhaps : exponent = [] ∨ Exponent exponent) :
    ofNumeral? (whole ++ '.' :: (digits ++ exponent)) =
      (ofExponent? exponent).map fun x =>
        ⟨Nat.ofDigitChars 10 (whole ++ digits) 0, x - digits.length⟩ := by
  have stop : ∀ c ∈ ('.' :: (digits ++ exponent)).head?, c.isDigit = false := by
    rintro c ⟨⟩
    rfl
  obtain ⟨take, drop⟩ := span_digits all stop
  obtain ⟨take', drop'⟩ := span_digits run.2 fun c h => (head_of_exponent perhaps c h).1
  simp only [ofNumeral?, take, drop, take', drop', List.isEmpty_iff, run.1, if_false]
  cases ofExponent? exponent <;> rfl

/-- Every integer and every real lexeme is a numeral. -/
theorem ofNumeral?_isSome {w : List Char} (numeral : Run Char.isDigit w ∨ Real w) :
    ∃ d, ofNumeral? w = some d := by
  rcases numeral with run | real
  · have := ofNumeral?_whole run (.inl rfl)
    rw [List.append_nil] at this
    exact ⟨_, this⟩
  · cases real with
    | fraction digits point perhaps =>
      obtain ⟨after, rfl, run⟩ := point
      obtain ⟨x, written⟩ := ofExponent?_isSome perhaps
      have := ofNumeral?_point digits run perhaps
      rw [written] at this
      exact ⟨_, by simpa using this⟩
    | exponent digits mark =>
      obtain ⟨x, written⟩ := ofExponent?_isSome (.inr mark)
      have := ofNumeral?_whole digits (.inr mark)
      rw [written] at this
      exact ⟨_, this⟩

/-! ## Positional notation -/

theorem run_toDigits (n : Nat) : Run Char.isDigit (Nat.toDigits 10 n) :=
  ⟨Nat.toDigits_ne_nil, fun _ listed => Nat.isDigit_of_mem_toDigits (by decide) (by decide) listed⟩

/-- A decimal without a fraction is written as its digits and some zeros. -/
theorem positional_whole {d : Decimal} (whole : 0 ≤ d.exponent) :
    Run Char.isDigit d.positional ∧
      ofNumeral? d.positional = some ⟨d.coefficient * 10 ^ d.exponent.toNat, 0⟩ := by
  have run : Run Char.isDigit d.positional := by
    obtain ⟨nonempty, all⟩ := run_toDigits d.coefficient
    simp only [positional, if_pos whole]
    refine ⟨by simp [nonempty], List.forall_mem_append.2 ⟨all, fun c listed => ?_⟩⟩
    rw [List.eq_of_mem_replicate listed]
    decide
  have value := ofNumeral?_whole run (.inl rfl)
  rw [List.append_nil] at value
  refine ⟨run, value.trans ?_⟩
  simp only [positional, if_pos whole, Nat.ofDigitChars_append, Nat.ofDigitChars_replicate_zero,
    Nat.ofDigitChars_ten_toDigits, Nat.mul_comm]
  rfl

/-- A decimal with a fraction is written with as many digits after the point as it has places. -/
theorem positional_point {d : Decimal} (point : d.exponent < 0) :
    Real d.positional ∧ ofNumeral? d.positional = some d := by
  obtain ⟨-, digits⟩ := run_toDigits d.coefficient
  simp only [positional, if_neg (Int.not_le.2 point)]
  generalize places : (-d.exponent).toNat = n
  generalize padding : n + 1 - (Nat.toDigits 10 d.coefficient).length = z
  generalize padded : List.replicate z '0' ++ Nat.toDigits 10 d.coefficient = s
  have all : ∀ c ∈ s, c.isDigit = true := by
    rw [← padded]
    refine List.forall_mem_append.2 ⟨fun c listed => ?_, digits⟩
    rw [List.eq_of_mem_replicate listed]
    decide
  have length : n + 1 ≤ s.length := by
    rw [← padded, List.length_append, List.length_replicate]
    omega
  have value : Nat.ofDigitChars 10 s 0 = d.coefficient := by
    rw [← padded, Nat.ofDigitChars_append, Nat.ofDigitChars_replicate_zero, Nat.mul_zero,
      Nat.ofDigitChars_ten_toDigits]
  have fraction : (s.drop (s.length - n)).length = n := by
    rw [List.length_drop]
    omega
  have whole : ∀ c ∈ s.take (s.length - n), c.isDigit = true :=
    fun c listed => all c (List.mem_of_mem_take listed)
  have run : Run Char.isDigit (s.drop (s.length - n)) := by
    refine ⟨List.ne_nil_of_length_pos (by omega), fun c listed => ?_⟩
    exact all c (List.mem_of_mem_drop listed)
  have written := ofNumeral?_point whole run (.inl rfl)
  rw [List.append_nil] at written
  refine ⟨?_, written.trans ?_⟩
  · have := Real.fraction whole ⟨_, rfl, run⟩ (.inl rfl)
    rwa [List.append_nil] at this
  · have exponent : 0 - (n : Int) = d.exponent := by omega
    rw [List.take_append_drop, value, fraction]
    change some (Decimal.mk d.coefficient (0 - (n : Int))) = some d
    rw [exponent]

theorem readsBack_congr {m : Nat} {e : Int} {d d' : Decimal}
    (up : d.coefficient * 10 ^ d.exponent.toNat = d'.coefficient * 10 ^ d'.exponent.toNat)
    (down : (-d.exponent).toNat = (-d'.exponent).toNat) :
    readsBack m e d = readsBack m e d' := by
  simp only [readsBack, up, down]

/-- What positional notation writes is a numeral, and reads back as whatever the decimal does. -/
theorem positional_reads (d : Decimal) :
    (Run Char.isDigit d.positional ∨ Real d.positional) ∧
      ∃ d', ofNumeral? d.positional = some d' ∧ ∀ m e, readsBack m e d' = readsBack m e d := by
  rcases Int.lt_or_le d.exponent 0 with point | whole
  · obtain ⟨real, value⟩ := positional_point point
    exact ⟨.inr real, d, value, fun _ _ => rfl⟩
  · obtain ⟨run, value⟩ := positional_whole whole
    refine ⟨.inl run, _, value, fun m e => readsBack_congr ?_ ?_⟩
    · simp
    · simp only [Int.neg_zero, Int.toNat_zero]
      omega

end Decimal

end Calculator
