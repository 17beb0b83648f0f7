import Calculator.Number
import Calculator.Proofs.Binary64.Values
import Calculator.Proofs.Decimal.Numerals
import Calculator.Proofs.Decimal.ReadingBack

/-!
# Numbers as words

What is written for a number without a sign is a numeral or the name of infinity, and either is read
as the number again (`ofUnsigned?_text`). Neither has a blank or a parenthesis in it. With the sign
and the name for what is not a number, every double is read back (`ofText?_text`), so different
doubles have different texts.
-/

namespace Calculator

open LexemeClass (Run Real Exponent)

namespace Number

open Binary64 (Unsigned infinity)

/-- A finite number is written as a numeral that reads as this number. -/
theorem numeral_text {x : Float} (unsigned : Unsigned x) (bounded : x ≠ infinity false) :
    (Run Char.isDigit (text x).toList ∨ Real (text x).toList) ∧
      ∃ d, Decimal.ofNumeral? (text x).toList = some d ∧ d.toFloat = x := by
  rcases Binary64.ofFloat_of_unsigned unsigned with infinite | ⟨m, e, finite⟩
  · exact absurd (Binary64.eq_infinity_of_ofFloat infinite) bounded
  · obtain ⟨k, rfl, canonical, same⟩ := Binary64.eq_signed_of_ofFloat finite
    rw [text, finite]
    rcases Nat.eq_zero_or_pos m with rfl | positive
    · obtain rfl := canonical.leading.resolve_left (by decide)
      have zero : Run Char.isDigit "0".toList := by decide
      refine ⟨.inl zero, ⟨0, 0⟩, rfl, ?_⟩
      rw [same]
      decide
    · obtain ⟨m, rfl⟩ : ∃ n, m = n + 1 := ⟨m - 1, by omega⟩
      obtain ⟨numeral, d, value, reads⟩ :=
        Decimal.positional_reads (Decimal.shortest (m + 1) ((k : Int) - 1074))
      simp only [withSign, Bool.false_eq_true, if_false, String.toList_ofList]
      refine ⟨numeral, d, value, ?_⟩
      have back := Decimal.readsBack_shortest positive ((k : Int) - 1074)
      rw [Decimal.toFloat_of_readsBack canonical positive ((reads _ _).trans back), same]

theorem text_infinity : text (infinity false) = infinityText := by decide

/-- What is written for a number reads as this number. -/
theorem ofUnsigned?_text {x : Float} (unsigned : Unsigned x) :
    ofUnsigned? (text x).toList = some x := by
  by_cases infinite : x = infinity false
  · rw [infinite, text_infinity, ofUnsigned?, if_pos rfl]
  · obtain ⟨-, d, value, rfl⟩ := numeral_text unsigned infinite
    have none : Decimal.ofNumeral? infinityText.toList = none := by decide
    rw [ofUnsigned?, if_neg, value, Option.map_some]
    intro named
    rw [named, none] at value
    cases value

/-! ## Every double -/

open Binary64 (signed infinityBits Canonical)

/-- What begins with a sign does not write an unsigned number. -/
theorem ofUnsigned?_minus (s : List Char) : ofUnsigned? ('-' :: s) = none := by
  have other : '-' :: s ≠ infinityText.toList := by simp [infinityText]
  rw [ofUnsigned?, if_neg other]
  rfl

theorem ofText?_of_unsigned {x : Float} (unsigned : Unsigned x) : ofText? (text x) = some x := by
  have reads := ofUnsigned?_text unsigned
  have named : text x ≠ nanText := by
    intro named
    rw [named] at reads
    exact nomatch reads
  rw [ofText?, if_neg named]
  split
  · next minus =>
    rw [minus, ofUnsigned?_minus] at reads
    exact nomatch reads
  · exact reads

theorem ofText?_minus {x : Float} (unsigned : Unsigned x) :
    ofText? ("-" ++ text x) = some (-x) := by
  have letters : ("-" ++ text x).toList = '-' :: (text x).toList := by simp
  have named : "-" ++ text x ≠ nanText := by
    intro named
    rw [named] at letters
    exact nomatch letters
  simp only [ofText?, if_neg named, letters, ofUnsigned?_text unsigned, Option.map_some]

/-- A sign is written before what is written without it. -/
theorem text_signed {m k : Nat} (canonical : Canonical m k) :
    text (signed true (k * 2 ^ 52 + m)) = "-" ++ text (signed false (k * 2 ^ 52 + m)) := by
  rw [text, Binary64.ofFloat_signed true canonical, text, Binary64.ofFloat_signed false canonical]
  cases m <;> rfl

/-- What is written for a double reads as this double. -/
theorem ofText?_text (x : Float) : ofText? (text x) = some x := by
  cases parts : Binary64.ofFloat x with
  | nan =>
    rw [text, parts, Binary64.eq_notANumber parts]
    rfl
  | infinite negative =>
    obtain rfl := Binary64.eq_infinity_of_ofFloat parts
    have unsigned : Unsigned (infinity false) := Binary64.unsigned_signed (Nat.le_refl infinityBits)
    cases negative with
    | false => exact ofText?_of_unsigned unsigned
    | true =>
      have text : text (infinity true) = "-" ++ text (infinity false) := by decide +kernel
      have sign : -infinity false = infinity true := by decide +kernel
      rw [text, ofText?_minus unsigned, sign]
  | finite negative m e =>
    obtain ⟨k, rfl, canonical, rfl⟩ := Binary64.eq_signed_of_ofFloat parts
    have unsigned := Binary64.unsigned_signed canonical.le_infinityBits
    cases negative with
    | false => exact ofText?_of_unsigned unsigned
    | true =>
      rw [text_signed canonical, ofText?_minus unsigned, Binary64.neg_signed false canonical]
      rfl

theorem text_injective {x y : Float} (same : text x = text y) : x = y := by
  have back := ofText?_text x
  rw [same, ofText?_text y] at back
  exact (Option.some.inj back).symm

/-! ## The characters of a number -/

theorem mem_of_exponent {w : List Char} (exponent : Exponent w) :
    ∀ c ∈ w, c.isDigit = true ∨ c ∈ ".eE+-".toList := by
  obtain ⟨mark, sign, digits, rfl, listed, kinds, run⟩ := exponent
  refine List.forall_mem_cons.2 ⟨.inr ?_, List.forall_mem_append.2
    ⟨?_, fun c listed => .inl (run.2 c listed)⟩⟩
  · rcases listed with rfl | rfl <;> decide
  · rcases kinds with rfl | rfl | rfl
    · exact nofun
    · exact List.forall_mem_singleton.2 (.inr (by decide))
    · exact List.forall_mem_singleton.2 (.inr (by decide))

theorem mem_of_numeral {w : List Char} (numeral : Run Char.isDigit w ∨ Real w) :
    ∀ c ∈ w, c.isDigit = true ∨ c ∈ ".eE+-".toList := by
  have digits {w : List Char} (all : ∀ c ∈ w, c.isDigit = true) :
      ∀ c ∈ w, c.isDigit = true ∨ c ∈ ".eE+-".toList := fun c listed => .inl (all c listed)
  rcases numeral with run | real
  · exact digits run.2
  · cases real with
    | fraction whole point perhaps =>
      obtain ⟨after, rfl, run⟩ := point
      refine List.forall_mem_append.2 ⟨List.forall_mem_append.2
        ⟨digits whole, List.forall_mem_cons.2 ⟨.inr (by decide), digits run.2⟩⟩, ?_⟩
      rcases perhaps with rfl | exponent
      · exact nofun
      · exact mem_of_exponent exponent
    | exponent whole mark =>
      exact List.forall_mem_append.2 ⟨digits whole.2, mem_of_exponent mark⟩

theorem mem_text {x : Float} (unsigned : Unsigned x) :
    ∀ c ∈ (text x).toList, c.isDigit = true ∨ c ∈ ".eE+-inf".toList := by
  by_cases infinite : x = infinity false
  · rw [infinite, text_infinity]
    exact fun c listed => .inr (List.mem_append_right ".eE+-".toList listed)
  · intro c listed
    refine (mem_of_numeral (numeral_text unsigned infinite).1 c listed).imp_right fun mark => ?_
    exact List.mem_append_left infinityText.toList mark

end Number

end Calculator
