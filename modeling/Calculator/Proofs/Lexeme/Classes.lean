import Mathlib
import Calculator.Lexeme

/-!
# The texts of a class of lexemes

`LexemeClass.Matches` says what the texts of a class are, with no word about how they are found.
What `munch?` finds is the longest of them that a text begins with (`longest_munch?`), and no text is
in two classes (`eq_of_matches`).
-/

namespace Calculator

namespace LexemeClass

/-- Some characters with the property `p`, at least one. -/
def Run (p : Char → Bool) (w : List Char) : Prop :=
  w ≠ [] ∧ ∀ c ∈ w, p c = true

instance (p : Char → Bool) (w : List Char) : Decidable (Run p w) :=
  decidable_of_iff (w ≠ [] ∧ w.all p = true) (and_congr .rfl List.all_eq_true)

/-- `0`, one of two marks and some digits. -/
def Marked (lower upper : Char) (isDigit : Char → Bool) (w : List Char) : Prop :=
  ∃ mark digits, w = '0' :: mark :: digits ∧ (mark = lower ∨ mark = upper) ∧ Run isDigit digits

/-- A point and the digits after it. -/
def Fraction (w : List Char) : Prop :=
  ∃ digits, w = '.' :: digits ∧ Run Char.isDigit digits

/-- The mark of an exponent, perhaps a sign, and the digits after them. -/
def Exponent (w : List Char) : Prop :=
  ∃ mark sign digits, w = mark :: (sign ++ digits) ∧ (mark = 'e' ∨ mark = 'E') ∧
    (sign = [] ∨ sign = ['+'] ∨ sign = ['-']) ∧ Run Char.isDigit digits

/-- Digits with a fraction or an exponent or both. Only before a fraction they may be missing. -/
inductive Real : List Char → Prop where
  | fraction {whole fraction exponent : List Char} (digits : ∀ c ∈ whole, c.isDigit = true)
    (point : Fraction fraction) (perhaps : exponent = [] ∨ Exponent exponent) :
    Real (whole ++ fraction ++ exponent)
  | exponent {whole exponent : List Char} (digits : Run Char.isDigit whole)
    (mark : Exponent exponent) : Real (whole ++ exponent)

/-- A letter or an underscore, then letters, underscores and digits. -/
def Identifier (w : List Char) : Prop :=
  ∃ first rest, w = first :: rest ∧ startsIdentifier first = true ∧
    ∀ c ∈ rest, continuesIdentifier c = true

/-- The text is a lexeme of the class. -/
def Matches : LexemeClass → List Char → Prop
  | blank, w => Run Text.isBlank w
  | sign kind, w => kind ∈ signs ∧ w = kind.symbol.toList
  | hexadecimal, w => Marked 'x' 'X' isHexDigit w
  | binary, w => Marked 'b' 'B' isBinaryDigit w
  | real, w => Real w
  | integer, w => Run Char.isDigit w
  | identifier, w => Identifier w

theorem mem_all_of_matches {sort : LexemeClass} {w : List Char} (matched : sort.Matches w) :
    sort ∈ all := by
  cases sort with
  | sign kind =>
    have := matched.1
    revert this
    cases kind <;> decide
  | _ => decide

/-! ## The longest one -/

/-- The longest text with the property `P` that `s` begins with, if there is one. -/
def Longest (P : List Char → Prop) (s : List Char) : Option (List Char) → Prop
  | some w => (P w ∧ w <+: s) ∧ ∀ v, P v → v <+: s → v.length ≤ w.length
  | none => ∀ v, P v → ¬ v <+: s

section Longest

variable {P Q : List Char → Prop} {p : Char → Bool} {s t u v : List Char}
  {r : Option (List Char)}

/-- Something may stand before all texts. -/
theorem Longest.after (longest : Longest P t r)
    (same : ∀ v, Q v → v <+: u ++ t → ∃ w, v = u ++ w ∧ P w) (build : ∀ w, P w → Q (u ++ w)) :
    Longest Q (u ++ t) (r.map (u ++ ·)) := by
  cases r with
  | none =>
    intro v whole begins
    obtain ⟨w, rfl, found⟩ := same v whole begins
    exact longest w found ((List.prefix_append_right_inj u).1 begins)
  | some w =>
    obtain ⟨⟨found, begins⟩, longest⟩ := longest
    refine ⟨⟨build w found, (List.prefix_append_right_inj u).2 begins⟩, fun v whole begins => ?_⟩
    obtain ⟨v, rfl, found⟩ := same v whole begins
    have := longest v found ((List.prefix_append_right_inj u).1 begins)
    simpa using this

theorem begins_takeWhile (all : ∀ c ∈ v, p c = true) (begins : v <+: s) :
    v <+: s.takeWhile p := by
  obtain ⟨rest, rfl⟩ := begins
  rw [List.takeWhile_append_of_pos all]
  exact List.prefix_append v _

theorem longest_run? (p : Char → Bool) (s : List Char) : Longest (Run p) s (run? p s) := by
  simp only [run?]
  split
  · next empty =>
    intro v run begins
    refine run.1 (List.prefix_nil.1 ?_)
    rw [← List.isEmpty_iff.1 empty]
    exact begins_takeWhile run.2 begins
  · next nonempty =>
    refine ⟨⟨⟨by simpa using nonempty, ?_⟩, List.takeWhile_prefix p⟩, fun v run begins => ?_⟩
    · exact List.all_eq_true.1 List.all_takeWhile
    · exact (begins_takeWhile run.2 begins).length_le

theorem longest_marked? (lower upper : Char) (isDigit : Char → Bool) (s : List Char) :
    Longest (Marked lower upper isDigit) s (marked? lower upper isDigit s) := by
  unfold marked?
  split
  · next mark s =>
    split
    · next listed =>
      refine (longest_run? isDigit s).after (u := ['0', mark]) (fun v marked begins => ?_)
        fun w run => ⟨mark, w, rfl, listed, run⟩
      obtain ⟨mark', digits, rfl, -, run⟩ := marked
      simp only [List.cons_append, List.nil_append, List.cons_prefix_cons] at begins
      obtain ⟨-, rfl, -⟩ := begins
      exact ⟨digits, rfl, run⟩
    · next unlisted =>
      rintro v ⟨mark', digits, rfl, listed, -⟩ begins
      simp only [List.cons_prefix_cons] at begins
      obtain ⟨-, rfl, -⟩ := begins
      exact unlisted listed
  · next other =>
    rintro v ⟨mark, digits, rfl, -, -⟩ begins
    obtain ⟨rest, rfl⟩ := begins
    exact other mark (digits ++ rest) rfl

theorem longest_fraction? (s : List Char) : Longest Fraction s (fraction? s) := by
  unfold fraction?
  split
  · next s =>
    refine (longest_run? Char.isDigit s).after (u := ['.']) ?_ fun w run => ⟨w, rfl, run⟩
    rintro v ⟨digits, rfl, run⟩ -
    exact ⟨digits, rfl, run⟩
  · next other =>
    rintro v ⟨digits, rfl, -⟩ begins
    obtain ⟨rest, rfl⟩ := begins
    exact other (digits ++ rest) rfl

/-- After the mark, a sign decides where the digits begin, since it is none itself. -/
theorem longest_exponent?_sign {mark c : Char} (listed : mark = 'e' ∨ mark = 'E')
    (sign : c = '+' ∨ c = '-') (s : List Char) :
    Longest Exponent (mark :: c :: s) ((run? Char.isDigit s).map ([mark, c] ++ ·)) := by
  refine (longest_run? Char.isDigit s).after (u := [mark, c]) (fun v exponent begins => ?_)
    fun w run => ⟨mark, [c], w, rfl, listed, by simpa using sign, run⟩
  obtain ⟨mark, sign', digits, rfl, -, kinds, nonempty, run⟩ := exponent
  simp only [List.cons_append, List.nil_append, List.cons_prefix_cons] at begins
  obtain ⟨rfl, begins⟩ := begins
  rcases kinds with rfl | rfl | rfl
  · obtain ⟨d, digits, rfl⟩ := List.exists_cons_of_ne_nil nonempty
    obtain ⟨rfl, -⟩ := List.cons_prefix_cons.1 begins
    have digit := run d (List.mem_cons_self ..)
    rcases sign with rfl | rfl <;> exact absurd digit (by decide)
  all_goals
    obtain ⟨rfl, -⟩ := List.cons_prefix_cons.1 begins
    exact ⟨digits, rfl, nonempty, run⟩

theorem longest_exponent? (s : List Char) : Longest Exponent s (exponent? s) := by
  unfold exponent?
  split
  · next mark s =>
    split
    · next listed =>
      split
      · next s => exact longest_exponent?_sign listed (.inl rfl) s
      · next s => exact longest_exponent?_sign listed (.inr rfl) s
      · next noPlus noMinus =>
        refine (longest_run? Char.isDigit s).after (u := [mark]) (fun v exponent begins => ?_)
          fun w run => ⟨mark, [], w, rfl, listed, .inl rfl, run⟩
        obtain ⟨mark, sign, digits, rfl, -, kinds, run⟩ := exponent
        simp only [List.cons_append, List.nil_append, List.cons_prefix_cons] at begins
        obtain ⟨rfl, begins⟩ := begins
        obtain ⟨rest, rfl⟩ := begins
        rcases kinds with rfl | rfl | rfl
        · exact ⟨digits, rfl, run⟩
        · exact absurd rfl (noPlus (digits ++ rest))
        · exact absurd rfl (noMinus (digits ++ rest))
    · next unlisted =>
      rintro v ⟨mark', sign, digits, rfl, listed, -⟩ begins
      obtain ⟨rfl, -⟩ := List.cons_prefix_cons.1 begins
      exact unlisted listed
  · rintro v ⟨mark, sign, digits, rfl, -⟩ begins
    exact nomatch List.prefix_nil.1 begins

/-- Digits before another character are all the digits that a text begins with. -/
theorem eq_takeWhile_of_begins {digits rest : List Char} {c : Char}
    (all : ∀ d ∈ digits, p d = true) (other : p c = false) (begins : digits ++ c :: rest <+: s) :
    digits = s.takeWhile p ∧ c :: rest <+: s.dropWhile p := by
  obtain ⟨after, rfl⟩ := begins
  rw [List.append_assoc, List.takeWhile_append_of_pos all, List.dropWhile_append_of_pos all]
  simp [other]

theorem exists_of_exponent (exponent : Exponent v) :
    ∃ mark rest, v = mark :: rest ∧ Char.isDigit mark = false ∧ mark ≠ '.' := by
  obtain ⟨mark, sign, digits, rfl, listed, -⟩ := exponent
  refine ⟨mark, sign ++ digits, rfl, ?_⟩
  rcases listed with rfl | rfl <;> decide

/-- A fraction, perhaps with an exponent. -/
def Fractional (w : List Char) : Prop :=
  ∃ fraction exponent, w = fraction ++ exponent ∧ Fraction fraction ∧
    (exponent = [] ∨ Exponent exponent)

/-- An exponent stands after the longest fraction only. -/
theorem eq_of_fractions {f g e : List Char} (longest : Longest Fraction s (some f))
    (fraction : Fraction g) (exponent : Exponent e) (begins : g ++ e <+: s) : g = f := by
  obtain ⟨⟨⟨digits, rfl, run⟩, within⟩, longest⟩ := longest
  have le := longest g fraction ((List.prefix_append g e).trans begins)
  obtain ⟨digits', rfl, run'⟩ := fraction
  obtain ⟨mark, rest, rfl, other, -⟩ := exists_of_exponent exponent
  obtain ⟨t, rfl⟩ := within
  rw [List.cons_append, List.cons_append, List.cons_prefix_cons] at begins
  have whole := (eq_takeWhile_of_begins run'.2 other begins.2).1
  have short : digits <+: digits' := by
    rw [whole]
    exact begins_takeWhile run.2 (List.prefix_append digits t)
  rw [short.eq_of_length_le (by simpa using le)]

theorem longest_fractional {f : List Char} (longest : Longest Fraction s (some f)) :
    Longest Fractional s (some (f ++ (exponent? (s.drop f.length)).getD [])) := by
  obtain ⟨⟨fraction, t, rfl⟩, reaches⟩ := id longest
  have later := longest_exponent? t
  rw [List.drop_left]
  generalize exponent? t = r at later
  refine ⟨⟨⟨f, r.getD [], rfl, fraction, ?_⟩, ?_⟩, ?_⟩
  · cases r with
    | none => exact .inl rfl
    | some e => exact .inr later.1.1
  · rw [List.prefix_append_right_inj]
    cases r with
    | none => exact List.nil_prefix
    | some e => exact later.1.2
  · rintro v ⟨g, e, rfl, point, rfl | exponent⟩ begins
    · rw [List.append_nil] at begins ⊢
      have := reaches g point begins
      simp only [List.length_append]
      omega
    · obtain rfl := eq_of_fractions longest point exponent begins
      rw [List.prefix_append_right_inj] at begins
      cases r with
      | none => exact absurd begins (later e exponent)
      | some e' =>
        have := later.2 e exponent begins
        simp only [Option.getD_some, List.length_append]
        omega

/-- What a real begins with is the digits of the text, and after them a fraction or an exponent. -/
theorem real_cases (real : Real v) (begins : v <+: s) :
    ∃ w, v = s.takeWhile Char.isDigit ++ w ∧ w <+: s.dropWhile Char.isDigit ∧
      (Fractional w ∨ Exponent w ∧ s.takeWhile Char.isDigit ≠ []) := by
  cases real with
  | @fraction whole fraction exponent digits point perhaps =>
    obtain ⟨after, rfl, run⟩ := id point
    rw [List.append_assoc, List.cons_append] at begins ⊢
    obtain ⟨rfl, rest⟩ := eq_takeWhile_of_begins digits (by decide) begins
    exact ⟨_, rfl, rest, .inl ⟨_, exponent, rfl, point, perhaps⟩⟩
  | @exponent whole exponent digits mark =>
    obtain ⟨c, rest, rfl, other, -⟩ := exists_of_exponent mark
    obtain ⟨rfl, rest⟩ := eq_takeWhile_of_begins digits.2 other begins
    exact ⟨_, rfl, rest, .inr ⟨mark, digits.1⟩⟩

theorem real_of_fractional {whole : List Char} (digits : ∀ c ∈ whole, Char.isDigit c = true)
    (fractional : Fractional v) : Real (whole ++ v) := by
  obtain ⟨fraction, exponent, rfl, point, perhaps⟩ := fractional
  rw [← List.append_assoc]
  exact .fraction digits point perhaps

theorem longest_real? (s : List Char) : Longest Real s (real? s) := by
  have digits : ∀ c ∈ s.takeWhile Char.isDigit, c.isDigit = true :=
    List.all_eq_true.1 List.all_takeWhile
  have whole : s = s.takeWhile Char.isDigit ++ s.dropWhile Char.isDigit :=
    List.takeWhile_append_dropWhile.symm
  have parts (v) (real : Real v) (begins : v <+: s) := real_cases real begins
  have fractions := longest_fraction? (s.dropWhile Char.isDigit)
  have exponents := longest_exponent? (s.dropWhile Char.isDigit)
  simp only [real?]
  generalize s.takeWhile Char.isDigit = w at *
  generalize s.dropWhile Char.isDigit = t at *
  subst whole
  split
  · next f found =>
    rw [found] at fractions
    rw [List.append_assoc]
    refine (longest_fractional fractions).after (fun v real begins => ?_)
      fun v fractional => real_of_fractional digits fractional
    obtain ⟨v, rfl, begins, fractional | ⟨exponent, -⟩⟩ := parts v real begins
    · exact ⟨v, rfl, fractional⟩
    · obtain ⟨⟨⟨_, rfl, -⟩, t, rfl⟩, -⟩ := fractions
      obtain ⟨mark, rest, rfl, -, other⟩ := exists_of_exponent exponent
      exact absurd (List.cons_prefix_cons.1 begins).1 other
  · next missing =>
    rw [missing] at fractions
    have noFraction (v) (begins : v <+: t) (fractional : Fractional v) : False := by
      obtain ⟨f, e, rfl, point, -⟩ := fractional
      exact fractions f point ((List.prefix_append f e).trans begins)
    split
    · next empty =>
      intro v real begins
      obtain ⟨v, rfl, begins, fractional | ⟨-, nonempty⟩⟩ := parts v real begins
      · exact noFraction v begins fractional
      · exact nonempty (List.isEmpty_iff.1 empty)
    · next nonempty =>
      refine exponents.after (fun v real begins => ?_)
        fun v exponent => .exponent ⟨by simpa using nonempty, digits⟩ exponent
      obtain ⟨v, rfl, begins, fractional | ⟨exponent, -⟩⟩ := parts v real begins
      · exact absurd fractional (noFraction v begins)
      · exact ⟨v, rfl, exponent⟩

theorem longest_identifier? (s : List Char) : Longest Identifier s (identifier? s) := by
  unfold identifier?
  split
  · next c s =>
    split
    · next starts =>
      refine ⟨⟨⟨c, _, rfl, starts, List.all_eq_true.1 List.all_takeWhile⟩, ?_⟩, ?_⟩
      · exact List.cons_prefix_cons.2 ⟨rfl, List.takeWhile_prefix _⟩
      · rintro v ⟨first, rest, rfl, -, continues⟩ begins
        have := (begins_takeWhile continues (List.cons_prefix_cons.1 begins).2).length_le
        simpa using this
    · next other =>
      rintro v ⟨first, rest, rfl, starts, -⟩ begins
      obtain ⟨rfl, -⟩ := List.cons_prefix_cons.1 begins
      exact other starts
  · rintro v ⟨first, rest, rfl, -⟩ begins
    exact nomatch List.prefix_nil.1 begins

theorem longest_sign? {kind : Kind} (listed : kind ∈ signs) (s : List Char) :
    Longest (sign kind).Matches s (sign? kind s) := by
  simp only [sign?]
  split
  · next begins =>
    refine ⟨⟨⟨listed, rfl⟩, List.isPrefixOf_iff_prefix.1 begins⟩, ?_⟩
    rintro v ⟨-, rfl⟩ -
    exact Nat.le_refl _
  · next other =>
    rintro v ⟨-, rfl⟩ begins
    exact other (List.isPrefixOf_iff_prefix.2 begins)

/-- What is found is the longest text of the class that `s` begins with. -/
theorem longest_munch? {sort : LexemeClass} (listed : sort ∈ all) (s : List Char) :
    Longest sort.Matches s (sort.munch? s) := by
  cases sort with
  | blank => exact longest_run? Text.isBlank s
  | sign kind =>
    refine longest_sign? ?_ s
    revert listed
    cases kind <;> decide
  | hexadecimal => exact longest_marked? 'x' 'X' isHexDigit s
  | binary => exact longest_marked? 'b' 'B' isBinaryDigit s
  | real => exact longest_real? s
  | integer => exact longest_run? Char.isDigit s
  | identifier => exact longest_identifier? s

end Longest

/-! ## The class of a text -/

theorem isDigit_of_isBlank {c : Char} (blank : Text.isBlank c = true) : c.isDigit = false := by
  simp only [Text.isBlank, decide_eq_true_eq] at blank
  simp only [Char.isDigit, Bool.and_eq_false_iff, decide_eq_false_iff_not]
  simp only [Char.le_def, UInt32.le_iff_toNat_le, ← Char.val_inj, ← UInt32.toNat_inj] at *
  simp at *
  omega

theorem of_startsIdentifier {c : Char} (starts : startsIdentifier c = true) :
    Text.isBlank c = false ∧ c.isDigit = false := by
  simp only [startsIdentifier, Char.isAlpha, Char.isUpper, Char.isLower, Bool.or_eq_true,
    Bool.and_eq_true, decide_eq_true_eq] at starts
  simp only [Text.isBlank, Char.isDigit, decide_eq_false_iff_not, Bool.and_eq_false_iff]
  simp only [Char.le_def, UInt32.le_iff_toNat_le, ← Char.val_inj, ← UInt32.toNat_inj,
    ge_iff_le] at *
  simp at *
  omega

theorem startsIdentifier_of_isDigit {c : Char} (digit : c.isDigit = true) :
    startsIdentifier c = false := by
  apply Bool.eq_false_iff.2
  intro starts
  rw [(of_startsIdentifier starts).2] at digit
  cases digit

/-- The first character that is no digit. -/
def firstMark (w : List Char) : Option Char :=
  w.find? fun c => !c.isDigit

theorem firstMark_append {digits rest : List Char} {c : Char} (all : ∀ d ∈ digits, d.isDigit = true)
    (other : c.isDigit = false) : firstMark (digits ++ c :: rest) = some c := by
  have none : digits.find? (fun c => !c.isDigit) = none := by
    simpa [List.find?_eq_none] using all
  simp [firstMark, none, other]

theorem firstMark_cons {c : Char} (w : List Char) (other : c.isDigit = false) :
    firstMark (c :: w) = some c := by
  simp [firstMark, other]

/-- The class that a text can be in at most. -/
def classOf (w : List Char) : LexemeClass :=
  match firstMark w with
  | none => integer
  | some c =>
    if Text.isBlank c then blank
    else if w.head?.any startsIdentifier then identifier
    else if c = 'x' ∨ c = 'X' then hexadecimal
    else if c = 'b' ∨ c = 'B' then binary
    else if w.any Char.isDigit then real
    else ((Kind.ofSymbol? (String.ofList w)).map sign).getD real

/-- What a real begins with are digits and a mark that no other lexeme has after digits. -/
theorem exists_of_real {w : List Char} (real : Real w) :
    ∃ digits mark rest, (∀ d ∈ digits, d.isDigit = true) ∧ w = digits ++ mark :: rest ∧
      (mark = '.' ∨ digits ≠ [] ∧ (mark = 'e' ∨ mark = 'E')) ∧ w.any Char.isDigit = true := by
  cases real with
  | @fraction digits _ exponent all point perhaps =>
    obtain ⟨after, rfl, nonempty, run⟩ := point
    obtain ⟨d, after, rfl⟩ := List.exists_cons_of_ne_nil nonempty
    refine ⟨digits, '.', _, all, List.append_assoc .., .inl rfl, ?_⟩
    simp [run d (List.mem_cons_self ..)]
  | @exponent digits _ whole exponent =>
    obtain ⟨mark, sign, after, rfl, listed, -⟩ := exponent
    refine ⟨digits, mark, _, whole.2, rfl, .inr ⟨whole.1, listed⟩, ?_⟩
    obtain ⟨d, digits, rfl⟩ := List.exists_cons_of_ne_nil whole.1
    simp [whole.2 d (List.mem_cons_self ..)]

theorem classOf_real {w digits rest : List Char} {c : Char} (all : ∀ d ∈ digits, d.isDigit = true)
    (whole : w = digits ++ c :: rest) (mark : c = '.' ∨ digits ≠ [] ∧ (c = 'e' ∨ c = 'E'))
    (some : w.any Char.isDigit = true) : classOf w = real := by
  have other : c.isDigit = false ∧ Text.isBlank c = false ∧ ¬ (c = 'x' ∨ c = 'X') ∧
      ¬ (c = 'b' ∨ c = 'B') := by
    rcases mark with rfl | ⟨-, rfl | rfl⟩ <;> decide
  have head : w.head?.any startsIdentifier = false := by
    rw [whole]
    cases digits with
    | nil =>
      obtain rfl | ⟨nonempty, -⟩ := mark
      · rfl
      · exact absurd rfl nonempty
    | cons d digits => simpa using startsIdentifier_of_isDigit (all d (List.mem_cons_self ..))
  have first : firstMark w = .some c := by rw [whole, firstMark_append all other.1]
  simp [classOf, first, other, head, some]

theorem classOf_of_matches {sort : LexemeClass} {w : List Char} (matched : sort.Matches w) :
    classOf w = sort := by
  cases sort with
  | blank =>
    obtain ⟨nonempty, all⟩ := matched
    obtain ⟨c, w, rfl⟩ := List.exists_cons_of_ne_nil nonempty
    have blank := all c (List.mem_cons_self ..)
    simp [classOf, firstMark_cons w (isDigit_of_isBlank blank), blank]
  | sign kind =>
    obtain ⟨listed, rfl⟩ := matched
    revert listed
    cases kind <;> decide
  | hexadecimal =>
    obtain ⟨mark, digits, rfl, listed, -⟩ := matched
    rcases listed with rfl | rfl <;> rfl
  | binary =>
    obtain ⟨mark, digits, rfl, listed, -⟩ := matched
    rcases listed with rfl | rfl <;> rfl
  | real =>
    obtain ⟨digits, mark, rest, all, whole, listed, some⟩ := exists_of_real matched
    exact classOf_real all whole listed some
  | integer =>
    have none : firstMark w = none := by
      simpa [firstMark, List.find?_eq_none] using matched.2
    rw [classOf, none]
  | identifier =>
    obtain ⟨first, rest, rfl, starts, -⟩ := matched
    obtain ⟨noBlank, noDigit⟩ := of_startsIdentifier starts
    simp [classOf, firstMark_cons rest noDigit, noBlank, starts]

/-- No text is a lexeme of two classes. -/
theorem eq_of_matches {a b : LexemeClass} {w : List Char} (first : a.Matches w)
    (second : b.Matches w) : a = b :=
  (classOf_of_matches first).symm.trans (classOf_of_matches second)

end LexemeClass

end Calculator
