import Calculator.Proofs.Lexeme.MaximalMunch

/-!
# Blanks between lexemes

A lexeme is all blank or has no blank in it. So it reaches as far as the text goes on in the same
way (`leads_of_apart`), and a text of lexemes with spaces between them is cut into just these
(`cut_spaced`).
-/

namespace Calculator

namespace LexemeClass

/-- The characters of which lexemes are made that are not blank. -/
def isSolid (c : Char) : Bool :=
  continuesIdentifier c || decide (c ∈ ",.+-*/^%<>()".toList)

theorem isSolid_of_isDigit {c : Char} (digit : c.isDigit = true) : isSolid c = true := by
  simp [isSolid, continuesIdentifier, digit]

theorem isSolid_of_isHexDigit {c : Char} (digit : isHexDigit c = true) : isSolid c = true := by
  have letter (range : 'a' ≤ c ∧ c ≤ 'f' ∨ 'A' ≤ c ∧ c ≤ 'F') : c.isAlpha = true := by
    simp only [Char.isAlpha, Char.isUpper, Char.isLower, Bool.or_eq_true, decide_eq_true_eq]
    simp only [Char.le_def, UInt32.le_iff_toNat_le, ge_iff_le] at *
    simp at *
    omega
  simp only [isHexDigit, Bool.or_eq_true, decide_eq_true_eq, or_assoc] at digit
  rcases digit with digit | range
  · exact isSolid_of_isDigit digit
  · simp [isSolid, continuesIdentifier, startsIdentifier, letter range]

theorem of_isSolid {c : Char} (solid : isSolid c = true) :
    Text.isBlank c = false ∧ c.toNat < 128 := by
  rcases Bool.or_eq_true_iff.1 solid with continues | listed
  · have small : c.toNat < 128 := by
      simp only [continuesIdentifier, startsIdentifier, Char.isAlpha, Char.isUpper, Char.isLower,
        Char.isDigit, Bool.or_eq_true, Bool.and_eq_true, decide_eq_true_eq] at continues
      simp only [UInt32.le_iff_toNat_le, ← Char.val_inj, ← UInt32.toNat_inj, ge_iff_le] at continues
      simp at continues
      omega
    rcases Bool.or_eq_true_iff.1 continues with starts | digit
    · exact ⟨(of_startsIdentifier starts).1, small⟩
    · refine ⟨Bool.eq_false_iff.2 fun blank => ?_, small⟩
      rw [isDigit_of_isBlank blank] at digit
      cases digit
  · have all : ",.+-*/^%<>()".toList.all (fun c => !Text.isBlank c && c.toNat < 128) = true := rfl
    simpa using List.all_eq_true.1 all c (of_decide_eq_true listed)

theorem isSolid_of_exponent {w : List Char} (exponent : Exponent w) :
    ∀ c ∈ w, isSolid c = true := by
  obtain ⟨mark, sign, digits, rfl, listed, kinds, run⟩ := exponent
  refine List.forall_mem_cons.2 ⟨?_, List.forall_mem_append.2
    ⟨?_, fun c digit => isSolid_of_isDigit (run.2 c digit)⟩⟩
  · rcases listed with rfl | rfl <;> decide
  · rcases kinds with rfl | rfl | rfl
    · exact nofun
    · exact List.forall_mem_singleton.2 rfl
    · exact List.forall_mem_singleton.2 rfl

theorem isSolid_of_matches {sort : LexemeClass} {w : List Char} (matched : sort.Matches w)
    (solid : sort ≠ .blank) : ∀ c ∈ w, isSolid c = true := by
  have digits {w : List Char} (all : ∀ c ∈ w, c.isDigit = true) : ∀ c ∈ w, isSolid c = true :=
    fun c digit => isSolid_of_isDigit (all c digit)
  cases sort with
  | blank => exact absurd rfl solid
  | sign kind =>
    obtain ⟨listed, rfl⟩ := matched
    have all : kind.symbol.toList.all isSolid = true := by
      revert listed
      cases kind <;> decide
    exact List.all_eq_true.1 all
  | hexadecimal =>
    obtain ⟨mark, w, rfl, listed, run⟩ := matched
    refine List.forall_mem_cons.2 ⟨by decide, List.forall_mem_cons.2
      ⟨?_, fun c digit => isSolid_of_isHexDigit (run.2 c digit)⟩⟩
    rcases listed with rfl | rfl <;> decide
  | binary =>
    obtain ⟨mark, w, rfl, listed, run⟩ := matched
    refine List.forall_mem_cons.2 ⟨by decide, List.forall_mem_cons.2 ⟨?_, fun c digit => ?_⟩⟩
    · rcases listed with rfl | rfl <;> decide
    · have := run.2 c digit
      simp only [isBinaryDigit, Bool.or_eq_true, decide_eq_true_eq] at this
      rcases this with rfl | rfl <;> decide
  | real =>
    cases matched with
    | fraction whole point perhaps =>
      obtain ⟨after, rfl, run⟩ := point
      refine List.forall_mem_append.2 ⟨List.forall_mem_append.2
        ⟨digits whole, List.forall_mem_cons.2 ⟨by decide, digits run.2⟩⟩, ?_⟩
      rcases perhaps with rfl | exponent
      · exact nofun
      · exact isSolid_of_exponent exponent
    | exponent whole mark =>
      exact List.forall_mem_append.2 ⟨digits whole.2, isSolid_of_exponent mark⟩
  | integer => exact digits matched.2
  | identifier =>
    obtain ⟨first, rest, rfl, starts, continues⟩ := matched
    have first : isSolid first = true := by simp [isSolid, continuesIdentifier, starts]
    exact List.forall_mem_cons.2 ⟨first, fun c listed => by simp [isSolid, continues c listed]⟩

/-- A lexeme is all blank, or no blank is in it. -/
theorem isBlank_of_matches {sort : LexemeClass} {w : List Char} (matched : sort.Matches w) :
    ∀ c ∈ w, Text.isBlank c = decide (sort = .blank) := by
  by_cases blank : sort = .blank
  · subst blank
    exact matched.2
  · intro c listed
    rw [(of_isSolid (isSolid_of_matches matched blank c listed)).1, decide_eq_false blank]

theorem ne_nil_of_matches {sort : LexemeClass} {w : List Char} (matched : sort.Matches w) :
    w ≠ [] := by
  rintro rfl
  have listed := mem_all_of_matches matched
  have longest := longest_munch? listed []
  have none : sort.munch? [] = none := by
    cases sort with
    | sign kind => cases kind <;> rfl
    | _ => rfl
  rw [none] at longest
  exact longest [] matched List.nil_prefix

end LexemeClass

namespace Lexeme

/-- A lexeme leads a text that goes on in the other way, blank after what is not blank or not blank
after blanks. -/
theorem leads_of_apart {l : Lexeme} {s : List Char} (matched : l.sort.Matches l.text)
    (apart : ∀ c ∈ s.head?, Text.isBlank c ≠ decide (l.sort = .blank)) : l.Leads (l.text ++ s) := by
  refine ⟨matched, List.prefix_append .., fun m other begins => Nat.le_of_not_lt fun longer => ?_⟩
  obtain ⟨t, rest⟩ := List.prefix_of_prefix_length_le (List.prefix_append l.text s) begins
    (Nat.le_of_lt longer)
  have nonempty : t ≠ [] := by
    rintro rfl
    rw [List.append_nil] at rest
    rw [rest] at longer
    exact Nat.lt_irrefl _ longer
  obtain ⟨c, t, rfl⟩ := List.exists_cons_of_ne_nil nonempty
  obtain ⟨d, u, head⟩ := List.exists_cons_of_ne_nil (LexemeClass.ne_nil_of_matches matched)
  have same := LexemeClass.isBlank_of_matches other
  rw [← rest] at same begins
  have first := same d (by simp [head])
  rw [LexemeClass.isBlank_of_matches matched d (by simp [head])] at first
  have next := same c (by simp)
  rw [← first] at next
  refine apart c ?_ next
  rw [List.prefix_append_right_inj] at begins
  obtain ⟨after, rfl⟩ := begins
  rfl

/-- A text of lexemes with a space between any two. -/
def spaced (ls : List Lexeme) : List Char :=
  [' '].intercalate (ls.map Lexeme.text)

theorem spaced_cons (l m : Lexeme) (ls : List Lexeme) :
    spaced (l :: m :: ls) = l.text ++ ([' '] ++ spaced (m :: ls)) := by
  simp only [spaced, List.map_cons, List.intercalate_cons_cons, List.append_assoc]

theorem head_spaced {l : Lexeme} (matched : l.sort.Matches l.text) (ls : List Lexeme) :
    (spaced (l :: ls)).head? = l.text.head? := by
  obtain ⟨c, w, head⟩ := List.exists_cons_of_ne_nil (LexemeClass.ne_nil_of_matches matched)
  cases ls with
  | nil => simp [spaced]
  | cons m ls => simp [spaced_cons, head]

/-- Spaces cut a text where they stand. -/
theorem cut_spaced {ls : List Lexeme} (matched : ∀ l ∈ ls, l.sort.Matches l.text)
    (solid : ∀ l ∈ ls, l.sort ≠ .blank) (used : ∀ l ∈ ls, l.sort ≠ .binary) :
    ∃ ms, Cut (spaced ls) ms [] ∧ ms.flatMap tokens = ls.flatMap tokens := by
  induction ls with
  | nil => exact ⟨[], .rest [], rfl⟩
  | cons l ls ih =>
    obtain ⟨matchedFirst, matchedRest⟩ := List.forall_mem_cons.1 matched
    obtain ⟨solidFirst, solidRest⟩ := List.forall_mem_cons.1 solid
    obtain ⟨usedFirst, usedRest⟩ := List.forall_mem_cons.1 used
    obtain ⟨ms, cut, same⟩ := ih matchedRest solidRest usedRest
    cases ls with
    | nil =>
      have leads := leads_of_apart (s := []) matchedFirst nofun
      refine ⟨[l], ?_, rfl⟩
      have := Cut.piece leads usedFirst (.rest [])
      simpa [spaced] using this
    | cons m ls =>
      have next := (List.forall_mem_cons.1 matchedRest).1
      have blank : Leads ⟨.blank, [' ']⟩ ([' '] ++ spaced (m :: ls)) := by
        have space : LexemeClass.Run Text.isBlank [' '] := by decide
        refine leads_of_apart space fun c head => ?_
        rw [head_spaced next] at head
        rw [LexemeClass.isBlank_of_matches next c (List.mem_of_head? head)]
        simp [(List.forall_mem_cons.1 solidRest).1]
      have leads : l.Leads (l.text ++ ([' '] ++ spaced (m :: ls))) := by
        apply leads_of_apart matchedFirst
        intro c head
        obtain rfl : ' ' = c := Option.some.inj head
        simp [solidFirst]
        decide
      refine ⟨l :: ⟨.blank, [' ']⟩ :: ms, ?_, ?_⟩
      · rw [spaced_cons]
        exact .piece leads usedFirst (.piece blank nofun cut)
      · simp [same, tokens, tokens?]

theorem ascii_spaced {ls : List Lexeme} (matched : ∀ l ∈ ls, l.sort.Matches l.text)
    (solid : ∀ l ∈ ls, l.sort ≠ .blank) : ∀ c ∈ spaced ls, c.toNat < 128 := by
  induction ls with
  | nil => exact nofun
  | cons l ls ih =>
    obtain ⟨matchedFirst, matchedRest⟩ := List.forall_mem_cons.1 matched
    obtain ⟨solidFirst, solidRest⟩ := List.forall_mem_cons.1 solid
    have first : ∀ c ∈ l.text, c.toNat < 128 := fun c listed =>
      (LexemeClass.of_isSolid (LexemeClass.isSolid_of_matches matchedFirst solidFirst c listed)).2
    cases ls with
    | nil => simpa [spaced] using first
    | cons m ls =>
      have space : ∀ c ∈ [' '], c.toNat < 128 := List.forall_mem_singleton.2 (by decide)
      rw [spaced_cons]
      exact List.forall_mem_append.2
        ⟨first, List.forall_mem_append.2 ⟨space, ih matchedRest solidRest⟩⟩

end Lexeme

end Calculator
