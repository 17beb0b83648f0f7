import Calculator.Lexeme.Tokens
import Calculator.Proofs.Binary64.Unsigned
import Calculator.Proofs.Decimal.Numerals

/-!
# What lexemes stand for

Every numeral has a value, whatever its length, and so a lexeme is refused just if it is binary. What
the others stand for is in `Lexeme.Denotes`.
-/

namespace Calculator

open LexemeClass (Run Real Identifier isHexDigit)

/-! ## The values of numerals -/

namespace Decimal

theorem unsigned_toFloat (d : Decimal) : Binary64.Unsigned d.toFloat := by
  unfold toFloat
  split
  · decide
  · split
    · decide
    · exact Binary64.unsigned_nearest ..

end Decimal

namespace Hexadecimal

open Binary64 (Unsigned)

theorem unsigned_push {x : Float} (unsigned : Unsigned x) (c : Char) : Unsigned (push x c) := by
  have finite : (16 : Float).toModel.unpack =
      .finite .positive (2 ^ 52) (-48) (by decide) := by
    rfl
  apply (unsigned.mul finite).add
  have : decide ((digitValue c : Int) < 0) = false := by simp
  rw [Binary64.ofInt, this]
  exact Binary64.unsigned_nearest ..

theorem unsigned_foldl_push {x : Float} (unsigned : Unsigned x) (s : List Char) :
    Unsigned (s.foldl push x) := by
  induction s generalizing x with
  | nil => exact unsigned
  | cons c s ih => exact ih (unsigned_push unsigned c)

theorem unsigned_of_ofDigits? {s : List Char} {x : Float} (value : ofDigits? s = some x) :
    Unsigned x := by
  unfold ofDigits? at value
  split at value
  · obtain rfl := Option.some.inj value
    exact unsigned_foldl_push (by decide) s
  · cases value

theorem ofDigits?_of_run {s : List Char} (run : Run isHexDigit s) :
    ofDigits? s = some (s.foldl push 0) := by
  simp [ofDigits?, run.1, List.all_eq_true.2 run.2]

end Hexadecimal

/-! ## The tokens of lexemes -/

/-- The tokens that lexemes stand for. -/
inductive Token.Lexical : Token → Prop where
  | number {x : Float} (unsigned : Binary64.Unsigned x) : Lexical (.number x)
  | name {s : String} (identifier : Identifier s.toList) (noEuler : s ≠ "e") (noPi : s ≠ "pi") :
    Lexical (.name s)
  | mark {kind : Kind} (listed : kind ∈ LexemeClass.signs) : Lexical (.mark kind)

namespace Lexeme

/-- The lexeme stands for the token. Of the identifiers, two are constants and all others names. -/
inductive Denotes : Lexeme → Token → Prop where
  | sign (kind : Kind) : Denotes ⟨.sign kind, kind.symbol.toList⟩ (.mark kind)
  | hexadecimal {mark : Char} {digits : List Char} {x : Float}
    (value : Hexadecimal.ofDigits? digits = some x) :
    Denotes ⟨.hexadecimal, '0' :: mark :: digits⟩ (.number x)
  | numeral {sort : LexemeClass} {w : List Char} {d : Decimal}
    (numeric : sort = .real ∨ sort = .integer) (value : Decimal.ofNumeral? w = some d) :
    Denotes ⟨sort, w⟩ (.number d.toFloat)
  | euler : Denotes ⟨.identifier, ['e']⟩ (.number Token.euler)
  | pi : Denotes ⟨.identifier, ['p', 'i']⟩ (.number Token.pi)
  | name {w : List Char} (noEuler : w ≠ ['e']) (noPi : w ≠ ['p', 'i']) :
    Denotes ⟨.identifier, w⟩ (.name (String.ofList w))

theorem Denotes.lexical {l : Lexeme} {t : Token} (denotes : l.Denotes t)
    (matched : l.sort.Matches l.text) : t.Lexical := by
  cases denotes with
  | sign kind => exact .mark matched.1
  | hexadecimal value => exact .number (Hexadecimal.unsigned_of_ofDigits? value)
  | numeral => exact .number (Decimal.unsigned_toFloat _)
  | euler => exact .number (by decide)
  | pi => exact .number (by decide)
  | @name w noEuler noPi =>
    have identifier : Identifier (String.ofList w).toList := by
      rw [String.toList_ofList]
      exact matched
    refine .name identifier (fun written => noEuler ?_) fun written => noPi ?_
    · simpa using congrArg String.toList written
    · simpa using congrArg String.toList written

/-- The tokens that a lexeme stands for, none if it is refused. -/
def tokens (l : Lexeme) : List Token :=
  l.tokens?.getD []

/-- Blanks stand for nothing, and every other lexeme for one token. Only binary ones are refused. -/
theorem tokens?_of_matches {l : Lexeme} (matched : l.sort.Matches l.text)
    (used : l.sort ≠ .binary) :
    l.sort = .blank ∧ l.tokens? = some [] ∨
      l.sort ≠ .blank ∧ ∃ t, l.Denotes t ∧ l.tokens? = some [t] := by
  obtain ⟨sort, w⟩ := l
  have numeral (sort : LexemeClass) (listed : sort = .real ∨ sort = .integer)
      (numeral : Run Char.isDigit w ∨ Real w) :
      ∃ t, Denotes ⟨sort, w⟩ t ∧ tokens? ⟨sort, w⟩ = some [t] := by
    obtain ⟨d, value⟩ := Decimal.ofNumeral?_isSome numeral
    refine ⟨.number d.toFloat, .numeral listed value, ?_⟩
    rcases listed with rfl | rfl <;> simp [tokens?, value]
  cases sort with
  | blank => exact .inl ⟨rfl, rfl⟩
  | binary => exact absurd rfl used
  | sign kind =>
    obtain ⟨-, written⟩ := matched
    change w = _ at written
    subst written
    exact .inr ⟨nofun, _, .sign kind, rfl⟩
  | hexadecimal =>
    obtain ⟨mark, digits, written, -, run⟩ := matched
    change w = _ at written
    subst written
    have value := Hexadecimal.ofDigits?_of_run run
    exact .inr ⟨nofun, _, .hexadecimal value, by simp [tokens?, value]⟩
  | real => exact .inr ⟨nofun, numeral .real (.inl rfl) (.inr matched)⟩
  | integer => exact .inr ⟨nofun, numeral .integer (.inr rfl) (.inl matched)⟩
  | identifier =>
    refine .inr ⟨nofun, .ofIdentifier (String.ofList w), ?_, rfl⟩
    unfold Token.ofIdentifier
    split
    · next written =>
      obtain rfl : w = ['e'] := by simpa using congrArg String.toList written
      exact .euler
    · next noEuler =>
      split
      · next written =>
        obtain rfl : w = ['p', 'i'] := by simpa using congrArg String.toList written
        exact .pi
      · next noPi =>
        refine .name ?_ ?_
        · rintro rfl
          exact noEuler rfl
        · rintro rfl
          exact noPi rfl

theorem tokens?_eq_some {l : Lexeme} (matched : l.sort.Matches l.text) (used : l.sort ≠ .binary) :
    l.tokens? = some l.tokens := by
  rcases tokens?_of_matches matched used with ⟨-, some⟩ | ⟨-, t, -, some⟩ <;> simp [tokens, some]

theorem tokens?_eq_none {l : Lexeme} (binary : l.sort = .binary) : l.tokens? = none := by
  rw [tokens?, binary]

theorem denotes_of_mem_tokens {l : Lexeme} (matched : l.sort.Matches l.text)
    (used : l.sort ≠ .binary) : ∀ t ∈ l.tokens, l.Denotes t := by
  rcases tokens?_of_matches matched used with ⟨-, some⟩ | ⟨-, t, denotes, some⟩
  · simp [tokens, some]
  · simpa [tokens, some] using denotes

end Lexeme

end Calculator
