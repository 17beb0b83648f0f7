import Calculator.Expression
import Calculator.Proofs.Arithmetic.Recognition
import Calculator.Proofs.Arithmetic.WellFormed
import Calculator.Proofs.Lexeme.Spacing
import Calculator.Proofs.Number
import Calculator.Proofs.Text.Lowercase

/-!
# Trees from texts and texts from trees

The trees of texts are just the well-formed ones. What a text gives is well-formed, since its tokens
are ordinary ones and its tree is derived from them. In the other direction, the tokens of a
well-formed tree can be written with a space between any two of them, each numeral in any form that
has the right value, and the text gives back the tree (`tree_eq_ok_iff`).
-/

namespace Calculator

namespace Arithmetic

open LexemeClass (Run Real Exponent)

/-! ## Words -/

/-- The word writes the token. A number may be any integer or real with its value. -/
inductive Writes : List Char → Token → Prop where
  | number {w : List Char} {d : Decimal} (numeral : Run Char.isDigit w ∨ Real w)
    (value : Decimal.ofNumeral? w = some d) : Writes w (.number d.toFloat)
  | name (s : String) : Writes s.toList (.name s)
  | mark (kind : Kind) : Writes kind.symbol.toList (.mark kind)

/-- A word that writes an ordinary token is a lexeme for it. -/
theorem Writes.exists_lexeme {w : List Char} {t : Token} (writes : Writes w t)
    (ordinary : Ordinary t) :
    ∃ l : Lexeme, l.text = w ∧ l.sort.Matches l.text ∧ l.sort ≠ .blank ∧ l.sort ≠ .binary ∧
      l.tokens = [t] := by
  cases writes with
  | number numeral value =>
    rcases numeral with run | real
    · exact ⟨⟨.integer, w⟩, rfl, run, by simp, by simp, by simp [Lexeme.tokens, Lexeme.tokens?, value]⟩
    · exact ⟨⟨.real, w⟩, rfl, real, by simp, by simp, by simp [Lexeme.tokens, Lexeme.tokens?, value]⟩
  | name s =>
    cases ordinary with
    | name plain =>
      refine ⟨⟨.identifier, s.toList⟩, rfl, plain.identifier, by simp, by simp, ?_⟩
      simp [Lexeme.tokens, Lexeme.tokens?, Token.ofIdentifier, plain.noEuler, plain.noPi]
  | mark kind =>
    cases ordinary with
    | mark listed => exact ⟨⟨.sign kind, _⟩, rfl, ⟨listed, rfl⟩, by simp, by simp, rfl⟩

theorem toLower_of_isDigit {c : Char} (digit : c.isDigit = true) : c.toLower = c := by
  refine Char.toLower_eq_of_not_isUpper fun upper => ?_
  have starts : LexemeClass.startsIdentifier c = true := by
    simp [LexemeClass.startsIdentifier, Char.isAlpha, upper]
  rw [(LexemeClass.of_startsIdentifier starts).2] at digit
  cases digit

theorem map_toLower_of_digits {w : List Char} (all : ∀ c ∈ w, c.isDigit = true) :
    w.map Char.toLower = w := by
  rw [List.map_congr_left fun c listed => toLower_of_isDigit (all c listed), List.map_id']

/-- The case of the mark does not matter to the value of an exponent. -/
theorem exponent_toLower {e : List Char} (perhaps : e = [] ∨ Exponent e) :
    (e.map Char.toLower = [] ∨ Exponent (e.map Char.toLower)) ∧
      Decimal.ofExponent? (e.map Char.toLower) = Decimal.ofExponent? e := by
  rcases perhaps with rfl | ⟨mark, sign, digits, rfl, listed, kinds, run⟩
  · exact ⟨.inl rfl, rfl⟩
  · have same : (sign ++ digits).map Char.toLower = sign ++ digits := by
      rw [List.map_append, map_toLower_of_digits run.2]
      rcases kinds with rfl | rfl | rfl <;> rfl
    have lower : mark.toLower = 'e' := by rcases listed with rfl | rfl <;> rfl
    rw [List.map_cons, same, lower]
    refine ⟨.inr ⟨'e', sign, digits, rfl, .inl rfl, kinds, run⟩, ?_⟩
    simp [Decimal.ofExponent?, listed]

/-- The case of a numeral does not matter to its value. -/
theorem numeral_toLower {w : List Char} (numeral : Run Char.isDigit w ∨ Real w) :
    (Run Char.isDigit (w.map Char.toLower) ∨ Real (w.map Char.toLower)) ∧
      Decimal.ofNumeral? (w.map Char.toLower) = Decimal.ofNumeral? w := by
  rcases numeral with run | real
  · rw [map_toLower_of_digits run.2]
    exact ⟨.inl run, rfl⟩
  · cases real with
    | @fraction whole _ exponent digits point perhaps =>
      obtain ⟨after, rfl, run⟩ := point
      obtain ⟨perhaps', same⟩ := exponent_toLower perhaps
      have split (e : List Char) : whole ++ '.' :: after ++ e = whole ++ '.' :: (after ++ e) := by
        simp
      have lower : (whole ++ '.' :: after ++ exponent).map Char.toLower =
          whole ++ '.' :: after ++ exponent.map Char.toLower := by
        rw [List.map_append, List.map_append, List.map_cons, map_toLower_of_digits digits,
          map_toLower_of_digits run.2]
        rfl
      rw [lower]
      refine ⟨.inr (.fraction digits ⟨after, rfl, run⟩ perhaps'), ?_⟩
      rw [split, split, Decimal.ofNumeral?_point digits run perhaps',
        Decimal.ofNumeral?_point digits run perhaps, same]
    | exponent digits mark =>
      obtain ⟨perhaps', same⟩ := exponent_toLower (.inr mark)
      rw [List.map_append, map_toLower_of_digits digits.2]
      refine ⟨.inr (.exponent digits (perhaps'.resolve_left ?_)), ?_⟩
      · obtain ⟨c, rest, rfl, -⟩ := LexemeClass.exists_of_exponent mark
        exact nofun
      · rw [Decimal.ofNumeral?_whole digits perhaps', Decimal.ofNumeral?_whole digits (.inr mark),
          same]

theorem Writes.toLower {w : List Char} {t : Token} (writes : Writes w t) (ordinary : Ordinary t) :
    Writes (w.map Char.toLower) t := by
  cases writes with
  | number numeral value =>
    obtain ⟨numeral, same⟩ := numeral_toLower numeral
    exact .number numeral (same.trans value)
  | name s =>
    cases ordinary with
    | name plain =>
      rw [List.map_congr_left fun c listed =>
          Char.toLower_eq_of_not_isUpper (Bool.eq_false_iff.1 (plain.lower c listed)),
        List.map_id']
      exact .name s
  | mark kind =>
    cases ordinary with
    | mark listed =>
      have same : kind.symbol.toList.map Char.toLower = kind.symbol.toList := by
        revert listed
        cases kind <;> decide
      rw [same]
      exact .mark kind

/-! ## Texts of words -/

/-- The text of some words with a space between any two. -/
def spacedText (ws : List (List Char)) : String :=
  String.ofList ([' '].intercalate ws)

theorem exists_lexemes {ws : List (List Char)} {ts : List Token} (writes : List.Forall₂ Writes ws ts)
    (ordinary : ∀ t ∈ ts, Ordinary t) :
    ∃ ls : List Lexeme, ls.map Lexeme.text = ws ∧ (∀ l ∈ ls, l.sort.Matches l.text) ∧
      (∀ l ∈ ls, l.sort ≠ .blank) ∧ (∀ l ∈ ls, l.sort ≠ .binary) ∧
        ls.flatMap Lexeme.tokens = ts := by
  induction writes with
  | nil => exact ⟨[], rfl, nofun, nofun, nofun, rfl⟩
  | cons first rest ih =>
    obtain ⟨ordinaryFirst, ordinaryRest⟩ := List.forall_mem_cons.1 ordinary
    obtain ⟨l, rfl, matched, solid, used, tokens⟩ := first.exists_lexeme ordinaryFirst
    obtain ⟨ls, rfl, matchedRest, solidRest, usedRest, tokensRest⟩ := ih ordinaryRest
    exact ⟨l :: ls, rfl, List.forall_mem_cons.2 ⟨matched, matchedRest⟩,
      List.forall_mem_cons.2 ⟨solid, solidRest⟩, List.forall_mem_cons.2 ⟨used, usedRest⟩, by
        simp [tokens, tokensRest]⟩

theorem map_intercalate (f : Char → Char) (s : List Char) (ws : List (List Char)) :
    (s.intercalate ws).map f = (s.map f).intercalate (ws.map (List.map f)) := by
  induction ws with
  | nil => rfl
  | cons w ws ih =>
    cases ws with
    | nil => simp
    | cons v ws => simp_all [List.intercalate_cons_cons]

theorem ofChars_of_writes {ws : List (List Char)} {ts : List Token}
    (writes : List.Forall₂ Writes ws ts) (ordinary : ∀ t ∈ ts, Ordinary t) :
    Token.ofChars ([' '].intercalate ws) = .ok (ts ++ [.finish]) := by
  obtain ⟨ls, rfl, matched, solid, used, rfl⟩ := exists_lexemes writes ordinary
  obtain ⟨ms, cut, same⟩ := Lexeme.cut_spaced matched solid used
  rw [← same]
  exact Token.ofChars_of_whole cut

theorem ascii_of_writes {ws : List (List Char)} {ts : List Token}
    (writes : List.Forall₂ Writes ws ts) (ordinary : ∀ t ∈ ts, Ordinary t) :
    ∀ c ∈ [' '].intercalate ws, c.toNat < 128 := by
  obtain ⟨ls, rfl, matched, solid, -, -⟩ := exists_lexemes writes ordinary
  exact Lexeme.ascii_spaced matched solid

theorem lowercase_of_writes {ws : List (List Char)} {ts : List Token}
    (writes : List.Forall₂ Writes ws ts) (ordinary : ∀ t ∈ ts, Ordinary t) :
    ∃ vs, Text.lowercase ([' '].intercalate ws) = [' '].intercalate vs ∧
      List.Forall₂ Writes vs ts := by
  refine ⟨ws.map (List.map Char.toLower), ?_, ?_⟩
  · rw [Text.lowercase_ascii (ascii_of_writes writes ordinary), map_intercalate]
    rfl
  · induction writes with
    | nil => exact .nil
    | cons first rest ih =>
      obtain ⟨ordinaryFirst, ordinaryRest⟩ := List.forall_mem_cons.1 ordinary
      exact .cons (first.toLower ordinaryFirst) (ih ordinaryRest)

theorem tree_of_writes {ws : List (List Char)} {t : Tree} (wellFormed : WellFormed t)
    (writes : List.Forall₂ Writes ws (tokens t)) :
    Expression.tree .refuse (spacedText ws) = .ok t := by
  have ordinary := ordinary_tokens wellFormed
  obtain ⟨vs, lower, writes⟩ := lowercase_of_writes writes ordinary
  have loose : Level.shift.ceiling ≤ (levelOf t).ceiling := by
    generalize levelOf t = l
    cases l <;> decide
  rw [Expression.tree, spacedText, String.toList_ofList, lower, ofChars_of_writes writes ordinary]
  exact ofTokens_eq_ok_of_derives ((derives_tokens wellFormed).loosen loose)

/-! ## The shortest words -/

/-- The shortest numeral for a number; only infinity needs an exponent. -/
def numeral (x : Float) : List Char :=
  if x = Binary64.infinity false then "1e999".toList else (Number.text x).toList

/-- A word for a token. -/
def word (t : Token) : List Char :=
  match t.payload with
  | .number x => numeral x
  | .name s => s.toList
  | .none => t.kind.symbol.toList

theorem numeral_infinity :
    Real "1e999".toList ∧ ∃ d, Decimal.ofNumeral? "1e999".toList = some d ∧
      d.toFloat = Binary64.infinity false := by
  have whole : Run Char.isDigit ['1'] := by decide
  have digits : Run Char.isDigit ['9', '9', '9'] := by decide
  exact ⟨.exponent whole ⟨'e', [], ['9', '9', '9'], rfl, .inl rfl, .inl rfl, digits⟩,
    ⟨1, 999⟩, rfl, by decide⟩

theorem numeral_reads {x : Float} (unsigned : Binary64.Unsigned x) :
    (Run Char.isDigit (numeral x) ∨ Real (numeral x)) ∧
      ∃ d, Decimal.ofNumeral? (numeral x) = some d ∧ d.toFloat = x := by
  by_cases infinite : x = Binary64.infinity false
  · subst infinite
    rw [numeral, if_pos rfl]
    exact ⟨.inr numeral_infinity.1, numeral_infinity.2⟩
  · rw [numeral, if_neg infinite]
    exact Number.numeral_text unsigned infinite

theorem writes_word {t : Token} (ordinary : Ordinary t) : Writes (word t) t := by
  cases ordinary with
  | number unsigned =>
    obtain ⟨numeral, d, value, rfl⟩ := numeral_reads unsigned
    exact .number numeral value
  | @name s plain => exact .name s
  | @mark kind listed => exact .mark kind

/-! ## The trees of texts -/

theorem ordinary_of_denotes {l : Lexeme} {t : Token} (denotes : l.Denotes t)
    (matched : l.sort.Matches l.text) (lower : ∀ c ∈ l.text, c.isUpper = false) : Ordinary t := by
  cases denotes.lexical matched with
  | number unsigned => exact .number unsigned
  | mark listed => exact .mark listed
  | name identifier noEuler noPi =>
    cases denotes with
    | name => exact .name ⟨identifier, by simpa using lower, noEuler, noPi⟩

/-- The tree of a text is well-formed. -/
theorem wellFormed_of_tree {trailing : Tree.Trailing} {text : String} {t : Tree}
    (ok : Expression.tree trailing text = .ok t) : WellFormed t := by
  have lower := Text.isUpper_lowercase text.toList
  rw [Expression.tree] at ok
  split at ok
  · next ts cutting =>
    have outcome := Token.ofChars_outcome (Text.lowercase text.toList)
    rw [cutting] at outcome
    cases outcome with
    | @whole ls cut =>
      have ordinary : ∀ u ∈ ls.flatMap Lexeme.tokens, Ordinary u := by
        intro u listed
        obtain ⟨l, denotes, matched, within⟩ := Token.exists_lexeme_of_cut cut u listed
        exact ordinary_of_denotes denotes matched fun c inside => lower c (within inside)
      obtain ⟨n, derived⟩ := exists_derives_of_ofTokens ok
      exact derived.wellFormed fun u listed => ordinary u (List.mem_of_mem_take listed)
  · cases ok

theorem writes_words {t : Tree} (wellFormed : WellFormed t) :
    List.Forall₂ Writes ((tokens t).map word) (tokens t) := by
  rw [List.forall₂_map_left_iff, List.forall₂_same]
  exact fun u listed => writes_word (ordinary_tokens wellFormed u listed)

/-- The trees of texts are just the well-formed ones. Every text that writes the tokens of a
well-formed tree has this tree, and such a text is made of the shortest words. -/
theorem tree_eq_ok_iff :
    (∀ t, (∃ text, Expression.tree .refuse text = .ok t) ↔ WellFormed t) ∧
      (∀ t ws, WellFormed t → List.Forall₂ Writes ws (tokens t) →
        Expression.tree .refuse (spacedText ws) = .ok t) ∧
      ∀ t, WellFormed t → List.Forall₂ Writes ((tokens t).map word) (tokens t) := by
  refine ⟨fun t => ⟨?_, fun wellFormed => ?_⟩, fun t ws => tree_of_writes, fun t => writes_words⟩
  · rintro ⟨text, ok⟩
    exact wellFormed_of_tree ok
  · exact ⟨_, tree_of_writes wellFormed (writes_words wellFormed)⟩

/-- The sum needs its parentheses as the base of a power, and the call needs none under its sign. -/
theorem tree_eq_ok_iff_power :
    Expression.tree .refuse "( 1 + 2 ) ^ - f ( 1e999 )" =
      .ok (.binary (.mark .power)
        (.binary (.mark .plus) (.leaf (.number 1)) (.leaf (.number 2)))
        (.unary (.mark .minus)
          (.call (.mark .openParen) (.leaf (.name "f"))
            [.leaf (.number (Binary64.infinity false))]))) := by
  have base : WellFormed (.binary (.mark .plus) (.leaf (.number 1)) (.leaf (.number 2))) :=
    .operation (by decide) (.number (by decide)) (.number (by decide))
  have plain : PlainName "f" :=
    ⟨⟨'f', [], rfl, rfl, by simp⟩, List.forall_mem_singleton.2 rfl, by decide, by decide⟩
  have call : WellFormed (.call (.mark .openParen) (.leaf (.name "f"))
      [.leaf (.number (Binary64.infinity false))]) :=
    .call (.name plain) (List.forall_mem_singleton.2 (.number (by decide)))
  have wellFormed : WellFormed (.binary (.mark .power) _ _) :=
    .operation (by decide) base (.signed (.inr rfl) call)
  have text := tree_eq_ok_iff.2.1 _ _ wellFormed (tree_eq_ok_iff.2.2 _ wellFormed)
  rw [← text]
  rfl

end Arithmetic

end Calculator
