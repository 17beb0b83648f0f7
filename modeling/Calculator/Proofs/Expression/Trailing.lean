import Calculator.Proofs.Arithmetic.CorrectPrefix
import Calculator.Proofs.Expression.Failures

/-!
# Tokens after an expression

A reader that ignores what stands after an expression gives the tree of the longest beginning that
is an expression as a whole. It stops there because of the token that follows, which extends nothing
(`Stops`): to the reader it is like the end of the input. A reader that refuses tokens after the
expression names that token, and both fail alike where no beginning is an expression
(`parseLoosely_eq_ok`, `parse_of_stops`).
-/

namespace Calculator

namespace Arithmetic

open Reading
open Calculator.Tree hiding arguments

/-- The tree of an expression at the beginning of a token list. -/
def parseLoosely (ts : List Token) : Except Failure Tree :=
  Tree.ofTokens .arithmetic .ignore ts

/-- The first `n` tokens are an expression with the tree `t`, and what follows them, if anything,
extends nothing. -/
structure Stops (ts : List Token) (t : Tree) (n : Nat) : Prop where
  le_length : n ≤ ts.length
  whole : parse (ts.take n ++ [.finish]) = .ok t
  loose : n = ts.length ∨ (ts.getD n .finish).kind ∈ [Kind.literal, .name, .closeParen, .comma]

theorem endFree_take {ts : List Token} (endFree : EndFree ts) (n : Nat) : EndFree (ts.take n) :=
  fun t listed => endFree t (List.mem_of_mem_take listed)

theorem kind_ofTokens_finish {ts : List Token} {n : Nat} (le : n ≤ ts.length) :
    (Input.ofTokens (ts ++ [.finish])).kind n = (ts.getD n .finish).kind := by
  rw [Input.kind_ofTokens]
  rcases Nat.lt_or_eq_of_le le with inner | rfl
  · rw [List.getD_eq_getElem?_getD, List.getD_eq_getElem?_getD, List.getElem?_append_left inner]
  · simp

theorem kind_getD_eq_finish {ts : List Token} (endFree : EndFree ts) {n : Nat}
    (le : n ≤ ts.length) : (ts.getD n .finish).kind = .finish ↔ n = ts.length := by
  constructor
  · intro finished
    refine Nat.le_antisymm le (Nat.le_of_not_lt fun inner => ?_)
    rw [List.getD_eq_getElem _ _ inner] at finished
    exact endFree _ (List.getElem_mem inner) finished
  · rintro rfl
    simp [Token.finish, Token.mark]

theorem Stops.power {ts : List Token} {t : Tree} {n : Nat} (stops : Stops ts t n) :
    Grammar.arithmetic.power ((Input.ofTokens (ts ++ [.finish])).kind n) = 0 := by
  rw [kind_ofTokens_finish stops.le_length]
  rcases stops.loose with rfl | listed
  · simp [Token.finish, Token.mark, show Grammar.arithmetic.power .finish = 0 from rfl]
  · generalize (ts.getD n .finish).kind = k at listed
    revert listed
    cases k <;> decide

section Reading

variable {ts : List Token} (endFree : EndFree ts) {t : Tree} {n : Nat}

include endFree in
/-- Where the reader is done it has read an expression, and the next token extends nothing. -/
theorem stops_of_read (success : read .arithmetic (.ofTokens (ts ++ [.finish])) 0 0 = done t n) :
    Stops ts t n := by
  have viable := viable_read (ts ++ [.finish])
  have loose := stops_expression _ _ _ _ _ success
  rw [success] at viable
  obtain ⟨us, holds, rfl, derived⟩ := viable
  rw [Nat.zero_add] at loose ⊢
  obtain ⟨le, same⟩ := Input.eq_take_of_holds derived.endFree holds
  refine ⟨le, ?_, ?_⟩
  · rw [← same]
    exact ofTokens_eq_ok_of_derives derived
  · have listed := mem_of_power_eq_zero (Nat.le_zero.1 loose)
    rw [kind_ofTokens_finish le] at listed
    rw [← kind_getD_eq_finish endFree le]
    generalize (ts.getD us.length .finish).kind = k at listed
    revert listed
    cases k <;> decide

include endFree in
/-- The reader is done after the first tokens that are an expression and are not extended. -/
theorem read_of_stops (stops : Stops ts t n) :
    read .arithmetic (.ofTokens (ts ++ [.finish])) 0 0 = done t n := by
  have derived := derives_of_ofTokens_eq_ok (endFree_take endFree n) stops.whole
  have holds := Input.holds_ofTokens (ts.take n) (ts.drop n ++ [.finish])
  rw [← List.append_assoc, List.take_append_drop] at holds
  have length : 0 + (ts.take n).length = n := by
    rw [Nat.zero_add, List.length_take, Nat.min_eq_left stops.le_length]
  have ahead := Nat.le_of_eq stops.power
  have whole := read_of_derives (p := 0) derived holds (by decide) (by decide)
    (by rw [length]; exact Nat.le_trans ahead (by decide))
  rw [length] at whole
  exact read_eq_done whole ahead

include endFree in
theorem read_eq_done_iff :
    read .arithmetic (.ofTokens (ts ++ [.finish])) 0 0 = done t n ↔ Stops ts t n :=
  ⟨stops_of_read endFree, read_of_stops endFree⟩

end Reading

/-! ## The two ways to end -/

section Trailing

variable {ts : List Token} (endFree : EndFree ts)

include endFree in
theorem parseLoosely_eq_ok {t : Tree} :
    parseLoosely (ts ++ [.finish]) = .ok t ↔ ∃ n, Stops ts t n := by
  change ofInput _ _ (.ofTokens _) = _ ↔ _
  simp only [← read_eq_done_iff endFree, ofInput]
  cases read .arithmetic (.ofTokens (ts ++ [.finish])) 0 0 with
  | done u i => simp [eq_comm]
  | failed e i => simp
  | unfinished => simp

include endFree in
theorem parse_of_stops {t : Tree} {n : Nat} (stops : Stops ts t n) :
    parse (ts ++ [.finish]) = if n = ts.length then .ok t
      else .error (.parse (.trailing (ts.getD n .finish).kind)) := by
  change ofInput _ _ (.ofTokens _) = _
  simp only [ofInput, read_of_stops endFree stops, kind_ofTokens_finish stops.le_length, ne_eq,
    kind_getD_eq_finish endFree stops.le_length, true_and, ite_not]

theorem parse_of_parseLoosely_eq_error {us : List Token} {f : Failure}
    (fails : parseLoosely us = .error f) : parse us = .error f := by
  change ofInput _ _ (.ofTokens _) = _ at fails ⊢
  rw [ofInput] at fails ⊢
  generalize read .arithmetic (.ofTokens us) 0 0 = r at fails ⊢
  cases r with
  | done => cases fails
  | failed | unfinished => exact fails

include endFree in
theorem Stops.unique {t u : Tree} {n m : Nat} (first : Stops ts t n) (second : Stops ts u m) :
    n = m := by
  have same := (read_of_stops endFree first).symm.trans (read_of_stops endFree second)
  exact (done.inj same).2

include endFree in
/-- A longer beginning that is an expression would be read on from where the reader has stopped. -/
theorem Stops.longest {t : Tree} {n m : Nat} (stops : Stops ts t n) (less : n < m)
    (le : m ≤ ts.length) (u : Tree) : parse (ts.take m ++ [.finish]) ≠ .ok u := by
  intro whole
  have length : (ts.take m).length = m := by rw [List.length_take, Nat.min_eq_left le]
  have longer : Stops (ts.take m) u m :=
    ⟨Nat.le_of_eq length.symm, by rwa [List.take_take, Nat.min_self], .inl length.symm⟩
  have shorter : Stops (ts.take m) t n := by
    refine ⟨by omega, ?_, .inr ?_⟩
    · rw [List.take_take, Nat.min_eq_left (Nat.le_of_lt less)]
      exact stops.whole
    · rw [List.getD_eq_getElem?_getD, List.getElem?_take_of_lt less, ← List.getD_eq_getElem?_getD]
      exact stops.loose.resolve_left (by omega)
  exact absurd (shorter.unique (endFree_take endFree m) longer) (Nat.ne_of_lt less)

end Trailing

end Arithmetic

namespace Expression

open Arithmetic

/-- What is left where no lexeme begins does not depend on what is done with tokens. -/
theorem tree_eq_unrecognized {trailing : Tree.Trailing} {text r : String} :
    tree trailing text = .error (.parse (.unrecognized r)) ↔
      Token.ofChars (Text.lowercase text.toList) = .error (.unrecognized r) := by
  unfold tree
  cases Token.ofChars (Text.lowercase text.toList) with
  | error e => simp
  | ok tokens =>
    simp only [reduceCtorEq, iff_false]
    intro fails
    rcases Tree.refused_of_ofInput safe_arithmetic fails with ⟨e, same, refused⟩ | ⟨k, same, -⟩
    · obtain rfl := Failure.parse.inj same
      exact nomatch refused
    · exact nomatch same

/-- An evaluation finds nothing wrong with a text. -/
theorem value_eq_parse {source : RandomSource} {trailing : Tree.Trailing} {text : String}
    {e : SyntaxError} : value source trailing text = .error (.parse e) ↔
      tree trailing text = .error (.parse e) := by
  unfold value
  cases tree trailing text with
  | error f => simp only [bind, Except.bind, Except.error.injEq]
  | ok t =>
    simp only [reduceCtorEq, iff_false]
    intro fails
    have ending := Tree.ending_value (g := .arithmetic) t source
    rw [show t.value .arithmetic source = _ from fails] at ending
    exact nomatch ending

/-- Ignoring the tokens after an expression gives the tree of the one beginning that is an
expression and is not extended, which is the longest one too. Refusing them gives the same tree if
nothing follows it, and otherwise an error about the token that follows. The two fail alike where
there is no such beginning, and where a text is not made of lexemes. -/
theorem ignore_trailing {ts : List Token} (endFree : EndFree ts) :
    (∀ t, parseLoosely (ts ++ [.finish]) = .ok t ↔ ∃ n, Stops ts t n) ∧
      (∀ t n, Stops ts t n → (∀ u m, Stops ts u m → m = n) ∧
        (∀ m, n < m → m ≤ ts.length → ∀ u, parse (ts.take m ++ [.finish]) ≠ .ok u) ∧
        parse (ts ++ [.finish]) = if n = ts.length then .ok t
          else .error (.parse (.trailing (ts.getD n .finish).kind))) ∧
      (∀ f, parseLoosely (ts ++ [.finish]) = .error f → parse (ts ++ [.finish]) = .error f) ∧
      ∀ (source : RandomSource) (text r : String),
        (tree .ignore text = .error (.parse (.unrecognized r)) ↔
          tree .refuse text = .error (.parse (.unrecognized r))) ∧
        (value source .ignore text = .error (.parse (.unrecognized r)) ↔
          value source .refuse text = .error (.parse (.unrecognized r))) := by
  refine ⟨fun t => parseLoosely_eq_ok endFree, fun t n stops => ⟨?_, ?_, ?_⟩, ?_, ?_⟩
  · exact fun u m other => other.unique endFree stops
  · exact fun m less le u => stops.longest endFree less le u
  · exact parse_of_stops endFree stops
  · exact fun f => parse_of_parseLoosely_eq_error
  · intro source text r
    simp only [value_eq_parse, tree_eq_unrecognized, true_and]

/-- The tokens of `1 + 2 x`. -/
def sumAndName : List Token := [.number 1, .mark .plus, .number 2, .name "x"]

/-- The tree of `1 + 2`. -/
def sumTree : Tree := .binary (.mark .plus) (.leaf (.number 1)) (.leaf (.number 2))

/-- In `1 + 2 x` the reader stops at the name. -/
theorem ignore_trailing_name : Stops sumAndName sumTree 3 ∧
    parseLoosely (sumAndName ++ [.finish]) = .ok sumTree ∧
      parse (sumAndName ++ [.finish]) = .error (.parse (.trailing .name)) := by
  have endFree : EndFree sumAndName := by decide
  have stops : Stops sumAndName sumTree 3 := ⟨by decide, by rfl, .inr (by decide)⟩
  obtain ⟨loose, strict, -, -⟩ := ignore_trailing endFree
  exact ⟨stops, (loose _).2 ⟨3, stops⟩, (strict _ _ stops).2.2⟩

end Expression

end Calculator
