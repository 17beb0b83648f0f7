import Calculator.Proofs.Arithmetic.Recognition

/-!
# The token that an error is about

When tokens are no expression, the error names the first of them that no expression could have where
it stands (`existsUnique_culprit`). What comes before that token is the beginning of an expression,
since reading is viable; what comes after it does not matter, since the reader has not looked at it.
-/

namespace Calculator

namespace Arithmetic

open Reading
open Calculator.Tree hiding arguments

/-- The tree of a token list that has to be an expression as a whole. -/
def parse (ts : List Token) : Except Failure Tree :=
  Tree.ofTokens .arithmetic .refuse ts

/-- The failure names the kind `k`. -/
def Names (f : Failure) (k : Kind) : Prop :=
  ∃ e : SyntaxError, f = .parse e ∧ (e.Blames k ∨ e = .trailing k)

/-- With the token at `j`, where the end of the input stands after the tokens `ts`, they stop being
the beginning of an expression, and that is what the failure `f` says. -/
structure Culprit (ts : List Token) (f : Failure) (j : Nat) : Prop where
  le_length : j ≤ ts.length
  named : Names f (ts.getD j .finish).kind
  completable : ∃ us t, EndFree us ∧ parse (ts.take j ++ us ++ [.finish]) = .ok t
  /-- Nothing that begins with the tokens up to the culprit is an expression. -/
  hopeless : j < ts.length → ∀ us, parse (ts.take (j + 1) ++ us) = .error f
  incomplete : j = ts.length → ∀ t, ¬ Derives .shift ts t

/-- A later culprit would be one whose tokens before it cannot be completed. -/
theorem Culprit.le {ts : List Token} {f f' : Failure} {j k : Nat} (first : Culprit ts f j)
    (second : Culprit ts f' k) : k ≤ j := by
  apply Nat.le_of_not_lt
  intro lt
  obtain ⟨us, t, -, ok⟩ := second.completable
  have whole : ts.take k = ts.take (j + 1) ++ (ts.take k).drop (j + 1) := by
    have := List.take_append_drop (j + 1) (ts.take k)
    rw [List.take_take, Nat.min_eq_left lt] at this
    exact this.symm
  have failed := first.hopeless (Nat.lt_of_lt_of_le lt second.le_length)
    ((ts.take k).drop (j + 1) ++ us ++ [.finish])
  rw [whole] at ok
  simp only [List.append_assoc] at ok failed
  exact nomatch failed.symm.trans ok

/-- Lists that begin with the same tokens give inputs that look the same for that long. -/
theorem alike_ofTokens {α : Type} {ts us vs : List Token} {j : Nat} {r : Reading α}
    (lt : j < ts.length) (seen : r.seen ≤ j + 1) :
    Alike (.ofTokens (ts ++ us)) (.ofTokens (ts.take (j + 1) ++ vs)) 0 r := by
  have same (k : Nat) (le : k ≤ j) :
      (Input.ofTokens (ts.take (j + 1) ++ vs)).token k = (Input.ofTokens (ts ++ us)).token k := by
    rw [Input.token_ofTokens, Input.token_ofTokens]
    congr 1
    have : k < (ts.take (j + 1)).length := by
      simp only [List.length_take]
      omega
    rw [List.getD_eq_getElem?_getD, List.getElem?_append_left this,
      List.getElem?_take_of_lt (by omega), List.getD_eq_getElem?_getD,
      List.getElem?_append_left (by omega)]
  refine ⟨fun k _ lt => same k ?_, fun k _ lt => ?_⟩
  · have := r.next_le_seen
    omega
  · rw [Input.kind, same k (by omega), Input.kind]

/-- The reader has not looked beyond the last token it has seen. -/
theorem parse_take {ts : List Token} {f : Failure} {j : Nat}
    (fails : parse (ts ++ [.finish]) = .error f) (lt : j < ts.length)
    (seen : (read .arithmetic (.ofTokens (ts ++ [.finish])) 0 0).seen ≤ j + 1) (us : List Token) :
    parse (ts.take (j + 1) ++ us) = .error f := by
  rw [← fails]
  exact ofInput_congr (read_ended safe_arithmetic 0 0) (alike_ofTokens lt seen)

/-- The last token the reader has seen is the culprit if the tokens before it can be completed. -/
theorem culprit_of_seen {ts us vs : List Token} {f : Failure} {x : Tree}
    (fails : parse (ts ++ [.finish]) = .error f)
    (holds : (Input.ofTokens (ts ++ [.finish])).Holds 0 us) (derived : Derives .shift (us ++ vs) x)
    (seen : (read .arithmetic (.ofTokens (ts ++ [.finish])) 0 0).seen = us.length + 1)
    (named : Names f ((Input.ofTokens (ts ++ [.finish])).kind us.length)) :
    Culprit ts f us.length := by
  obtain ⟨inner, completion⟩ := endFree_append.1 derived.endFree
  obtain ⟨le, same⟩ := Input.eq_take_of_holds inner holds
  refine ⟨le, ?_, ⟨vs, x, completion, ?_⟩, ?_, ?_⟩
  · rw [Input.kind_ofTokens] at named
    rcases Nat.lt_or_eq_of_le le with lt | whole
    · simpa [List.getD_eq_getElem?_getD, List.getElem?_append_left lt] using named
    · simpa [List.getD_eq_getElem?_getD, whole] using named
  · rw [← same]
    exact ofTokens_eq_ok_of_derives derived
  · exact fun lt => parse_take fails lt (Nat.le_of_eq seen)
  · exact fun _ t whole => nomatch fails.symm.trans (ofTokens_eq_ok_of_derives whole)

theorem exists_culprit {ts : List Token} {f : Failure}
    (fails : parse (ts ++ [.finish]) = .error f) : ∃ j, Culprit ts f j := by
  have viable := viable_read (ts ++ [.finish])
  have ended := read_ended (s := .ofTokens (ts ++ [.finish])) safe_arithmetic 0 0
  have culprit (us vs : List Token) (x : Tree) :=
    @culprit_of_seen ts us vs f x fails
  change ofInput _ _ (.ofTokens _) = _ at fails
  rw [ofInput] at fails
  generalize read .arithmetic (.ofTokens (ts ++ [.finish])) 0 0 = r at viable ended fails culprit
  cases r with
  | done x i =>
    obtain ⟨us, holds, passed, derived⟩ := viable
    rw [Nat.zero_add] at passed
    subst passed
    simp only [true_and] at fails
    split at fails
    · obtain rfl := Except.error.inj fails
      rw [← List.append_nil us] at derived
      exact ⟨_, culprit us [] x holds derived rfl ⟨_, rfl, .inr rfl⟩⟩
    · cases fails
  | failed e i =>
    obtain ⟨us, vs, x, holds, seen, blames, derived⟩ := viable
    rw [Nat.zero_add] at seen blames
    obtain rfl := Except.error.inj fails
    exact ⟨_, culprit us vs x holds derived seen ⟨e, rfl, .inl blames⟩⟩
  | unfinished => exact absurd rfl ended

/-- Where tokens are no expression, there is just one token, or the end after them, with which they
stop being the beginning of one. The error names its kind, whatever comes after it. -/
theorem existsUnique_culprit {ts : List Token} {f : Failure}
    (fails : parse (ts ++ [.finish]) = .error f) :
    ∃ j, Culprit ts f j ∧ ∀ k, Culprit ts f k → k = j := by
  obtain ⟨j, culprit⟩ := exists_culprit fails
  exact ⟨j, culprit, fun k other => Nat.le_antisymm (culprit.le other) (other.le culprit)⟩

/-- `f(1 2` cannot be completed because of its second literal. -/
theorem existsUnique_culprit_literal :
    parse ([.name "f", .mark .openParen, .number 1, .number 2] ++ [.finish]) =
      .error (.parse (.unclosed .literal)) ∧
    ∃ j, Culprit [.name "f", .mark .openParen, .number 1, .number 2]
      (.parse (.unclosed .literal)) j ∧
        ∀ k, Culprit [.name "f", .mark .openParen, .number 1, .number 2]
          (.parse (.unclosed .literal)) k → k = j :=
  ⟨by rfl, existsUnique_culprit (by rfl)⟩

end Arithmetic

end Calculator
