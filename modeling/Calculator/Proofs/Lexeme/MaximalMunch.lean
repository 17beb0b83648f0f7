import Calculator.Proofs.Lexeme.Denotation

/-!
# Maximal munch

A text is cut into lexemes, each the longest of all classes that the text still left begins with
(`Cut`), until nothing is left, or nothing that is in use leads what is left. The tokens of a text
are those of the lexemes it is cut into, and a text that cannot be cut to its end is reported from
the place on where it cannot be cut (`ofChars_eq_iff`).
-/

namespace Calculator

namespace Lexeme

/-! ## The longest lexeme -/

/-- The lexeme is the longest of all classes that the text `s` begins with. -/
structure Leads (l : Lexeme) (s : List Char) : Prop where
  matched : l.sort.Matches l.text
  begins : l.text <+: s
  longest : ∀ m : Lexeme, m.sort.Matches m.text → m.text <+: s → m.text.length ≤ l.text.length

theorem Leads.unique {l m : Lexeme} {s : List Char} (first : l.Leads s) (second : m.Leads s) :
    l = m := by
  obtain ⟨sort, text⟩ := l
  obtain ⟨sort', text'⟩ := m
  have le := first.longest _ second.matched second.begins
  have ge := second.longest _ first.matched first.begins
  obtain rfl : text = text' :=
    (List.prefix_of_prefix_length_le first.begins second.begins ge).eq_of_length_le le
  obtain rfl := LexemeClass.eq_of_matches first.matched second.matched
  rfl

/-- A lexeme that leads a text leads what of the text it does not go beyond. -/
theorem Leads.shorten {l : Lexeme} {s t : List Char} (leads : l.Leads (l.text ++ (s ++ t))) :
    l.Leads (l.text ++ s) := by
  refine ⟨leads.matched, List.prefix_append .., fun m matched begins => ?_⟩
  refine leads.longest m matched (begins.trans ?_)
  rw [List.prefix_append_right_inj]
  exact List.prefix_append s t

theorem matches_of_mem_candidates {l : Lexeme} {s : List Char} (candidate : l ∈ candidates s) :
    l.sort.Matches l.text ∧ l.text <+: s := by
  obtain ⟨sort, listed, found⟩ := List.mem_filterMap.1 candidate
  obtain ⟨text, munched, rfl⟩ := Option.map_eq_some_iff.1 found
  have longest := LexemeClass.longest_munch? listed s
  rw [munched] at longest
  exact longest.1

/-- Among the candidates is one at least as long as any lexeme that the text begins with. -/
theorem exists_candidate {m : Lexeme} {s : List Char} (matched : m.sort.Matches m.text)
    (begins : m.text <+: s) : ∃ l ∈ candidates s, m.text.length ≤ l.text.length := by
  have listed := LexemeClass.mem_all_of_matches matched
  have longest := LexemeClass.longest_munch? listed s
  match munched : m.sort.munch? s, longest with
  | none, longest => exact absurd begins (longest m.text matched)
  | some text, longest =>
    refine ⟨⟨m.sort, text⟩, ?_, longest.2 m.text matched begins⟩
    exact List.mem_filterMap.2 ⟨m.sort, listed, by rw [munched]; rfl⟩

theorem length_le_foldl_longer (l : Lexeme) (ls : List Lexeme) :
    ∀ m ∈ l :: ls, m.text.length ≤ (ls.foldl longer l).text.length := by
  induction ls generalizing l with
  | nil => simp
  | cons k ls ih =>
    have first : l.text.length ≤ (longer l k).text.length := by
      unfold longer
      split <;> omega
    have second : k.text.length ≤ (longer l k).text.length := by
      unfold longer
      split <;> omega
    have rest := ih (longer l k) (longer l k) (List.mem_cons_self ..)
    intro m listed
    rw [List.foldl_cons]
    rcases List.mem_cons.1 listed with rfl | listed
    · exact Nat.le_trans first rest
    · rcases List.mem_cons.1 listed with rfl | listed
      · exact Nat.le_trans second rest
      · exact ih _ m (List.mem_cons_of_mem _ listed)

theorem leads_of_longest? {l : Lexeme} {s : List Char} (found : longest? s = some l) :
    l.Leads s := by
  obtain ⟨matched, begins⟩ := matches_of_mem_candidates (longest?_mem_candidates found)
  refine ⟨matched, begins, fun m matched begins => ?_⟩
  obtain ⟨k, listed, le⟩ := exists_candidate matched begins
  apply Nat.le_trans le
  unfold longest? at found
  split at found
  · cases found
  · next first rest split =>
    obtain rfl := Option.some.inj found
    rw [split] at listed
    exact length_le_foldl_longer first rest k listed

/-- What is found is the longest lexeme of all classes. -/
theorem longest?_eq_some {l : Lexeme} {s : List Char} : longest? s = some l ↔ l.Leads s := by
  refine ⟨leads_of_longest?, fun leads => ?_⟩
  match found : longest? s with
  | some m => rw [(leads_of_longest? found).unique leads]
  | none =>
    obtain ⟨k, listed, -⟩ := exists_candidate leads.matched leads.begins
    unfold longest? at found
    split at found
    · next empty =>
      rw [empty] at listed
      cases listed
    · cases found

/-- The sign of an exponent belongs to a number only if digits follow. -/
example : longest? "1.5e+2x".toList = some ⟨.real, "1.5e+2".toList⟩ ∧
    longest? "1.5e+x".toList = some ⟨.real, "1.5".toList⟩ :=
  ⟨rfl, rfl⟩

theorem Leads.ne_nil {l : Lexeme} {s : List Char} (leads : l.Leads s) : l.text ≠ [] :=
  ne_nil_of_mem_candidates (longest?_mem_candidates (longest?_eq_some.2 leads))

/-! ## Cutting a text -/

/-- The text is cut into the lexemes and a rest. -/
inductive Cut : List Char → List Lexeme → List Char → Prop where
  | rest (s : List Char) : Cut s [] s
  | piece {l : Lexeme} {s : List Char} {ls : List Lexeme} {r : List Char}
    (leads : l.Leads (l.text ++ s)) (used : l.sort ≠ .binary) (later : Cut s ls r) :
    Cut (l.text ++ s) (l :: ls) r

/-- No lexeme leads the text but perhaps a binary one. -/
def Stuck (s : List Char) : Prop :=
  s ≠ [] ∧ ∀ l : Lexeme, l.Leads s → l.sort = .binary

/-- The rest does not matter for the lexemes before it. -/
theorem Cut.before {s : List Char} {ls : List Lexeme} {r : List Char} (cut : Cut s ls r) :
    ∃ p, s = p ++ r ∧ Cut p ls [] := by
  induction cut with
  | rest s => exact ⟨[], rfl, .rest []⟩
  | @piece l s ls r leads used later ih =>
    obtain ⟨p, rfl, cut⟩ := ih
    exact ⟨l.text ++ p, (List.append_assoc ..).symm, .piece leads.shorten used cut⟩

theorem exists_cut (s : List Char) : ∃ ls r, Cut s ls r ∧ (r = [] ∨ Stuck r) := by
  by_cases empty : s = []
  · exact ⟨[], s, .rest s, .inl empty⟩
  by_cases stuck : ∀ l : Lexeme, l.Leads s → l.sort = .binary
  · exact ⟨[], s, .rest s, .inr ⟨empty, stuck⟩⟩
  · obtain ⟨l, stuck⟩ := Classical.not_forall.1 stuck
    obtain ⟨leads, used⟩ := Classical.not_imp.1 stuck
    obtain ⟨t, split⟩ := leads.begins
    have shorter : t.length < s.length := by
      have := List.length_pos_iff.2 leads.ne_nil
      simp only [← split, List.length_append]
      omega
    obtain ⟨ls, r, cut, stops⟩ := exists_cut t
    subst split
    exact ⟨l :: ls, r, .piece leads used cut, stops⟩
termination_by s.length

end Lexeme

/-! ## The tokens of a text -/

namespace Token

open Lexeme

theorem ofChars_nil : ofChars [] = .ok [finish] := by
  rw [ofChars]
  rfl

theorem ofChars_append {l : Lexeme} {s : List Char} (leads : l.Leads (l.text ++ s))
    (used : l.sort ≠ .binary) :
    ofChars (l.text ++ s) = (ofChars s).map (l.tokens ++ ·) := by
  have nonempty : l.text ++ s ≠ [] := by simp [leads.ne_nil]
  have found := longest?_eq_some.2 leads
  rw [ofChars, dif_neg nonempty]
  split
  · next missing =>
    rw [found] at missing
    cases missing
  · next m found' =>
    obtain rfl := Option.some.inj (found.symm.trans found')
    rw [tokens?_eq_some leads.matched used, List.drop_left]
    cases ofChars s <;> rfl

theorem ofChars_of_cut {s : List Char} {ls : List Lexeme} {r : List Char} (cut : Cut s ls r) :
    ofChars s = (ofChars r).map (ls.flatMap tokens ++ ·) := by
  induction cut with
  | rest s => cases ofChars s <;> rfl
  | @piece l s ls r leads used later ih =>
    rw [ofChars_append leads used, ih]
    cases ofChars r with
    | ok ts => simp [Except.map]
    | error e => rfl

theorem ofChars_of_stuck {s : List Char} (stuck : Stuck s) :
    ofChars s = .error (.unrecognized (String.ofList s)) := by
  rw [ofChars, dif_neg stuck.1]
  split
  · rfl
  · next l found =>
    have leads := longest?_eq_some.1 found
    rw [tokens?_eq_none (stuck.2 l leads)]

/-- What comes of cutting a text into tokens. -/
inductive Outcome (s : List Char) : Except SyntaxError (List Token) → Prop where
  /-- The text is nothing but lexemes. -/
  | whole {ls : List Lexeme} (cut : Cut s ls []) : Outcome s (.ok (ls.flatMap tokens ++ [finish]))
  /-- The text is cut as far as `r`, and what stands before `r` has the tokens of its lexemes. -/
  | stuck {p r : List Char} {ls : List Lexeme} (split : s = p ++ r) (cut : Cut s ls r)
    (before : Cut p ls []) (accepted : ofChars p = .ok (ls.flatMap tokens ++ [finish]))
    (stuck : Stuck r) : Outcome s (.error (.unrecognized (String.ofList r)))

theorem ofChars_of_whole {s : List Char} {ls : List Lexeme} (cut : Cut s ls []) :
    ofChars s = .ok (ls.flatMap tokens ++ [finish]) := by
  rw [ofChars_of_cut cut, ofChars_nil]
  rfl

theorem ofChars_outcome (s : List Char) : Outcome s (ofChars s) := by
  obtain ⟨ls, r, cut, rfl | stuck⟩ := exists_cut s
  · rw [ofChars_of_whole cut]
    exact .whole cut
  · rw [ofChars_of_cut cut, ofChars_of_stuck stuck]
    obtain ⟨p, split, before⟩ := cut.before
    exact .stuck split cut before (ofChars_of_whole before) stuck

/-- Every token of a text that is cut stands for a lexeme in the text. -/
theorem exists_lexeme_of_cut {s : List Char} {ls : List Lexeme} {r : List Char}
    (cut : Cut s ls r) :
    ∀ t ∈ ls.flatMap tokens, ∃ l : Lexeme, l.Denotes t ∧ l.sort.Matches l.text ∧ l.text ⊆ s := by
  induction cut with
  | rest => simp
  | @piece l s ls r leads used later ih =>
    rw [List.flatMap_cons]
    refine List.forall_mem_append.2 ⟨fun t listed => ?_, fun t listed => ?_⟩
    · exact ⟨l, denotes_of_mem_tokens leads.matched used t listed, leads.matched,
        List.subset_append_left ..⟩
    · obtain ⟨m, denotes, matched, within⟩ := ih t listed
      exact ⟨m, denotes, matched, List.subset_append_of_subset_right _ within⟩

/-- A text has just one outcome. No numeral is refused for its value, and the tokens before the end
are those that lexemes stand for. -/
theorem ofChars_eq_iff (s : List Char) :
    (∀ result, ofChars s = result ↔ Outcome s result) ∧
      (∀ l : Lexeme, l.sort.Matches l.text → l.sort ≠ .binary →
        l.sort = .blank ∧ l.tokens? = some [] ∨
          l.sort ≠ .blank ∧ ∃ t, l.Denotes t ∧ l.tokens? = some [t]) ∧
      ∀ ts, ofChars s = .ok ts → ∃ us, ts = us ++ [finish] ∧ ∀ t ∈ us, t.Lexical := by
  refine ⟨fun result => ⟨?_, ?_⟩, fun l => tokens?_of_matches, fun ts ok => ?_⟩
  · rintro rfl
    exact ofChars_outcome s
  · rintro (⟨cut⟩ | ⟨-, cut, -, -, stuck⟩)
    · exact ofChars_of_whole cut
    · rw [ofChars_of_cut cut, ofChars_of_stuck stuck]
      rfl
  · have outcome := ofChars_outcome s
    rw [ok] at outcome
    obtain ⟨cut⟩ := outcome
    refine ⟨_, rfl, fun t listed => ?_⟩
    obtain ⟨l, denotes, matched, -⟩ := exists_lexeme_of_cut cut t listed
    exact denotes.lexical matched

end Token

end Calculator
