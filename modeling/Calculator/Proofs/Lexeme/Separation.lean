import Calculator.Proofs.Lexeme.Spacing

/-!
# Blanks between texts

Blanks between two texts keep them apart. No lexeme reaches from one text over the blanks into the
other, and none becomes longer or shorter, also where a numeral or a sign at the end of the first
text could have gone on (`Leads.blank_after`). Blanks at the seam merge with those between the
texts, and any number of blanks stands for nothing (`ofChars_of_run`). So the tokens of the whole are
those of the two texts, or the first failure of the two (`ofText_append`).
-/

namespace Calculator

namespace Lexeme

section Blanks

variable {w : List Char} (run : LexemeClass.Run Text.isBlank w)

include run in
/-- A lexeme that goes beyond a text, into blanks after it, is blank, and so is the text. -/
theorem blank_of_beyond {m : Lexeme} {s t : List Char} (matched : m.sort.Matches m.text)
    (begins : m.text <+: s ++ (w ++ t)) (beyond : s.length < m.text.length) :
    m.sort = .blank ∧ ∀ c ∈ s, Text.isBlank c = true := by
  obtain ⟨nonempty, blank⟩ := run
  obtain ⟨c, w, rfl⟩ := List.exists_cons_of_ne_nil nonempty
  have within : s ++ [c] <+: m.text := by
    refine List.prefix_of_prefix_length_le ?_ begins (by simpa using beyond)
    rw [List.prefix_append_right_inj]
    exact List.prefix_append [c] (w ++ t)
  have same := LexemeClass.isBlank_of_matches matched
  have sort : m.sort = .blank := by
    have last := same c (within.subset (by simp))
    rw [blank c (List.mem_cons_self ..)] at last
    exact of_decide_eq_true last.symm
  refine ⟨sort, fun d listed => ?_⟩
  rw [same d (within.subset (List.mem_append_left _ listed)), decide_eq_true sort]

include run in
/-- Blanks after a text do not change its first lexeme, unless that is all of it and blank too. -/
theorem Leads.blank_after {l : Lexeme} {s : List Char} (leads : l.Leads s)
    (other : l.sort = .blank → l.text ≠ s) (t : List Char) : l.Leads (s ++ (w ++ t)) := by
  refine ⟨leads.matched, leads.begins.trans (List.prefix_append ..), fun m matched begins => ?_⟩
  rcases Nat.lt_or_ge s.length m.text.length with beyond | within
  · obtain ⟨-, blank⟩ := blank_of_beyond run matched begins beyond
    have nonempty : s ≠ [] := by
      rintro rfl
      exact leads.ne_nil (List.prefix_nil.1 leads.begins)
    -- a text of blanks is a lexeme, so the first lexeme is all of it
    have whole : s.length ≤ l.text.length :=
      leads.longest ⟨.blank, s⟩ ⟨nonempty, blank⟩ List.prefix_rfl
    have same := leads.begins.eq_of_length_le whole
    have matched := leads.matched
    rw [same] at matched
    exact absurd same (other (LexemeClass.eq_of_matches matched ⟨nonempty, blank⟩))
  · refine leads.longest m matched (List.prefix_of_prefix_length_le begins ?_ within)
    exact List.prefix_append ..

theorem eq_nil_of_cut_nil {ls : List Lexeme} {r : List Char} (cut : Cut [] ls r) : ls = [] := by
  generalize empty : ([] : List Char) = s at cut
  cases cut with
  | rest => rfl
  | piece leads => exact absurd (List.append_eq_nil_iff.1 empty.symm).1 leads.ne_nil

theorem Cut.ne_nil {s : List Char} {ls : List Lexeme} {r : List Char} (cut : Cut s ls r)
    (nonempty : r ≠ []) : s ≠ [] := by
  cases cut with
  | rest => exact nonempty
  | piece leads used later => simp [leads.ne_nil]

include run in
/-- Blanks after a text that is not cut to its end do not change how it is cut. -/
theorem Cut.blank_after {s : List Char} {ls : List Lexeme} {r : List Char} (cut : Cut s ls r)
    (nonempty : r ≠ []) (t : List Char) : Cut (s ++ (w ++ t)) ls (r ++ (w ++ t)) := by
  induction cut with
  | rest s => exact .rest _
  | @piece l s ls r leads used later ih =>
    have more := later.ne_nil nonempty
    have leads := leads.blank_after run (fun _ => by simpa using more) t
    rw [List.append_assoc] at leads ⊢
    exact .piece leads used (ih nonempty)

include run in
/-- A text that is cut to its end is cut in the same way before blanks, only that blanks at its end
are left over with the blanks after it. -/
theorem Cut.whole_blank_after {s : List Char} {ls : List Lexeme} (cut : Cut s ls [])
    (t : List Char) : ∃ ms v, ms.flatMap tokens = ls.flatMap tokens ∧
      LexemeClass.Run Text.isBlank v ∧ Cut (s ++ (w ++ t)) ms (v ++ t) := by
  generalize empty : ([] : List Char) = r at cut
  induction cut with
  | rest s =>
    subst empty
    exact ⟨[], w, rfl, run, .rest _⟩
  | @piece l s ls r leads used later ih =>
    subst empty
    by_cases last : l.sort = .blank ∧ s = []
    · obtain ⟨blank, rfl⟩ := last
      obtain rfl := eq_nil_of_cut_nil later
      have blanks := leads.matched
      rw [blank] at blanks
      refine ⟨[], l.text ++ w, by simp [tokens, tokens?, blank], ?_, ?_⟩
      · exact ⟨by simp [blanks.1], List.forall_mem_append.2 ⟨blanks.2, run.2⟩⟩
      · rw [List.append_nil, List.append_assoc]
        exact .rest _
    · obtain ⟨ms, v, same, blanks, cut⟩ := ih rfl
      have leads := leads.blank_after run (by simpa using last) t
      rw [List.append_assoc] at leads ⊢
      exact ⟨l :: ms, v, by simp [same], blanks, .piece leads used cut⟩

include run in
theorem Stuck.blank_after {r : List Char} (stuck : Stuck r) (t : List Char) :
    Stuck (r ++ (w ++ t)) := by
  obtain ⟨nonempty, binary⟩ := stuck
  refine ⟨by simp [nonempty], fun l leads => ?_⟩
  rcases Nat.lt_or_ge r.length l.text.length with beyond | within
  · -- the text that is left would be blank, and so a lexeme that is in use
    obtain ⟨-, blank⟩ := blank_of_beyond run leads.matched leads.begins beyond
    have whole := leads_of_apart (l := ⟨.blank, r⟩) (s := []) ⟨nonempty, blank⟩ nofun
    rw [List.append_nil] at whole
    exact nomatch binary _ whole
  · refine binary l ⟨leads.matched, ?_, fun m matched begins => ?_⟩
    · exact List.prefix_of_prefix_length_le leads.begins (List.prefix_append ..) within
    · exact leads.longest m matched (begins.trans (List.prefix_append ..))

end Blanks

end Lexeme

namespace Token

open Lexeme

/-- Blanks before a text stand for nothing. -/
theorem ofChars_of_run {w : List Char} (run : LexemeClass.Run Text.isBlank w) (s : List Char) :
    ofChars (w ++ s) = ofChars s := by
  have apart {w s : List Char} (run : LexemeClass.Run Text.isBlank w)
      (other : ∀ c ∈ s.head?, Text.isBlank c = false) : ofChars (w ++ s) = ofChars s := by
    have leads := leads_of_apart (l := ⟨.blank, w⟩) (s := s) run (by simpa using other)
    rw [ofChars_append leads nofun]
    cases ofChars s <;> rfl
  have other : ∀ c ∈ (s.dropWhile Text.isBlank).head?, Text.isBlank c = false := by
    intro c first
    have stopped := List.head?_dropWhile_not Text.isBlank s
    rw [Option.mem_def.1 first] at stopped
    exact stopped
  have split := List.takeWhile_append_dropWhile (p := Text.isBlank) (l := s)
  have blank : ∀ c ∈ s.takeWhile Text.isBlank, Text.isBlank c = true :=
    List.all_eq_true.1 List.all_takeWhile
  generalize s.takeWhile Text.isBlank = v at split blank
  generalize s.dropWhile Text.isBlank = rest at split other
  subst split
  have more : LexemeClass.Run Text.isBlank (w ++ v) :=
    ⟨by simp [run.1], List.forall_mem_append.2 ⟨run.2, blank⟩⟩
  rw [← List.append_assoc, apart more other]
  by_cases empty : v = []
  · rw [empty, List.nil_append]
  · exact (apart ⟨empty, blank⟩ other).symm

section Texts

variable {w : List Char} (run : LexemeClass.Run Text.isBlank w) {s : List Char} (t : List Char)

include run

theorem ofChars_blank_after {ts : List Token} (ok : ofChars s = .ok (ts ++ [finish])) :
    ofChars (s ++ (w ++ t)) = (ofChars t).map (ts ++ ·) := by
  have outcome := ofChars_outcome s
  rw [ok] at outcome
  generalize same : Except.ok (ts ++ [finish]) = result at outcome
  cases outcome with
  | whole cut =>
    obtain rfl := List.append_cancel_right (Except.ok.inj same)
    obtain ⟨ms, v, tokens, blanks, cut⟩ := cut.whole_blank_after run t
    rw [ofChars_of_cut cut, ofChars_of_run blanks, tokens]
  | stuck => exact nomatch same

theorem ofChars_blank_after_error {r : String} (fails : ofChars s = .error (.unrecognized r)) :
    ofChars (s ++ (w ++ t)) = .error (.unrecognized (r ++ String.ofList (w ++ t))) := by
  have outcome := ofChars_outcome s
  rw [fails] at outcome
  generalize same : Except.error (SyntaxError.unrecognized r) = result at outcome
  cases outcome with
  | whole => exact nomatch same
  | stuck split cut before accepted stuck =>
    obtain rfl := SyntaxError.unrecognized.inj (Except.error.inj same)
    rw [ofChars_of_cut (cut.blank_after run stuck.1 t), ofChars_of_stuck (stuck.blank_after run t),
      String.ofList_append]
    rfl

end Texts

/-- Blanks between two texts separate them completely: the tokens of the whole are those of the
first text and then those of the second. If the first text cannot be cut, what is left of it is
reported with all that follows; if just the second cannot, what is left of that. -/
theorem ofText_append {w : String} (nonempty : w ≠ "")
    (blank : ∀ c ∈ w.toList, Text.isBlank c = true) (s t : String) :
    (∀ ts us, ofText s = .ok (ts ++ [finish]) → ofText t = .ok (us ++ [finish]) →
        ofText (s ++ w ++ t) = .ok (ts ++ us ++ [finish])) ∧
      (∀ r, ofText s = .error (.unrecognized r) →
        ofText (s ++ w ++ t) = .error (.unrecognized (r ++ w ++ t))) ∧
      ∀ ts r, ofText s = .ok ts → ofText t = .error (.unrecognized r) →
        ofText (s ++ w ++ t) = .error (.unrecognized r) := by
  have run : LexemeClass.Run Text.isBlank w.toList := ⟨by simpa using nonempty, blank⟩
  have whole : (s ++ w ++ t).toList = s.toList ++ (w.toList ++ t.toList) := by
    simp only [String.toList_append, List.append_assoc]
  simp only [ofText, whole]
  refine ⟨fun ts us first second => ?_, fun r fails => ?_, fun ts r first fails => ?_⟩
  · rw [ofChars_blank_after run t.toList first, second, List.append_assoc]
    rfl
  · rw [ofChars_blank_after_error run t.toList fails, String.ofList_append, String.ofList_toList,
      String.ofList_toList, String.append_assoc]
  · obtain ⟨us, rfl⟩ : ∃ us, ts = us ++ [finish] := by
      have outcome := ofChars_outcome s.toList
      rw [first] at outcome
      obtain ⟨cut⟩ := outcome
      exact ⟨_, rfl⟩
    rw [ofChars_blank_after run t.toList first, fails]
    rfl

/-- A blank keeps `>>` and `>` from being one sign. -/
theorem ofText_append_angles :
    ofText ">>" = .ok ([.mark .shiftRight] ++ [finish]) ∧ ofText ">" = .error (.unrecognized ">") ∧
      ofText (">>" ++ "\u2003" ++ ">>") =
        .ok ([.mark .shiftRight] ++ [.mark .shiftRight] ++ [finish]) ∧
      ofText (">" ++ "\u2003" ++ ">>") = .error (.unrecognized (">" ++ "\u2003" ++ ">>")) ∧
      ofText (">>" ++ "\u2003" ++ ">") = .error (.unrecognized ">") := by
  have double : ofText ">>" = .ok ([.mark .shiftRight] ++ [finish]) := by
    have leads : Leads ⟨.sign .shiftRight, ['>', '>']⟩ ['>', '>'] := longest?_eq_some.1 rfl
    exact ofChars_of_whole (.piece (s := []) leads nofun (.rest []))
  have single : ofText ">" = .error (.unrecognized ">") := by
    have none : longest? ['>'] = none := rfl
    refine ofChars_of_stuck ⟨nofun, fun l leads => ?_⟩
    exact nomatch none.symm.trans (longest?_eq_some.2 leads)
  have blank : ∀ c ∈ "\u2003".toList, Text.isBlank c = true := List.forall_mem_singleton.2 rfl
  have both := ofText_append (w := "\u2003") (by decide) blank
  exact ⟨double, single, (both ">>" ">>").1 _ _ double double, (both ">" ">>").2.1 _ single,
    (both ">>" ">").2.2 _ _ double single⟩

end Token

end Calculator
