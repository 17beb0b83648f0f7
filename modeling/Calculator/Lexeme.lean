import Calculator.Text.Blank
import Calculator.Token

/-!
# Lexemes

A text is cut into lexemes from left to right, and every lexeme is as long as it can be: of all the
classes, the one counts that reaches furthest (`longest?`). So `>>>` is one sign, and `1e` is the
integer `1` before the name `e`, while `1e5` is a real. A binary numeral is a lexeme, but a reserved
one: it is cut out as a whole, so that nothing reads it as `0` before a name.
-/

namespace Calculator

/-- A class of texts that are one lexeme each. -/
inductive LexemeClass where
  /-- Blank characters. -/
  | blank
  /-- The sign that a kind goes by. -/
  | sign (kind : Kind)
  /-- `0x` or `0X` and hexadecimal digits. -/
  | hexadecimal
  /-- `0b` or `0B` and binary digits. -/
  | binary
  /-- Decimal digits with a fraction or an exponent or both. -/
  | real
  /-- Decimal digits. -/
  | integer
  /-- A letter or an underscore, then letters, underscores and digits. -/
  | identifier
  deriving DecidableEq, Repr

/-- A piece of a text and the class it is in. -/
structure Lexeme where
  sort : LexemeClass
  text : List Char

/-! ## The longest lexeme of one class -/

namespace LexemeClass

def isHexDigit (c : Char) : Bool :=
  c.isDigit || decide ('a' ≤ c ∧ c ≤ 'f') || decide ('A' ≤ c ∧ c ≤ 'F')

def isBinaryDigit (c : Char) : Bool :=
  c = '0' || c = '1'

def startsIdentifier (c : Char) : Bool :=
  c.isAlpha || c = '_'

def continuesIdentifier (c : Char) : Bool :=
  startsIdentifier c || c.isDigit

/-- The characters with the property `p` that `s` begins with, if there are any. -/
def run? (p : Char → Bool) (s : List Char) : Option (List Char) :=
  let run := s.takeWhile p
  if run.isEmpty then none else some run

/-- `0`, one of two marks and some digits. -/
def marked? (lower upper : Char) (isDigit : Char → Bool) : List Char → Option (List Char)
  | '0' :: mark :: s =>
    if mark = lower ∨ mark = upper then (run? isDigit s).map ('0' :: mark :: ·) else none
  | _ => none

/-- A point and the digits after it. -/
def fraction? : List Char → Option (List Char)
  | '.' :: s => (run? Char.isDigit s).map ('.' :: ·)
  | _ => none

/-- The mark of an exponent, perhaps a sign, and the digits after them. -/
def exponent? : List Char → Option (List Char)
  | mark :: s =>
    if mark = 'e' ∨ mark = 'E' then
      match s with
      | '+' :: s => (run? Char.isDigit s).map (mark :: '+' :: ·)
      | '-' :: s => (run? Char.isDigit s).map (mark :: '-' :: ·)
      | s => (run? Char.isDigit s).map (mark :: ·)
    else none
  | [] => none

/-- Digits and a fraction, perhaps with an exponent, or digits and an exponent. The digits before a
fraction may be missing. -/
def real? (s : List Char) : Option (List Char) :=
  let whole := s.takeWhile Char.isDigit
  let rest := s.dropWhile Char.isDigit
  match fraction? rest with
  | some fraction =>
    some (whole ++ fraction ++ (exponent? (rest.drop fraction.length)).getD [])
  | none => if whole.isEmpty then none else (exponent? rest).map (whole ++ ·)

def identifier? : List Char → Option (List Char)
  | c :: s => if startsIdentifier c then some (c :: s.takeWhile continuesIdentifier) else none
  | [] => none

def sign? (kind : Kind) (s : List Char) : Option (List Char) :=
  let sign := kind.symbol.toList
  if sign.isPrefixOf s then some sign else none

/-- The longest lexeme of a class that `s` begins with. -/
def munch? : LexemeClass → List Char → Option (List Char)
  | blank, s => run? Text.isBlank s
  | sign kind, s => sign? kind s
  | hexadecimal, s => marked? 'x' 'X' isHexDigit s
  | binary, s => marked? 'b' 'B' isBinaryDigit s
  | real, s => real? s
  | integer, s => run? Char.isDigit s
  | identifier, s => identifier? s

/-- The kinds that are written as their sign. -/
def signs : List Kind :=
  [.comma, .plus, .minus, .times, .divide, .power, .remainder, .shiftRightZero, .shiftRight,
    .shiftLeft, .openParen, .closeParen]

def all : List LexemeClass :=
  [blank] ++ signs.map sign ++ [hexadecimal, binary, real, integer, identifier]

end LexemeClass

/-! ## The longest lexeme of all classes -/

namespace Lexeme

/-- The longer one of two lexemes, and the first one of two that are equally long. -/
def longer (a b : Lexeme) : Lexeme :=
  if a.text.length < b.text.length then b else a

/-- The lexemes that `s` begins with, the longest one of every class. -/
def candidates (s : List Char) : List Lexeme :=
  LexemeClass.all.filterMap fun sort => (sort.munch? s).map fun text => ⟨sort, text⟩

/-- The longest lexeme that `s` begins with. -/
def longest? (s : List Char) : Option Lexeme :=
  match candidates s with
  | [] => none
  | l :: ls => some (ls.foldl longer l)

end Lexeme

/-! ## Lexemes are not empty -/

namespace LexemeClass

theorem ne_nil_of_run? {p : Char → Bool} {s r : List Char} (h : run? p s = some r) : r ≠ [] := by
  simp only [run?] at h
  split at h
  · cases h
  · next nonempty =>
    obtain rfl := Option.some.inj h
    simpa using nonempty

theorem ne_nil_of_real? {s r : List Char} (h : real? s = some r) : r ≠ [] := by
  simp only [real?] at h
  split at h
  · next fraction found =>
    obtain rfl := Option.some.inj h
    have nonempty : fraction ≠ [] := by
      rintro rfl
      unfold fraction? at found
      split at found <;> simp at found
    simp [nonempty]
  · split at h
    · cases h
    · next nonempty =>
      obtain ⟨e, -, rfl⟩ := Option.map_eq_some_iff.1 h
      simp only [List.isEmpty_iff] at nonempty
      simp [nonempty]

theorem ne_nil_of_munch? {sort : LexemeClass} (listed : sort ∈ all) {s r : List Char}
    (h : sort.munch? s = some r) : r ≠ [] := by
  cases sort with
  | blank => exact ne_nil_of_run? h
  | sign kind =>
    simp only [munch?, sign?] at h
    split at h
    · obtain rfl := Option.some.inj h
      revert listed
      cases kind <;> decide
    · cases h
  | hexadecimal | binary =>
    simp only [munch?] at h
    unfold marked? at h
    split at h
    · split at h
      · obtain ⟨d, -, rfl⟩ := Option.map_eq_some_iff.1 h
        simp
      · cases h
    · cases h
  | real => exact ne_nil_of_real? h
  | integer => exact ne_nil_of_run? h
  | identifier =>
    simp only [munch?] at h
    unfold identifier? at h
    split at h
    · split at h
      · obtain rfl := Option.some.inj h
        simp
      · cases h
    · cases h

end LexemeClass

namespace Lexeme

theorem ne_nil_of_mem_candidates {s : List Char} {l : Lexeme} (h : l ∈ candidates s) :
    l.text ≠ [] := by
  obtain ⟨sort, listed, found⟩ := List.mem_filterMap.1 h
  obtain ⟨text, munched, rfl⟩ := Option.map_eq_some_iff.1 found
  exact LexemeClass.ne_nil_of_munch? listed munched

theorem foldl_longer_mem (l : Lexeme) (ls : List Lexeme) : ls.foldl longer l ∈ l :: ls := by
  induction ls generalizing l with
  | nil => simp
  | cons m ls ih =>
    have := ih (longer l m)
    simp only [List.foldl_cons, List.mem_cons] at this ⊢
    rcases this with h | h
    · rw [h]
      unfold longer
      split <;> simp
    · exact .inr (.inr h)

theorem longest?_mem_candidates {s : List Char} {l : Lexeme} (h : longest? s = some l) :
    l ∈ candidates s := by
  unfold longest? at h
  split at h
  · cases h
  · next m ms found =>
    obtain rfl := Option.some.inj h
    rw [found]
    exact foldl_longer_mem m ms

/-- Cutting off a lexeme shortens a text. -/
theorem length_drop_lt {s : List Char} {l : Lexeme} (nonempty : s ≠ [])
    (h : longest? s = some l) : (s.drop l.text.length).length < s.length := by
  have := List.length_pos_iff.2 (ne_nil_of_mem_candidates (longest?_mem_candidates h))
  have := List.length_pos_iff.2 nonempty
  simp only [List.length_drop]
  omega

end Lexeme

end Calculator
