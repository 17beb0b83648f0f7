import Calculator.Proofs.Lexeme.Spacing

/-!
# Rules in order

Instead of looking for the longest lexeme of all classes one can try the classes one after the other
and take the first that has a lexeme to offer, with its longest one (`Lexeme.first?`). The order
matters only where a lexeme of one class can go on as a lexeme of another (`LexemeClass.grows`): a
sign as a longer sign, and a decimal integer as any other numeral. Where no class is tried before one
that its lexemes can grow into, the first lexeme is the longest of all (`first?_eq_longest?`), and
the tokens of a text are the same (`ofCharsInOrder_eq`).
-/

namespace Calculator

namespace LexemeClass

/-! ## Lexemes that go on as others -/

/-- The characters that a lexeme of the class can begin with. -/
def opens : LexemeClass → Char → Bool
  | blank, c => Text.isBlank c
  | sign kind, c => kind.symbol.toList.head? = some c
  | hexadecimal, c | binary, c => c = '0'
  | real, c => c.isDigit || c = '.'
  | integer, c => c.isDigit
  | identifier, c => startsIdentifier c

theorem opens_of_matches {sort : LexemeClass} {c : Char} {w : List Char}
    (matched : sort.Matches (c :: w)) : sort.opens c = true := by
  cases sort with
  | blank | integer => exact matched.2 c (List.mem_cons_self ..)
  | sign kind => simp [opens, ← matched.2]
  | hexadecimal | binary =>
    obtain ⟨mark, digits, written, -⟩ := matched
    obtain ⟨rfl, -⟩ := List.cons.inj written
    rfl
  | real =>
    obtain ⟨digits, mark, rest, all, written, listed, -⟩ := exists_of_real matched
    cases digits with
    | nil =>
      obtain ⟨rfl, -⟩ := List.cons.inj written
      obtain rfl | ⟨nonempty, -⟩ := listed
      · rfl
      · exact absurd rfl nonempty
    | cons d digits =>
      obtain ⟨rfl, -⟩ := List.cons.inj written
      simp [opens, all c (List.mem_cons_self ..)]
  | identifier =>
    obtain ⟨first, rest, written, starts, -⟩ := matched
    obtain ⟨rfl, -⟩ := List.cons.inj written
    exact starts

/-- No other lexeme begins as a sign does. -/
theorem eq_sign_of_opens {k : Kind} {sort : LexemeClass} {c : Char} (listed : k ∈ signs)
    (first : (sign k).opens c = true) (second : sort.opens c = true) : ∃ m, sort = sign m := by
  have plain : ∀ k ∈ signs, k.symbol.toList.head?.all (fun c =>
      !(Text.isBlank c || startsIdentifier c || c.isDigit || c = '.')) = true := by
    decide
  have plain := plain k listed
  rw [show k.symbol.toList.head? = some c from of_decide_eq_true first] at plain
  cases sort with
  | sign m => exact ⟨m, rfl⟩
  | hexadecimal | binary =>
    obtain rfl : c = '0' := of_decide_eq_true second
    cases plain
  | blank | real | integer | identifier =>
    simp only [opens, Bool.or_eq_true, decide_eq_true_eq] at second
    simp_all

/-- A lexeme of the first class can go on as a longer lexeme of the second. -/
def grows : LexemeClass → LexemeClass → Bool
  | sign k, sign m => k ≠ m && k.symbol.toList.isPrefixOf m.symbol.toList
  | integer, hexadecimal | integer, binary | integer, real => true
  | _, _ => false

/-- If a lexeme begins with another one, its class is that of the other or the other's grows into
it. -/
theorem grows_of_prefix {a b : LexemeClass} {u v : List Char} (first : a.Matches u)
    (second : b.Matches v) (begins : u <+: v) : a = b ∨ a.grows b = true := by
  obtain ⟨c, w, rfl⟩ := List.exists_cons_of_ne_nil (ne_nil_of_matches first)
  obtain ⟨t, rfl⟩ := begins
  have shorter := opens_of_matches first
  have longer : b.opens c = true := opens_of_matches second
  -- the classes are the same where what the texts begin with settles the class
  have settled (same : classOf (c :: (w ++ t)) = a) : a = b :=
    same.symm.trans (classOf_of_matches second)
  cases a with
  | blank =>
    have mark := firstMark_cons (w ++ t) (isDigit_of_isBlank shorter)
    exact .inl (settled (by rw [classOf, mark]; exact if_pos shorter))
  | sign k =>
    obtain ⟨m, rfl⟩ := eq_sign_of_opens first.1 shorter longer
    by_cases same : k = m
    · exact .inl (by rw [same])
    · refine .inr ?_
      have begins : k.symbol.toList <+: m.symbol.toList := by
        rw [← first.2, ← second.2]
        exact List.prefix_append ..
      simpa [grows, same] using begins
  | hexadecimal | binary =>
    obtain ⟨mark, digits, written, listed, -⟩ := first
    obtain ⟨rfl, rfl⟩ := List.cons.inj written
    refine .inl (settled ?_)
    rcases listed with rfl | rfl <;> rfl
  | real =>
    obtain ⟨digits, mark, rest, all, written, listed, digit⟩ := exists_of_real first
    refine .inl (settled ?_)
    rw [← List.cons_append]
    have whole : c :: w ++ t = digits ++ mark :: (rest ++ t) := by
      rw [written, List.append_assoc, List.cons_append]
    exact classOf_real all whole listed (by rw [List.any_append, digit, Bool.true_or])
  | integer =>
    cases b with
    | blank => exact absurd ((isDigit_of_isBlank longer).symm.trans shorter) Bool.false_ne_true
    | sign m =>
      obtain ⟨k, same⟩ := eq_sign_of_opens second.1 longer shorter
      cases same
    | identifier =>
      exact absurd ((startsIdentifier_of_isDigit shorter).symm.trans longer) Bool.false_ne_true
    | hexadecimal | binary | real => exact .inr rfl
    | integer => exact .inl rfl
  | identifier =>
    obtain ⟨noBlank, noDigit⟩ := of_startsIdentifier shorter
    have mark := firstMark_cons (w ++ t) noDigit
    have starts : startsIdentifier c = true := shorter
    exact .inl (settled (by simp [classOf, mark, noBlank, starts]))

end LexemeClass

namespace Lexeme

/-! ## The first lexeme -/

/-- The longest lexeme of the first of the classes that `s` begins with a lexeme of. -/
def first? (rules : List LexemeClass) (s : List Char) : Option Lexeme :=
  rules.findSome? fun sort => (sort.munch? s).map fun text => ⟨sort, text⟩

/-- The text `s` begins with the lexeme, and with no longer one of its class, and with none of a
class that is listed before. -/
structure ComesFirst (rules : List LexemeClass) (l : Lexeme) (s : List Char) : Prop where
  matched : l.sort.Matches l.text
  begins : l.text <+: s
  longest : ∀ w, l.sort.Matches w → w <+: s → w.length ≤ l.text.length
  first : ∃ earlier later, rules = earlier ++ l.sort :: later ∧
    ∀ sort ∈ earlier, ∀ w, sort.Matches w → ¬ w <+: s

section Rules

variable {rules : List LexemeClass} (listed : rules.Perm LexemeClass.all)

include listed in
theorem first?_eq_some {l : Lexeme} {s : List Char} :
    first? rules s = some l ↔ l.ComesFirst rules s := by
  have munched (sort : LexemeClass) (rule : sort ∈ rules) :=
    LexemeClass.longest_munch? (listed.mem_iff.1 rule) s
  rw [first?, List.findSome?_eq_some_iff]
  constructor
  · rintro ⟨earlier, sort, later, rfl, found, missing⟩
    obtain ⟨text, munch, rfl⟩ := Option.map_eq_some_iff.1 found
    have longest := munched sort (by simp)
    rw [munch] at longest
    refine ⟨longest.1.1, longest.1.2, longest.2, earlier, later, rfl, ?_⟩
    intro sort earlier
    have unmatched := munched sort (by simp [earlier])
    rwa [Option.map_eq_none_iff.1 (missing sort earlier)] at unmatched
  · rintro ⟨matched, begins, reaches, earlier, later, rfl, missing⟩
    refine ⟨earlier, l.sort, later, rfl, ?_, ?_⟩
    · have longest := munched l.sort (by simp)
      match found : l.sort.munch? s, longest with
      | none, longest => exact absurd begins (longest _ matched)
      | some text, longest =>
        have same : text.length = l.text.length :=
          Nat.le_antisymm (reaches text longest.1.1 longest.1.2) (longest.2 _ matched begins)
        have : text <+: l.text :=
          List.prefix_of_prefix_length_le longest.1.2 begins (Nat.le_of_eq same)
        rw [this.eq_of_length same]
        rfl
    · intro sort earlier
      match found : sort.munch? s, munched sort (by simp [earlier]) with
      | none, _ => rfl
      | some text, longest => exact absurd longest.1.2 (missing sort earlier text longest.1.1)

variable (ordered : rules.Pairwise fun earlier later => earlier.grows later = false)

include listed ordered in
/-- If the lexeme could be longer, its class would grow into one that is listed after it. -/
theorem ComesFirst.leads {l : Lexeme} {s : List Char} (first : l.ComesFirst rules s) :
    l.Leads s := by
  refine ⟨first.matched, first.begins, ?_⟩
  intro m matched begins
  apply Nat.le_of_not_lt
  intro longer
  have within := List.prefix_of_prefix_length_le first.begins begins (Nat.le_of_lt longer)
  rcases LexemeClass.grows_of_prefix first.matched matched within with same | grows
  · have := first.longest m.text (same ▸ matched) begins
    omega
  · obtain ⟨earlier, later, rfl, missing⟩ := first.first
    have rule : m.sort ∈ earlier ++ l.sort :: later :=
      listed.mem_iff.2 (LexemeClass.mem_all_of_matches matched)
    rcases List.mem_append.1 rule with before | after
    · exact missing m.sort before m.text matched begins
    · rcases List.mem_cons.1 after with same | after
      · have := first.longest m.text (same ▸ matched) begins
        omega
      · have := List.rel_of_pairwise_cons (List.pairwise_append.1 ordered).2.1 after
        rw [grows] at this
        cases this

include listed ordered in
/-- Trying the classes in order finds the longest lexeme of all. -/
theorem first?_eq_longest? (s : List Char) : first? rules s = longest? s := by
  match found : first? rules s with
  | some l =>
    have leads := ((first?_eq_some listed).1 found).leads listed ordered
    rw [longest?_eq_some.2 leads]
  | none =>
    match longest : longest? s with
    | none => rfl
    | some l =>
      have leads := longest?_eq_some.1 longest
      have rule := listed.mem_iff.2 (LexemeClass.mem_all_of_matches leads.matched)
      have none := List.findSome?_eq_none_iff.1 found l.sort rule
      have missing := LexemeClass.longest_munch? (listed.mem_iff.1 rule) s
      rw [Option.map_eq_none_iff.1 none] at missing
      exact absurd leads.begins (missing _ leads.matched)

end Rules

/-- Where decimal integers are tried before other numerals, they cut these short. -/
example : first? [.integer, .hexadecimal] "0x1f".toList = some ⟨.integer, ['0']⟩ := rfl

end Lexeme

/-! ## The documented order -/

namespace LexemeClass

/-- The operators, each before those that it begins with. -/
def operators : List Kind :=
  [.plus, .minus, .times, .divide, .power, .remainder, .shiftRightZero, .shiftRight, .shiftLeft]

def brackets : List Kind := [.openParen, .closeParen]

/-- The order of the classes: blanks, the separator, operators, brackets, numerals, identifiers. -/
def priority : List LexemeClass :=
  [blank, sign .comma] ++ operators.map sign ++ brackets.map sign ++
    [hexadecimal, binary, real, integer, identifier]

theorem priority_perm : priority.Perm all := List.Perm.refl _

theorem priority_ordered :
    priority.Pairwise fun earlier later => earlier.grows later = false := by
  decide

end LexemeClass

theorem Lexeme.first?_priority (s : List Char) : first? LexemeClass.priority s = longest? s :=
  first?_eq_longest? LexemeClass.priority_perm LexemeClass.priority_ordered s

namespace Token

open Lexeme

/-- The tokens of a text when at every position the first lexeme counts. Where there is none, or one
that is refused, the rest of the text is reported. -/
def ofCharsInOrder (s : List Char) : Except SyntaxError (List Token) :=
  if _ : s = [] then .ok [finish]
  else
    match _ : first? LexemeClass.priority s with
    | none => .error (.unrecognized (String.ofList s))
    | some l =>
      match l.tokens? with
      | none => .error (.unrecognized (String.ofList s))
      | some tokens => do
        let rest ← ofCharsInOrder (s.drop l.text.length)
        .ok (tokens ++ rest)
termination_by s.length
decreasing_by exact length_drop_lt ‹_› ((first?_priority _).symm.trans ‹_›)

/-- The classes may be tried in the documented order instead of looking for the longest lexeme of
all: the tokens are the same, and so is the rest of a text that is refused. -/
theorem ofCharsInOrder_eq (s : List Char) :
    ofCharsInOrder s = ofChars s ∧
      ∀ l, first? LexemeClass.priority s = some l ↔ l.ComesFirst LexemeClass.priority s := by
  refine ⟨?_, fun l => first?_eq_some LexemeClass.priority_perm⟩
  fun_induction ofChars s with
  | case1 =>
    rw [ofCharsInOrder]
    rfl
  | case2 s nonempty missing =>
    rw [ofCharsInOrder, dif_neg nonempty]
    split
    · rfl
    · next l found =>
      rw [first?_priority, missing] at found
      cases found
  | case3 s nonempty l found refused =>
    rw [ofCharsInOrder, dif_neg nonempty]
    split
    · rfl
    · next m first =>
      obtain rfl := Option.some.inj ((found.symm.trans (first?_priority s).symm).trans first)
      rw [refused]
  | case4 s nonempty l found tokens accepted ih =>
    rw [ofCharsInOrder, dif_neg nonempty]
    split
    · next missing =>
      rw [first?_priority, found] at missing
      cases missing
    · next m first =>
      obtain rfl := Option.some.inj ((found.symm.trans (first?_priority s).symm).trans first)
      rw [accepted, ih]

end Token

end Calculator
