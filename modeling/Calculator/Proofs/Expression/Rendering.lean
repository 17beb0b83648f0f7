import Calculator.Proofs.Arithmetic.Writing

/-!
# Trees and their texts

The text of a well-formed tree is a heading in parentheses, with the texts of the operands after it
(`text_eq`). The heading says what the node is (`ofHeading?_heading`), and it ends where an operand
or the closing parenthesis begins. So the text of a tree ends by itself: whatever stands after it, a
text begins with the text of one tree at most (`WellFormed.delimited`), and the trees of expressions
are told apart by their texts (`Expression.tree_eq_of_text_eq`).
-/

namespace Calculator

namespace Tree

/-- What stands below a node, from left to right. -/
def operands : Tree → List Tree
  | leaf _ => []
  | unary _ operand => [operand]
  | binary _ left right => [left, right]
  | call _ callee arguments => callee :: arguments

/-- What stands before the operands in the text of a node. -/
def heading : Tree → List Char
  | leaf t =>
    match t.payload with
    | .number value => "literal ".toList ++ (Number.text value).toList
    | .name identifier => "name ".toList ++ identifier.toList
    | .none => t.kind.symbol.toList
  | unary t _ | binary t _ _ => t.kind.symbol.toList
  | call _ _ _ => "call".toList

/-- The node with a heading and operands. -/
def ofHeading? (w : List Char) : List Tree → Option Tree
  | [] =>
    if "literal ".toList.isPrefixOf w then
      (Number.ofUnsigned? (w.drop 8)).map fun x => leaf (.number x)
    else some (leaf (.name (String.ofList (w.drop 5))))
  | x :: xs =>
    if w = "call".toList then some (call (.mark .openParen) x xs)
    else do
      let kind ← Kind.ofSymbol? (String.ofList w)
      match xs with
      | [] => some (unary (.mark kind) x)
      | y :: _ => some (binary (.mark kind) x y)

end Tree

/-! ## Texts that end by themselves -/

/-- No blank and no parenthesis is in the word, and it is not empty. -/
structure Word (w : List Char) : Prop where
  ne_nil : w ≠ []
  plain : ∀ c ∈ w, c ∉ [' ', '(', ')']

/-- A heading is a word, perhaps after another word and a blank. So it has no parenthesis in it and
no blank at its end. -/
structure Heading (w : List Char) : Prop where
  plain : ∀ c ∈ w, c ∉ ['(', ')']
  tight : w.getLast? ≠ some ' '

/-- What can stand after a heading: the closing parenthesis or an operand. -/
inductive AfterHeading : List Char → Prop where
  | close (r : List Char) : AfterHeading (')' :: r)
  | operand (r : List Char) : AfterHeading (' ' :: '(' :: r)

theorem Word.heading {v w : List Char} (word : Word w) (plain : ∀ c ∈ v, c ∉ ['(', ')']) :
    Heading (v ++ w) := by
  refine ⟨List.forall_mem_append.2 ⟨plain, fun c listed => ?_⟩, fun blank => ?_⟩
  · exact fun paren => word.plain c listed (List.mem_cons_of_mem _ paren)
  · rw [List.getLast?_append_of_ne_nil _ word.ne_nil] at blank
    exact word.plain ' ' (List.mem_of_getLast? blank) (by decide)

/-- A heading does not go on with what can stand after it. -/
theorem Heading.eq_nil {w v r : List Char} (heading : Heading (w ++ v))
    (after : AfterHeading (v ++ r)) : v = [] := by
  obtain ⟨plain, tight⟩ := heading
  have absent {c : Char} (listed : c ∈ v) : c ∉ ['(', ')'] :=
    plain c (List.mem_append_right w listed)
  generalize whole : v ++ r = z at after
  cases after with
  | close z =>
    rcases List.append_eq_cons_iff.1 whole with ⟨empty, -⟩ | ⟨v, rfl, -⟩
    · exact empty
    · exact absurd (absent (List.mem_cons_self ..)) (by decide)
  | operand z =>
    rcases List.append_eq_cons_iff.1 whole with ⟨empty, -⟩ | ⟨v, rfl, rest⟩
    · exact empty
    · rcases List.append_eq_cons_iff.1 rest.symm with ⟨rfl, -⟩ | ⟨v, rfl, -⟩
      · simp at tight
      · exact absurd (absent (List.mem_cons_of_mem _ (List.mem_cons_self ..))) (by decide)

theorem Heading.append {v w r s : List Char} (first : Heading v) (second : Heading w)
    (afterFirst : AfterHeading r) (afterSecond : AfterHeading s) (same : v ++ r = w ++ s) :
    v = w ∧ r = s := by
  rcases List.append_eq_append_iff.1 same with ⟨u, rfl, rfl⟩ | ⟨u, rfl, rfl⟩
  · obtain rfl := second.eq_nil afterFirst
    simp
  · obtain rfl := first.eq_nil afterSecond
    simp

namespace Arithmetic

open Calculator.Tree (heading operands ofHeading? listText)

/-! ## Headings -/

theorem symbol_ne_call (kind : Kind) : kind.symbol.toList ≠ "call".toList := by
  cases kind <;> decide

/-- The heading and the operands of a node determine it. -/
theorem ofHeading?_heading {t : Tree} (wellFormed : WellFormed t) :
    ofHeading? t.heading t.operands = some t := by
  cases wellFormed with
  | @number x unsigned =>
    have value := Number.ofUnsigned?_text unsigned
    simp [heading, operands, ofHeading?, Token.number, value]
  | @name s plain => simp [heading, operands, ofHeading?, Token.name]
  | @signed kind x sign operand =>
    simp only [heading, operands, ofHeading?, Token.mark, if_neg (symbol_ne_call kind),
      String.ofList_toList, Kind.ofSymbol?_symbol]
    rfl
  | @operation kind x y operator left right =>
    simp only [heading, operands, ofHeading?, Token.mark, if_neg (symbol_ne_call kind),
      String.ofList_toList, Kind.ofSymbol?_symbol]
    rfl
  | call => rfl

theorem word_text {x : Float} (unsigned : Binary64.Unsigned x) : Word (Number.text x).toList := by
  refine ⟨fun empty => ?_, fun c listed stop => ?_⟩
  · have value := Number.ofUnsigned?_text unsigned
    rw [empty] at value
    cases value
  · have mem := Number.mem_text unsigned c listed
    simp only [List.mem_cons, List.not_mem_nil, or_false] at stop
    rcases stop with rfl | rfl | rfl <;> exact absurd mem (by decide)

theorem PlainName.word {s : String} (plain : PlainName s) : Word s.toList := by
  obtain ⟨first, rest, written, starts, continues⟩ := plain.identifier
  rw [written]
  refine ⟨nofun, fun c listed stop => ?_⟩
  have mem : LexemeClass.continuesIdentifier c = true := by
    rcases List.mem_cons.1 listed with rfl | listed
    · rw [LexemeClass.continuesIdentifier, starts, Bool.true_or]
    · exact continues c listed
  simp only [List.mem_cons, List.not_mem_nil, or_false] at stop
  rcases stop with rfl | rfl | rfl <;> exact absurd mem (by decide)

theorem word_symbol {kind : Kind} (operator : kind ∈ operators) : Word kind.symbol.toList := by
  have words : ∀ k ∈ operators, k.symbol.toList ≠ [] ∧
      k.symbol.toList.all (· ∉ [' ', '(', ')']) = true := by decide
  obtain ⟨nonempty, plain⟩ := words kind operator
  exact ⟨nonempty, by simpa using plain⟩

theorem WellFormed.heading {t : Tree} (wellFormed : WellFormed t) : Heading t.heading := by
  cases wellFormed with
  | number unsigned => exact (word_text unsigned).heading (by simp)
  | name plain => exact plain.word.heading (by simp)
  | @signed kind x sign operand =>
    have operator : kind ∈ operators := by rcases sign with rfl | rfl <;> decide
    exact (word_symbol operator).heading (v := []) nofun
  | operation operator => exact (word_symbol operator).heading (v := []) nofun
  | call =>
    have word : Word "call".toList := ⟨by simp, by simp⟩
    exact word.heading (v := []) nofun

/-- Nothing is written but the heading and the operands. -/
theorem text_eq {t : Tree} (wellFormed : WellFormed t) :
    t.text.toList = '(' :: (t.heading ++ ((listText t.operands).toList ++ [')'])) := by
  cases wellFormed with
  | number => simp [Tree.text, Tree.nodeText, Tree.heading, operands, listText, Token.number]
  | name => simp [Tree.text, Tree.nodeText, Tree.heading, operands, listText, Token.name]
  | signed => simp [Tree.text, Tree.nodeText, Tree.heading, operands, listText, Token.mark]
  | operation => simp [Tree.text, Tree.nodeText, Tree.heading, operands, listText, Token.mark]
  | call => simp [Tree.text, Tree.nodeText, Tree.heading, operands, listText, Token.mark]

/-! ## Texts -/

theorem afterHeading_listText {xs : List Tree} (wellFormed : ∀ x ∈ xs, WellFormed x)
    (r : List Char) : AfterHeading ((listText xs).toList ++ ')' :: r) := by
  cases xs with
  | nil => exact .close r
  | cons x xs =>
    have opens := text_eq (wellFormed x (List.mem_cons_self ..))
    simp only [listText, String.toList_append, opens]
    exact .operand _

/-- A text that begins with the text of `t` does not begin with that of another tree. -/
def Delimited (t : Tree) : Prop :=
  ∀ u r s, WellFormed u → t.text.toList ++ r = u.text.toList ++ s → t = u ∧ r = s

theorem eq_of_listText {xs ys : List Tree} {r s : List Char} (delimited : ∀ x ∈ xs, Delimited x)
    (wellFormed : ∀ y ∈ ys, WellFormed y)
    (same : (listText xs).toList ++ ')' :: r = (listText ys).toList ++ ')' :: s) :
    xs = ys ∧ r = s := by
  induction xs generalizing ys with
  | nil =>
    cases ys with
    | nil => simpa [listText] using same
    | cons y ys => simp [listText] at same
  | cons x xs ih =>
    cases ys with
    | nil => simp [listText] at same
    | cons y ys =>
      obtain ⟨first, rest⟩ := List.forall_mem_cons.1 delimited
      obtain ⟨firstFormed, restFormed⟩ := List.forall_mem_cons.1 wellFormed
      simp only [listText, String.toList_append, List.append_assoc] at same
      obtain ⟨rfl, left⟩ := first y _ _ firstFormed (List.append_cancel_left same)
      obtain ⟨rfl, rfl⟩ := ih rest restFormed left
      exact ⟨rfl, rfl⟩

theorem WellFormed.operands {t : Tree} (wellFormed : WellFormed t) :
    ∀ x ∈ t.operands, WellFormed x := by
  cases wellFormed with
  | number | name => exact nofun
  | signed sign operand => exact List.forall_mem_singleton.2 operand
  | operation operator left right =>
    exact List.forall_mem_cons.2 ⟨left, List.forall_mem_singleton.2 right⟩
  | call callee arguments => exact List.forall_mem_cons.2 ⟨callee, arguments⟩

/-- The text of a node ends by itself if those of its operands do. -/
theorem delimited_of_operands {t : Tree} (wellFormed : WellFormed t)
    (delimited : ∀ x ∈ t.operands, Delimited x) : Delimited t := by
  intro u r s other same
  rw [text_eq wellFormed, text_eq other] at same
  simp only [List.cons_append, List.append_assoc, List.nil_append, List.cons.injEq, true_and] at same
  obtain ⟨heading, rest⟩ := wellFormed.heading.append other.heading
    (afterHeading_listText wellFormed.operands r) (afterHeading_listText other.operands s) same
  obtain ⟨operands, rfl⟩ := eq_of_listText delimited other.operands rest
  have found := ofHeading?_heading wellFormed
  rw [heading, operands, ofHeading?_heading other] at found
  exact ⟨(Option.some.inj found).symm, rfl⟩

theorem WellFormed.delimited {t : Tree} (wellFormed : WellFormed t) : Delimited t := by
  refine delimited_of_operands wellFormed ?_
  induction wellFormed with
  | number | name => exact nofun
  | signed sign operand ih => exact List.forall_mem_singleton.2 (delimited_of_operands operand ih)
  | operation operator left right ihLeft ihRight =>
    exact List.forall_mem_cons.2 ⟨delimited_of_operands left ihLeft,
      List.forall_mem_singleton.2 (delimited_of_operands right ihRight)⟩
  | call callee arguments ihCallee ihArguments =>
    exact List.forall_mem_cons.2 ⟨delimited_of_operands callee ihCallee,
      fun x listed => delimited_of_operands (arguments x listed) (ihArguments x listed)⟩

end Arithmetic

namespace Expression

open Arithmetic

/-- Expressions whose trees have the same text have the same tree, whatever stands after them. -/
theorem tree_eq_of_text_eq {p q : Tree.Trailing} {a b : String} {t u : Tree}
    (first : tree p a = .ok t) (second : tree q b = .ok u) (same : t.text = u.text) : t = u := by
  refine ((wellFormed_of_tree first).delimited u [] [] (wellFormed_of_tree second) ?_).1
  rw [same]

/-- The tree of `sum(1, x + 2 * -x)`. -/
def calledSum : Tree :=
  .call (.mark .openParen) (.leaf (.name "sum"))
    [.leaf (.number 1),
      .binary (.mark .plus) (.leaf (.name "x"))
        (.binary (.mark .times) (.leaf (.number 2)) (.unary (.mark .minus) (.leaf (.name "x"))))]

/-- Two spellings of `sum(1, x + 2 * -x)`, one of them with a stray parenthesis after it. -/
theorem tree_eq_of_text_eq_spellings : ∃ t u, tree .refuse "Sum(1, X + 2 * -x)" = .ok t ∧
    tree .ignore "sum (0x1, (x) + 2 * (-x)) )" = .ok u ∧ t.text = u.text ∧ t = u := by
  have first : tree .refuse "Sum(1, X + 2 * -x)" = .ok calledSum := by decide +kernel
  have second : tree .ignore "sum (0x1, (x) + 2 * (-x)) )" = .ok calledSum := by decide +kernel
  exact ⟨_, _, first, second, rfl, tree_eq_of_text_eq first second rfl⟩

end Expression

end Calculator
