import Calculator.Grammar.Arithmetic
import Calculator.Proofs.Value.Nodes
import Calculator.Tree.Reading

/-!
# Grammars that agree

A grammar has one part that says how tokens are read and one that says what trees mean, and neither
is looked at for the other's work. Of the first part only the roles of the tokens of the input and of
its end matter, also where another kind of token would have been needed, and of the second only those
of the labels of the tree (`congr_of_agree`).
-/

namespace Calculator

namespace Grammar

/-- Two grammars have the same rules for reading tokens of a kind, whatever trees mean by them. -/
structure ReadsAlike (g h : Grammar) (k : Kind) : Prop where
  power : g.power k = h.power k
  start : g.start k = h.start k
  extension : g.extension k = h.extension k

instance (g h : Grammar) (k : Kind) : Decidable (g.ReadsAlike h k) :=
  decidable_of_iff (g.power k = h.power k ∧ g.start k = h.start k ∧ g.extension k = h.extension k)
    ⟨fun ⟨power, start, extension⟩ => ⟨power, start, extension⟩,
      fun ⟨power, start, extension⟩ => ⟨power, start, extension⟩⟩

end Grammar

/-! ## Reading -/

namespace Reading

section Parts

variable {g h : Grammar} {s : Input} {read : Power → Nat → Reading Tree}

theorem start_eq_of_alike {t : Tree} (alike : g.ReadsAlike h t.kind) (i : Nat) :
    start g s read t i = start h s read t i := by
  unfold start
  rw [alike.start]

theorem extend_eq_of_alike {t : Tree} (alike : g.ReadsAlike h t.kind) (n : Nat) (left : Tree)
    (i : Nat) : extend g s read n t left i = extend h s read n t left i := by
  unfold extend
  rw [alike.extension]

variable (alike : ∀ i, g.ReadsAlike h (s.kind i))

include alike

theorem extensions_eq_of_alike (n : Nat) (p : Power) :
    extensions g s read n p = extensions h s read n p := by
  induction n with
  | zero => rfl
  | succ n ih =>
    funext left i
    rw [extensions, extensions, (alike i).power, extend_eq_of_alike (alike i), ih]

/-- Readings under the two grammars take the same steps. At every depth they end in the same way at
the same position, or both are unfinished. -/
theorem expression_eq_of_alike (n : Nat) : expression g s n = expression h s n := by
  induction n with
  | zero => rfl
  | succ n ih =>
    funext p i
    rw [expression, expression, start_eq_of_alike (alike i), extensions_eq_of_alike alike, ih]

end Parts

end Reading

namespace Tree

theorem ofInput_eq_of_alike {g h : Grammar} {s : Input} (alike : ∀ i, g.ReadsAlike h (s.kind i))
    (trailing : Trailing) : ofInput g trailing s = ofInput h trailing s := by
  unfold ofInput read
  rw [Reading.expression_eq_of_alike alike]

/-- The kinds of an input are those of its tokens and of its end. -/
theorem kind_ofList_mem (ts : List Tree) (i : Nat) :
    (Input.ofList ts).kind i ∈ .finish :: ts.map kind := by
  rw [Input.kind, Input.token_ofList, List.getD_eq_getElem?_getD]
  rcases Nat.lt_or_ge i ts.length with inner | outer
  · rw [List.getElem?_eq_getElem inner]
    exact List.mem_cons_of_mem _ (List.mem_map_of_mem (List.getElem_mem inner))
  · rw [List.getElem?_eq_none outer]
    exact List.mem_cons_self ..

/-! ## Evaluating -/

section Value

variable {g h : Grammar}

mutual

theorem value_eq_of_alike : ∀ (t : Tree) (source : RandomSource),
    (∀ u ∈ t.nodes, g.meaning u.kind = h.meaning u.kind) → t.value g source = t.value h source
  | leaf t, source, alike => by
    have label : g.meaning t.kind = h.meaning t.kind := alike _ (mem_nodes_self _)
    rw [value, value, label]
  | unary t operand, source, alike => by
    obtain ⟨label, below⟩ := List.forall_mem_cons.1 alike
    have label : g.meaning t.kind = h.meaning t.kind := label
    rw [value, value, label, operand.value_eq_of_alike _ below]
  | binary t left right, source, alike => by
    obtain ⟨label, below⟩ := List.forall_mem_cons.1 alike
    obtain ⟨first, second⟩ := List.forall_mem_append.1 below
    have label : g.meaning t.kind = h.meaning t.kind := label
    rw [value, value, label, left.value_eq_of_alike _ first, right.value_eq_of_alike _ second]
  | call t callee arguments, source, alike => by
    obtain ⟨label, below⟩ := List.forall_mem_cons.1 alike
    obtain ⟨-, later⟩ := List.forall_mem_append.1 below
    have label : g.meaning t.kind = h.meaning t.kind := label
    rw [value, value, label, values_eq_of_alike arguments _ _ later]

theorem values_eq_of_alike : ∀ (ts : List Tree) (source : RandomSource) (i : Nat),
    (∀ u ∈ nodesAmong ts, g.meaning u.kind = h.meaning u.kind) →
      values g source i ts = values h source i ts
  | [], _, _, _ => by rw [values, values]
  | t :: ts, source, i, alike => by
    obtain ⟨first, later⟩ := List.forall_mem_append.1 alike
    rw [values, values, t.value_eq_of_alike _ first, values_eq_of_alike ts _ _ later]

end

end Value

/-- What comes of reading tokens is decided by the rules for reading these tokens and the end of the
input, and the value of a tree by the meanings of its labels. The other rules of a grammar do not
matter. -/
theorem congr_of_agree (g h : Grammar) :
    (∀ ts : List Tree, (∀ k ∈ .finish :: ts.map kind, g.ReadsAlike h k) →
      (∀ trailing, ofInput g trailing (.ofList ts) = ofInput h trailing (.ofList ts)) ∧
        ∀ n p i, Reading.expression g (.ofList ts) n p i = Reading.expression h (.ofList ts) n p i) ∧
      ∀ t : Tree, (∀ k ∈ t.nodes.map kind, g.meaning k = h.meaning k) →
        ∀ source, t.value g source = t.value h source := by
  constructor
  · intro ts agree
    have alike (i : Nat) : g.ReadsAlike h ((Input.ofList ts).kind i) := agree _ (kind_ofList_mem ts i)
    refine ⟨ofInput_eq_of_alike alike, fun n p i => ?_⟩
    rw [Reading.expression_eq_of_alike alike]
  · intro t agree source
    exact t.value_eq_of_alike source fun u below => agree _ (List.mem_map_of_mem below)

/-- Sums of literals can be read, but have no value. -/
def sumsToRead : Grammar :=
  .ofRules [.leaf .literal, .power .plus 110, .leftward .plus 110, .operand .plus 130, .group .name]

/-- Sums of literals have a value, but cannot be read. -/
def sumsToEvaluate : Grammar :=
  .ofRules [.meaning .literal .literal, .meaning .plus (.operator .add), .power .finish 7]

/-- The tokens of `1 + 2`. -/
def onePlusTwo : List Tree :=
  [.leaf (.number 1), .leaf (.mark .plus), .leaf (.number 2)]

/-- The tree of `1 + 2`. -/
def onePlusTwoTree : Tree :=
  .binary (.mark .plus) (.leaf (.number 1)) (.leaf (.number 2))

/-- A sum is read as in arithmetic by a grammar that gives it no value, and it has the value that it
has in arithmetic by a grammar that cannot read it. -/
theorem congr_of_agree_sums :
    ofInput sumsToRead .refuse (.ofList onePlusTwo) = .ok onePlusTwoTree ∧
      onePlusTwoTree.value sumsToEvaluate (.ofSeed 0) = .ok (1 + 2) ∧
      (∀ k ∈ .finish :: onePlusTwo.map kind, sumsToRead.ReadsAlike .arithmetic k) ∧
      ∀ k ∈ onePlusTwoTree.nodes.map kind, sumsToEvaluate.meaning k = Grammar.arithmetic.meaning k := by
  have reads : ∀ k ∈ .finish :: onePlusTwo.map kind, sumsToRead.ReadsAlike .arithmetic k := by
    decide
  have means : ∀ k ∈ onePlusTwoTree.nodes.map kind,
      sumsToEvaluate.meaning k = Grammar.arithmetic.meaning k := by decide
  refine ⟨?_, ?_, reads, means⟩
  · rw [((congr_of_agree _ _).1 onePlusTwo reads).1 .refuse]
    rfl
  · rw [(congr_of_agree _ _).2 onePlusTwoTree means (.ofSeed 0)]
    rfl

end Tree

end Calculator
