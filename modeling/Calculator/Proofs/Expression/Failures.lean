import Calculator.Proofs.Arithmetic.Writing
import Calculator.Proofs.Reading.Refusal
import Calculator.Proofs.Value.Nodes

/-!
# Which failures there are

An expression can fail in seven ways (`Reported`), and the kind of the token that a failure names is
limited by the grammar of arithmetic in each of them. No operator is ever unknown, and of all nodes
only a name means nothing: every other node of a tree that has been read fits what its label means
(`reported_of_value`).
-/

namespace Calculator

/-! ## Failures of reading -/

/-- Under a safe grammar there is no tree just where a token stands that the grammar does not allow
there, or one after the whole expression. -/
theorem Tree.refused_of_ofInput {g : Grammar} (safe : g.Safe) {trailing : Trailing} {s : Input}
    {f : Failure} (fails : ofInput g trailing s = .error f) :
    (∃ e, f = .parse e ∧ Reading.Refused g e) ∨
      ∃ k, f = .parse (.trailing k) ∧ trailing = .refuse ∧ g.power k = 0 ∧ k ≠ .finish := by
  have ended := read_ended (s := s) safe 0 0
  have refused := Reading.refused_expression g s (Reading.bound s 0) 0 0
  have stops := Reading.stops_expression (g := g) (s := s) (Reading.bound s 0) 0 0
  rw [ofInput] at fails
  split at fails
  · next x i success =>
    have loose : g.power (s.kind i) = 0 := Nat.le_zero.1 (stops x i success)
    split at fails
    · next found =>
      obtain rfl := Except.error.inj fails
      exact .inr ⟨_, rfl, found.1, loose, found.2⟩
    · cases fails
  · next e i failure =>
    obtain rfl := Except.error.inj fails
    exact .inl ⟨e, rfl, refused e i failure⟩
  · next unfinished => exact absurd unfinished ended

namespace Arithmetic

open Calculator.Tree hiding arguments

theorem not_mem_of_start_eq_never {k : Kind} (never : Grammar.arithmetic.start k = .never) :
    k ∉ [Kind.literal, .name, .plus, .minus, .openParen] := by
  revert never
  cases k <;> decide

theorem mem_of_power_eq_zero {k : Kind} (loose : Grammar.arithmetic.power k = 0) :
    k ∈ [Kind.literal, .name, .closeParen, .comma, .finish] := by
  revert loose
  cases k <;> decide

/-- A token that binds to what stands before it can extend it. -/
theorem extension_ne_never {k : Kind} (binds : 0 < Grammar.arithmetic.power k) :
    Grammar.arithmetic.extension k ≠ .never := by
  revert binds
  cases k <;> decide

/-! ## The nodes of well-formed trees -/

theorem WellFormed.nodes {t : Tree} (wellFormed : WellFormed t) : ∀ u ∈ t.nodes, WellFormed u := by
  induction wellFormed with
  | number unsigned => exact List.forall_mem_singleton.2 (.number unsigned)
  | name plain => exact List.forall_mem_singleton.2 (.name plain)
  | signed sign operand ih => exact List.forall_mem_cons.2 ⟨.signed sign operand, ih⟩
  | operation operator left right ihLeft ihRight =>
    exact List.forall_mem_cons.2
      ⟨.operation operator left right, List.forall_mem_append.2 ⟨ihLeft, ihRight⟩⟩
  | call callee arguments ihCallee ihArguments =>
    refine List.forall_mem_cons.2
      ⟨.call callee arguments, List.forall_mem_append.2 ⟨ihCallee, ?_⟩⟩
    rw [nodesAmong_eq]
    intro u below
    obtain ⟨x, listed, inside⟩ := List.mem_flatMap.1 below
    exact ihArguments x listed u inside

theorem meaning_of_mem_operators {k : Kind} (operator : k ∈ operators) :
    ∃ op, Grammar.arithmetic.meaning k = .operator op := by
  revert operator
  cases k <;> simp [operators] <;> exact ⟨_, rfl⟩

/-- Names are the only nodes without a meaning for their shape. -/
theorem WellFormed.fits {t : Tree} (wellFormed : WellFormed t) (other : t.kind ≠ .name) :
    t.Fits .arithmetic := by
  cases wellFormed with
  | number => rfl
  | name => exact absurd rfl other
  | signed sign operand =>
    rcases sign with rfl | rfl
    · exact .inr ⟨rfl, .inl rfl⟩
    · exact .inr ⟨rfl, .inr rfl⟩
  | @operation k _ _ operator left right =>
    obtain ⟨op, role⟩ := meaning_of_mem_operators operator
    simp [Fits, kind, label, Token.mark, role, shape]
  | call => rfl

/-- A well-formed tree is a plain name or has none. -/
theorem WellFormed.name_or_nameless {t : Tree} (wellFormed : WellFormed t) :
    (∃ s, t = .leaf (.name s) ∧ PlainName s) ∨ t.kind ≠ .name ∧ t.name? = none := by
  cases wellFormed with
  | name plain => exact .inl ⟨_, rfl, plain⟩
  | number => exact .inr ⟨nofun, rfl⟩
  | signed sign operand => exact .inr ⟨by rcases sign with rfl | rfl <;> exact nofun, rfl⟩
  | operation operator left right =>
    refine .inr ⟨?_, rfl⟩
    rintro rfl
    revert operator
    decide
  | call => exact .inr ⟨nofun, rfl⟩

end Arithmetic

theorem Tree.text_opens (t : Tree) : t.text.toList.head? = some '(' := by
  have node (payload : Payload) (sign children : String) :
      (nodeText payload sign children).toList.head? = some '(' := by
    cases payload <;> simp [nodeText]
  cases t <;> exact node ..

namespace Expression

open Arithmetic

/-- The failures of the expression `text`. -/
inductive Reported (trailing : Tree.Trailing) (text : String) : Failure → Prop where
  /-- No lexeme begins somewhere before the end of the text. -/
  | unrecognized {rest : List Char} (nonempty : rest ≠ [])
    (ending : rest <:+ Text.lowercase text.toList) :
    Reported trailing text (.parse (.unrecognized (String.ofList rest)))
  | cannotStart {k : Kind} (other : k ∉ [Kind.literal, .name, .plus, .minus, .openParen]) :
    Reported trailing text (.parse (.cannotStart k))
  | unclosed {k : Kind} (listed : k ∈ [Kind.literal, .name, .comma, .finish]) :
    Reported trailing text (.parse (.unclosed k))
  | trailing {k : Kind} (refused : trailing = .refuse)
    (listed : k ∈ [Kind.literal, .name, .closeParen, .comma]) :
    Reported trailing text (.parse (.trailing k))
  /-- A name that is not called. -/
  | meaningless : Reported trailing text (.eval (.meaningless .name))
  /-- A name that is called is not that of a function. -/
  | unknownName {s : String} (plain : PlainName s) (unknown : ∀ f ∈ Function.all, f.name ≠ s) :
    Reported trailing text (.eval (.unknownFunction s))
  /-- What is called is not a name. -/
  | unknownCallee {t callee : Tree} {label : Token} {arguments : List Tree}
    (parsed : tree trailing text = .ok t) (called : .call label callee arguments ∈ t.nodes)
    (other : callee.kind ≠ .name) (opens : callee.text.toList.head? = some '(') :
    Reported trailing text (.eval (.unknownFunction callee.text))

variable {trailing : Tree.Trailing} {text : String}

theorem reported_of_tree {f : Failure} (fails : tree trailing text = .error f) :
    Reported trailing text f := by
  rw [tree] at fails
  split at fails
  · rcases Tree.refused_of_ofInput safe_arithmetic fails with ⟨e, rfl, refused⟩ | after
    · cases refused with
      | cannotStart never => exact .cannotStart (not_mem_of_start_eq_never never)
      | cannotExtend binds never => exact absurd never (extension_ne_never binds)
      | unclosed loose opened =>
        have listed := mem_of_power_eq_zero loose
        exact .unclosed (by simpa [opened] using listed)
    · obtain ⟨k, rfl, refused, loose, inner⟩ := after
      have listed := mem_of_power_eq_zero loose
      exact .trailing refused (by simpa [inner] using listed)
  · next e cutting =>
    obtain rfl := Except.error.inj fails
    have outcome := Token.ofChars_outcome (Text.lowercase text.toList)
    rw [cutting] at outcome
    cases outcome with
    | @stuck p r _ split _ _ _ stuck => exact .unrecognized stuck.1 ⟨p, split.symm⟩

/-- A fault of a tree that has been read is reported. -/
theorem reported_of_blamed {t : Tree} {e : EvalError} (parsed : tree trailing text = .ok t)
    (blamed : t.Blamed .arithmetic e) : Reported trailing text (.eval e) := by
  have wellFormed := (wellFormed_of_tree parsed).nodes
  cases blamed with
  | @meaningless u below misfit =>
    have isName : u.kind = .name := by
      by_contra other
      exact misfit ((wellFormed u below).fits other)
    rw [isName]
    exact .meaningless
  | @callee label callee arguments _ below fault =>
    cases wellFormed _ below with
    | call wellFormed =>
      rcases wellFormed.name_or_nameless with ⟨s, rfl, plain⟩ | ⟨other, nameless⟩
      · have named : (Tree.leaf (.name s)).name? = some s := rfl
        simp only [Tree.calleeFaults, named] at fault
        split at fault
        · cases fault
        · next unknown =>
          obtain rfl := List.mem_singleton.1 fault
          exact .unknownName plain fun f listed same => unknown ⟨f, listed, same⟩
      · rw [Tree.calleeFaults, nameless] at fault
        obtain rfl := List.mem_singleton.1 fault
        exact .unknownCallee parsed below other callee.text_opens

/-- Whatever the calculator fails with is one of the reported failures, unless a sum keeps it busy
for ever. In the tree of an expression all nodes but names fit the meaning of their label. -/
theorem reported_of_value (source : RandomSource) (trailing : Tree.Trailing) (text : String) :
    (∀ f, value source trailing text = .error f → Reported trailing text f ∨
      f = .endless ∧ ∃ t, tree trailing text = .ok t ∧ ∃ c ∈ t.calls .arithmetic source, ¬ c.Ends) ∧
      ∀ t, tree trailing text = .ok t → ∀ u ∈ t.nodes, u.kind ≠ .name → u.Fits .arithmetic := by
  constructor
  · intro f fails
    rw [value] at fails
    cases parsed : tree trailing text with
    | error e =>
      rw [parsed] at fails
      obtain rfl := Except.error.inj fails
      exact .inl (reported_of_tree parsed)
    | ok t =>
      rw [parsed] at fails
      have ending := Tree.ending_value (g := .arithmetic) t source
      rw [show t.value .arithmetic source = _ from fails] at ending
      cases ending with
      | @fault e rest first =>
        have listed : e ∈ t.faults .arithmetic := by
          rw [first]
          exact List.mem_cons_self ..
        exact .inl (reported_of_blamed parsed (Tree.mem_faults t listed))
      | endless made never => exact .inr ⟨rfl, t, rfl, _, made, never⟩
  · intro t parsed u below other
    exact ((wellFormed_of_tree parsed).nodes u below).fits other

/-- In `1 ( f )` the callee is no name, and is reported by its text. -/
theorem reported_of_value_literal :
    value (.ofSeed 0) .refuse "1 ( f )" = .error (.eval (.unknownFunction "(literal 1)")) ∧
      Reported .refuse "1 ( f )" (.eval (.unknownFunction "(literal 1)")) ∧
      (Tree.leaf (.number 1)).Fits .arithmetic := by
  have plain : PlainName "f" :=
    ⟨⟨'f', [], rfl, rfl, by simp⟩, List.forall_mem_singleton.2 rfl, by decide, by decide⟩
  have wellFormed : WellFormed
      (.call (.mark .openParen) (.leaf (.number 1)) [.leaf (.name "f")]) :=
    .call (.number (by decide)) (List.forall_mem_singleton.2 (.name plain))
  have parsed : tree .refuse "1 ( f )" =
      .ok (.call (.mark .openParen) (.leaf (.number 1)) [.leaf (.name "f")]) := by
    rw [← tree_of_writes wellFormed (writes_words wellFormed)]
    rfl
  have fails : value (.ofSeed 0) .refuse "1 ( f )" =
      .error (.eval (.unknownFunction "(literal 1)")) := by
    rw [value, parsed]
    rfl
  obtain ⟨reported, fits⟩ := reported_of_value (.ofSeed 0) .refuse "1 ( f )"
  refine ⟨fails, (reported _ fails).resolve_right nofun, fits _ parsed _ ?_ nofun⟩
  exact List.mem_cons_of_mem _ (List.mem_cons_self ..)

end Expression

end Calculator
