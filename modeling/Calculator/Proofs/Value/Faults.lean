import Calculator.Grammar.Arithmetic
import Calculator.Proofs.Value.Calls

/-!
# The faults of a tree

What is wrong with a tree can be listed without evaluating it: `Tree.faults` has every node that
means nothing, every callee that is no function, and nothing else, in the order in which an
evaluation comes to them. An operand is come to before the sign that cannot stand before it, and a
callee before the arguments. Within a callee nothing is ever evaluated.

An evaluation fails with the first fault, and has a value if there is none, unless a sum keeps it
busy for ever (`value_eq_iff_faults`). The numbers that are evaluated have no part in this. Those in
a callee that is no name do, as they are in the text it is reported by.
-/

namespace Calculator

namespace Function

theorem name_of_named? {s : String} {f : Function} (named : named? s = some f) : f.name = s := by
  have found := List.find?_some named
  exact beq_iff_eq.1 found

theorem named?_eq_none {s : String} : named? s = none ↔ ∀ f ∈ all, f.name ≠ s := by
  simp [named?, List.find?_eq_none]

end Function

namespace Tree

/-! ## Faults -/

/-- What is wrong with a callee: its name, if it has one, is not that of a function. -/
def calleeFaults (callee : Tree) : List EvalError :=
  match callee.name? with
  | some name => if ∃ f ∈ Function.all, f.name = name then [] else [.unknownFunction name]
  | none => [.unknownFunction callee.text]

mutual

/-- What is wrong with a tree, in the order in which an evaluation comes to it. -/
def faults (g : Grammar) (t : Tree) : List EvalError :=
  match g.meaning t.kind with
  | .none => [.meaningless t.kind]
  | .literal => if t.number?.isSome then [] else [.meaningless t.kind]
  | .operator op =>
    match t with
    | binary _ left right => left.faults g ++ right.faults g
    | unary _ operand =>
      operand.faults g ++ if op = .add ∨ op = .subtract then [] else [.meaningless t.kind]
    | _ => [.meaningless t.kind]
  | .call =>
    match t with
    | call _ callee arguments => calleeFaults callee ++ faultsAmong g arguments
    | _ => [.meaningless t.kind]

/-- What is wrong with arguments, from the first one on. -/
def faultsAmong (g : Grammar) : List Tree → List EvalError
  | [] => []
  | t :: ts => t.faults g ++ faultsAmong g ts

end

/-! ## How an evaluation ends -/

/-- How an evaluation ends that is to meet the faults and makes the calls. -/
inductive Ending {α : Type} (faults : List EvalError) (calls : List Call) : Except Failure α → Prop
    where
  | value {x : α} (sound : faults = []) : Ending faults calls (.ok x)
  | fault {e : EvalError} {rest : List EvalError} (first : faults = e :: rest) :
    Ending faults calls (.error (.eval e))
  | endless {c : Call} (made : c ∈ calls) (never : ¬ c.Ends) : Ending faults calls (.error .endless)

namespace Ending

variable {α β : Type} {fs fs' : List EvalError} {cs : List Call}

/-- An evaluation in two parts meets the faults of the second after those of the first. -/
theorem bind {r : Except Failure α} {go : α → Except Failure β} {later : α → List Call}
    (first : Ending fs cs r) (second : ∀ x, r = .ok x → Ending fs' (later x) (go x)) :
    Ending (fs ++ fs') (cs ++ afterOk r later) (r >>= go) := by
  cases first with
  | @value x sound =>
    subst sound
    have ending := second x rfl
    change Ending ([] ++ fs') (cs ++ later x) (go x)
    rw [List.nil_append]
    generalize go x = q at ending
    cases ending with
    | value sound => exact .value sound
    | fault first => exact .fault first
    | endless made never => exact .endless (List.mem_append_right cs made) never
  | @fault e rest first =>
    subst first
    exact .fault rfl
  | endless made never => exact .endless (List.mem_append_left _ made) never

/-- The same for a second part that makes no calls. -/
theorem bind_silent {r : Except Failure α} {go : α → Except Failure β} (first : Ending fs cs r)
    (second : ∀ x, r = .ok x → Ending fs' [] (go x)) : Ending (fs ++ fs') cs (r >>= go) := by
  have ending := first.bind second
  have silent : afterOk r (fun _ => ([] : List Call)) = [] := by cases r <;> rfl
  rwa [silent, List.append_nil] at ending

/-- The same for a second part that cannot fail. -/
theorem map {r : Except Failure α} (first : Ending fs cs r) (f : α → β) :
    Ending fs cs (r >>= fun x => .ok (f x)) := by
  cases first with
  | value sound => exact .value sound
  | fault first => exact .fault first
  | endless made never => exact .endless made never

end Ending

theorem ending_meaningless (t : Token) (cs : List Call) :
    Ending [.meaningless t.kind] cs (meaningless t) :=
  .fault rfl

theorem ending_literalValue (t : Token) (cs : List Call) :
    Ending (if t.number?.isSome then [] else [.meaningless t.kind]) cs (literalValue t) := by
  unfold literalValue
  cases t.number? with
  | some x => exact .value rfl
  | none => exact ending_meaningless t cs

theorem ending_applyPrefix? (t : Token) (op : Operator) (x : Float) :
    Ending (if op = .add ∨ op = .subtract then [] else [.meaningless t.kind]) []
      (match op.applyPrefix? x with | some y => .ok y | none => meaningless t) := by
  cases op with
  | add | subtract => exact .value rfl
  | _ => exact ending_meaningless t []

theorem ending_calledFunction (callee : Tree) :
    Ending (calleeFaults callee) [] (calledFunction callee) := by
  unfold calleeFaults calledFunction
  cases callee.name? with
  | none => exact .fault rfl
  | some name =>
    cases named : Function.named? name with
    | some f =>
      have known : ∃ f ∈ Function.all, f.name = name :=
        ⟨f, f.mem_all, Function.name_of_named? named⟩
      simp only [named]
      exact .value (if_pos known)
    | none =>
      have unknown : ¬ ∃ f ∈ Function.all, f.name = name := by
        rintro ⟨f, listed, same⟩
        exact Function.named?_eq_none.1 named f listed same
      simp only [named]
      exact .fault (if_neg unknown)

theorem ending_application (f : Function) (source : RandomSource) (xs : List Float) :
    Ending [] [⟨f, xs⟩] (orEndless (f.value? source xs)) := by
  by_cases ends : Call.Ends ⟨f, xs⟩
  · obtain ⟨x, some⟩ := ends.exists_value source
    rw [show f.value? source xs = _ from some]
    exact .value rfl
  · cases f.value? source xs with
    | some x => exact .value rfl
    | none => exact .endless (List.mem_singleton_self _) ends

section Trees

variable {g : Grammar}

theorem value_of_literal {t : Tree} (role : g.meaning t.kind = .literal) (source : RandomSource) :
    t.value g source = literalValue t.label := by
  cases t <;> simp only [kind, label] at role <;> simp only [value, role, label]

theorem value_of_none {t : Tree} (role : g.meaning t.kind = .none) (source : RandomSource) :
    t.value g source = meaningless t.label := by
  cases t <;> simp only [kind, label] at role <;> simp only [value, role, label]

mutual

/-- Evaluating a tree meets its faults and makes its calls. -/
theorem ending_value (t : Tree) (source : RandomSource) :
    Ending (t.faults g) (t.calls g source) (t.value g source) := by
  rw [faults.eq_def]
  cases role : g.meaning t.kind with
  | none =>
    rw [value_of_none role]
    exact ending_meaningless t.label _
  | literal =>
    rw [value_of_literal role]
    exact ending_literalValue t.label _
  | operator op =>
    cases t with
    | binary t left right =>
      simp only [calls, value, show g.meaning t.kind = _ from role]
      refine (ending_value left _).bind ?_
      intro x _
      exact (ending_value right _).map fun y => op.apply x y
    | unary t operand =>
      simp only [calls, value, show g.meaning t.kind = _ from role]
      refine (ending_value operand _).bind_silent ?_
      intro x _
      exact ending_applyPrefix? t op x
    | leaf t | call t =>
      simp only [value, show g.meaning t.kind = _ from role]
      exact ending_meaningless t _
  | call =>
    cases t with
    | call t callee arguments =>
      simp only [calls, value, show g.meaning t.kind = _ from role]
      refine (ending_calledFunction callee).bind ?_
      intro f _
      have applied := (ending_values arguments source 0).bind fun xs _ =>
        ending_application f source xs
      rwa [List.append_nil] at applied
    | leaf t | unary t | binary t =>
      simp only [value, show g.meaning t.kind = _ from role]
      exact ending_meaningless t _

theorem ending_values : ∀ (ts : List Tree) (source : RandomSource) (i : Nat),
    Ending (faultsAmong g ts) (callsAmong g source i ts) (values g source i ts)
  | [], source, i => .value rfl
  | t :: ts, source, i => by
    rw [faultsAmong, callsAmong, values]
    refine (ending_value t _).bind ?_
    intro x _
    exact (ending_values ts source _).map fun xs => x :: xs

end

end Trees

/-! ## Faults and numbers -/

/-- A token with zero in the place of its number, if it carries one. -/
def zeroed (t : Token) : Token :=
  match t.payload with
  | .number _ => ⟨t.kind, .number 0⟩
  | _ => t

theorem kind_zeroed (t : Token) : (zeroed t).kind = t.kind := by
  unfold zeroed
  split <;> rfl

theorem isSome_number?_zeroed (t : Token) : (zeroed t).number?.isSome = t.number?.isSome := by
  unfold zeroed
  split
  · next carried => rw [Token.number?, Token.number?, carried]; rfl
  · rfl

mutual

/-- A tree without the numbers that are evaluated. Every callee stays in place as it is, with its
numbers: nothing of it is evaluated, but it may be reported by its text. -/
def skeleton : Tree → Tree
  | leaf t => leaf (zeroed t)
  | unary t operand => unary (zeroed t) operand.skeleton
  | binary t left right => binary (zeroed t) left.skeleton right.skeleton
  | call t callee arguments => call (zeroed t) callee (skeletons arguments)

def skeletons : List Tree → List Tree
  | [] => []
  | t :: ts => t.skeleton :: skeletons ts

end

section Skeleton

variable {g : Grammar}

mutual

theorem faults_skeleton : ∀ t : Tree, t.skeleton.faults g = t.faults g
  | leaf t => by
    simp only [skeleton, faults, kind, label, number?, kind_zeroed, isSome_number?_zeroed]
    rfl
  | unary t operand => by
    have inner := faults_skeleton operand
    simp only [skeleton, faults, kind, label, number?, kind_zeroed, isSome_number?_zeroed, inner]
    rfl
  | binary t left right => by
    have first := faults_skeleton left
    have second := faults_skeleton right
    simp only [skeleton, faults, kind, label, number?, kind_zeroed, isSome_number?_zeroed, first,
      second]
    rfl
  | call t callee arguments => by
    have inner := faultsAmong_skeletons arguments
    simp only [skeleton, faults, kind, label, number?, kind_zeroed, isSome_number?_zeroed, inner]
    rfl

theorem faultsAmong_skeletons : ∀ ts : List Tree,
    faultsAmong g (skeletons ts) = faultsAmong g ts
  | [] => rfl
  | t :: ts => by
    rw [skeletons, faultsAmong, faultsAmong, faults_skeleton t, faultsAmong_skeletons ts]

end

/-! ## Values and first faults -/

/-- If all sums that are run come to an end, a tree has a value just if it has no faults, and
otherwise its evaluation fails with the first of them. Which faults it has does not depend on the
numbers outside its callees. -/
theorem value_eq_iff_faults {source : RandomSource} {t : Tree}
    (ends : ∀ c ∈ t.calls g source, c.Ends) :
    ((∃ x, t.value g source = .ok x) ↔ t.faults g = []) ∧
      (∀ e, t.value g source = .error (.eval e) ↔ (t.faults g).head? = some e) ∧
      ∀ u : Tree, u.skeleton = t.skeleton → u.faults g = t.faults g := by
  have ending : Ending (t.faults g) (t.calls g source) (t.value g source) := ending_value t source
  have same (u : Tree) (alike : u.skeleton = t.skeleton) : u.faults g = t.faults g := by
    rw [← faults_skeleton u, alike, faults_skeleton t]
  generalize t.value g source = r at ending
  cases ending with
  | value sound => simpa [sound] using same
  | fault first => simpa [first] using same
  | endless made never => exact absurd (ends _ made) never

/-- In `*(sum(2, 1))` the sum is run, over an empty range, before the sign without a first operand
is found to mean nothing. -/
theorem value_eq_iff_faults_operand :
    (∀ c ∈ (unary (.mark .times) (call (.mark .openParen) (leaf (.name "sum"))
      [leaf (.number 2), leaf (.number 1)])).calls .arithmetic (.ofSeed 0), c.Ends) ∧
    (unary (.mark .times) (call (.mark .openParen) (leaf (.name "sum"))
      [leaf (.number 2), leaf (.number 1)])).value .arithmetic (.ofSeed 0) =
        .error (.eval (.meaningless .times)) := by
  have ends : ∀ c ∈ (unary (.mark .times) (call (.mark .openParen) (leaf (.name "sum"))
      [leaf (.number 2), leaf (.number 1)])).calls .arithmetic (.ofSeed 0), c.Ends := by
    intro c made
    obtain rfl : c = ⟨.sum, [2, 1]⟩ := List.mem_singleton.1 made
    intro _
    refine ⟨0, ?_⟩
    rw [Range.sum?, Range.addFrom, if_neg (by decide)]
  exact ⟨ends, ((value_eq_iff_faults ends).2.1 _).2 rfl⟩

end Skeleton

end Tree

end Calculator
