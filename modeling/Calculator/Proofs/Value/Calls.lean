import Calculator.Tree.Value

/-!
# The calls that an evaluation makes

Evaluating a tree applies functions to values. `Tree.calls` lists these applications in the order in
which they are made, up to the first failure: no argument after a failure is evaluated, and no
function is applied unless all its arguments have values. What an evaluation takes from outside the
tree it takes through calls, so the random source does not matter to one that never calls `rand`
(`value_eq_of_quiet`).
-/

namespace Calculator

/-- A function and the values it is applied to. -/
structure Call where
  function : Function
  arguments : List Float

namespace Call

/-- Computing the value comes to an end. Only a sum may run over a range that has none. -/
def Ends (c : Call) : Prop :=
  c.function = .sum →
    ∃ x, Range.sum? (Function.argument c.arguments 0) (Function.argument c.arguments 1)
      (Function.argument c.arguments 2) = some x

/-- The value does not depend on a random source. -/
def Quiet (c : Call) : Prop :=
  c.function ≠ .rand

theorem Ends.exists_value {c : Call} (ends : c.Ends) (source : RandomSource) :
    ∃ x, c.function.value? source c.arguments = some x := by
  obtain ⟨f, xs⟩ := c
  cases f with
  | sum => exact ends rfl
  | _ => exact ⟨_, rfl⟩

theorem Quiet.value_eq {c : Call} (quiet : c.Quiet) (source source' : RandomSource) :
    c.function.value? source' c.arguments = c.function.value? source c.arguments := by
  obtain ⟨f, xs⟩ := c
  cases f with
  | rand => exact absurd rfl quiet
  | _ => rfl

end Call

namespace Tree

/-- What a later part of an evaluation adds, which is nothing after a failure. -/
def afterOk {α β : Type} (r : Except Failure α) (later : α → List β) : List β :=
  match r with
  | .ok x => later x
  | .error _ => []

theorem mem_afterOk {α β : Type} {r : Except Failure α} {later : α → List β} {b : β} :
    b ∈ afterOk r later ↔ ∃ x, r = .ok x ∧ b ∈ later x := by
  cases r <;> simp [afterOk]

mutual

/-- The calls that evaluating a tree makes, in order. -/
def calls (g : Grammar) (source : RandomSource) : Tree → List Call
  | leaf _ => []
  | unary t operand =>
    match g.meaning t.kind with
    | .operator _ => operand.calls g (source.child 0)
    | _ => []
  | binary t left right =>
    match g.meaning t.kind with
    | .operator _ =>
      left.calls g (source.child 0) ++
        afterOk (left.value g (source.child 0)) fun _ => right.calls g (source.child 1)
    | _ => []
  | call t callee arguments =>
    match g.meaning t.kind with
    | .call =>
      afterOk (calledFunction callee) fun f =>
        callsAmong g source 0 arguments ++
          afterOk (values g source 0 arguments) fun xs => [⟨f, xs⟩]
    | _ => []

/-- The calls that evaluating arguments makes, the first of which has the number `i`. -/
def callsAmong (g : Grammar) (source : RandomSource) (i : Nat) : List Tree → List Call
  | [] => []
  | t :: ts =>
    t.calls g (source.child i) ++
      afterOk (t.value g (source.child i)) fun _ => callsAmong g source (i + 1) ts

end

/-! ## Evaluations that draw no random numbers -/

section Quiet

variable {g : Grammar}

/-- Two evaluations that go on agree if their first parts agree and what comes after them does. -/
theorem bind_congr_of_ok {α β : Type} {r r' : Except Failure α} {go go' : α → Except Failure β}
    (first : r' = r) (later : ∀ x, r = .ok x → go' x = go x) : (r' >>= go') = (r >>= go) := by
  subst first
  cases r' with
  | ok x => exact later x rfl
  | error e => rfl

mutual

/-- Without a call of `rand`, the value of a tree is the same from every source. -/
theorem value_eq_of_quiet : ∀ (t : Tree) {source : RandomSource} (source' : RandomSource),
    (∀ c ∈ t.calls g source, c.Quiet) → t.value g source' = t.value g source
  | leaf t, _, _, _ => by rw [value, value]
  | unary t operand, source, source', quiet => by
    rw [value, value]
    rw [calls] at quiet
    cases role : g.meaning t.kind with
    | operator op =>
      rw [role] at quiet
      have first := operand.value_eq_of_quiet (source'.child 0) quiet
      exact bind_congr_of_ok first fun x _ => rfl
    | none | literal | call => rfl
  | binary t left right, source, source', quiet => by
    rw [value, value]
    rw [calls] at quiet
    cases role : g.meaning t.kind with
    | operator op =>
      rw [role] at quiet
      obtain ⟨quietLeft, quietRight⟩ := List.forall_mem_append.1 quiet
      refine bind_congr_of_ok (left.value_eq_of_quiet (source'.child 0) quietLeft) ?_
      intro x success
      rw [success] at quietRight
      have second := right.value_eq_of_quiet (source'.child 1) quietRight
      exact bind_congr_of_ok second fun y _ => rfl
    | none | literal | call => rfl
  | call t callee arguments, source, source', quiet => by
    rw [value, value]
    rw [calls] at quiet
    cases role : g.meaning t.kind with
    | call =>
      rw [role] at quiet
      refine bind_congr_of_ok rfl ?_
      intro f named
      rw [named] at quiet
      obtain ⟨quietArguments, quietCall⟩ := List.forall_mem_append.1 quiet
      refine bind_congr_of_ok (values_eq_of_quiet arguments source' quietArguments) ?_
      intro xs success
      rw [success] at quietCall
      have applied : Call.Quiet ⟨f, xs⟩ := quietCall _ (List.mem_singleton_self _)
      exact congrArg orEndless (applied.value_eq source source')
    | none | literal | operator => rfl

theorem values_eq_of_quiet : ∀ (ts : List Tree) {source : RandomSource} (source' : RandomSource)
    {i : Nat}, (∀ c ∈ callsAmong g source i ts, c.Quiet) →
      values g source' i ts = values g source i ts
  | [], _, _, _, _ => by rw [values, values]
  | t :: ts, source, source', i, quiet => by
    rw [callsAmong] at quiet
    rw [values, values]
    obtain ⟨quietFirst, quietRest⟩ := List.forall_mem_append.1 quiet
    refine bind_congr_of_ok (t.value_eq_of_quiet (source'.child i) quietFirst) ?_
    intro x success
    rw [success] at quietRest
    have rest := values_eq_of_quiet ts source' quietRest
    exact bind_congr_of_ok rest fun xs _ => rfl

end

end Quiet

end Tree

end Calculator
