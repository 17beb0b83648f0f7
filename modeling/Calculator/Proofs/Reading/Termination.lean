import Calculator.Grammar.Arithmetic
import Calculator.Proofs.Reading.Bound

/-!
# Readings that end

Whether reading ends is decided after the input alone. A grammar is safe if the end of the input is
refused wherever an expression has to start, or is a leaf that is not extended by another end. Under
a safe grammar every reading ends (`read_ended`): before the end of the input, each step passes a
token. Under any other grammar no depth is enough to read from nothing (`safe_iff_ends`).
-/

namespace Calculator

/-- The end of the input stops every reading. -/
def Grammar.Safe (g : Grammar) : Prop :=
  g.start .finish = .never ∨
    g.start .finish = .leaf ∧ (g.power .finish = 0 ∨ g.extension .finish = .never)

namespace Tree

open Reading

variable {g : Grammar} {s : Input}

theorem done_ne_unfinished {α : Type} {x : α} {i : Nat} : done x i ≠ unfinished := by
  simp

theorem failed_ne_unfinished {α : Type} {e : SyntaxError} {i : Nat} :
    (failed e i : Reading α) ≠ unfinished := by
  simp

/-- A reading that goes on ends if its first part does and what comes after it does. -/
theorem andThen_ne_unfinished {α β : Type} {r : Reading α} {go : α → Nat → Reading β}
    (first : r ≠ unfinished) (later : ∀ x i, r = done x i → go x i ≠ unfinished) :
    r.andThen go ≠ unfinished := by
  cases r with
  | done x i => exact later x i rfl
  | failed e i => exact failed_ne_unfinished
  | unfinished => exact absurd rfl first

theorem close_ne_unfinished {α : Type} (x : α) (i : Nat) : close s x i ≠ unfinished := by
  unfold close
  split
  · exact done_ne_unfinished
  · exact failed_ne_unfinished

/-! ## After the input -/

theorem read_of_never (never : g.start .finish = .never) (p : Power) {i : Nat}
    (le : s.tokens.size ≤ i) : read g s p i = failed (.cannotStart .finish) (i + 1) := by
  rw [read_eq, start, Input.token_eq_finish le]
  simp only [show g.start (kind .finish) = _ from never, andThen_failed]
  rfl

theorem readOn_of_passive (passive : g.extension .finish = .never) (p : Power) (left : Tree)
    {i : Nat} (le : s.tokens.size ≤ i) : readOn g s p left i ≠ unfinished := by
  have here := Input.kind_eq_finish le
  by_cases tighter : p < g.power (s.kind i)
  · rw [readOn_of_lt tighter, extend]
    simp [show (s.token i).kind = _ from here, passive]
  · rw [readOn_of_le (Nat.le_of_not_lt tighter)]
    exact done_ne_unfinished

section Safe

variable (safe : g.Safe)

include safe in
theorem readOn_ended_of_exhausted (p : Power) (left : Tree) {i : Nat} (le : s.tokens.size ≤ i) :
    readOn g s p left i ≠ unfinished := by
  rcases safe with never | ⟨-, quiet | passive⟩
  · by_cases tighter : p < g.power (s.kind i)
    · have refused (q : Power) := read_of_never never q (s := s) (i := i + 1) (by omega)
      rw [readOn_of_lt tighter, extend]
      split
      · exact failed_ne_unfinished
      · simp [refused]
      · simp [refused]
      · simp [enclosedArguments, arguments_succ, refused, Input.kind_eq_finish (s := s) (i := i + 1)
          (by omega)]
    · rw [readOn_of_le (Nat.le_of_not_lt tighter)]
      exact done_ne_unfinished
  · rw [readOn_of_le (by simp [Input.kind_eq_finish le, quiet])]
    exact done_ne_unfinished
  · exact readOn_of_passive passive p left le

include safe in
theorem read_ended_of_exhausted (p : Power) {i : Nat} (le : s.tokens.size ≤ i) :
    read g s p i ≠ unfinished := by
  rcases id safe with never | ⟨leaf, -⟩
  · rw [read_of_never never p le]
    exact failed_ne_unfinished
  · rw [read_eq, start, Input.token_eq_finish le]
    simp only [show g.start (kind .finish) = _ from leaf, andThen_done]
    exact readOn_ended_of_exhausted safe p _ (by omega)

end Safe

/-! ## Before its end -/

theorem readArguments_ended {i : Nat} (le : i ≤ s.tokens.size)
    (reads : ∀ p j, i ≤ j → read g s p j ≠ unfinished) : readArguments g s i ≠ unfinished := by
  induction h : s.tokens.size - i using Nat.strongRecOn generalizing i with
  | _ m ih =>
    rw [readArguments_eq le]
    apply andThen_ne_unfinished (reads 0 i (Nat.le_refl i))
    intro x j success
    have passed := lt_of_read success
    split
    · next comma =>
      have := Input.lt_size_of_kind_ne (s := s) (i := j) (by simp [comma])
      have := ih _ (by omega) (i := j + 1) this (fun p k le => reads p k (by omega)) rfl
      simpa using this
    · exact done_ne_unfinished

theorem extend_ended {t left : Tree} {i : Nat} (le : i ≤ s.tokens.size)
    (reads : ∀ p j, i ≤ j → read g s p j ≠ unfinished) :
    extend g s (read g s) (s.tokens.size + 3) t left i ≠ unfinished := by
  unfold extend
  split
  · exact failed_ne_unfinished
  · simpa using reads _ i (Nat.le_refl i)
  · simpa using reads _ i (Nat.le_refl i)
  · rw [Ne, andThen_done_eq_unfinished, enclosedArguments]
    split
    · exact done_ne_unfinished
    · exact andThen_ne_unfinished (readArguments_ended le reads) fun x j _ => close_ne_unfinished x j

section Safe

variable (safe : g.Safe)

include safe in
theorem readOn_ended (p : Power) (left : Tree) {i : Nat}
    (reads : ∀ p j, i < j → read g s p j ≠ unfinished) : readOn g s p left i ≠ unfinished := by
  induction h : s.tokens.size - i using Nat.strongRecOn generalizing left i with
  | _ m ih =>
    by_cases beyond : s.tokens.size ≤ i
    · exact readOn_ended_of_exhausted safe p left beyond
    · by_cases tighter : p < g.power (s.kind i)
      · rw [readOn_of_lt tighter]
        refine andThen_ne_unfinished (extend_ended (by omega) fun p j le => reads p j le)
          fun x j extended => ?_
        have passed := le_of_extend extended
        exact ih _ (by omega) x (fun p k lt => reads p k (by omega)) rfl
      · rw [readOn_of_le (Nat.le_of_not_lt tighter)]
        exact done_ne_unfinished

include safe in
/-- Under a safe grammar every reading ends. -/
theorem read_ended (p : Power) (i : Nat) : read g s p i ≠ unfinished := by
  induction h : s.tokens.size - i using Nat.strongRecOn generalizing p i with
  | _ m ih =>
    by_cases beyond : s.tokens.size ≤ i
    · exact read_ended_of_exhausted safe p beyond
    · have reads (p : Power) (j : Nat) (lt : i < j) : read g s p j ≠ unfinished :=
        ih _ (by omega) p j rfl
      rw [read_eq]
      refine andThen_ne_unfinished ?_ fun x j started => ?_
      · unfold start
        split
        · exact failed_ne_unfinished
        · exact done_ne_unfinished
        · simpa using reads _ _ (Nat.lt_succ_self i)
        · exact andThen_ne_unfinished (reads _ _ (Nat.lt_succ_self i))
            fun x j _ => close_ne_unfinished x j
      · have passed := le_of_start started
        exact readOn_ended safe p x fun p k lt => reads p k (by omega)

end Safe

/-! ## Grammars that are not safe -/

/-- A reading that ends is the same at every depth from the bound on. -/
theorem expression_eq_of_bound_le {p : Power} {i n : Nat} (ended : read g s p i ≠ unfinished)
    (enough : bound s i ≤ n) : expression g s n p i = read g s p i := by
  have short := next_expression_le (g := g) (s := s) (n := bound s i) (p := p) (i := i)
  refine expression_congr ended ?_ (.refl s i _)
  rw [read, bound] at *
  omega

/-- After the input, an end that starts an expression is followed by another one, and so on. -/
theorem expression_endless (endless : ¬ g.Safe) (n : Nat) {i : Nat} (le : s.tokens.size ≤ i) :
    expression g s n 0 i = unfinished := by
  have after := expression_exhausted (g := g) (n := n) (p := 0) le
  generalize expression g s n 0 i = r at after
  cases after with
  | never start => exact absurd (.inl start) endless
  | leaf start power => exact absurd (.inr ⟨start, .inl (Nat.le_zero.1 power)⟩) endless
  | unextended start _ extension => exact absurd (.inr ⟨start, .inr extension⟩) endless
  | unfinished => rfl

theorem ofInput_eq_endless {trailing : Trailing} :
    ofInput g trailing s = .error .endless ↔ read g s 0 0 = unfinished := by
  unfold ofInput
  cases read g s 0 0 with
  | done t i =>
    simp only [reduceCtorEq, iff_false]
    split <;> simp
  | failed e i => simp
  | unfinished => simp

/-- The safe grammars are just those under which every reading of every input ends with the same
result at all depths that are great enough, and the others just those under which there is no depth
at which reading from nothing ends. -/
theorem safe_iff_ends (g : Grammar) :
    (g.Safe ↔ ∀ s p i, ∃ r ≠ unfinished, ∃ m, ∀ n ≥ m, expression g s n p i = r) ∧
      (¬ g.Safe ↔ ∀ n, expression g (.ofList []) n 0 0 = unfinished) ∧
      (∀ trailing, ¬ g.Safe ↔ ofTokens g trailing [] = .error .endless) ∧
      Grammar.Safe .arithmetic := by
  have ends (safe : g.Safe) (s : Input) (p : Power) (i : Nat) :
      ∃ r ≠ unfinished, ∃ m, ∀ n ≥ m, expression g s n p i = r := by
    have ended := read_ended (s := s) safe p i
    exact ⟨_, ended, _, fun n enough => expression_eq_of_bound_le ended enough⟩
  have nothing (endless : ¬ g.Safe) (n : Nat) :
      expression g (.ofList []) n 0 0 = unfinished := expression_endless endless n (Nat.le_refl 0)
  refine ⟨⟨ends, fun all => ?_⟩, ⟨nothing, fun never safe => ?_⟩, fun trailing => ⟨?_, ?_⟩, .inl rfl⟩
  · apply Classical.byContradiction
    intro endless
    obtain ⟨r, ended, m, same⟩ := all (.ofList []) 0 0
    exact ended ((same m (Nat.le_refl m)).symm.trans (nothing endless m))
  · exact read_ended safe 0 0 (never _)
  · intro endless
    exact ofInput_eq_endless.2 (nothing endless _)
  · intro never safe
    exact read_ended safe 0 0 (ofInput_eq_endless.1 never)

end Tree

end Calculator
