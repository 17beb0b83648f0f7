import Calculator.Proofs.Reading.Lookahead

/-!
# What errors say about the grammar

An error names the kind of a token that the grammar does not allow where it stands
(`refused_expression`). Groups and arguments are read at the power zero and an expression goes on as
long as the next token binds more tightly (`stops_expression`), so a token in the place of a closing
parenthesis has the power zero; and only a token with another power is ever asked to extend an
expression.
-/

namespace Calculator

namespace Reading

variable {α β : Type} {g : Grammar} {s : Input}

/-! ## Where an expression stops -/

theorem stops_extensions {read : Power → Nat → Reading Tree} {n : Nat} {p : Power} {left x : Tree}
    {i j : Nat} (success : extensions g s read n p left i = done x j) :
    g.power (s.kind j) ≤ p := by
  induction n generalizing left i with
  | zero => exact nomatch success
  | succ n ih =>
    rw [extensions] at success
    split at success
    · obtain ⟨y, k, -, rest⟩ := andThen_eq_done.1 success
      exact ih rest
    · next looser =>
      obtain ⟨-, rfl⟩ := Reading.done.inj success
      exact Nat.le_of_not_lt looser

/-- An expression is followed by a token that is not tighter than the power it is read at. -/
theorem stops_expression (n : Nat) (p : Power) (i : Nat) (x : Tree) (j : Nat)
    (success : expression g s n p i = done x j) : g.power (s.kind j) ≤ p := by
  cases n with
  | zero => exact nomatch success
  | succ n =>
    obtain ⟨y, k, -, rest⟩ := andThen_eq_done.1 success
    exact stops_extensions rest

/-! ## What errors are about -/

/-- The kind that the error names is one that the grammar does not allow there. -/
inductive Refused (g : Grammar) : SyntaxError → Prop where
  | cannotStart {k : Kind} (never : g.start k = .never) : Refused g (.cannotStart k)
  | cannotExtend {k : Kind} (binds : 0 < g.power k) (never : g.extension k = .never) :
    Refused g (.cannotExtend k)
  | unclosed {k : Kind} (loose : g.power k = 0) (opened : k ≠ .closeParen) :
    Refused g (.unclosed k)

/-- If the reading has failed, then on a token that the grammar does not allow there. -/
def Justified (g : Grammar) (r : Reading α) : Prop :=
  ∀ e i, r = failed e i → Refused g e

theorem justified_done (x : α) (i : Nat) : Justified g (done x i) :=
  fun _ _ failure => nomatch failure

theorem justified_failed {e : SyntaxError} (refused : Refused g e) (i : Nat) :
    Justified g (failed e i : Reading α) := by
  intro e' j failure
  obtain ⟨rfl, -⟩ := Reading.failed.inj failure
  exact refused

theorem justified_unfinished : Justified g (unfinished : Reading α) :=
  fun _ _ failure => nomatch failure

theorem Justified.andThen {r : Reading α} {go : α → Nat → Reading β} (first : Justified g r)
    (later : ∀ x i, r = done x i → Justified g (go x i)) : Justified g (r.andThen go) := by
  intro e i failure
  rcases andThen_eq_failed.1 failure with early | ⟨x, j, success, late⟩
  · exact first e i early
  · exact later x j success e i late

theorem justified_close (x : α) {i : Nat} (loose : g.power (s.kind i) = 0) :
    Justified g (close s x i) := by
  unfold close
  split
  · exact justified_done x (i + 1)
  · next opened => exact justified_failed (.unclosed loose opened) i

section Parts

variable {read : Power → Nat → Reading Tree} (justified : ∀ p i, Justified g (read p i))
  (stops : ∀ p i x j, read p i = done x j → g.power (s.kind j) ≤ p)

include justified in
theorem justified_operand (p : Power) (i : Nat) (f : Tree → Tree) :
    Justified g ((read p i).andThen fun x => done (f x)) :=
  (justified p i).andThen fun x j _ => justified_done (f x) j

include justified stops in
theorem justified_start (t : Tree) (i : Nat) : Justified g (start g s read t i) := by
  unfold start
  split
  · next never => exact justified_failed (.cannotStart never) i
  · exact justified_done t i
  · exact justified_operand justified _ i _
  · refine (justified 0 i).andThen ?_
    intro x j success
    exact justified_close x (Nat.le_zero.1 (stops 0 i x j success))

include justified in
theorem justified_arguments (n i : Nat) : Justified g (arguments s read n i) := by
  induction n generalizing i with
  | zero => exact justified_unfinished
  | succ n ih =>
    refine (justified 0 i).andThen ?_
    intro x j _
    split
    · exact (ih (j + 1)).andThen fun xs k _ => justified_done (x :: xs) k
    · exact justified_done [x] j

include stops in
theorem stops_arguments {n i : Nat} {xs : List Tree} {j : Nat}
    (success : arguments s read n i = done xs j) : g.power (s.kind j) = 0 := by
  induction n generalizing i xs with
  | zero => exact nomatch success
  | succ n ih =>
    obtain ⟨x, k, first, rest⟩ := andThen_eq_done.1 success
    split at rest
    · obtain ⟨ys, l, later, last⟩ := andThen_eq_done.1 rest
      obtain ⟨-, rfl⟩ := Reading.done.inj last
      exact ih later
    · obtain ⟨-, rfl⟩ := Reading.done.inj rest
      exact Nat.le_zero.1 (stops 0 i x k first)

include justified stops in
theorem justified_enclosedArguments (n i : Nat) : Justified g (enclosedArguments s read n i) := by
  unfold enclosedArguments
  split
  · exact justified_done [] (i + 1)
  · refine (justified_arguments justified n i).andThen ?_
    intro xs j success
    exact justified_close xs (stops_arguments stops success)

include justified stops in
theorem justified_extend (n : Nat) {t : Tree} (binds : 0 < g.power t.kind) (left : Tree) (i : Nat) :
    Justified g (extend g s read n t left i) := by
  unfold extend
  split
  · next never => exact justified_failed (.cannotExtend binds never) i
  · exact justified_operand justified _ i _
  · exact justified_operand justified _ i _
  · exact (justified_enclosedArguments justified stops n i).andThen fun xs j _ =>
      justified_done _ j

include justified stops in
theorem justified_extensions (n : Nat) (p : Power) (left : Tree) (i : Nat) :
    Justified g (extensions g s read n p left i) := by
  induction n generalizing left i with
  | zero => exact justified_unfinished
  | succ n ih =>
    rw [extensions]
    split
    · next tighter =>
      have binds : 0 < g.power (s.token i).kind := Nat.lt_of_le_of_lt (Nat.zero_le p) tighter
      exact (justified_extend justified stops n binds left (i + 1)).andThen fun x j _ => ih x j
    · exact justified_done left i

end Parts

/-- Whatever reading an expression fails on is a token that the grammar does not allow there. -/
theorem refused_expression (g : Grammar) (s : Input) (n : Nat) (p : Power) (i : Nat) :
    Justified g (expression g s n p i) := by
  induction n generalizing p i with
  | zero => exact justified_unfinished
  | succ n ih =>
    refine (justified_start ih (stops_expression n) (s.token i) (i + 1)).andThen ?_
    intro x j _
    exact justified_extensions ih (stops_expression n) n p x j

end Reading

end Calculator
