import Calculator.Tree.Reading

/-!
# What a reading looks at

A reading that ends passes the tokens up to a position `next` and looks at the kind of at most one
token more: `seen` is the position before which it has looked at everything. Nothing else of the
input matters. `expression_congr` is the statement for two inputs that look the same (`Alike`). It
also says how much depth a reading needs: one more than the number of tokens it passes.
-/

namespace Calculator

namespace Reading

variable {α β : Type}

/-- The position of the next token after a reading that has ended. -/
def next : Reading α → Nat
  | done _ i | failed _ i => i
  | unfinished => 0

/-- The position before which a reading that has ended has looked at all tokens. Only a missing
parenthesis is noticed on a token that is not passed. -/
def seen : Reading α → Nat
  | done _ i | failed (.unclosed _) i => i + 1
  | failed _ i => i
  | unfinished => 0

@[simp] theorem next_done (x : α) (i : Nat) : (done x i).next = i := rfl

@[simp] theorem seen_done (x : α) (i : Nat) : (done x i).seen = i + 1 := rfl

@[simp] theorem next_failed (e : SyntaxError) (i : Nat) : (failed e i : Reading α).next = i := rfl

@[simp] theorem seen_unclosed (k : Kind) (i : Nat) :
    (failed (.unclosed k) i : Reading α).seen = i + 1 := rfl

theorem seen_failed (e : SyntaxError) (i : Nat) :
    (failed e i : Reading α).seen = (failed e i : Reading β).seen := by
  cases e <;> rfl

theorem next_le_seen (r : Reading α) : r.next ≤ r.seen := by
  match r with
  | done _ _ | failed (.unclosed _) _ => exact Nat.le_succ _
  | failed (.unrecognized _) _ | failed (.cannotStart _) _ | failed (.cannotExtend _) _
  | failed (.trailing _) _ | unfinished => exact Nat.le_refl _

theorem seen_le_next_succ (r : Reading α) : r.seen ≤ r.next + 1 := by
  match r with
  | done _ _ | failed (.unclosed _) _ => exact Nat.le_refl _
  | failed (.unrecognized _) _ | failed (.cannotStart _) _ | failed (.cannotExtend _) _
  | failed (.trailing _) _ | unfinished => exact Nat.le_succ _

@[simp] theorem next_andThen_done (r : Reading α) (f : α → β) :
    (r.andThen fun x => done (f x)).next = r.next := by
  cases r <;> rfl

@[simp] theorem seen_andThen_done (r : Reading α) (f : α → β) :
    (r.andThen fun x => done (f x)).seen = r.seen := by
  cases r with
  | done x i => rfl
  | failed e i => exact seen_failed e i
  | unfinished => rfl

@[simp] theorem andThen_done_eq_unfinished (r : Reading α) (f : α → β) :
    (r.andThen fun x => done (f x)) = unfinished ↔ r = unfinished := by
  cases r <;> simp

/-- A reading that goes on has ended early, or its first part is done. -/
theorem andThen_ended {r : Reading α} {go : α → Nat → Reading β}
    (ended : r.andThen go ≠ unfinished) :
    (∃ e i, r = failed e i) ∨ ∃ x i, r = done x i ∧ go x i ≠ unfinished := by
  cases r with
  | done x i => exact .inr ⟨x, i, rfl, ended⟩
  | failed e i => exact .inl ⟨e, i, rfl⟩
  | unfinished => exact absurd rfl ended

/-! ## Progress -/

/-- A reading that has passed the token at `i`, or has stopped there after a look at it. -/
structure LooksAt (i : Nat) (r : Reading α) : Prop where
  le_next : i ≤ r.next
  lt_seen : i < r.seen

theorem LooksAt.of_lt_next {i : Nat} {r : Reading α} (passed : i < r.next) : LooksAt i r :=
  ⟨Nat.le_of_lt passed, Nat.lt_of_lt_of_le passed r.next_le_seen⟩

theorem looksAt_done (x : α) (i : Nat) : LooksAt i (done x i) :=
  ⟨Nat.le_refl i, Nat.lt_succ_self i⟩

theorem looksAt_close (s : Input) (x : α) (i : Nat) : LooksAt i (close s x i) := by
  unfold close
  split
  · exact .of_lt_next (Nat.lt_succ_self i)
  · exact ⟨Nat.le_refl i, Nat.lt_succ_self i⟩

/-- Whatever `read` reads to an end, it passes a token. -/
def Advances (read : Power → Nat → Reading Tree) : Prop :=
  ∀ p i, read p i ≠ unfinished → i < (read p i).next

/-- What follows the argument `x` of a call: nothing more, or a comma and further arguments. -/
def argumentsAfter (s : Input) (read : Power → Nat → Reading Tree) (n : Nat) (x : Tree) (i : Nat) :
    Reading (List Tree) :=
  if s.kind i = .comma then (arguments s read n (i + 1)).andThen fun xs => done (x :: xs)
  else done [x] i

theorem arguments_succ (s : Input) (read : Power → Nat → Reading Tree) (n i : Nat) :
    arguments s read (n + 1) i = (read 0 i).andThen (argumentsAfter s read n) := rfl

section Progress

variable {g : Grammar} {s : Input} {read : Power → Nat → Reading Tree} (advances : Advances read)

include advances in
/-- What goes on after an expression keeps the progress. -/
theorem lt_next_andThen {p : Power} {i : Nat} {go : Tree → Nat → Reading β}
    (looks : ∀ x j, go x j ≠ unfinished → LooksAt j (go x j))
    (ended : (read p i).andThen go ≠ unfinished) : i < ((read p i).andThen go).next := by
  have first := advances p i
  rcases andThen_ended ended with ⟨e, j, failure⟩ | ⟨x, j, success, ended⟩
  · rw [failure] at first ⊢
    exact first (by simp)
  · rw [success] at first ⊢
    exact Nat.lt_of_lt_of_le (first (by simp)) (looks x j ended).le_next

include advances in
theorem le_next_start (t : Tree) (i : Nat) (ended : start g s read t i ≠ unfinished) :
    i ≤ (start g s read t i).next := by
  unfold start at ended ⊢
  split at ended
  · exact Nat.le_refl i
  · exact Nat.le_refl i
  · exact Nat.le_of_lt (lt_next_andThen advances (fun x j _ => looksAt_done _ j) ended)
  · exact Nat.le_of_lt (lt_next_andThen advances (fun x j _ => looksAt_close s x j) ended)

theorem looksAt_argumentsAfter {n : Nat}
    (later : ∀ i, arguments s read n i ≠ unfinished → i < (arguments s read n i).next) (x : Tree)
    (i : Nat) (ended : argumentsAfter s read n x i ≠ unfinished) :
    LooksAt i (argumentsAfter s read n x i) := by
  unfold argumentsAfter at ended ⊢
  split at ended
  · next comma =>
    have := later (i + 1) (by simpa using ended)
    rw [if_pos comma]
    exact .of_lt_next (by rw [next_andThen_done]; omega)
  · next other =>
    rw [if_neg other]
    exact looksAt_done [x] i

include advances in
theorem lt_next_arguments (n i : Nat) (ended : arguments s read n i ≠ unfinished) :
    i < (arguments s read n i).next := by
  induction n generalizing i with
  | zero => exact absurd rfl ended
  | succ n ih => exact lt_next_andThen advances (looksAt_argumentsAfter ih) ended

include advances in
theorem lt_next_enclosedArguments (n i : Nat)
    (ended : enclosedArguments s read n i ≠ unfinished) :
    i < (enclosedArguments s read n i).next := by
  unfold enclosedArguments at ended ⊢
  split at ended
  · next closed =>
    rw [if_pos closed]
    exact Nat.lt_succ_self i
  · next opened =>
    rw [if_neg opened]
    have first := lt_next_arguments advances (s := s) n i
    rcases andThen_ended ended with ⟨e, j, failure⟩ | ⟨xs, j, success, -⟩
    · rw [failure] at first ⊢
      exact first (by simp)
    · rw [success] at first ⊢
      exact Nat.lt_of_lt_of_le (first (by simp)) (looksAt_close s xs j).le_next

include advances in
theorem le_next_extend (n : Nat) (t left : Tree) (i : Nat)
    (ended : extend g s read n t left i ≠ unfinished) :
    i ≤ (extend g s read n t left i).next := by
  unfold extend at ended ⊢
  split at ended
  · exact Nat.le_refl i
  · exact Nat.le_of_lt (lt_next_andThen advances (fun x j _ => looksAt_done _ j) ended)
  · exact Nat.le_of_lt (lt_next_andThen advances (fun x j _ => looksAt_done _ j) ended)
  · have := lt_next_enclosedArguments advances (s := s) n i (by simpa using ended)
    rw [next_andThen_done]
    omega

include advances in
/-- The loop may pass nothing, but it looks at the next token. -/
theorem looksAt_extensions (n : Nat) (p : Power) (left : Tree) (i : Nat)
    (ended : extensions g s read n p left i ≠ unfinished) :
    LooksAt i (extensions g s read n p left i) := by
  induction n generalizing left i with
  | zero => exact absurd rfl ended
  | succ n ih =>
    rw [extensions] at ended ⊢
    split at ended
    · next tighter =>
      rw [if_pos tighter]
      have first := le_next_extend advances (g := g) (s := s) n (s.token i) left (i + 1)
      rcases andThen_ended ended with ⟨e, j, failure⟩ | ⟨x, j, success, ended⟩
      · rw [failure] at first ⊢
        exact .of_lt_next (first (by simp))
      · rw [success] at first ⊢
        exact .of_lt_next (Nat.lt_of_lt_of_le (first (by simp)) (ih x j ended).le_next)
    · next looser =>
      rw [if_neg looser]
      exact looksAt_done left i

end Progress

theorem advances_expression (g : Grammar) (s : Input) (n : Nat) : Advances (expression g s n) := by
  induction n with
  | zero => exact fun _ _ ended => absurd rfl ended
  | succ n ih =>
    intro p i ended
    rw [expression] at ended ⊢
    have first := le_next_start ih (g := g) (s := s) (s.token i) (i + 1)
    rcases andThen_ended ended with ⟨e, j, failure⟩ | ⟨x, j, success, ended⟩
    · rw [failure] at first ⊢
      exact first (by simp)
    · rw [success] at first ⊢
      exact Nat.le_trans (first (by simp)) (looksAt_extensions ih n p x j ended).le_next

/-! ## Two inputs that look the same -/

/-- Two inputs that a reading from `i` with the result `r` cannot tell apart. -/
structure Alike (s s' : Input) (i : Nat) (r : Reading α) : Prop where
  token : ∀ j, i ≤ j → j < r.next → s'.token j = s.token j
  kind : ∀ j, i ≤ j → j < r.seen → s'.kind j = s.kind j

theorem Alike.refl (s : Input) (i : Nat) (r : Reading α) : Alike s s i r :=
  ⟨fun _ _ _ => rfl, fun _ _ _ => rfl⟩

/-- A part of a reading cannot tell apart what the whole cannot. -/
theorem Alike.part {s s' : Input} {i j : Nat} {r : Reading α} {q : Reading β}
    (alike : Alike s s' i r) (le : i ≤ j) (next : q.next ≤ r.next) (seen : q.seen ≤ r.seen) :
    Alike s s' j q :=
  ⟨fun k jk kq => alike.token k (Nat.le_trans le jk) (Nat.lt_of_lt_of_le kq next),
    fun k jk kq => alike.kind k (Nat.le_trans le jk) (Nat.lt_of_lt_of_le kq seen)⟩

theorem Alike.of_done {s s' : Input} {i : Nat} {r : Reading α} {f : α → β}
    (alike : Alike s s' i (r.andThen fun x => done (f x))) : Alike s s' i r :=
  alike.part (Nat.le_refl i) (by simp) (by simp)

/-- What `read` reads from `lo` on and not beyond `hi`, `read'` reads in the same way from an input
that looks the same. -/
def Follows (s s' : Input) (lo hi : Nat) (read read' : Power → Nat → Reading Tree) : Prop :=
  ∀ p i, lo ≤ i → read p i ≠ unfinished → (read p i).next ≤ hi → Alike s s' i (read p i) →
    read' p i = read p i

section Congruence

variable {g : Grammar} {s s' : Input} {lo hi : Nat} {read read' : Power → Nat → Reading Tree}

/-- Two readings that go on agree if their first parts agree and what comes after them does. -/
theorem andThen_congr {i : Nat} {r r' : Reading α} {go go' : α → Nat → Reading β}
    (ended : r.andThen go ≠ unfinished) (alike : Alike s s' i (r.andThen go))
    (looks : ∀ x j, go x j ≠ unfinished → LooksAt j (go x j))
    (first : r ≠ unfinished → r.next ≤ (r.andThen go).next → Alike s s' i r → r' = r)
    (later : ∀ x j, r = done x j → r.andThen go = go x j → go' x j = go x j) :
    r'.andThen go' = r.andThen go := by
  rcases andThen_ended ended with ⟨e, j, rfl⟩ | ⟨x, j, rfl, ended⟩
  · have same := first (by simp) (Nat.le_refl _)
      (alike.part (Nat.le_refl i) (Nat.le_refl _) (Nat.le_of_eq (seen_failed e j)))
    rw [same]
    rfl
  · obtain ⟨next, seen⟩ := looks x j ended
    rw [first (by simp) next (alike.part (Nat.le_refl i) next seen), andThen_done, andThen_done]
    exact later x j rfl rfl

theorem close_congr {x : α} {i j : Nat} (le : i ≤ j) (alike : Alike s s' i (close s x j)) :
    close s' x j = close s x j := by
  have same := alike.kind j le (looksAt_close s x j).lt_seen
  unfold close
  rw [same]

variable (advances : Advances read) (follows : Follows s s' lo hi read read')

include advances follows in
/-- Two readings that begin with an expression agree if what comes after it does. -/
theorem read_andThen_congr {p : Power} {i : Nat} {go go' : Tree → Nat → Reading β} (lo_le : lo ≤ i)
    (ended : (read p i).andThen go ≠ unfinished) (le_hi : ((read p i).andThen go).next ≤ hi)
    (alike : Alike s s' i ((read p i).andThen go))
    (looks : ∀ x j, go x j ≠ unfinished → LooksAt j (go x j))
    (later : ∀ x j, i < j → (read p i).andThen go = go x j → go' x j = go x j) :
    (read' p i).andThen go' = (read p i).andThen go := by
  refine andThen_congr ended alike looks
    (fun ended le alike => follows p i lo_le ended (Nat.le_trans le le_hi) alike)
    (fun x j success same => later x j ?_ same)
  simpa [success] using advances p i (by simp [success])

include advances follows in
theorem start_congr (t : Tree) {i : Nat} (lo_le : lo ≤ i)
    (ended : start g s read t i ≠ unfinished) (le_hi : (start g s read t i).next ≤ hi)
    (alike : Alike s s' i (start g s read t i)) :
    start g s' read' t i = start g s read t i := by
  unfold start at ended le_hi alike ⊢
  split at ended
  · rfl
  · rfl
  · next p role =>
    simp only [role] at le_hi alike ⊢
    exact read_andThen_congr advances follows lo_le ended le_hi alike
      (fun x j _ => looksAt_done _ j) (fun _ _ _ _ => rfl)
  · next role =>
    simp only [role] at le_hi alike ⊢
    refine read_andThen_congr advances follows lo_le ended le_hi alike
      (fun x j _ => looksAt_close s x j) (fun x j passed same => ?_)
    rw [same] at alike
    exact close_congr (Nat.le_of_lt passed) alike

include advances follows in
theorem arguments_congr (n n' : Nat) {i : Nat} (lo_le : lo ≤ i)
    (ended : arguments s read n i ≠ unfinished) (le_hi : (arguments s read n i).next ≤ hi)
    (enough : (arguments s read n i).next - i ≤ n') (alike : Alike s s' i (arguments s read n i)) :
    arguments s' read' n' i = arguments s read n i := by
  induction n generalizing i n' with
  | zero => exact absurd rfl ended
  | succ n ih =>
    have passed := lt_next_arguments advances (n + 1) i ended
    obtain ⟨n', rfl⟩ := Nat.exists_eq_succ_of_ne_zero (n := n') (by omega)
    rw [arguments_succ] at ended le_hi enough alike ⊢
    rw [arguments_succ]
    refine read_andThen_congr advances follows lo_le ended le_hi alike
      (looksAt_argumentsAfter (lt_next_arguments advances n)) (fun x j ij same => ?_)
    rw [same] at ended le_hi enough alike
    have looks := looksAt_argumentsAfter (lt_next_arguments advances n) x j ended
    unfold argumentsAfter at *
    rw [alike.kind j (Nat.le_of_lt ij) looks.lt_seen]
    split
    · next comma =>
      rw [if_pos comma] at ended le_hi enough alike
      rw [next_andThen_done] at le_hi enough
      rw [ih n' (by omega) (by simpa using ended) le_hi (by omega)
        (alike.of_done.part (by omega) (Nat.le_refl _) (Nat.le_refl _))]
    · rfl

include advances follows in
theorem enclosedArguments_congr (n n' : Nat) {i : Nat} (lo_le : lo ≤ i)
    (ended : enclosedArguments s read n i ≠ unfinished)
    (le_hi : (enclosedArguments s read n i).next ≤ hi)
    (enough : (enclosedArguments s read n i).next - i ≤ n')
    (alike : Alike s s' i (enclosedArguments s read n i)) :
    enclosedArguments s' read' n' i = enclosedArguments s read n i := by
  have same := alike.kind i (Nat.le_refl i)
    (LooksAt.of_lt_next (lt_next_enclosedArguments advances n i ended)).lt_seen
  unfold enclosedArguments at *
  rw [same]
  split
  · rfl
  · next opened =>
    rw [if_neg opened] at ended le_hi enough alike
    refine andThen_congr ended alike (fun x j _ => looksAt_close s x j)
      (fun ended le alike => arguments_congr advances follows n n' lo_le ended (by omega) (by omega)
        alike) (fun xs j success same => ?_)
    have passed : i < j := by
      simpa [success] using lt_next_arguments advances (s := s) n i (by simp [success])
    rw [same] at alike
    exact close_congr (Nat.le_of_lt passed) alike

include advances follows in
theorem extend_congr (n n' : Nat) (t left : Tree) {i : Nat} (lo_le : lo ≤ i)
    (ended : extend g s read n t left i ≠ unfinished)
    (le_hi : (extend g s read n t left i).next ≤ hi)
    (enough : (extend g s read n t left i).next - i ≤ n')
    (alike : Alike s s' i (extend g s read n t left i)) :
    extend g s' read' n' t left i = extend g s read n t left i := by
  unfold extend at ended le_hi enough alike ⊢
  split at ended
  · rfl
  · next p role =>
    simp only [role] at le_hi alike ⊢
    exact read_andThen_congr advances follows lo_le ended le_hi alike
      (fun x j _ => looksAt_done _ j) (fun _ _ _ _ => rfl)
  · next p role =>
    simp only [role] at le_hi alike ⊢
    exact read_andThen_congr advances follows lo_le ended le_hi alike
      (fun x j _ => looksAt_done _ j) (fun _ _ _ _ => rfl)
  · next role =>
    simp only [role, next_andThen_done] at le_hi enough alike ⊢
    rw [enclosedArguments_congr advances follows n n' lo_le (by simpa using ended) le_hi enough
      alike.of_done]

include advances follows in
theorem extensions_congr (n n' : Nat) (p : Power) (left : Tree) {i : Nat} (lo_le : lo ≤ i)
    (ended : extensions g s read n p left i ≠ unfinished)
    (le_hi : (extensions g s read n p left i).next ≤ hi)
    (enough : (extensions g s read n p left i).next - i < n')
    (alike : Alike s s' i (extensions g s read n p left i)) :
    extensions g s' read' n' p left i = extensions g s read n p left i := by
  induction n generalizing i n' left with
  | zero => exact absurd rfl ended
  | succ n ih =>
    obtain ⟨n', rfl⟩ := Nat.exists_eq_succ_of_ne_zero (n := n') (by omega)
    have looks := looksAt_extensions advances (n + 1) p left i ended
    rw [extensions] at ended le_hi enough alike looks ⊢
    rw [extensions, alike.kind i (Nat.le_refl i) looks.lt_seen]
    split
    · next tighter =>
      rw [if_pos tighter] at ended le_hi enough alike
      have extended := le_next_extend advances (g := g) (s := s) n (s.token i) left (i + 1)
      have passed : i < ((extend g s read n (s.token i) left (i + 1)).andThen
          (extensions g s read n p)).next := by
        rcases andThen_ended ended with ⟨e, j, failure⟩ | ⟨x, j, success, ended⟩
        · rw [failure] at extended ⊢
          exact extended (by simp)
        · rw [success] at extended ⊢
          exact Nat.le_trans (extended (by simp)) (looksAt_extensions advances n p x j ended).le_next
      rw [alike.token i (Nat.le_refl i) passed]
      refine andThen_congr (i := i + 1) ended
        (alike.part (Nat.le_succ i) (Nat.le_refl _) (Nat.le_refl _))
        (fun x j => looksAt_extensions advances n p x j)
        (fun ended le alike => extend_congr advances follows n n' _ left (by omega) ended (by omega)
          (by omega) alike) (fun x j success same => ?_)
      have ij : i + 1 ≤ j := by simpa [success] using extended (by simp [success])
      rw [same] at ended le_hi enough alike passed
      exact ih n' x (by omega) ended le_hi (by omega)
        (alike.part (by omega) (Nat.le_refl _) (Nat.le_refl _))
    · rfl

end Congruence

/-- A reading depends only on the tokens it passes and the kinds it looks at, and a depth of one more
than the number of tokens passed is enough for it. -/
theorem expression_congr {g : Grammar} {s s' : Input} {n m : Nat} {p : Power} {i : Nat}
    (ended : expression g s n p i ≠ unfinished) (enough : (expression g s n p i).next - i < m)
    (alike : Alike s s' i (expression g s n p i)) :
    expression g s' m p i = expression g s n p i := by
  induction n generalizing m p i with
  | zero => exact absurd rfl ended
  | succ n ih =>
    obtain ⟨m, rfl⟩ := Nat.exists_eq_succ_of_ne_zero (n := m) (by omega)
    have advances := advances_expression g s n
    have passed := advances_expression g s (n + 1) p i ended
    have follows : Follows s s' (i + 1) (expression g s (n + 1) p i).next (expression g s n)
        (expression g s' m) := by
      intro q j ij ended le alike
      exact ih ended (by omega) alike
    rw [expression] at ended enough alike passed follows ⊢
    rw [expression, alike.token i (Nat.le_refl i) passed]
    have started := le_next_start advances (g := g) (s := s) (s.token i) (i + 1)
    refine andThen_congr (i := i + 1) ended
      (alike.part (Nat.le_succ i) (Nat.le_refl _) (Nat.le_refl _))
      (fun x j => looksAt_extensions advances n p x j)
      (fun ended le alike => start_congr advances follows _ (Nat.le_refl _) ended le alike)
      (fun x j success same => ?_)
    have ij : i + 1 ≤ j := by simpa [success] using started (by simp [success])
    rw [same] at ended enough alike passed follows
    exact extensions_congr advances follows n m p x ij ended (Nat.le_refl _) (by omega)
      (alike.part (by omega) (Nat.le_refl _) (Nat.le_refl _))

end Reading

end Calculator
