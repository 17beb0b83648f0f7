import Calculator.Proofs.Reading.Lookahead

/-!
# Enough depth

After the tokens of an input there is nothing but its end. A reading that begins there passes one or
two ends or goes on for ever (`Exhausted`), and so no reading that ends passes more than two of them
(`next_expression_le`). Hence `Reading.bound` is enough for every reading that ends at all
(`read_eq_of_ended`), and `Tree.read` obeys the equations of a reading without a bound
(`read_eq`, `readOn_of_lt`, `readArguments_eq`).
-/

namespace Calculator

theorem Input.kind_eq_finish {s : Input} {i : Nat} (h : s.tokens.size ≤ i) : s.kind i = .finish := by
  rw [kind, token_eq_finish h]
  rfl

theorem Input.lt_size_of_kind_ne {s : Input} {i : Nat} (h : s.kind i ≠ .finish) :
    i < s.tokens.size := by
  exact Nat.lt_of_not_le fun beyond => h (kind_eq_finish beyond)

namespace Reading

variable {α β : Type} {g : Grammar} {s : Input} {read : Power → Nat → Reading Tree}

/-! ## After the input -/

/-- What comes of reading at `p` from a position `i` after the input. -/
inductive Exhausted (g : Grammar) (p : Power) (i : Nat) : Reading Tree → Prop where
  | never (start : g.start .finish = .never) :
    Exhausted g p i (failed (.cannotStart .finish) (i + 1))
  | leaf (start : g.start .finish = .leaf) (power : g.power .finish ≤ p) :
    Exhausted g p i (done .finish (i + 1))
  | unextended (start : g.start .finish = .leaf) (power : p < g.power .finish)
      (extension : g.extension .finish = .never) :
    Exhausted g p i (failed (.cannotExtend .finish) (i + 2))
  | unfinished : Exhausted g p i unfinished

/-- What comes of extending `left` at `p` from a position `i` after the input. -/
inductive ExhaustedLoop (g : Grammar) (p : Power) (left : Tree) (i : Nat) : Reading Tree → Prop where
  | stop (power : g.power .finish ≤ p) : ExhaustedLoop g p left i (done left i)
  | never (power : p < g.power .finish) (extension : g.extension .finish = .never) :
    ExhaustedLoop g p left i (failed (.cannotExtend .finish) (i + 1))
  | operand (start : g.start .finish = .never) :
    ExhaustedLoop g p left i (failed (.cannotStart .finish) (i + 2))
  | unfinished : ExhaustedLoop g p left i unfinished

section Exhausted

variable (reads : ∀ p i, s.tokens.size ≤ i → Exhausted g p i (read p i))

theorem andThen_assoc {γ : Type} (r : Reading α) (go : α → Nat → Reading β)
    (on : β → Nat → Reading γ) :
    (r.andThen go).andThen on = r.andThen fun x i => (go x i).andThen on := by
  cases r <;> rfl

include reads in
/-- Where an end can extend, what follows it is refused at once or goes on for ever, unless it is an
end that is read as a leaf. -/
theorem operand_exhausted {q : Power} {i : Nat} (le : s.tokens.size ≤ i)
    (active : g.extension .finish ≠ .never) (go : Tree → Nat → Reading β)
    (later : g.start .finish = .leaf → g.power .finish ≤ q → go .finish (i + 1) = unfinished) :
    (read q i).andThen go = unfinished ∨
      g.start .finish = .never ∧
        (read q i).andThen go = failed (.cannotStart .finish) (i + 1) := by
  have inner := reads q i le
  generalize read q i = r at inner
  cases inner with
  | never start => exact .inr ⟨start, rfl⟩
  | leaf start power => exact .inl (later start power)
  | unextended start power extension => exact absurd extension active
  | unfinished => exact .inl rfl

include reads in
theorem extensions_exhausted (n : Nat) (p : Power) (left : Tree) {i : Nat}
    (le : s.tokens.size ≤ i) : ExhaustedLoop g p left i (extensions g s read n p left i) := by
  induction n generalizing left i with
  | zero => exact .unfinished
  | succ n ih =>
    rw [extensions, Input.kind_eq_finish le, Input.token_eq_finish le]
    split
    · next power =>
      -- an operand that is an end would be followed by the same loop again
      have again (active : g.extension .finish ≠ .never) (start : g.start .finish = .leaf)
          (x : Tree) : extensions g s read n p x (i + 2) = unfinished := by
        have loop := ih x (i := i + 2) (by omega)
        generalize extensions g s read n p x (i + 2) = r at loop
        cases loop with
        | stop stops => exact absurd power (Nat.not_lt.2 stops)
        | never _ extension => exact absurd extension active
        | operand never => simp [never] at start
        | unfinished => rfl
      have operand (active : g.extension .finish ≠ .never) (q : Power) (f : Tree → Tree) :
          ExhaustedLoop g p left i (((read q (i + 1)).andThen fun x => done (f x)).andThen
            (extensions g s read n p)) := by
        rw [andThen_assoc]
        rcases operand_exhausted reads (q := q) (i := i + 1) (by omega) active
          (fun x i => (done (f x) i).andThen (extensions g s read n p))
          (fun start _ => again active start (f .finish)) with endless | ⟨start, refused⟩
        · rw [endless]
          exact .unfinished
        · rw [refused]
          exact .operand start
      unfold extend
      split
      · next extension => exact .never power extension
      · next q extension =>
        exact operand (by simp [show g.extension .finish = _ from extension]) q _
      · next q extension =>
        exact operand (by simp [show g.extension .finish = _ from extension]) (q - 1) _
      · next extension =>
        have active : g.extension .finish ≠ .never := by
          simp [show g.extension .finish = _ from extension]
        have ahead : s.kind (i + 1) ≠ .closeParen := by
          simp [Input.kind_eq_finish (s := s) (i := i + 1) (by omega)]
        rw [enclosedArguments, if_neg ahead]
        cases n with
        | zero => exact .unfinished
        | succ n =>
          rw [arguments_succ]
          simp only [andThen_assoc]
          rcases operand_exhausted reads (q := 0) (i := i + 1) (by omega) active _
            (fun _ never => absurd power (Nat.not_lt.2 (Nat.le_trans never (Nat.zero_le p)))) with endless | ⟨start, refused⟩
          · rw [endless]
            exact .unfinished
          · rw [refused]
            exact .operand start
    · next power => exact .stop (Nat.le_of_not_lt power)

end Exhausted

theorem expression_exhausted {n : Nat} {p : Power} {i : Nat} (le : s.tokens.size ≤ i) :
    Exhausted g p i (expression g s n p i) := by
  induction n generalizing p i with
  | zero => exact .unfinished
  | succ n ih =>
    have loop : ExhaustedLoop g p .finish (i + 1)
        (extensions g s (expression g s n) n p .finish (i + 1)) :=
      extensions_exhausted (fun _ _ le => ih le) n p .finish (by omega)
    rw [expression, Input.token_eq_finish le]
    unfold start
    split
    · next role => exact .never role
    · next role =>
      have : g.start .finish = .leaf := role
      rw [andThen_done]
      generalize extensions g s (expression g s n) n p .finish (i + 1) = r at loop
      cases loop with
      | stop power => exact .leaf role power
      | never power extension => exact .unextended role power extension
      | operand start => simp [start] at this
      | unfinished => exact .unfinished
    · next q role =>
      have : g.start .finish = .operand q := role
      have inner := ih (p := q) (i := i + 1) (by omega)
      generalize expression g s n q (i + 1) = r at inner
      cases inner <;> simp_all [Exhausted.unfinished]
    · next role =>
      have : g.start .finish = .group := role
      have inner := ih (p := 0) (i := i + 1) (by omega)
      generalize expression g s n 0 (i + 1) = r at inner
      cases inner <;> simp_all [Exhausted.unfinished]

/-! ## The tokens a reading passes -/

/-- Not much beyond the end of the input: what is done has passed one end at most, and only as a
leaf. -/
def Within (g : Grammar) (s : Input) : Reading α → Prop
  | done _ i => i ≤ s.tokens.size ∨ (i = s.tokens.size + 1 ∧ g.start .finish = .leaf)
  | failed _ i => i ≤ s.tokens.size + 2
  | unfinished => True

theorem Within.andThen {r : Reading α} {go : α → Nat → Reading β} (within : Within g s r)
    (later : ∀ x i, Within g s (done x i) → Within g s (go x i)) : Within g s (r.andThen go) := by
  cases r with
  | done x i => exact later x i within
  | failed e i => exact within
  | unfinished => trivial

theorem Within.next_le {r : Reading α} (within : Within g s r) : r.next ≤ s.tokens.size + 2 := by
  match r, within with
  | done _ _, within =>
    simp only [Within] at within
    simp only [next_done]
    omega
  | failed _ _, within => exact within
  | unfinished, _ => exact Nat.zero_le _

theorem within_close (x : α) {i : Nat} (within : Within g s (done x i)) :
    Within g s (close s x i) := by
  unfold close
  split
  · next closed =>
    have := Input.lt_size_of_kind_ne (s := s) (i := i) (by simp [closed])
    exact .inl this
  · simp only [Within] at within ⊢
    omega

section Within

variable (exhausted : ∀ p i, s.tokens.size ≤ i → Exhausted g p i (read p i))
  (reads : ∀ p i, i ≤ s.tokens.size → Within g s (read p i))

include reads in
theorem within_start (t : Tree) {i : Nat} (le : i ≤ s.tokens.size) :
    Within g s (start g s read t i) := by
  unfold start
  split
  · exact Nat.le_add_right_of_le le
  · exact .inl le
  · exact (reads _ i le).andThen fun _ _ within => within
  · exact (reads 0 i le).andThen fun x _ within => within_close x within

include reads in
theorem within_arguments (n : Nat) {i : Nat} (le : i ≤ s.tokens.size) :
    Within g s (arguments s read n i) := by
  induction n generalizing i with
  | zero => trivial
  | succ n ih =>
    apply (reads 0 i le).andThen
    intro x j within
    split
    · next comma =>
      have := Input.lt_size_of_kind_ne (s := s) (i := j) (by simp [comma])
      exact (ih this).andThen fun _ _ within => within
    · exact within

include reads in
theorem within_enclosedArguments (n : Nat) {i : Nat} (le : i ≤ s.tokens.size) :
    Within g s (enclosedArguments s read n i) := by
  unfold enclosedArguments
  split
  · next closed =>
    have := Input.lt_size_of_kind_ne (s := s) (i := i) (by simp [closed])
    exact .inl this
  · exact (within_arguments reads n le).andThen fun xs _ within => within_close xs within

include reads in
theorem within_extend (n : Nat) (t left : Tree) {i : Nat} (le : i ≤ s.tokens.size) :
    Within g s (extend g s read n t left i) := by
  unfold extend
  split
  · exact Nat.le_add_right_of_le le
  · exact (reads _ i le).andThen fun _ _ within => within
  · exact (reads _ i le).andThen fun _ _ within => within
  · exact (within_enclosedArguments reads n le).andThen fun _ _ within => within

include exhausted reads in
theorem within_extensions (n : Nat) (p : Power) (left : Tree) {i : Nat}
    (within : Within g s (done left i)) : Within g s (extensions g s read n p left i) := by
  induction n generalizing left i with
  | zero => trivial
  | succ n ih =>
    by_cases beyond : s.tokens.size ≤ i
    · have loop := extensions_exhausted exhausted (n + 1) p left beyond
      generalize extensions g s read (n + 1) p left i = r at loop
      simp only [Within] at within
      cases loop with
      | stop power => exact within
      | never power extension =>
        simp only [Within]
        omega
      | operand start =>
        simp only [start, reduceCtorEq, and_false, or_false] at within
        simp only [Within]
        omega
      | unfinished => trivial
    · rw [extensions]
      split
      · exact (within_extend reads n _ left (by omega)).andThen fun x j within => ih x within
      · exact within

end Within

theorem within_expression (n : Nat) (p : Power) {i : Nat} (le : i ≤ s.tokens.size) :
    Within g s (expression g s n p i) := by
  induction n generalizing p i with
  | zero => trivial
  | succ n ih =>
    by_cases last : i = s.tokens.size
    · have after := expression_exhausted (g := g) (n := n + 1) (p := p) (Nat.le_of_eq last.symm)
      generalize expression g s (n + 1) p i = r at after
      cases after with
      | never start =>
        simp only [Within]
        omega
      | leaf start power => exact .inr ⟨by omega, start⟩
      | unextended start power extension =>
        simp only [Within]
        omega
      | unfinished => trivial
    · have reads (q : Power) (j : Nat) (le : j ≤ s.tokens.size) := ih q le
      rw [expression]
      exact (within_start reads _ (by omega)).andThen fun x j within =>
        within_extensions (fun q j le => expression_exhausted le) reads n p x within

/-- A reading that ends passes two ends of the input at most. -/
theorem next_expression_le {n : Nat} {p : Power} {i : Nat} :
    (expression g s n p i).next ≤ max i s.tokens.size + 2 := by
  rcases Nat.le_total i s.tokens.size with le | le
  · have := (within_expression (g := g) n p le).next_le
    omega
  · have after := expression_exhausted (g := g) (n := n) (p := p) le
    generalize expression g s n p i = r at after
    cases after <;> simp only [next] <;> omega

/-! ## Readings without a bound -/

/-- Two readings are the same if each agrees with the other where the other ends. -/
theorem eq_of_ended {r q : Reading α} (left : r ≠ unfinished → q = r)
    (right : q ≠ unfinished → r = q) : r = q := by
  by_cases ended : r = unfinished
  · by_cases ended' : q = unfinished
    · rw [ended, ended']
    · exact right ended'
  · exact (left ended).symm

end Reading

namespace Tree

open Reading

variable {g : Grammar} {s : Input}

/-- The bound is enough for every reading that ends. -/
theorem read_eq_of_ended {n : Nat} {p : Power} {i : Nat}
    (ended : expression g s n p i ≠ unfinished) : read g s p i = expression g s n p i := by
  have := next_expression_le (g := g) (s := s) (n := n) (p := p) (i := i)
  exact expression_congr ended (by rw [bound]; omega) (.refl s i _)

theorem expression_eq_read {n : Nat} (enough : s.tokens.size + 3 ≤ n) :
    expression g s n = read g s := by
  funext p i
  apply eq_of_ended read_eq_of_ended
  intro ended
  have := next_expression_le (g := g) (s := s) (n := bound s i) (p := p) (i := i)
  exact expression_congr ended (by omega) (.refl s i _)

/-- A reading that ends goes the same way on an input that looks the same. -/
theorem read_congr {s' : Input} {p : Power} {i : Nat} (ended : read g s p i ≠ unfinished)
    (alike : Alike s s' i (read g s p i)) : read g s' p i = read g s p i := by
  have same : expression g s' ((read g s p i).next - i + 1) p i = read g s p i :=
    expression_congr ended (Nat.lt_succ_self _) alike
  rw [← same] at ended
  rw [read_eq_of_ended ended, same]

/-- The tree of an input depends only on what the reading looks at. -/
theorem ofInput_congr {s' : Input} {trailing : Trailing} (ended : read g s 0 0 ≠ unfinished)
    (alike : Alike s s' 0 (read g s 0 0)) : ofInput g trailing s' = ofInput g trailing s := by
  unfold ofInput
  rw [read_congr ended alike]
  split
  · next t i success =>
    rw [success] at alike
    rw [alike.kind i (Nat.zero_le i) (Nat.lt_succ_self i)]
  · rfl
  · rfl

theorem advances_read (g : Grammar) (s : Input) : Advances (read g s) := by
  rw [← expression_eq_read (Nat.le_refl _)]
  exact advances_expression g s _

theorem lt_of_read {p : Power} {x : Tree} {i j : Nat} (read : read g s p i = done x j) : i < j := by
  have passed := advances_read g s p i
  rw [read] at passed
  exact passed (by simp)

theorem le_of_start {t x : Tree} {i j : Nat} (started : start g s (read g s) t i = done x j) :
    i ≤ j := by
  have passed := le_next_start (advances_read g s) (g := g) (s := s) t i
  rw [started] at passed
  exact passed (by simp)

theorem le_of_extend {n : Nat} {t left x : Tree} {i j : Nat}
    (extended : extend g s (read g s) n t left i = done x j) : i ≤ j := by
  have passed := le_next_extend (advances_read g s) (g := g) (s := s) n t left i
  rw [extended] at passed
  exact passed (by simp)

theorem read_exhausted (p : Power) (i : Nat) (le : s.tokens.size ≤ i) :
    Exhausted g p i (read g s p i) :=
  expression_exhausted le

theorem within_read (p : Power) (i : Nat) (le : i ≤ s.tokens.size) : Within g s (read g s p i) :=
  within_expression _ p le

/-- Extends `left` as long as tokens follow that bind more tightly than `p`. -/
def readOn (g : Grammar) (s : Input) (p : Power) (left : Tree) (i : Nat) : Reading Tree :=
  extensions g s (read g s) (s.tokens.size + 3) p left i

/-- Reads arguments, at least one, with commas between them. -/
def readArguments (g : Grammar) (s : Input) (i : Nat) : Reading (List Tree) :=
  Reading.arguments s (read g s) (s.tokens.size + 3) i

theorem next_extensions_le (n : Nat) (p : Power) (left : Tree) (i : Nat) :
    (extensions g s (read g s) n p left i).next ≤ max i s.tokens.size + 2 := by
  rcases Nat.le_total i s.tokens.size with le | le
  · have := (within_extensions (g := g) read_exhausted within_read n p left (.inl le)).next_le
    omega
  · have loop := extensions_exhausted (g := g) read_exhausted n p left le
    generalize extensions g s (read g s) n p left i = r at loop
    cases loop <;> simp only [next] <;> omega

theorem follows_read (lo hi : Nat) : Follows s s lo hi (read g s) (read g s) :=
  fun _ _ _ _ _ _ => rfl

theorem extensions_eq_readOn {n : Nat} (enough : s.tokens.size + 3 ≤ n) :
    extensions g s (read g s) n = readOn g s := by
  funext p left i
  refine eq_of_ended (fun ended => ?_) (fun ended => ?_)
  · have := next_extensions_le (g := g) (s := s) n p left i
    exact extensions_congr (advances_read g s) (follows_read 0 _) n _ p left (Nat.zero_le i) ended
      (Nat.le_refl _) (by omega) (.refl s i _)
  · have := next_extensions_le (g := g) (s := s) (s.tokens.size + 3) p left i
    exact extensions_congr (advances_read g s) (follows_read 0 _) _ n p left (Nat.zero_le i) ended
      (Nat.le_refl _) (by rw [readOn] at *; omega) (.refl s i _)

theorem arguments_eq_readArguments {n i : Nat} (enough : s.tokens.size + 3 ≤ n)
    (le : i ≤ s.tokens.size) :
    Reading.arguments s (read g s) n i = readArguments g s i := by
  have short (n : Nat) := (within_arguments (g := g) (s := s) within_read n le).next_le
  refine eq_of_ended (fun ended => ?_) (fun ended => ?_)
  · have := short n
    exact arguments_congr (advances_read g s) (follows_read 0 _) n _ (Nat.zero_le i) ended
      (Nat.le_refl _) (by omega) (.refl s i _)
  · have := short (s.tokens.size + 3)
    exact arguments_congr (advances_read g s) (follows_read 0 _) _ n (Nat.zero_le i) ended
      (Nat.le_refl _) (by rw [readArguments] at *; omega) (.refl s i _)

/-- An expression starts with a token and goes on with what extends it. -/
theorem read_eq (g : Grammar) (s : Input) (p : Power) (i : Nat) :
    read g s p i = (start g s (read g s) (s.token i) (i + 1)).andThen (readOn g s p) := by
  have deeper := expression_eq_read (g := g) (s := s) (n := s.tokens.size + 4) (by omega)
  rw [← congrFun (congrFun deeper p) i, expression, expression_eq_read (Nat.le_refl _)]
  rfl

theorem readOn_of_lt {p : Power} {left : Tree} {i : Nat} (tighter : p < g.power (s.kind i)) :
    readOn g s p left i =
      (extend g s (read g s) (s.tokens.size + 3) (s.token i) left (i + 1)).andThen
        (readOn g s p) := by
  rw [← extensions_eq_readOn (n := s.tokens.size + 4) (by omega), extensions, if_pos tighter,
    extensions_eq_readOn (Nat.le_refl _), extensions_eq_readOn (Nat.le_succ _)]

theorem readOn_of_le {p : Power} {left : Tree} {i : Nat} (looser : g.power (s.kind i) ≤ p) :
    readOn g s p left i = done left i := by
  rw [readOn, extensions, if_neg (Nat.not_lt.2 looser)]

/-- An expression has been read when the token after it does not extend it. -/
theorem read_eq_done {p : Power} {i j : Nat} {t : Tree} (whole : read g s p i = readOn g s p t j)
    (looser : g.power (s.kind j) ≤ p) : read g s p i = done t j := by
  rw [whole, readOn_of_le looser]

/-- Between operands the loop reads the right one and goes on with the whole. -/
theorem readOn_binary {p q : Power} {i j : Nat} {left right : Tree}
    (tighter : p < g.power (s.kind i))
    (role : g.extension (s.kind i) = .leftward q ∨ g.extension (s.kind i) = .rightward (q + 1))
    (operand : read g s q (i + 1) = done right j) :
    readOn g s p left i = readOn g s p (.binary (s.token i).label left right) j := by
  rw [readOn_of_lt tighter, extend]
  rcases role with role | role
  · simp [show g.extension (s.token i).kind = _ from role, operand]
  · simp [show g.extension (s.token i).kind = _ from role, operand]

theorem readArguments_eq {i : Nat} (le : i ≤ s.tokens.size) :
    readArguments g s i = (read g s 0 i).andThen fun x i =>
      if s.kind i = .comma then (readArguments g s (i + 1)).andThen fun xs => done (x :: xs)
      else done [x] i := by
  rw [← arguments_eq_readArguments (n := s.tokens.size + 4) (by omega) le, arguments_succ]
  rfl

end Tree

end Calculator
