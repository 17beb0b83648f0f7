import Calculator.Proofs.Arithmetic.Derivation
import Calculator.Proofs.Input
import Calculator.Proofs.Reading.Bound
import Calculator.Proofs.Reading.Refusal

/-!
# What is read in the grammar of arithmetic

Reading from left to right by powers stays within the language of arithmetic at every moment
(`viable_expression`). What is done is a phrase of the level that belongs to the power. Where a
reading fails, the last token it has seen is to blame, and the tokens before it are the beginning of
a phrase.
-/

namespace Calculator

/-- The error names the kind `k` of a token that cannot stand where it stands. -/
def SyntaxError.Blames (e : SyntaxError) (k : Kind) : Prop :=
  e = .cannotStart k ∨ e = .unclosed k

namespace Reading

variable {α β : Type} {s : Input} {i : Nat}

/-- A reading from `i` on within a language. What is done is a phrase of the language. Where it has
failed, the error blames the last token seen, and the tokens before that one can be completed to a
phrase. -/
def Viable (s : Input) (i : Nat) (phrase : List Token → α → Prop) : Reading α → Prop
  | done x j => ∃ ts, s.Holds i ts ∧ j = i + ts.length ∧ phrase ts x
  | failed e j => ∃ ts us x, s.Holds i ts ∧ (failed e j : Reading α).seen = i + ts.length + 1 ∧
      e.Blames (s.kind (i + ts.length)) ∧ phrase (ts ++ us) x
  | unfinished => True

/-- A reading stays within a language when it goes on, if every phrase so far can be completed. -/
theorem Viable.andThen {r : Reading α} {go : α → Nat → Reading β} {phrase : List Token → α → Prop}
    {phrase' : List Token → β → Prop} (viable : Viable s i phrase r)
    (completes : ∀ ts x, phrase ts x → ∃ us y, phrase' (ts ++ us) y)
    (later : ∀ ts x, s.Holds i ts → phrase ts x → r = done x (i + ts.length) →
      Viable s i phrase' (go x (i + ts.length))) :
    Viable s i phrase' (r.andThen go) := by
  match r, viable with
  | done x j, ⟨ts, holds, passed, derived⟩ =>
    subst passed
    exact later ts x holds derived rfl
  | failed e j, ⟨ts, us, x, holds, seen, blames, derived⟩ =>
    obtain ⟨vs, y, derived⟩ := completes _ x derived
    rw [List.append_assoc] at derived
    exact ⟨ts, us ++ vs, y, holds, (seen_failed e j).symm.trans seen, blames, derived⟩
  | unfinished, _ => trivial

/-- The same for a reading that begins after some tokens. -/
theorem Viable.andThen_after {r : Reading α} {go : α → Nat → Reading β}
    {phrase : List Token → α → Prop} {phrase' : List Token → β → Prop} {vs : List Token}
    (holds : s.Holds i vs) (viable : Viable s (i + vs.length) phrase r)
    (completes : ∀ ts x, phrase ts x → ∃ us y, phrase' (vs ++ ts ++ us) y)
    (later : ∀ ts x, s.Holds i (vs ++ ts) → phrase ts x → r = done x (i + (vs ++ ts).length) →
      Viable s i phrase' (go x (i + (vs ++ ts).length))) :
    Viable s i phrase' (r.andThen go) := by
  have shifted : Viable s i (fun ts x => ∃ us, ts = vs ++ us ∧ phrase us x) r := by
    match r, viable with
    | done x j, ⟨ts, holds', passed, derived⟩ =>
      refine ⟨vs ++ ts, Input.holds_append.2 ⟨holds, holds'⟩, ?_, ts, rfl, derived⟩
      simp [passed, Nat.add_assoc]
    | failed e j, ⟨ts, us, x, holds', seen, blames, derived⟩ =>
      refine ⟨vs ++ ts, us, x, Input.holds_append.2 ⟨holds, holds'⟩, ?_, ?_, ts ++ us, by simp,
        derived⟩
      · simp [seen, Nat.add_assoc]
      · simpa [Nat.add_assoc] using blames
    | unfinished, _ => trivial
  refine shifted.andThen ?_ ?_
  · rintro _ x ⟨ts, rfl, derived⟩
    exact completes ts x derived
  · rintro _ x holds ⟨ts, rfl, derived⟩ success
    exact later ts x holds derived success

end Reading

namespace Arithmetic

open Reading

/-! ## The roles of the kinds -/

theorem kind_of_start_leaf {k : Kind} (h : Grammar.arithmetic.start k = .leaf) :
    k = .literal ∨ k = .name := by
  cases k <;> cases h
  · exact .inl rfl
  · exact .inr rfl

theorem kind_of_start_operand {k : Kind} {q : Power}
    (h : Grammar.arithmetic.start k = .operand q) : (k = .plus ∨ k = .minus) ∧ q = 130 := by
  cases k <;> cases h
  · exact ⟨.inl rfl, rfl⟩
  · exact ⟨.inr rfl, rfl⟩

theorem kind_of_start_group {k : Kind} (h : Grammar.arithmetic.start k = .group) :
    k = .openParen := by
  cases k <;> cases h
  rfl

theorem power_of_extension_never {k : Kind} (h : Grammar.arithmetic.extension k = .never) :
    Grammar.arithmetic.power k = 0 := by
  revert h
  cases k <;> decide

/-- An operator that groups to the left is one of a chain. -/
theorem level_of_extension_leftward {k : Kind} {q : Power}
    (h : Grammar.arithmetic.extension k = .leftward q) :
    ∃ l : Level, k ∈ l.operators ∧ l.ceiling = q ∧ Level.ofPower q = l.tighter ∧
      Grammar.arithmetic.power k = q ∧ q < 150 := by
  cases k <;> cases h
  case plus | minus => exact ⟨.sum, by decide⟩
  case times | divide | remainder => exact ⟨.product, by decide⟩
  case shiftLeft | shiftRight | shiftRightZero => exact ⟨.shift, by decide⟩

theorem kind_of_extension_rightward {k : Kind} {q : Power}
    (h : Grammar.arithmetic.extension k = .rightward q) : k = .power ∧ q = 130 := by
  cases k <;> cases h
  exact ⟨rfl, rfl⟩

theorem kind_of_extension_call {k : Kind} (h : Grammar.arithmetic.extension k = .call) :
    k = .openParen := by
  cases k <;> cases h
  rfl

theorem ceiling_ofPower_le (p : Nat) : (Level.ofPower p).ceiling ≤ 130 := by
  unfold Level.ofPower
  repeat' split
  all_goals decide

/-- A chain is read at the powers below that of its operators. -/
theorem ceiling_ofPower_le_iff {p : Nat} {l : Level} (chain : l.operators ≠ []) :
    (Level.ofPower p).ceiling ≤ l.ceiling ↔ p < l.ceiling := by
  unfold Level.ofPower
  cases l <;> simp only [Level.operators, ne_eq, not_true_eq_false] at chain
  all_goals repeat' split
  all_goals simp only [Level.ceiling]
  all_goals omega

theorem ceiling_ofPower_le_power_iff {p : Nat} :
    (Level.ofPower p).ceiling ≤ Level.power.ceiling ↔ p < 130 := by
  unfold Level.ofPower
  repeat' split
  all_goals simp only [Level.ceiling]
  all_goals omega

theorem power_arithmetic_le (k : Kind) : Grammar.arithmetic.power k ≤ 150 := by
  cases k <;> decide

/-! ## Groups, arguments and operands -/

/-- An expression that stands in parentheses. -/
theorem viable_close {α : Type} {s : Input} {i : Nat} {phrase : List Token → α → Prop}
    {ts : List Token} {x : α} (childless : s.Childless) (holds : s.Holds i ts)
    (derived : phrase ts x) :
    Viable s i (fun ts x => ∃ us closing, ts = us ++ [closing] ∧ closing.kind = .closeParen ∧
      phrase us x) (close s x (i + ts.length)) := by
  have here := childless (i + ts.length)
  unfold close
  split
  · next closes =>
    refine ⟨ts ++ [(s.token (i + ts.length)).label], ?_, by simp [Nat.add_assoc], ts, _, rfl, closes,
      derived⟩
    exact Input.holds_append.2 ⟨holds, Input.holds_singleton.2 here⟩
  · exact ⟨ts, [.mark .closeParen], x, holds, rfl, .inr rfl, ts, _, rfl, rfl, derived⟩

section Parts

variable {s : Input} {i : Nat} {read : Power → Nat → Reading Tree} (childless : s.Childless)

variable (reads : ∀ p i, p < 150 → Viable s i (Derives (.ofPower p)) (read p i))

include childless reads in
theorem viable_arguments (n : Nat) (i : Nat) :
    Viable s i DerivesSequence (arguments s read n i) := by
  induction n generalizing i with
  | zero => trivial
  | succ n ih =>
    rw [arguments_succ]
    refine (reads 0 i (by decide)).andThen ?_ ?_
    · exact fun ts x derived => ⟨[], [x], by simpa using DerivesSequence.one derived⟩
    · intro ts x holds derived _
      unfold argumentsAfter
      split
      · next comma =>
        have more {us : List Token} {xs : List Tree} (rest : DerivesSequence us xs) :
            DerivesSequence (ts ++ [(s.token (i + ts.length)).label] ++ us) (x :: xs) := by
          simpa using DerivesSequence.more derived comma rest
        rw [Input.length_snoc i ts (s.token (i + ts.length)).label]
        refine Viable.andThen_after (Input.holds_snoc childless holds) (ih _) ?_ ?_
        · exact fun us xs rest => ⟨[], x :: xs, by simpa using more rest⟩
        · exact fun us xs holds rest _ => ⟨_, holds, rfl, more rest⟩
      · exact ⟨ts, holds, rfl, .one derived⟩

include childless reads in
theorem viable_enclosedArguments (n : Nat) (i : Nat) :
    Viable s i (fun ts xs => ∃ us closing, ts = us ++ [closing] ∧ closing.kind = .closeParen ∧
      DerivesArguments us xs) (enclosedArguments s read n i) := by
  unfold enclosedArguments
  split
  · next closes =>
    exact ⟨[(s.token i).label], Input.holds_singleton.2 (childless i), rfl, [], _, rfl, closes,
      .none⟩
  · refine (viable_arguments childless reads n i).andThen ?_ ?_
    · exact fun ts xs derived => ⟨[.mark .closeParen], xs, ts, _, rfl, rfl, .some derived⟩
    · exact fun ts xs holds derived _ => viable_close childless holds (.some derived)

variable (stops : ∀ p i x j, read p i = done x j → Grammar.arithmetic.power (s.kind j) ≤ p)

/-! ## The loop -/

include childless reads stops in
/-- The invariant of the loop: what has been read so far is a phrase of some level, and the token
after it is not tighter than that level allows. -/
theorem viable_extensions (n : Nat) (p : Power) {l : Level} {ts : List Token} {left : Tree}
    (holds : s.Holds i ts) (derived : Derives l ts left)
    (tight : (Level.ofPower p).ceiling ≤ l.ceiling)
    (ahead : Grammar.arithmetic.power (s.kind (i + ts.length)) ≤ l.ceiling) :
    Viable s i (Derives (.ofPower p))
      (extensions .arithmetic s read n p left (i + ts.length)) := by
  induction n generalizing l ts left with
  | zero => trivial
  | succ n ih =>
    rw [extensions]
    split
    · next tighter =>
      have holds' := Input.holds_snoc childless holds
      have length := Input.length_snoc i ts (s.token (i + ts.length)).label
      generalize token : s.token (i + ts.length) = t at holds' length
      have kind : s.kind (i + ts.length) = t.label.kind := by rw [← token]; rfl
      rw [kind] at tighter ahead
      have operand {m : Level} {q : Power} (small : q < 150)
          (build : ∀ us u, Derives (.ofPower q) us u →
            Derives m (ts ++ [t.label] ++ us) (.binary t.label left u))
          (tight : (Level.ofPower p).ceiling ≤ m.ceiling) (closed : q ≤ m.ceiling) :
          Viable s i (Derives (.ofPower p))
            (((read q (i + ts.length + 1)).andThen fun x => done (.binary t.label left x)).andThen
              (extensions .arithmetic s read n p)) := by
        rw [andThen_assoc, length]
        refine Viable.andThen_after holds' (reads q _ small) ?_ ?_
        · exact fun us u right => ⟨[], _, by simpa using (build us u right).loosen tight⟩
        · intro us u holds right success
          exact ih holds (build us u right) tight (Nat.le_trans (stops _ _ _ _ success) closed)
      unfold extend
      split
      · next never =>
        have := power_of_extension_never never
        rw [show Grammar.arithmetic.power t.label.kind = 0 from this] at tighter
        exact absurd tighter (Nat.not_lt_zero p)
      · next q leftward =>
        obtain ⟨m, listed, rfl, next, power, small⟩ := level_of_extension_leftward leftward
        rw [show Grammar.arithmetic.power t.label.kind = _ from power] at tighter ahead
        refine operand small (fun us u right => ?_)
          ((ceiling_ofPower_le_iff (List.ne_nil_of_mem listed)).2 tighter) (Nat.le_refl _)
        rw [next] at right
        simpa using Derives.chain (derived.loosen ahead) listed right
      · next q rightward =>
        obtain ⟨sign, rfl⟩ := kind_of_extension_rightward rightward
        rw [show t.label.kind = .power from sign] at tighter ahead
        refine operand (m := .power) (by decide) (fun us u right => ?_)
          (ceiling_ofPower_le_power_iff.2 tighter) (by decide)
        simpa using Derives.power (derived.loosen ahead) sign right
      · next call =>
        have opens : t.label.kind = .openParen := kind_of_extension_call call
        rw [opens] at tighter ahead
        have build {us : List Token} {closing : Token} {xs : List Tree}
            (closes : closing.kind = .closeParen) (arguments : DerivesArguments us xs) :
            Derives .call (ts ++ [t.label] ++ (us ++ [closing])) (.call t.label left xs) := by
          simpa using Derives.call (derived.loosen ahead) opens arguments closes
        have loose : (Level.ofPower p).ceiling ≤ Level.call.ceiling :=
          Nat.le_trans (ceiling_ofPower_le p) (by decide)
        rw [andThen_assoc, length]
        refine Viable.andThen_after holds' (viable_enclosedArguments childless reads n _) ?_ ?_
        · rintro _ xs ⟨us, closing, rfl, closes, arguments⟩
          exact ⟨[], _, by simpa using (build closes arguments).loosen loose⟩
        · rintro _ xs holds ⟨us, closing, rfl, closes, arguments⟩ -
          exact ih holds (build closes arguments) loose (power_arithmetic_le _)
    · exact ⟨ts, holds, rfl, derived.loosen tight⟩

end Parts

/-- Whatever is read at a power below that of calls is viable for the level of the power. -/
theorem viable_expression {s : Input} (childless : s.Childless) (n : Nat) (p : Power) (i : Nat)
    (small : p < 150) :
    Viable s i (Derives (.ofPower p)) (expression .arithmetic s n p i) := by
  induction n generalizing p i with
  | zero => trivial
  | succ n ih =>
    have loop (p : Power) {l : Level} {ts : List Token} {left : Tree} (holds : s.Holds i ts)
        (derived : Derives l ts left) (tight : (Level.ofPower p).ceiling ≤ l.ceiling)
        (ahead : Grammar.arithmetic.power (s.kind (i + ts.length)) ≤ l.ceiling) :=
      viable_extensions childless (fun p i small => ih p i small) (stops_expression n) n p holds
        derived tight ahead
    have loose : (Level.ofPower p).ceiling ≤ Level.signed.ceiling := ceiling_ofPower_le p
    have loosest : (Level.ofPower p).ceiling ≤ Level.primary.ceiling :=
      Nat.le_trans loose (by decide)
    have holds : s.Holds i [(s.token i).label] := Input.holds_singleton.2 (childless i)
    rw [expression]
    generalize token : s.token i = t at holds
    have kind : s.kind i = t.label.kind := by rw [← token]; rfl
    unfold start
    split
    · refine ⟨[], [.number 0], _, trivial, rfl, .inl ?_, (Derives.leaf (.inl rfl)).loosen loosest⟩
      simp [kind, Tree.kind]
    · next leaf =>
      have derived := Derives.leaf (kind_of_start_leaf leaf)
      rw [← show t = .leaf t.label from token ▸ childless i] at derived
      exact loop p holds derived loosest (Nat.le_trans (power_arithmetic_le _) (by decide))
    · next q operand =>
      obtain ⟨listed, rfl⟩ := kind_of_start_operand operand
      have build {ts : List Token} {x : Tree} (derived : Derives (.ofPower 130) ts x) :
          Derives .signed ([t.label] ++ ts) (.unary t.label x) := .signed listed derived
      rw [andThen_assoc]
      refine Viable.andThen_after holds (ih 130 _ (by decide)) ?_ ?_
      · exact fun ts x derived => ⟨[], _, by simpa using (build derived).loosen loose⟩
      · intro ts x holds derived success
        exact loop p holds (build derived) loose (stops_expression n _ _ _ _ success)
    · next group =>
      have opens : t.label.kind = .openParen := kind_of_start_group group
      have build {ts : List Token} {closing : Token} {x : Tree}
          (closes : closing.kind = .closeParen) (derived : Derives (.ofPower 0) ts x) :
          Derives .primary ([t.label] ++ ts ++ [closing]) x := by
        simpa using Derives.group opens derived closes
      rw [andThen_assoc]
      refine Viable.andThen_after holds (ih 0 _ (by decide)) ?_ ?_
      · exact fun ts x derived =>
          ⟨[.mark .closeParen], x, (build rfl derived).loosen loosest⟩
      · intro ts x holds derived _
        have closed : Viable s i (fun us y => ∃ ws closing, us = ws ++ [closing] ∧
            closing.kind = .closeParen ∧ ws = [t.label] ++ ts ∧ y = x) _ :=
          viable_close childless holds ⟨rfl, rfl⟩
        refine closed.andThen ?_ ?_
        · rintro _ x ⟨_, closing, rfl, closes, rfl, rfl⟩
          exact ⟨[], _, by simpa using (build closes derived).loosen loosest⟩
        · rintro _ x holds ⟨_, closing, rfl, closes, rfl, rfl⟩ -
          exact loop p holds (build closes derived) loosest
            (Nat.le_trans (power_arithmetic_le _) (by decide))

end Arithmetic

end Calculator
