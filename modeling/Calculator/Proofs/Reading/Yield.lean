import Calculator.Grammar.Arithmetic
import Calculator.Proofs.Input
import Calculator.Proofs.Reading.Bound

/-!
# The tokens behind a tree

What is read from an input stands for all the tokens passed, each of them once and in their order.
`Tree.Yields g ts t` says that the tokens `ts` are those of the tree `t`, with the parentheses and
commas of its calls, and with groups around any of its parts. That is what has been passed when a
reading is done (`accounted_expression`), whatever the grammar is. A reading that has failed has
passed the token its error is about, except that a token in the place of a closing parenthesis is
still to come. So expressions that are read one after the other from one input share the tokens of
the input out among them (`exists_blocks`).
-/

namespace Calculator

namespace Tree

mutual

/-- The tokens are what the tree can be read from in the grammar. -/
inductive Yields (g : Grammar) : List Token → Tree → Prop where
  | leaf (token : Token) : Yields g [token] (.leaf token)
  | unary {ts : List Token} {x : Tree} {operator : Token} (operand : Yields g ts x) :
    Yields g (operator :: ts) (.unary operator x)
  | binary {ts us : List Token} {x y : Tree} {operator : Token} (left : Yields g ts x)
    (right : Yields g us y) : Yields g (ts ++ operator :: us) (.binary operator x y)
  | call {ts us : List Token} {x : Tree} {xs : List Tree} {opening closing : Token}
    (callee : Yields g ts x) (arguments : YieldsArguments g us xs)
    (closes : closing.kind = .closeParen) :
    Yields g (ts ++ opening :: (us ++ [closing])) (.call opening x xs)
  /-- A group leaves no node behind. -/
  | group {ts : List Token} {x : Tree} {opening closing : Token}
    (opens : g.start opening.kind = .group) (content : Yields g ts x)
    (closes : closing.kind = .closeParen) : Yields g (opening :: (ts ++ [closing])) x

/-- The tokens are those of the trees, of which there is at least one, with a comma between any
two. -/
inductive YieldsSequence (g : Grammar) : List Token → List Tree → Prop where
  | one {ts : List Token} {x : Tree} (expression : Yields g ts x) : YieldsSequence g ts [x]
  | more {ts us : List Token} {x : Tree} {xs : List Tree} {comma : Token}
    (first : Yields g ts x) (separates : comma.kind = .comma) (rest : YieldsSequence g us xs) :
    YieldsSequence g (ts ++ comma :: us) (x :: xs)

/-- The tokens are those of the arguments of a call, of which there may be none. -/
inductive YieldsArguments (g : Grammar) : List Token → List Tree → Prop where
  | none : YieldsArguments g [] []
  | some {ts : List Token} {xs : List Tree} (sequence : YieldsSequence g ts xs) :
    YieldsArguments g ts xs

end

end Tree

namespace Reading

open Calculator.Tree (Yields YieldsSequence YieldsArguments)

variable {α β : Type} {g : Grammar} {s : Input} {i : Nat}

/-- With the next token at `j`, the error is about the token passed last, or about that next token
if a parenthesis is missing. -/
inductive Located (g : Grammar) (s : Input) : SyntaxError → Nat → Prop where
  | cannotStart {j : Nat} (never : g.start (s.kind j) = .never) :
    Located g s (.cannotStart (s.kind j)) (j + 1)
  | cannotExtend {j : Nat} (never : g.extension (s.kind j) = .never) :
    Located g s (.cannotExtend (s.kind j)) (j + 1)
  | unclosed {j : Nat} (opened : s.kind j ≠ .closeParen) : Located g s (.unclosed (s.kind j)) j

/-- A reading from `i` on that accounts for the tokens it passes. What is done is a phrase of just
these tokens. -/
def Accounted (g : Grammar) (s : Input) (i : Nat) (phrase : List Token → α → Prop) :
    Reading α → Prop
  | done x j => ∃ ts, s.Holds i ts ∧ j = i + ts.length ∧ phrase ts x
  | failed e j => Located g s e j
  | unfinished => True

/-- A reading that begins after some tokens and goes on accounts for these tokens too if what comes
after it does. -/
theorem Accounted.andThen {r : Reading α} {go : α → Nat → Reading β}
    {phrase : List Token → α → Prop} {phrase' : List Token → β → Prop} {vs : List Token}
    (holds : s.Holds i vs) (accounted : Accounted g s (i + vs.length) phrase r)
    (later : ∀ ts x, s.Holds i (vs ++ ts) → phrase ts x →
      Accounted g s i phrase' (go x (i + (vs ++ ts).length))) :
    Accounted g s i phrase' (r.andThen go) := by
  match r, accounted with
  | done x j, ⟨ts, held, passed, derived⟩ =>
    have length : i + (vs ++ ts).length = j := by
      rw [List.length_append, passed, Nat.add_assoc]
    rw [andThen_done, ← length]
    exact later ts x (Input.holds_append.2 ⟨holds, held⟩) derived
  | failed e j, located => exact located
  | unfinished, _ => trivial

section Parts

variable {read : Power → Nat → Reading Tree} (childless : s.Childless)
  (reads : ∀ p i, Accounted g s i (Yields g) (read p i))

include childless in
theorem accounted_close {phrase : List Token → α → Prop} {ts : List Token} {x : α}
    (holds : s.Holds i ts)
    (closed : ∀ closing, closing.kind = .closeParen → phrase (ts ++ [closing]) x) :
    Accounted g s i phrase (close s x (i + ts.length)) := by
  unfold close
  split
  · next closes =>
    refine ⟨_, Input.holds_snoc childless holds, ?_, closed _ closes⟩
    exact Input.length_snoc ..
  · next opened => exact .unclosed opened

include childless reads in
theorem accounted_arguments (n : Nat) (i : Nat) :
    Accounted g s i (YieldsSequence g) (arguments s read n i) := by
  induction n generalizing i with
  | zero => trivial
  | succ n ih =>
    rw [arguments_succ]
    refine .andThen Input.holds_nil (reads 0 i) ?_
    intro ts x holds first
    rw [List.nil_append] at holds ⊢
    unfold argumentsAfter
    split
    · next comma =>
      have holds := Input.holds_snoc childless holds
      rw [Input.length_snoc i ts (s.token (i + ts.length)).label]
      refine .andThen holds (ih _) ?_
      intro us xs holds rest
      refine ⟨_, holds, rfl, ?_⟩
      rw [List.append_assoc]
      exact .more first comma rest
    · exact ⟨ts, holds, rfl, .one first⟩

include childless reads in
theorem accounted_enclosedArguments (n : Nat) (i : Nat) :
    Accounted g s i (fun us xs => ∃ ts closing, us = ts ++ [closing] ∧
      closing.kind = .closeParen ∧ YieldsArguments g ts xs) (enclosedArguments s read n i) := by
  unfold enclosedArguments
  split
  · next closes =>
    exact ⟨_, Input.holds_singleton.2 (childless i), rfl, [], _, rfl, closes, .none⟩
  · refine .andThen Input.holds_nil (accounted_arguments childless reads n i) ?_
    intro ts xs holds sequence
    refine accounted_close childless holds ?_
    intro closing closes
    exact ⟨ts, closing, rfl, closes, .some sequence⟩

include childless reads in
theorem accounted_start {t : Token} (token : s.token i = .leaf t) :
    Accounted g s i (Yields g) (start g s read (.leaf t) (i + 1)) := by
  have holds : s.Holds i [t] := Input.holds_singleton.2 token
  have kind : s.kind i = t.kind := Input.kind_of_token token
  unfold start
  split
  · next never =>
    change Located g s (.cannotStart t.kind) (i + 1)
    rw [← kind]
    exact .cannotStart (by rw [kind]; exact never)
  · exact ⟨[t], holds, rfl, .leaf t⟩
  · refine .andThen holds (reads _ _) ?_
    intro ts x holds operand
    exact ⟨_, holds, rfl, .unary operand⟩
  · next opens =>
    refine .andThen holds (reads 0 _) ?_
    intro ts x holds content
    refine accounted_close childless holds ?_
    intro closing closes
    exact .group opens content closes

include childless reads in
theorem accounted_extend (n : Nat) {ts : List Token} {t : Token} {left : Tree}
    (holds : s.Holds i (ts ++ [t])) (yields : Yields g ts left) :
    Accounted g s i (Yields g) (extend g s read n (.leaf t) left (i + (ts ++ [t]).length)) := by
  have operand (q : Power) :
      Accounted g s i (Yields g) ((read q (i + (ts ++ [t]).length)).andThen fun x =>
        done (.binary t left x)) := by
    refine .andThen holds (reads q _) ?_
    intro us x holds right
    refine ⟨_, holds, rfl, ?_⟩
    rw [List.append_assoc]
    exact .binary yields right
  unfold extend
  split
  · next never =>
    have kind : s.kind (i + ts.length) = t.kind :=
      Input.kind_of_token (Input.holds_singleton.1 (Input.holds_append.1 holds).2)
    rw [← Input.length_snoc]
    change Located g s (.cannotExtend t.kind) _
    rw [← kind]
    exact .cannotExtend (by rw [kind]; exact never)
  · exact operand _
  · exact operand _
  · refine .andThen holds (accounted_enclosedArguments childless reads n _) ?_
    rintro _ xs holds ⟨us, closing, rfl, closes, arguments⟩
    refine ⟨_, holds, rfl, ?_⟩
    rw [List.append_assoc]
    exact .call yields arguments closes

include childless reads in
/-- The invariant of the loop: what has been passed so far yields what has been read so far. -/
theorem accounted_extensions (n : Nat) (p : Power) {ts : List Token} {left : Tree}
    (holds : s.Holds i ts) (yields : Yields g ts left) :
    Accounted g s i (Yields g) (extensions g s read n p left (i + ts.length)) := by
  induction n generalizing ts left with
  | zero => trivial
  | succ n ih =>
    rw [extensions]
    split
    · rw [childless (i + ts.length), Input.length_snoc i ts (s.token (i + ts.length)).label]
      have extended := accounted_extend childless reads n (Input.holds_snoc childless holds) yields
      refine .andThen Input.holds_nil extended ?_
      intro us x holds yields
      exact ih holds yields
    · exact ⟨ts, holds, rfl, yields⟩

end Parts

/-- In every grammar, what is read from tokens without children accounts for the tokens passed. -/
theorem accounted_expression (g : Grammar) {s : Input} (childless : s.Childless) (n : Nat)
    (p : Power) (i : Nat) : Accounted g s i (Yields g) (expression g s n p i) := by
  induction n generalizing p i with
  | zero => trivial
  | succ n ih =>
    rw [expression, childless i]
    refine .andThen Input.holds_nil (accounted_start childless ih (childless i)) ?_
    intro ts x holds yields
    exact accounted_extensions childless ih n p holds yields

end Reading

/-! ## Readings one after the other -/

namespace Tree

open Reading

/-- What comes of reading expressions at some powers one after the other, each from where the one
before has stopped, whether that one was done or had failed. -/
def readings (g : Grammar) (s : Input) : Nat → List Power → List (Reading Tree)
  | _, [] => []
  | i, p :: ps => read g s p i :: readings g s (read g s p i).next ps

/-- How a reading that has passed the tokens accounts for them: they yield its tree, or the last of
them is the one its error names, or its error names the token after them. -/
inductive Explains (g : Grammar) (s : Input) (i : Nat) : List Token → Reading Tree → Prop where
  | done {ts : List Token} {x : Tree} (yields : Yields g ts x) :
    Explains g s i ts (done x (i + ts.length))
  | cannotStart {ts : List Token} {t : Token} (never : g.start t.kind = .never) :
    Explains g s i (ts ++ [t]) (failed (.cannotStart t.kind) (i + ts.length + 1))
  | cannotExtend {ts : List Token} {t : Token} (never : g.extension t.kind = .never) :
    Explains g s i (ts ++ [t]) (failed (.cannotExtend t.kind) (i + ts.length + 1))
  | unclosed {ts : List Token} (opened : s.kind (i + ts.length) ≠ .closeParen) :
    Explains g s i ts (failed (.unclosed (s.kind (i + ts.length))) (i + ts.length))

/-- From position `i` on, each of the readings has passed one of the blocks of tokens. -/
inductive Blocks (g : Grammar) (s : Input) : Nat → List (Reading Tree) → List (List Token) → Prop
    where
  | nil {i : Nat} : Blocks g s i [] []
  | cons {i : Nat} {r : Reading Tree} {rs : List (Reading Tree)} {ts : List Token}
    {blocks : List (List Token)} (nonempty : ts ≠ []) (holds : s.Holds i ts)
    (explains : Explains g s i ts r) (later : Blocks g s (i + ts.length) rs blocks) :
    Blocks g s i (r :: rs) (ts :: blocks)

theorem Blocks.holds {g : Grammar} {s : Input} {i : Nat} {rs : List (Reading Tree)}
    {blocks : List (List Token)} (passed : Blocks g s i rs blocks) : s.Holds i blocks.flatten := by
  induction passed with
  | nil => exact Input.holds_nil
  | cons _ holds _ _ ih => exact Input.holds_append.2 ⟨holds, ih⟩

/-- Every reading that ends accounts for a block of tokens, an error for the one that it has passed
when it is noticed. -/
theorem exists_explains {g : Grammar} {s : Input} {i : Nat} {r : Reading Tree}
    (childless : s.Childless) (accounted : Accounted g s i (Yields g) r) (passed : i < r.next) :
    ∃ ts, ts ≠ [] ∧ s.Holds i ts ∧ r.next = i + ts.length ∧ Explains g s i ts r := by
  match r, accounted with
  | .done x j, ⟨ts, holds, length, yields⟩ =>
    subst length
    refine ⟨ts, ?_, holds, rfl, .done yields⟩
    rintro rfl
    exact Nat.lt_irrefl i passed
  | .failed e j, located =>
    cases located with
    | @cannotStart j never =>
      obtain ⟨ts, holds, rfl⟩ := Input.exists_holds childless (Nat.le_of_lt_succ passed)
      refine ⟨_, by simp, Input.holds_snoc childless holds, Input.length_snoc .., ?_⟩
      exact .cannotStart never
    | @cannotExtend j never =>
      obtain ⟨ts, holds, rfl⟩ := Input.exists_holds childless (Nat.le_of_lt_succ passed)
      refine ⟨_, by simp, Input.holds_snoc childless holds, Input.length_snoc .., ?_⟩
      exact .cannotExtend never
    | @unclosed j opened =>
      obtain ⟨ts, holds, rfl⟩ := Input.exists_holds childless (Nat.le_of_lt passed)
      refine ⟨ts, ?_, holds, rfl, .unclosed opened⟩
      rintro rfl
      exact Nat.lt_irrefl i passed
  | .unfinished, _ => exact absurd passed (Nat.not_lt_zero i)

theorem exists_blocks_of_childless {g : Grammar} {s : Input} (childless : s.Childless)
    {ps : List Power} {i : Nat} (ended : unfinished ∉ readings g s i ps) :
    ∃ blocks, Blocks g s i (readings g s i ps) blocks := by
  induction ps generalizing i with
  | nil => exact ⟨[], .nil⟩
  | cons p ps ih =>
    rw [readings, List.mem_cons, not_or] at ended
    have passed := advances_read g s p i (Ne.symm ended.1)
    have accounted := accounted_expression g childless (bound s i) p i
    obtain ⟨ts, nonempty, holds, next, explains⟩ := exists_explains childless accounted passed
    obtain ⟨blocks, later⟩ := ih ended.2
    rw [readings]
    refine ⟨ts :: blocks, .cons nonempty holds explains ?_⟩
    rw [← next]
    exact later

/-- Readings that end, one after the other, share out the tokens of an input among them, none of
which is lost, used twice or moved. Each of them passes some token at least. -/
theorem exists_blocks {g : Grammar} {ts : List Token} {ps : List Power}
    (ended : unfinished ∉ readings g (.ofTokens ts) 0 ps) :
    ∃ blocks, Blocks g (.ofTokens ts) 0 (readings g (.ofTokens ts) 0 ps) blocks ∧
      ∃ n, blocks.flatten <+: ts ++ List.replicate n .finish := by
  obtain ⟨blocks, passed⟩ := exists_blocks_of_childless (Input.childless_ofTokens ts) ended
  exact ⟨blocks, passed, _, Input.prefix_of_holds passed.holds⟩

/-! ### Which blocks these are -/

theorem Explains.next {g : Grammar} {s : Input} {i : Nat} {ts : List Token} {r : Reading Tree}
    (explains : Explains g s i ts r) : r.next = i + ts.length := by
  cases explains with
  | done => rfl
  | cannotStart => exact Input.length_snoc ..
  | cannotExtend => exact Input.length_snoc ..
  | unclosed => rfl

/-- There is only one way to share the tokens out. -/
theorem Blocks.unique {g : Grammar} {s : Input} {i : Nat} {rs : List (Reading Tree)}
    {blocks blocks' : List (List Token)} (passed : Blocks g s i rs blocks)
    (passed' : Blocks g s i rs blocks') : blocks = blocks' := by
  induction passed generalizing blocks' with
  | nil =>
    cases passed'
    rfl
  | @cons i r rs ts blocks nonempty holds explains later ih =>
    obtain _ | ⟨nonempty', holds', explains', later'⟩ := passed'
    obtain rfl := Input.eq_of_holds holds holds'
      (Nat.add_left_cancel (explains.next.symm.trans explains'.next))
    rw [ih later']

/-- The tokens of `1)(2,`. -/
def strayTokens : List Token :=
  [.number 1, .mark .closeParen, .mark .openParen, .number 2, .mark .comma]

/-- `1)(2,` read four times: a literal, an error at the stray parenthesis, a group that is not
closed, and an error at the comma. -/
theorem exists_blocks_stray :
    readings .arithmetic (.ofTokens strayTokens) 0 [0, 0, 120, 0] =
      [.done (.leaf (.number 1)) 1, .failed (.cannotStart .closeParen) 2,
        .failed (.unclosed .comma) 4, .failed (.cannotStart .comma) 5] ∧
    unfinished ∉ readings .arithmetic (.ofTokens strayTokens) 0 [0, 0, 120, 0] ∧
    ∃ blocks, Blocks .arithmetic (.ofTokens strayTokens) 0
      (readings .arithmetic (.ofTokens strayTokens) 0 [0, 0, 120, 0]) blocks ∧
      (∃ n, blocks.flatten <+: strayTokens ++ List.replicate n .finish) ∧
      blocks =
        [[.number 1], [.mark .closeParen], [.mark .openParen, .number 2], [.mark .comma]] := by
  have read : readings .arithmetic (.ofTokens strayTokens) 0 [0, 0, 120, 0] =
      [.done (.leaf (.number 1)) 1, .failed (.cannotStart .closeParen) 2,
        .failed (.unclosed .comma) 4, .failed (.cannotStart .comma) 5] := rfl
  have ended : unfinished ∉ readings .arithmetic (.ofTokens strayTokens) 0 [0, 0, 120, 0] := by
    rw [read]
    decide
  obtain ⟨blocks, passed, through⟩ := exists_blocks ended
  refine ⟨read, ended, blocks, passed, through, passed.unique ?_⟩
  rw [read]
  exact .cons (by decide) ⟨rfl, trivial⟩ (.done (.leaf _)) <|
    .cons (by decide) ⟨rfl, trivial⟩ (@Explains.cannotStart _ _ _ [] (.mark .closeParen) rfl) <|
    .cons (by decide) ⟨rfl, rfl, trivial⟩ (.unclosed (by decide)) <|
    .cons (by decide) ⟨rfl, trivial⟩ (@Explains.cannotStart _ _ _ [] (.mark .comma) rfl) .nil

end Tree

end Calculator
