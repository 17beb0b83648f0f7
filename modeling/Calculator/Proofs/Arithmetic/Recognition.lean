import Calculator.Proofs.Arithmetic.Viable
import Calculator.Proofs.Reading.Termination

/-!
# The grammar of arithmetic is the language of arithmetic

Reading by powers and deriving by levels give the same trees (`ofTokens_arithmetic`). One direction
is that reading is viable. For the other, a derived phrase is read as a whole before the loop goes
on with what follows it (`read_of_derives`); that loop has to stop at the token after the phrase.
-/

namespace Calculator

namespace Arithmetic

open Reading
open Calculator.Tree hiding arguments

/-! ## The roles of the operators -/

theorem role_of_mem_operators {l : Level} {k : Kind} (listed : k ∈ l.operators) :
    Grammar.arithmetic.extension k = .leftward l.ceiling ∧
      Grammar.arithmetic.power k = l.ceiling ∧ Level.ofPower l.ceiling = l.tighter ∧
      l.ceiling < 150 := by
  cases l <;> simp only [Level.operators, List.mem_cons, List.not_mem_nil, or_false] at listed
  case shift => rcases listed with rfl | rfl | rfl <;> decide
  case sum => rcases listed with rfl | rfl <;> decide
  case product => rcases listed with rfl | rfl | rfl <;> decide

mutual

/-- A phrase begins with a token that starts an expression. -/
theorem Derives.exists_cons : ∀ {l : Level} {ts : List Token} {t : Tree}, Derives l ts t →
    ∃ first rest, ts = first :: rest ∧ Grammar.arithmetic.start first.kind ≠ .never
  | _, _, _, .tighter phrase => phrase.exists_cons
  | _, _, _, .chain left _ _ => by
    obtain ⟨first, rest, rfl, starts⟩ := left.exists_cons
    exact ⟨first, _, rfl, starts⟩
  | _, _, _, .power base _ _ => by
    obtain ⟨first, rest, rfl, starts⟩ := base.exists_cons
    exact ⟨first, _, rfl, starts⟩
  | _, _, _, .signed listed _ => ⟨_, _, rfl, by rcases listed with h | h <;> rw [h] <;> decide⟩
  | _, _, _, .call callee _ _ _ => by
    obtain ⟨first, rest, rfl, starts⟩ := callee.exists_cons
    exact ⟨first, _, rfl, starts⟩
  | _, _, _, .leaf listed => ⟨_, _, rfl, by rcases listed with h | h <;> rw [h] <;> decide⟩
  | _, _, _, .group opens _ _ => ⟨_, _, rfl, by rw [opens]; decide⟩

theorem DerivesSequence.exists_cons : ∀ {ts : List Token} {xs : List Tree}, DerivesSequence ts xs →
    ∃ first rest, ts = first :: rest ∧ Grammar.arithmetic.start first.kind ≠ .never
  | _, _, .one expression => expression.exists_cons
  | _, _, .more expression _ _ => by
    obtain ⟨first, _, rfl, starts⟩ := expression.exists_cons
    exact ⟨first, _, rfl, starts⟩

end

/-! ## A derived phrase is read as a whole -/

theorem holds_operator {s : Input} {i : Nat} {ts us : List Token} {t : Token}
    (holds : s.Holds i (ts ++ t :: us)) :
    s.Holds i ts ∧ s.token (i + ts.length) = .leaf t ∧ s.Holds (i + ts.length + 1) us := by
  rw [Input.holds_append] at holds
  exact ⟨holds.1, holds.2.1, holds.2.2⟩

theorem length_operator (i : Nat) (ts us : List Token) (t : Token) :
    i + (ts ++ t :: us).length = i + ts.length + 1 + us.length := by
  simp only [List.length_append, List.length_cons]
  omega

theorem readOn_operator {s : Input} {p q : Power} {i j : Nat} {t : Token} {left right : Tree}
    (token : s.token i = .leaf t) (tighter : p < Grammar.arithmetic.power t.kind)
    (role : Grammar.arithmetic.extension t.kind = .leftward q ∨
      Grammar.arithmetic.extension t.kind = .rightward (q + 1))
    (operand : read .arithmetic s q (i + 1) = done right j) :
    readOn .arithmetic s p left i = readOn .arithmetic s p (.binary t left right) j := by
  rw [← Input.kind_of_token token] at tighter role
  rw [readOn_binary tighter role operand, token]
  rfl

/-- An opening parenthesis after an operand makes it the callee of a call. -/
theorem readOn_call {s : Input} {p : Power} {i j : Nat} {t : Token} {left : Tree} {xs : List Tree}
    (token : s.token i = .leaf t) (opens : t.kind = .openParen) (small : p < 150)
    (arguments : enclosedArguments s (read .arithmetic s) (s.tokens.size + 3) (i + 1) = done xs j) :
    readOn .arithmetic s p left i = readOn .arithmetic s p (.call t left xs) j := by
  have role : Grammar.arithmetic.extension t.kind = .call := by rw [opens]; rfl
  rw [readOn_of_lt (by rw [Input.kind_of_token token, opens]; exact small), token, extend]
  simp [kind, label, role, arguments]

theorem read_leaf {s : Input} {p : Power} {i : Nat} {t : Token} (token : s.token i = .leaf t)
    (listed : t.kind = .literal ∨ t.kind = .name) :
    read .arithmetic s p i = readOn .arithmetic s p (.leaf t) (i + 1) := by
  have role : Grammar.arithmetic.start t.kind = .leaf := by
    rcases listed with h | h <;> rw [h] <;> rfl
  rw [read_eq, token, start]
  simp [kind, label, role]

theorem read_signed {s : Input} {p : Power} {i j : Nat} {t : Token} {x : Tree}
    (token : s.token i = .leaf t) (listed : t.kind = .plus ∨ t.kind = .minus)
    (operand : read .arithmetic s 130 (i + 1) = done x j) :
    read .arithmetic s p i = readOn .arithmetic s p (.unary t x) j := by
  have role : Grammar.arithmetic.start t.kind = .operand 130 := by
    rcases listed with h | h <;> rw [h] <;> rfl
  rw [read_eq, token, start]
  simp [kind, label, role, operand]

theorem read_group {s : Input} {p : Power} {i j : Nat} {t : Token} {x : Tree}
    (token : s.token i = .leaf t) (opens : t.kind = .openParen)
    (content : read .arithmetic s 0 (i + 1) = done x j) (closes : s.kind j = .closeParen) :
    read .arithmetic s p i = readOn .arithmetic s p x (j + 1) := by
  have role : Grammar.arithmetic.start t.kind = .group := by rw [opens]; rfl
  rw [read_eq, token, start]
  simp [kind, label, role, content, close, closes]

mutual

/-- Reading from where a phrase begins is going on with its tree from where it ends. -/
theorem read_of_derives {s : Input} : ∀ {l : Level} {ts : List Token} {t : Tree}, Derives l ts t →
    ∀ {p i : Nat}, s.Holds i ts → p < 150 → (Level.ofPower p).ceiling ≤ l.ceiling →
      Grammar.arithmetic.power (s.kind (i + ts.length)) ≤ l.ceiling →
      read .arithmetic s p i = readOn .arithmetic s p t (i + ts.length)
  | l, _, _, .tighter phrase, p, i, holds, small, tight, ahead => by
    have le := l.ceiling_le_tighter
    exact read_of_derives phrase holds small (Nat.le_trans tight le) (Nat.le_trans ahead le)
  | l, _, _, .chain left listed right, p, i, holds, small, tight, ahead => by
    obtain ⟨role, power, next, bounded⟩ := role_of_mem_operators listed
    obtain ⟨holdsLeft, token, holdsRight⟩ := holds_operator holds
    have le := l.ceiling_le_tighter
    rw [length_operator] at ahead ⊢
    rw [read_of_derives left holdsLeft small tight
      (Nat.le_of_eq (by rw [Input.kind_of_token token, power]))]
    refine readOn_operator token ?_ (.inl role) (read_eq_done ?_ ahead)
    · rw [power]
      exact (ceiling_ofPower_le_iff (List.ne_nil_of_mem listed)).1 tight
    · exact read_of_derives right holdsRight bounded (Nat.le_of_eq (by rw [next]))
        (Nat.le_trans ahead le)
  | _, _, _, .power base sign exponent, p, i, holds, small, tight, ahead => by
    obtain ⟨holdsBase, token, holdsExponent⟩ := holds_operator holds
    rw [length_operator] at ahead ⊢
    rw [read_of_derives base holdsBase small (Nat.le_trans tight (by decide))
      (by rw [Input.kind_of_token token, sign]; decide)]
    refine readOn_operator (q := 129) token ?_ (.inr (by rw [sign]; rfl)) (read_eq_done ?_ ahead)
    · rw [sign]
      exact ceiling_ofPower_le_power_iff.1 tight
    · exact read_of_derives exponent holdsExponent (by decide) (by decide) ahead
  | _, _, _, @Derives.signed ts t sign listed operand, p, i, holds, small, tight, ahead => by
    obtain ⟨token, holds⟩ := holds
    have length : i + (sign :: ts).length = i + 1 + ts.length := by
      simp only [List.length_cons]
      omega
    rw [length] at ahead ⊢
    apply read_signed token listed
    exact read_eq_done (read_of_derives operand holds (by decide) (by decide) ahead) ahead
  | _, _, _, .call callee opens arguments closes, p, i, holds, small, _, _ => by
    obtain ⟨holdsCallee, token, holdsArguments⟩ := holds_operator holds
    obtain ⟨holdsArguments, last⟩ := Input.holds_append.1 holdsArguments
    have last := Input.kind_of_token (Input.holds_singleton.1 last)
    have inner := enclosedArguments_of_derives arguments holdsArguments (by rw [last, closes])
    have tight : (Level.ofPower p).ceiling ≤ Level.call.ceiling :=
      Nat.le_trans (ceiling_ofPower_le p) (by decide)
    rw [read_of_derives callee holdsCallee small tight (power_arithmetic_le _),
      readOn_call token opens small inner]
    simp only [List.length_append, List.length_cons, List.length_nil]
    congr 1
    omega
  | _, _, _, .leaf listed, _, _, holds, _, _, _ => by
    exact read_leaf (Input.holds_singleton.1 holds) listed
  | _, _, _, @Derives.group ts t _ _ opens content closes, p, i, holds, _, _, _ => by
    obtain ⟨token, holds⟩ := holds
    obtain ⟨holds, last⟩ := Input.holds_append.1 holds
    have last := Input.kind_of_token (Input.holds_singleton.1 last)
    rw [closes] at last
    have inner : read .arithmetic s 0 (i + 1) = done t (i + 1 + ts.length) := by
      apply read_eq_done
      · exact read_of_derives content holds (by decide) (by decide) (by rw [last]; decide)
      · rw [last]
        decide
    rw [read_group token opens inner last]
    simp only [List.length_append, List.length_cons, List.length_nil]
    congr 1
    omega

theorem readArguments_of_derives {s : Input} : ∀ {ts : List Token} {xs : List Tree},
    DerivesSequence ts xs → ∀ {i : Nat}, s.Holds i ts → s.kind (i + ts.length) = .closeParen →
      readArguments .arithmetic s i = done xs (i + ts.length)
  | _, _, .one expression, i, holds, ahead => by
    have inside := Input.lt_size_of_kind_ne (s := s) (i := i + _) (by rw [ahead]; decide)
    rw [readArguments_eq (by omega), read_eq_done (read_of_derives expression holds (by decide)
      (by decide) (by rw [ahead]; decide)) (by rw [ahead]; decide)]
    simp [ahead]
  | _, _, .more first separates rest, i, holds, ahead => by
    have inside := Input.lt_size_of_kind_ne (s := s) (i := i + _) (by rw [ahead]; decide)
    obtain ⟨holdsFirst, token, holdsRest⟩ := holds_operator holds
    rw [length_operator] at ahead ⊢
    have comma := Input.kind_of_token token
    rw [separates] at comma
    have := readArguments_of_derives rest holdsRest ahead
    rw [readArguments_eq (by omega), read_eq_done (read_of_derives first holdsFirst (by decide)
      (by decide) (by rw [comma]; decide)) (by rw [comma]; decide)]
    simp [comma, this]

theorem enclosedArguments_of_derives {s : Input} : ∀ {ts : List Token} {xs : List Tree},
    DerivesArguments ts xs → ∀ {i : Nat}, s.Holds i ts → s.kind (i + ts.length) = .closeParen →
      enclosedArguments s (read .arithmetic s) (s.tokens.size + 3) i = done xs (i + ts.length + 1)
  | _, _, .none, i, holds, ahead => by
    exact if_pos ahead
  | _, _, .some sequence, i, holds, ahead => by
    have all := readArguments_of_derives sequence holds ahead
    obtain ⟨first, rest, rfl, starts⟩ := sequence.exists_cons
    have opened : s.kind i ≠ .closeParen := by
      rw [Input.kind_of_token holds.1]
      intro closes
      rw [closes] at starts
      exact starts rfl
    rw [readArguments] at all
    rw [enclosedArguments, if_neg opened, all, andThen_done, close, if_pos ahead]

end

/-! ## The trees of token lists -/

theorem safe_arithmetic : Grammar.arithmetic.Safe := .inl rfl

/-- What is read from the beginning of a token list is viable for the language of expressions. -/
theorem viable_read (ts : List Token) :
    Viable (.ofTokens ts) 0 (Derives .shift) (read .arithmetic (.ofTokens ts) 0 0) :=
  viable_expression (Input.childless_ofTokens ts) _ 0 0 (by decide)

theorem ofTokens_eq_ok_of_derives {ts : List Token} {t : Tree} (derived : Derives .shift ts t) :
    Tree.ofTokens .arithmetic .refuse (ts ++ [.finish]) = .ok t := by
  have ahead : (Input.ofTokens (ts ++ [.finish])).kind (0 + ts.length) = .finish := by
    simp [Input.kind_ofTokens, Token.finish, Token.mark]
  have whole := read_eq_done (p := 0) (read_of_derives derived (Input.holds_ofTokens ts [.finish])
    (by decide) (by decide) (by rw [ahead]; decide)) (by rw [ahead]; decide)
  change ofInput _ _ (.ofTokens _) = _
  simp only [ofInput, whole, ahead, ne_eq, not_true_eq_false, and_false, if_false]

theorem derives_of_ofTokens_eq_ok {ts : List Token} (endFree : EndFree ts) {t : Tree}
    (ok : Tree.ofTokens .arithmetic .refuse (ts ++ [.finish]) = .ok t) : Derives .shift ts t := by
  change ofInput _ _ (.ofTokens _) = _ at ok
  have viable := viable_read (ts ++ [.finish])
  rw [ofInput] at ok
  split at ok
  · next u j success =>
    rw [success] at viable
    obtain ⟨us, holds, rfl, derived⟩ := viable
    rw [Nat.zero_add] at ok
    obtain ⟨le, same⟩ := Input.eq_take_of_holds derived.endFree holds
    split at ok
    · cases ok
    · next finished =>
      obtain rfl := Except.ok.inj ok
      have stopped : us.length = ts.length := by
        refine Nat.le_antisymm le (Nat.le_of_not_lt fun lt => ?_)
        refine finished ⟨rfl, ?_⟩
        rw [Input.kind_ofTokens]
        simpa [List.getD_eq_getElem?_getD, List.getElem?_append_left lt, lt]
          using endFree _ (List.getElem_mem lt)
      rw [stopped, List.take_length] at same
      rwa [← same]
  · cases ok
  · cases ok

/-- Whatever is done with tokens after an expression, a tree is that of the first tokens. -/
theorem exists_derives_of_ofTokens {trailing : Trailing} {ts : List Token} {t : Tree}
    (ok : Tree.ofTokens .arithmetic trailing (ts ++ [.finish]) = .ok t) :
    ∃ n, Derives .shift (ts.take n) t := by
  change ofInput _ _ (.ofTokens _) = _ at ok
  have viable := viable_read (ts ++ [.finish])
  rw [ofInput] at ok
  split at ok
  · next u j success =>
    rw [success] at viable
    obtain ⟨us, holds, -, derived⟩ := viable
    obtain ⟨-, same⟩ := Input.eq_take_of_holds derived.endFree holds
    split at ok
    · cases ok
    · obtain rfl := Except.ok.inj ok
      exact ⟨us.length, same ▸ derived⟩
  · cases ok
  · cases ok

/-- No token list keeps the reader busy for ever. -/
theorem ofTokens_eq_ok_or_parse (trailing : Trailing) (ts : List Token) :
    (∃ t, Tree.ofTokens .arithmetic trailing ts = .ok t) ∨
      ∃ e, Tree.ofTokens .arithmetic trailing ts = .error (.parse e) := by
  change (∃ t, ofInput _ _ (.ofTokens _) = _) ∨ ∃ e, ofInput _ _ (.ofTokens _) = _
  have ended := read_ended (s := .ofTokens ts) safe_arithmetic 0 0
  unfold ofInput
  split
  · split
    · exact .inr ⟨_, rfl⟩
    · exact .inl ⟨_, rfl⟩
  · exact .inr ⟨_, rfl⟩
  · next endless => exact absurd endless ended

/-- The tree of a token list under the grammar of arithmetic is the one that the language of
expressions gives it. No list has two trees, and one that is no expression is an error. -/
theorem ofTokens_arithmetic {ts : List Token} (endFree : EndFree ts) :
    (∀ t, Tree.ofTokens .arithmetic .refuse (ts ++ [.finish]) = .ok t ↔ Derives .shift ts t) ∧
      (∀ t u, Derives .shift ts t → Derives .shift ts u → t = u) ∧
      ((∀ t, ¬ Derives .shift ts t) →
        ∃ e, Tree.ofTokens .arithmetic .refuse (ts ++ [.finish]) = .error (.parse e)) := by
  refine ⟨fun t => ⟨derives_of_ofTokens_eq_ok endFree, ofTokens_eq_ok_of_derives⟩, ?_, ?_⟩
  · intro t u first second
    have := (ofTokens_eq_ok_of_derives first).symm.trans (ofTokens_eq_ok_of_derives second)
    exact Except.ok.inj this
  · intro underivable
    rcases ofTokens_eq_ok_or_parse .refuse (ts ++ [.finish]) with ⟨t, ok⟩ | error
    · exact absurd (derives_of_ofTokens_eq_ok endFree ok) (underivable t)
    · exact error

/-- `-f(1)^2 << -3` is a shift between a power of a signed call and a signed literal. -/
theorem ofTokens_arithmetic_shift :
    EndFree [.mark .minus, .name "f", .mark .openParen, .number 1, .mark .closeParen, .mark .power,
      .number 2, .mark .shiftLeft, .mark .minus, .number 3] ∧
    Derives .shift
      [.mark .minus, .name "f", .mark .openParen, .number 1, .mark .closeParen, .mark .power,
        .number 2, .mark .shiftLeft, .mark .minus, .number 3]
      (.binary (.mark .shiftLeft)
        (.binary (.mark .power)
          (.unary (.mark .minus)
            (.call (.mark .openParen) (.leaf (.name "f")) [.leaf (.number 1)]))
          (.leaf (.number 2)))
        (.unary (.mark .minus) (.leaf (.number 3)))) :=
  ⟨by decide, ((ofTokens_arithmetic (by decide)).1 _).1 (by rfl)⟩

end Arithmetic

end Calculator
