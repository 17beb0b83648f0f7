import Calculator.Proofs.Arithmetic.Derivation
import Calculator.Proofs.Lexeme.Denotation

/-!
# Well-formed trees and how they are written

The trees of expressions have numbers and names in their leaves and operators with the right number
of operands above them. `tokens` writes such a tree with parentheses around those operands only that
are looser than their place allows, and the tree is derived from what is written
(`derives_tokens`).
-/

namespace Calculator

namespace Arithmetic

open Binary64 (Unsigned)

/-- An identifier in lower case that is no constant. -/
structure PlainName (s : String) : Prop where
  identifier : LexemeClass.Identifier s.toList
  lower : ∀ c ∈ s.toList, c.isUpper = false
  noEuler : s ≠ "e"
  noPi : s ≠ "pi"

/-- The operators between two operands. -/
def operators : List Kind :=
  [.plus, .minus, .times, .divide, .remainder, .power, .shiftLeft, .shiftRight, .shiftRightZero]

/-- The trees of expressions. -/
inductive WellFormed : Tree → Prop where
  | number {x : Float} (unsigned : Unsigned x) : WellFormed (.leaf (.number x))
  | name {s : String} (plain : PlainName s) : WellFormed (.leaf (.name s))
  | signed {kind : Kind} {t : Tree} (sign : kind = .plus ∨ kind = .minus) (operand : WellFormed t) :
    WellFormed (.unary (.mark kind) t)
  | operation {kind : Kind} {t u : Tree} (operator : kind ∈ operators) (left : WellFormed t)
    (right : WellFormed u) : WellFormed (.binary (.mark kind) t u)
  | call {t : Tree} {xs : List Tree} (callee : WellFormed t) (arguments : ∀ x ∈ xs, WellFormed x) :
    WellFormed (.call (.mark .openParen) t xs)

/-! ## Derived trees are well-formed -/

/-- The tokens of a text in lower case. -/
inductive Ordinary : Token → Prop where
  | number {x : Float} (unsigned : Unsigned x) : Ordinary (.number x)
  | name {s : String} (plain : PlainName s) : Ordinary (.name s)
  | mark {kind : Kind} (listed : kind ∈ LexemeClass.signs) : Ordinary (.mark kind)

theorem Ordinary.wellFormed {t : Token} (ordinary : Ordinary t)
    (leaf : t.kind = .literal ∨ t.kind = .name) : WellFormed (.leaf t) := by
  cases ordinary with
  | number unsigned => exact .number unsigned
  | name plain => exact .name plain
  | mark listed =>
    rcases leaf with rfl | rfl <;> exact absurd listed (by decide)

theorem Ordinary.eq_mark {t : Token} (ordinary : Ordinary t) (noLiteral : t.kind ≠ .literal)
    (noName : t.kind ≠ .name) : t = .mark t.kind := by
  cases ordinary with
  | number => exact absurd rfl noLiteral
  | name => exact absurd rfl noName
  | mark => rfl

theorem mem_operators {l : Level} {kind : Kind} (listed : kind ∈ l.operators) :
    kind ∈ operators ∧ kind ≠ .literal ∧ kind ≠ .name := by
  revert listed
  cases l <;> cases kind <;> decide

theorem ordinary_operator {ts us : List Token} {t : Token}
    (ordinary : ∀ u ∈ ts ++ t :: us, Ordinary u) :
    (∀ u ∈ ts, Ordinary u) ∧ Ordinary t ∧ ∀ u ∈ us, Ordinary u := by
  simpa [or_imp, forall_and] using ordinary

mutual

theorem Derives.wellFormed : ∀ {l : Level} {ts : List Token} {t : Tree}, Derives l ts t →
    (∀ u ∈ ts, Ordinary u) → WellFormed t
  | _, _, _, .tighter phrase, ordinary => phrase.wellFormed ordinary
  | _, _, _, .chain left listed right, ordinary => by
    obtain ⟨first, operator, second⟩ := ordinary_operator ordinary
    obtain ⟨listed, noLiteral, noName⟩ := mem_operators listed
    rw [operator.eq_mark noLiteral noName]
    exact .operation listed (left.wellFormed first) (right.wellFormed second)
  | _, _, _, .power base sign exponent, ordinary => by
    obtain ⟨first, operator, second⟩ := ordinary_operator ordinary
    rw [operator.eq_mark (by rw [sign]; decide) (by rw [sign]; decide), sign]
    exact .operation (by decide) (base.wellFormed first) (exponent.wellFormed second)
  | _, _, _, .signed listed operand, ordinary => by
    obtain ⟨sign, rest⟩ := List.forall_mem_cons.1 ordinary
    rw [sign.eq_mark (by rcases listed with h | h <;> rw [h] <;> decide)
      (by rcases listed with h | h <;> rw [h] <;> decide)]
    exact .signed listed (operand.wellFormed rest)
  | _, _, _, .call callee opens arguments closes, ordinary => by
    obtain ⟨first, opening, rest⟩ := ordinary_operator ordinary
    rw [opening.eq_mark (by rw [opens]; decide) (by rw [opens]; decide), opens]
    exact .call (callee.wellFormed first)
      (arguments.wellFormed (List.forall_mem_append.1 rest).1)
  | _, _, _, .leaf listed, ordinary => (ordinary _ (List.mem_singleton_self _)).wellFormed listed
  | _, _, _, .group opens content closes, ordinary =>
    content.wellFormed (List.forall_mem_append.1 (List.forall_mem_cons.1 ordinary).2).1

theorem DerivesSequence.wellFormed : ∀ {ts : List Token} {xs : List Tree}, DerivesSequence ts xs →
    (∀ u ∈ ts, Ordinary u) → ∀ x ∈ xs, WellFormed x
  | _, _, .one expression, ordinary =>
    List.forall_mem_singleton.2 (expression.wellFormed ordinary)
  | _, _, .more first separates rest, ordinary => by
    obtain ⟨before, -, after⟩ := ordinary_operator ordinary
    exact List.forall_mem_cons.2 ⟨first.wellFormed before, rest.wellFormed after⟩

theorem DerivesArguments.wellFormed : ∀ {ts : List Token} {xs : List Tree},
    DerivesArguments ts xs → (∀ u ∈ ts, Ordinary u) → ∀ x ∈ xs, WellFormed x
  | _, _, .none, _ => nofun
  | _, _, .some sequence, ordinary => sequence.wellFormed ordinary

end

/-! ## Writing trees -/

/-- The level of an operation. -/
def Level.ofOperator : Kind → Level
  | .shiftLeft | .shiftRight | .shiftRightZero => .shift
  | .plus | .minus => .sum
  | .times | .divide | .remainder => .product
  | _ => .power

/-- The level of a tree that is not in parentheses. -/
def levelOf : Tree → Level
  | .leaf _ => .primary
  | .unary _ _ => .signed
  | .binary t _ _ => .ofOperator t.kind
  | .call _ _ _ => .call

/-- How tight a left operand has to be. The base of a power is no operation itself. -/
def leftLevel (operator : Kind) : Level :=
  if operator = .power then .signed else .ofOperator operator

/-- How tight a right operand has to be. Only the exponent of a power may be a power. -/
def rightLevel (operator : Kind) : Level :=
  if operator = .power then .power else (Level.ofOperator operator).tighter

/-- Puts the tokens of `t` in parentheses if it is looser than `l`. -/
def enclose (l : Level) (t : Tree) (ts : List Token) : List Token :=
  if (levelOf t).ceiling < l.ceiling then .mark .openParen :: (ts ++ [.mark .closeParen]) else ts

mutual

/-- The tokens of a tree, with parentheses where they are needed. -/
def tokens : Tree → List Token
  | .leaf t => [t]
  | .unary t x => t :: enclose .signed x (tokens x)
  | .binary t x y =>
    enclose (leftLevel t.kind) x (tokens x) ++ t :: enclose (rightLevel t.kind) y (tokens y)
  | .call t x xs => enclose .call x (tokens x) ++ t :: (listTokens xs ++ [.mark .closeParen])

/-- The tokens of arguments, with commas between them. -/
def listTokens : List Tree → List Token
  | [] => []
  | x :: xs => tokens x ++ restTokens xs

/-- The tokens of further arguments, each after a comma. -/
def restTokens : List Tree → List Token
  | [] => []
  | x :: xs => .mark .comma :: (tokens x ++ restTokens xs)

end

theorem derives_enclose {l : Level} {t : Tree} {ts : List Token} (phrase : Derives (levelOf t) ts t) :
    Derives l (enclose l t ts) t := by
  have loose : Level.shift.ceiling ≤ (levelOf t).ceiling := by
    generalize levelOf t = l
    cases l <;> decide
  have tight : l.ceiling ≤ Level.primary.ceiling := by cases l <;> decide
  unfold enclose
  split
  · exact (Derives.group rfl (phrase.loosen loose) rfl).loosen tight
  · next fits => exact phrase.loosen (Nat.le_of_not_lt fits)

/-- Every operation is a phrase of its level if its operands are tight enough. -/
theorem derives_operation {kind : Kind} (operator : kind ∈ operators) {ts us : List Token}
    {t u : Tree} (left : Derives (leftLevel kind) ts t) (right : Derives (rightLevel kind) us u) :
    Derives (.ofOperator kind) (ts ++ .mark kind :: us) (.binary (.mark kind) t u) := by
  by_cases power : kind = .power
  · subst power
    exact .power left rfl right
  · rw [leftLevel, if_neg power] at left
    rw [rightLevel, if_neg power] at right
    refine .chain left ?_ right
    revert operator power
    cases kind <;> decide

theorem derivesSequence_listTokens {x : Tree} {xs : List Tree}
    (all : ∀ y ∈ x :: xs, Derives .shift (tokens y) y) :
    DerivesSequence (tokens x ++ restTokens xs) (x :: xs) := by
  induction xs generalizing x with
  | nil =>
    rw [restTokens, List.append_nil]
    exact .one (all x (List.mem_cons_self ..))
  | cons y ys ih =>
    obtain ⟨first, rest⟩ := List.forall_mem_cons.1 all
    exact .more first rfl (ih rest)

theorem derivesArguments_listTokens {xs : List Tree}
    (all : ∀ x ∈ xs, Derives .shift (tokens x) x) : DerivesArguments (listTokens xs) xs := by
  cases xs with
  | nil => exact .none
  | cons x xs => exact .some (derivesSequence_listTokens all)

/-- What is written for a tree is a phrase of the level of the tree and has this tree. -/
theorem derives_tokens {t : Tree} (wellFormed : WellFormed t) : Derives (levelOf t) (tokens t) t := by
  have loosen {l : Level} {ts : List Token} {t : Tree} (phrase : Derives l ts t) :
      Derives .shift ts t :=
    phrase.loosen (by cases l <;> decide)
  induction wellFormed with
  | number => exact .leaf (.inl rfl)
  | name => exact .leaf (.inr rfl)
  | signed sign operand ih => exact .signed sign (derives_enclose ih)
  | operation operator left right ihLeft ihRight =>
    exact derives_operation operator (derives_enclose ihLeft) (derives_enclose ihRight)
  | call callee arguments ihCallee ihArguments =>
    exact .call (derives_enclose ihCallee) rfl
      (derivesArguments_listTokens fun x listed => loosen (ihArguments x listed)) rfl

theorem ordinary_enclose {l : Level} {t : Tree} {ts : List Token} (all : ∀ u ∈ ts, Ordinary u) :
    ∀ u ∈ enclose l t ts, Ordinary u := by
  unfold enclose
  split
  · refine List.forall_mem_cons.2 ⟨.mark (by decide), List.forall_mem_append.2 ⟨all, ?_⟩⟩
    exact List.forall_mem_singleton.2 (.mark (by decide))
  · exact all

theorem ordinary_restTokens {xs : List Tree} (all : ∀ x ∈ xs, ∀ u ∈ tokens x, Ordinary u) :
    ∀ u ∈ restTokens xs, Ordinary u := by
  induction xs with
  | nil => exact nofun
  | cons x xs ih =>
    obtain ⟨first, rest⟩ := List.forall_mem_cons.1 all
    exact List.forall_mem_cons.2 ⟨.mark (by decide), List.forall_mem_append.2 ⟨first, ih rest⟩⟩

theorem ordinary_listTokens {xs : List Tree} (all : ∀ x ∈ xs, ∀ u ∈ tokens x, Ordinary u) :
    ∀ u ∈ listTokens xs, Ordinary u := by
  cases xs with
  | nil => exact nofun
  | cons x xs =>
    obtain ⟨first, rest⟩ := List.forall_mem_cons.1 all
    exact List.forall_mem_append.2 ⟨first, ordinary_restTokens rest⟩

theorem mem_signs {kind : Kind} (operator : kind ∈ operators) : kind ∈ LexemeClass.signs := by
  revert operator
  cases kind <;> decide

theorem ordinary_tokens {t : Tree} (wellFormed : WellFormed t) : ∀ u ∈ tokens t, Ordinary u := by
  have between {ts us : List Token} {kind : Kind} (left : ∀ u ∈ ts, Ordinary u)
      (listed : kind ∈ LexemeClass.signs) (right : ∀ u ∈ us, Ordinary u) :
      ∀ u ∈ ts ++ .mark kind :: us, Ordinary u :=
    List.forall_mem_append.2 ⟨left, List.forall_mem_cons.2 ⟨.mark listed, right⟩⟩
  induction wellFormed with
  | number unsigned => exact List.forall_mem_singleton.2 (.number unsigned)
  | name plain => exact List.forall_mem_singleton.2 (.name plain)
  | signed sign operand ih =>
    refine List.forall_mem_cons.2 ⟨.mark ?_, ordinary_enclose ih⟩
    rcases sign with rfl | rfl <;> decide
  | operation operator left right ihLeft ihRight =>
    exact between (ordinary_enclose ihLeft) (mem_signs operator) (ordinary_enclose ihRight)
  | call callee arguments ihCallee ihArguments =>
    apply between (ordinary_enclose ihCallee) (by decide)
    exact List.forall_mem_append.2
      ⟨ordinary_listTokens ihArguments, List.forall_mem_singleton.2 (.mark (by decide))⟩

end Arithmetic

end Calculator
