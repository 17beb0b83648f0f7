import Calculator.Grammar.Arithmetic
import Calculator.Proofs.Input

/-!
# The expressions of arithmetic

The language of arithmetic, given by levels and without powers: a shift is a chain of sums, a sum a
chain of products, a product a chain of powers, and so on down to literals, names and groups.
`Derives l ts t` says that the tokens `ts` are a phrase of the level `l` with the tree `t`. Chains
nest to the left, powers to the right, and a group leaves no node behind.

A phrase of a tighter level is one of every looser level too (`Derives.loosen`). Each level has a
`ceiling`, the greatest power of a token that may stand after a phrase without being part of it.
-/

namespace Calculator

namespace Arithmetic

/-- The levels of phrases, from the loosest to the tightest. -/
inductive Level where
  | shift | sum | product | power | signed | call | primary
  deriving DecidableEq, Repr

namespace Level

/-- The next tighter level. -/
def tighter : Level → Level
  | shift => sum
  | sum => product
  | product => power
  | power => signed
  | signed => call
  | call => primary
  | primary => primary

/-- The operators between the links of a chain. -/
def operators : Level → List Kind
  | shift => [.shiftLeft, .shiftRight, .shiftRightZero]
  | sum => [.plus, .minus]
  | product => [.times, .divide, .remainder]
  | _ => []

end Level

mutual

/-- The tokens are a phrase of the level and have the tree. -/
inductive Derives : Level → List Token → Tree → Prop where
  | tighter {l : Level} {ts : List Token} {t : Tree} (phrase : Derives l.tighter ts t) :
    Derives l ts t
  /-- A chain goes on with an operator and one more link. -/
  | chain {l : Level} {ts us : List Token} {t u : Tree} {operator : Token}
    (left : Derives l ts t) (listed : operator.kind ∈ l.operators)
    (right : Derives l.tighter us u) :
    Derives l (ts ++ operator :: us) (.binary operator t u)
  | power {ts us : List Token} {t u : Tree} {operator : Token}
    (base : Derives .signed ts t) (sign : operator.kind = .power) (exponent : Derives .power us u) :
    Derives .power (ts ++ operator :: us) (.binary operator t u)
  | signed {ts : List Token} {t : Tree} {sign : Token}
    (listed : sign.kind = .plus ∨ sign.kind = .minus) (operand : Derives .signed ts t) :
    Derives .signed (sign :: ts) (.unary sign t)
  /-- A call applies to all that stands before its arguments. -/
  | call {ts us : List Token} {t : Tree} {xs : List Tree} {opening closing : Token}
    (callee : Derives .call ts t) (opens : opening.kind = .openParen)
    (arguments : DerivesArguments us xs) (closes : closing.kind = .closeParen) :
    Derives .call (ts ++ opening :: (us ++ [closing])) (.call opening t xs)
  | leaf {token : Token} (listed : token.kind = .literal ∨ token.kind = .name) :
    Derives .primary [token] (.leaf token)
  | group {ts : List Token} {t : Tree} {opening closing : Token} (opens : opening.kind = .openParen)
    (content : Derives .shift ts t) (closes : closing.kind = .closeParen) :
    Derives .primary (opening :: (ts ++ [closing])) t

/-- The tokens are expressions with commas between them, at least one, and have the trees. -/
inductive DerivesSequence : List Token → List Tree → Prop where
  | one {ts : List Token} {t : Tree} (expression : Derives .shift ts t) : DerivesSequence ts [t]
  | more {ts us : List Token} {t : Tree} {xs : List Tree} {comma : Token}
    (first : Derives .shift ts t) (separates : comma.kind = .comma)
    (rest : DerivesSequence us xs) : DerivesSequence (ts ++ comma :: us) (t :: xs)

/-- The tokens are the arguments of a call, of which there may be none. -/
inductive DerivesArguments : List Token → List Tree → Prop where
  | none : DerivesArguments [] []
  | some {ts : List Token} {xs : List Tree} (sequence : DerivesSequence ts xs) :
    DerivesArguments ts xs

end

theorem endFree_cons {ts : List Token} {t : Token} (inner : t.kind ≠ .finish)
    (rest : EndFree ts) : EndFree (t :: ts) :=
  List.forall_mem_cons.2 ⟨inner, rest⟩

theorem endFree_operator {ts us : List Token} {t : Token} (left : EndFree ts)
    (inner : t.kind ≠ .finish) (right : EndFree us) : EndFree (ts ++ t :: us) :=
  endFree_append.2 ⟨left, endFree_cons inner right⟩

theorem endFree_singleton {t : Token} (inner : t.kind ≠ .finish) : EndFree [t] :=
  List.forall_mem_singleton.2 inner

theorem operators_ne_finish {l : Level} {k : Kind} (listed : k ∈ l.operators) : k ≠ .finish := by
  rintro rfl
  revert listed
  cases l <;> decide

mutual

/-- No phrase has the end of the input in it. -/
theorem Derives.endFree : ∀ {l : Level} {ts : List Token} {t : Tree}, Derives l ts t → EndFree ts
  | _, _, _, .tighter phrase => phrase.endFree
  | _, _, _, .chain left listed right =>
    endFree_operator left.endFree (operators_ne_finish listed) right.endFree
  | _, _, _, .power base sign exponent =>
    endFree_operator base.endFree (by rw [sign]; decide) exponent.endFree
  | _, _, _, .signed listed operand =>
    endFree_cons (by rcases listed with h | h <;> rw [h] <;> decide) operand.endFree
  | _, _, _, .call callee opens arguments closes =>
    endFree_operator callee.endFree (by rw [opens]; decide)
      (endFree_append.2 ⟨arguments.endFree, endFree_singleton (by rw [closes]; decide)⟩)
  | _, _, _, .leaf listed =>
    endFree_singleton (by rcases listed with h | h <;> rw [h] <;> decide)
  | _, _, _, .group opens content closes =>
    endFree_cons (by rw [opens]; decide)
      (endFree_append.2 ⟨content.endFree, endFree_singleton (by rw [closes]; decide)⟩)

theorem DerivesSequence.endFree : ∀ {ts : List Token} {xs : List Tree}, DerivesSequence ts xs →
    EndFree ts
  | _, _, .one expression => expression.endFree
  | _, _, .more first separates rest =>
    endFree_operator first.endFree (by rw [separates]; decide) rest.endFree

theorem DerivesArguments.endFree : ∀ {ts : List Token} {xs : List Tree}, DerivesArguments ts xs →
    EndFree ts
  | _, _, .none => fun _ h => nomatch h
  | _, _, .some sequence => sequence.endFree

end

/-! ## Levels and powers -/

namespace Level

/-- The greatest power of a token that may stand after a phrase of the level. -/
def ceiling : Level → Nat
  | shift => 100
  | sum => 110
  | product => 120
  | power => 129
  | signed => 130
  | call => 150
  | primary => 151

/-- The level of what is read at a power. -/
def ofPower (p : Nat) : Level :=
  if p < 100 then shift
  else if p < 110 then sum
  else if p < 120 then product
  else if p < 130 then power
  else signed

theorem ceiling_injective {l m : Level} (h : l.ceiling = m.ceiling) : l = m := by
  revert h
  cases l <;> cases m <;> decide

theorem ceiling_lt_tighter {l : Level} (h : l ≠ primary) : l.ceiling < l.tighter.ceiling := by
  revert h
  cases l <;> decide

theorem ceiling_le_tighter (l : Level) : l.ceiling ≤ l.tighter.ceiling := by
  cases l <;> decide

theorem ceiling_tighter_le {l m : Level} (h : l.ceiling < m.ceiling) :
    l.tighter.ceiling ≤ m.ceiling := by
  revert h
  cases l <;> cases m <;> decide

end Level

theorem Derives.loosen {l m : Level} {ts : List Token} {t : Tree} (le : l.ceiling ≤ m.ceiling)
    (phrase : Derives m ts t) : Derives l ts t := by
  by_cases same : l.ceiling = m.ceiling
  · rwa [Level.ceiling_injective same]
  · have lt : l.ceiling < m.ceiling := Nat.lt_of_le_of_ne le same
    exact .tighter (phrase.loosen (Level.ceiling_tighter_le lt))
termination_by 151 - l.ceiling
decreasing_by
  have : l ≠ .primary := by
    rintro rfl
    revert lt
    cases m <;> decide
  have := Level.ceiling_lt_tighter this
  revert this
  cases l <;> decide

end Arithmetic

end Calculator
