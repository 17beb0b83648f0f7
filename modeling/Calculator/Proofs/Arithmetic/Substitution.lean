import Calculator.Proofs.Arithmetic.CorrectPrefix
import Calculator.Proofs.Arithmetic.WellFormed

/-!
# Expressions in the place of names

A name may be replaced by any expression in parentheses, wherever it stands: the tree of what comes
of this is the old tree with the tree of the expression in the leaves of the name (`parse_insert`).
On the side of derivations this is plain, since a group is as tight a phrase as a name is
(`Derives.replace`), and reading gives the trees of derivations.
-/

namespace Calculator

namespace Tree

mutual

/-- The tree with `y` in the place of all leaves that are the name `x`. -/
def replace (t : Tree) (x : String) (y : Tree) : Tree :=
  match t with
  | leaf t => if t = .name x then y else leaf t
  | unary t operand => unary t (operand.replace x y)
  | binary t left right => binary t (left.replace x y) (right.replace x y)
  | call t callee arguments => call t (callee.replace x y) (replaceAmong arguments x y)

def replaceAmong (ts : List Tree) (x : String) (y : Tree) : List Tree :=
  match ts with
  | [] => []
  | t :: ts => t.replace x y :: replaceAmong ts x y

end

end Tree

namespace Arithmetic

open Reading
open Calculator.Tree hiding arguments

/-- The tokens with the tokens `e` in parentheses in the place of every name `x`. -/
def insert (x : String) (e ts : List Token) : List Token :=
  ts.flatMap fun t => if t = .name x then .mark .openParen :: (e ++ [.mark .closeParen]) else [t]

section Insertion

variable {x : String} {e : List Token}

theorem insert_append (ts us : List Token) :
    insert x e (ts ++ us) = insert x e ts ++ insert x e us :=
  List.flatMap_append

theorem insert_cons_of_ne {t : Token} (other : t.kind ≠ .name) (ts : List Token) :
    insert x e (t :: ts) = t :: insert x e ts := by
  have different : t ≠ .name x := by
    rintro rfl
    exact other rfl
  rw [insert, List.flatMap_cons, if_neg different]
  rfl

theorem insert_operator {t : Token} (other : t.kind ≠ .name) (ts us : List Token) :
    insert x e (ts ++ t :: us) = insert x e ts ++ t :: insert x e us := by
  rw [insert_append, insert_cons_of_ne other]

theorem insert_enclosed {closing : Token} (closes : closing.kind = .closeParen) (ts : List Token) :
    insert x e (ts ++ [closing]) = insert x e ts ++ [closing] :=
  insert_operator (by rw [closes]; decide) ts []

variable {y : Tree}

mutual

/-- A phrase stays one of its level. -/
theorem Derives.replace : ∀ {l : Level} {ts : List Token} {t : Tree}, Derives l ts t →
    Derives .shift e y → Derives l (insert x e ts) (t.replace x y)
  | _, _, _, .tighter phrase, inner => .tighter (phrase.replace inner)
  | _, _, _, .chain left listed right, inner => by
    rw [insert_operator (mem_operators listed).2.2]
    exact .chain (left.replace inner) listed (right.replace inner)
  | _, _, _, .power base sign exponent, inner => by
    rw [insert_operator (by rw [sign]; decide)]
    exact .power (base.replace inner) sign (exponent.replace inner)
  | _, _, _, .signed listed operand, inner => by
    rw [insert_cons_of_ne (by rcases listed with h | h <;> rw [h] <;> decide)]
    exact .signed listed (operand.replace inner)
  | _, _, _, .call callee opens arguments closes, inner => by
    rw [insert_operator (by rw [opens]; decide), insert_enclosed closes]
    exact .call (callee.replace inner) opens (arguments.replace inner) closes
  | _, _, _, @Derives.leaf token listed, inner => by
    by_cases replaced : token = .name x
    · rw [Tree.replace, if_pos replaced, insert, List.flatMap_singleton, if_pos replaced]
      exact .group rfl inner rfl
    · rw [Tree.replace, if_neg replaced, insert, List.flatMap_singleton, if_neg replaced]
      exact .leaf listed
  | _, _, _, .group opens content closes, inner => by
    rw [insert_cons_of_ne (by rw [opens]; decide), insert_enclosed closes]
    exact .group opens (content.replace inner) closes

theorem DerivesSequence.replace : ∀ {ts : List Token} {xs : List Tree}, DerivesSequence ts xs →
    Derives .shift e y → DerivesSequence (insert x e ts) (replaceAmong xs x y)
  | _, _, .one expression, inner => .one (expression.replace inner)
  | _, _, .more first separates rest, inner => by
    rw [insert_operator (by rw [separates]; decide)]
    exact .more (first.replace inner) separates (rest.replace inner)

theorem DerivesArguments.replace : ∀ {ts : List Token} {xs : List Tree}, DerivesArguments ts xs →
    Derives .shift e y → DerivesArguments (insert x e ts) (replaceAmong xs x y)
  | _, _, .none, _ => .none
  | _, _, .some sequence, inner => .some (sequence.replace inner)

end

end Insertion

/-! ## Substitution -/

/-- The end after a list of tokens makes no difference: every input goes on with it. -/
theorem parse_append_finish (ts : List Token) : parse (ts ++ [.finish]) = parse ts := by
  have same (i : Nat) : (Input.ofTokens (ts ++ [.finish])).token i = (Input.ofTokens ts).token i := by
    rw [Input.token_ofTokens, Input.token_ofTokens]
    congr 1
    simp only [List.getD_eq_getElem?_getD, List.getElem?_append]
    split
    · rfl
    · next beyond =>
      rw [List.getElem?_eq_none (Nat.le_of_not_lt beyond)]
      cases i - ts.length <;> rfl
  have alike : Alike (.ofTokens ts) (.ofTokens (ts ++ [.finish])) 0
      (read .arithmetic (.ofTokens ts) 0 0) :=
    ⟨fun i _ _ => same i, fun i _ _ => congrArg Tree.kind (same i)⟩
  exact ofInput_congr (read_ended safe_arithmetic 0 0) alike

/-- Expressions in parentheses may stand in the place of a name: they take the place of its leaves
in the tree. -/
theorem parse_insert {x : String} {ts e : List Token} {t y : Tree} (endFree : EndFree ts)
    (inner : EndFree e) (whole : parse ts = .ok t) (part : parse e = .ok y) :
    parse (insert x e ts) = .ok (t.replace x y) := by
  rw [← parse_append_finish] at whole part ⊢
  have derived : Derives .shift ts t := derives_of_ofTokens_eq_ok endFree whole
  have placed : Derives .shift e y := derives_of_ofTokens_eq_ok inner part
  exact ofTokens_eq_ok_of_derives (derived.replace placed)

/-- In `x ^ f(x) + x()` the name is an operand, an argument and a callee. -/
theorem parse_insert_shift :
    parse (insert "x" [.number 1, .mark .shiftLeft, .name "y"]
      [.name "x", .mark .power, .name "f", .mark .openParen, .name "x", .mark .closeParen,
        .mark .plus, .name "x", .mark .openParen, .mark .closeParen]) =
      .ok (.binary (.mark .plus)
        (.binary (.mark .power)
          (.binary (.mark .shiftLeft) (.leaf (.number 1)) (.leaf (.name "y")))
          (.call (.mark .openParen) (.leaf (.name "f"))
            [.binary (.mark .shiftLeft) (.leaf (.number 1)) (.leaf (.name "y"))]))
        (.call (.mark .openParen)
          (.binary (.mark .shiftLeft) (.leaf (.number 1)) (.leaf (.name "y"))) [])) := by
  have endFree : EndFree [.name "x", .mark .power, .name "f", .mark .openParen, .name "x",
      .mark .closeParen, .mark .plus, .name "x", .mark .openParen, .mark .closeParen] := by
    decide
  have inner : EndFree [.number 1, .mark .shiftLeft, .name "y"] := by decide
  exact parse_insert endFree inner (by rfl) (by rfl)

end Arithmetic

end Calculator
