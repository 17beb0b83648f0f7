import Calculator.Grammar.Role

/-!
# Rules

A grammar is built from rules. Each rule sets one slot of the role of one kind and leaves all others
alone, so of several rules for one slot the last one counts.
-/

namespace Calculator

namespace Grammar

/-- A new value for one slot of a role. -/
inductive Setting where
  | power (power : Power)
  | start (start : Start)
  | extension (extension : Extension)
  | meaning (meaning : Meaning)
  deriving DecidableEq, Repr

def Setting.apply : Setting → Role → Role
  | power p, r => { r with power := p }
  | start s, r => { r with start := s }
  | extension e, r => { r with extension := e }
  | meaning m, r => { r with meaning := m }

/-- A setting for the role of one kind. -/
structure Rule where
  kind : Kind
  setting : Setting
  deriving DecidableEq, Repr

/-- The grammar `g` after one more rule. -/
def add (g : Grammar) (rule : Rule) : Grammar :=
  ⟨fun k => if k = rule.kind then rule.setting.apply (g.role k) else g.role k⟩

@[simp] theorem role_add_self (g : Grammar) (rule : Rule) :
    (g.add rule).role rule.kind = rule.setting.apply (g.role rule.kind) := by
  simp [add]

theorem role_add_of_ne (g : Grammar) {rule : Rule} {k : Kind} (h : k ≠ rule.kind) :
    (g.add rule).role k = g.role k := by
  simp [add, h]

/-- The grammar that some rules build, the later ones over the earlier ones. -/
def ofRules (rules : List Rule) : Grammar :=
  rules.foldl add empty

end Grammar

/-! ## The rules by name -/

namespace Grammar.Rule

/-- Gives `k` the power `p` to bind to what stands before it. -/
def power (k : Kind) (p : Power) : Rule := ⟨k, .power p⟩

/-- Makes `k` an expression by itself. -/
def leaf (k : Kind) : Rule := ⟨k, .start .leaf⟩

/-- Makes `k` an operator before an operand that is read at `p`. -/
def operand (k : Kind) (p : Power) : Rule := ⟨k, .start (.operand p)⟩

/-- Makes `k` open a group. -/
def group (k : Kind) : Rule := ⟨k, .start .group⟩

/-- Makes `k` an operator between operands that groups to the left. -/
def leftward (k : Kind) (p : Power) : Rule := ⟨k, .extension (.leftward p)⟩

/-- Makes `k` an operator between operands that groups to the right. -/
def rightward (k : Kind) (p : Power) : Rule := ⟨k, .extension (.rightward p)⟩

/-- Makes `k` open the arguments of a call. -/
def call (k : Kind) : Rule := ⟨k, .extension .call⟩

/-- Gives trees labelled with `k` the meaning `m`. -/
def meaning (k : Kind) (m : Meaning) : Rule := ⟨k, .meaning m⟩

end Grammar.Rule

end Calculator
