import Calculator.Grammar.Rule
import Calculator.Proofs.Input
import Calculator.Proofs.Reading.Bound

/-!
# Chains of operators

A chain is an operand and then operators with one more operand after each. In a grammar that gives
every operator of the chain the same power on both sides, the tree of the chain can be told without
any reading (`Chain.Splits`): its root is the operator that binds least. Of several such operators it
is the first that groups to the right, and if there is none the last of all.

Reading from left to right gives just this tree (`ofInput_chain`). The operators before the root bind
at least as tightly as the root, so that what they span has been read when the root is reached, and
the right operand of the root is read at a power below that of all operators after it.
-/

namespace Calculator

namespace Grammar

/-- Tokens of the kind are operators between operands, with one power on both sides. -/
def Balanced (g : Grammar) (k : Kind) : Prop :=
  0 < g.power k ∧ (g.extension k = .leftward (g.power k) ∨ g.extension k = .rightward (g.power k))

/-- Among operators of the same power, the kind leaves it to the ones on the right to bind. -/
def Rightward (g : Grammar) (k : Kind) : Prop :=
  g.extension k = .rightward (g.power k)

instance (g : Grammar) (k : Kind) : Decidable (g.Balanced k) :=
  inferInstanceAs (Decidable (_ ∧ (_ ∨ _)))

instance (g : Grammar) (k : Kind) : Decidable (g.Rightward k) :=
  inferInstanceAs (Decidable (_ = _))

/-- The power at which the right operand of a balanced operator is read. -/
def grip (g : Grammar) (k : Kind) : Power :=
  if g.Rightward k then g.power k - 1 else g.power k

theorem Balanced.role {g : Grammar} {k : Kind} (balanced : g.Balanced k) :
    g.extension k = .leftward (g.grip k) ∨ g.extension k = .rightward (g.grip k + 1) := by
  obtain ⟨positive, role⟩ := balanced
  by_cases rightward : g.Rightward k
  · rw [grip, if_pos rightward, Nat.sub_add_cancel positive]
    exact .inr rightward
  · rw [grip, if_neg rightward]
    exact .inl (role.resolve_right rightward)

end Grammar

namespace Chain

open Reading
open Calculator.Tree hiding arguments

/-- An operator and the operand after it. -/
structure Link where
  operator : Tree
  operand : Tree

/-- The nodes of a chain, from its first operand on. -/
def nodes (a : Tree) (ls : List Link) : List Tree :=
  a :: ls.flatMap fun l => [l.operator, l.operand]

theorem nodes_append (a : Tree) (before : List Link) (o : Link) (after : List Link) :
    nodes a (before ++ o :: after) = nodes a before ++ o.operator :: nodes o.operand after := by
  simp [nodes]

theorem forall_mem_link {P : Link → Prop} {before after : List Link} {o : Link} :
    (∀ l ∈ before ++ o :: after, P l) ↔ (∀ l ∈ before, P l) ∧ P o ∧ ∀ l ∈ after, P l := by
  rw [List.forall_mem_append, List.forall_mem_cons]

variable (g : Grammar)

def Link.power (l : Link) : Power := g.power l.operator.kind

def Link.Rightward (l : Link) : Prop := g.Rightward l.operator.kind

/-! ## The tree of a chain -/

/-- The operator of the link `o` is the root of the chain that has the links `before` in front of it and
the links `after` behind it. -/
structure Root (before : List Link) (o : Link) (after : List Link) : Prop where
  /-- No operator binds less. -/
  least : ∀ l ∈ before ++ after, o.power g ≤ l.power g
  /-- A root that groups to the right is the first of its power to do so. -/
  first : o.Rightward g → ∀ l ∈ before, l.power g = o.power g → ¬ l.Rightward g
  /-- Another root is the last of its power, and none of its power groups to the right. -/
  last : ¬ o.Rightward g → (∀ l ∈ before ++ after, l.power g = o.power g → ¬ l.Rightward g) ∧
    ∀ l ∈ after, l.power g ≠ o.power g

/-- A chain has the tree that comes of splitting it at its root and then its parts at theirs. -/
inductive Splits : Tree → List Link → Tree → Prop where
  | operand (a : Tree) : Splits a [] a
  | root {a x y : Tree} {before after : List Link} {o : Link} (root : Root g before o after)
    (left : Splits a before x) (right : Splits o.operand after y) :
    Splits a (before ++ o :: after) (.binary o.operator.label x y)

variable {g}

/-- The first operator of a chain is its root if it binds less than all others, or as little as any
and groups to the right. -/
theorem root_head {l : Link} {ls : List Link} (least : ∀ m ∈ ls, l.power g ≤ m.power g)
    (binds : l.Rightward g ∨ ∀ m ∈ ls, m.power g ≠ l.power g) : Root g [] l ls := by
  refine ⟨least, fun _ => nofun, fun leftward => ?_⟩
  have apart := binds.resolve_left leftward
  exact ⟨fun m listed same => absurd same (apart m listed), apart⟩

/-- The root of a chain remains the root if an operator before it binds more tightly, or as tightly
and groups to the left. -/
theorem Root.cons {before after : List Link} {o l : Link} (root : Root g before o after)
    (le : o.power g ≤ l.power g) (binds : l.power g = o.power g → ¬ l.Rightward g) :
    Root g (l :: before) o after := by
  refine ⟨List.forall_mem_cons.2 ⟨le, root.least⟩, fun rightward => ?_, fun leftward => ?_⟩
  · exact List.forall_mem_cons.2 ⟨binds, root.first rightward⟩
  · obtain ⟨none, apart⟩ := root.last leftward
    exact ⟨List.forall_mem_cons.2 ⟨binds, none⟩, apart⟩

theorem exists_root (l : Link) (ls : List Link) :
    ∃ before o after, l :: ls = before ++ o :: after ∧ Root g before o after := by
  induction ls generalizing l with
  | nil => exact ⟨[], l, [], rfl, root_head nofun (.inr nofun)⟩
  | cons m ls ih =>
    obtain ⟨before, o, after, split, root⟩ := ih m
    have least : ∀ n ∈ m :: ls, o.power g ≤ n.power g := by
      rw [split]
      intro n listed
      rcases List.mem_append.1 listed with before | after
      · exact root.least n (List.mem_append_left _ before)
      · rcases List.mem_cons.1 after with rfl | after
        · exact Nat.le_refl _
        · exact root.least n (List.mem_append_right _ after)
    by_cases less : l.power g < o.power g
    · refine ⟨[], l, m :: ls, rfl, root_head ?_ (.inr ?_)⟩
      · exact fun n listed => Nat.le_of_lt (Nat.lt_of_lt_of_le less (least n listed))
      · exact fun n listed => Nat.ne_of_gt (Nat.lt_of_lt_of_le less (least n listed))
    · by_cases rightward : l.power g = o.power g ∧ l.Rightward g
      · refine ⟨[], l, m :: ls, rfl, root_head ?_ (.inl rightward.2)⟩
        rw [rightward.1]
        exact least
      · refine ⟨l :: before, o, after, by rw [split, List.cons_append], ?_⟩
        exact root.cons (Nat.le_of_not_lt less) (not_and.1 rightward)

theorem exists_splits (g : Grammar) (a : Tree) (ls : List Link) : ∃ t, Splits g a ls t := by
  match ls with
  | [] => exact ⟨a, .operand a⟩
  | l :: ls =>
    obtain ⟨before, o, after, split, root⟩ := exists_root (g := g) l ls
    have shorter : before.length < (l :: ls).length ∧ after.length < (l :: ls).length := by
      rw [split]
      simp only [List.length_append, List.length_cons]
      omega
    obtain ⟨x, left⟩ := exists_splits g a before
    obtain ⟨y, right⟩ := exists_splits g o.operand after
    rw [split]
    exact ⟨_, .root root left right⟩
termination_by ls.length
decreasing_by
  · exact shorter.1
  · exact shorter.2

/-! ## Powers around the root -/

section Root

variable {before after : List Link} {o : Link} (root : Root g before o after)

include root in
/-- The right operands of operators before the root end at the root. -/
theorem Root.le_grip : ∀ l ∈ before, o.power g ≤ g.grip l.operator.kind := by
  intro l listed
  have least := root.least l (List.mem_append_left _ listed)
  unfold Grammar.grip
  split
  · next rightward =>
    have apart : l.power g ≠ o.power g := by
      intro same
      by_cases first : o.Rightward g
      · exact root.first first l listed same rightward
      · exact (root.last first).1 l (List.mem_append_left _ listed) same rightward
    exact Nat.le_sub_one_of_lt (Nat.lt_of_le_of_ne least (Ne.symm apart))
  · exact least

include root in
/-- The right operand of the root goes on through all operators after it. -/
theorem Root.grip_lt (balanced : g.Balanced o.operator.kind) :
    ∀ l ∈ after, g.grip o.operator.kind < l.power g := by
  intro l listed
  have least := root.least l (List.mem_append_right _ listed)
  unfold Grammar.grip
  split
  · exact Nat.lt_of_lt_of_le (Nat.sub_lt balanced.1 Nat.one_pos) least
  · next leftward =>
    have apart := (root.last leftward).2 l listed
    exact Nat.lt_of_le_of_ne least (Ne.symm apart)

end Root

/-! ## Reading a chain -/

/-- A chain is read as a whole before the loop goes on with what follows it, if all its operators bind
more tightly than the power and its right operands end where it does. -/
theorem read_of_splits {s : Input} {a t : Tree} {ls : List Link} (splits : Splits g a ls t)
    (operands : g.start a.kind = .leaf ∧ ∀ l ∈ ls, g.start l.operand.kind = .leaf)
    (balanced : ∀ l ∈ ls, g.Balanced l.operator.kind) {p : Power} {i : Nat}
    (has : s.Has i (nodes a ls)) (tighter : ∀ l ∈ ls, p < l.power g)
    (ahead : ∀ l ∈ ls, g.power (s.kind (i + (nodes a ls).length)) ≤ g.grip l.operator.kind) :
    read g s p i = readOn g s p t (i + (nodes a ls).length) := by
  induction splits generalizing p i with
  | operand a =>
    rw [read_eq, has.1, start]
    simp [operands.1, nodes]
  | @root a x y before after o root _ _ ihLeft ihRight =>
    obtain ⟨operandsBefore, operandRoot, operandsAfter⟩ := forall_mem_link.1 operands.2
    obtain ⟨balancedBefore, balancedRoot, balancedAfter⟩ := forall_mem_link.1 balanced
    obtain ⟨tighterBefore, tighterRoot, -⟩ := forall_mem_link.1 tighter
    obtain ⟨-, aheadRoot, aheadAfter⟩ := forall_mem_link.1 ahead
    rw [nodes_append, Input.has_append] at has
    obtain ⟨hasBefore, token, hasAfter⟩ := has
    have kind : s.kind (i + (nodes a before).length) = o.operator.kind := by
      rw [Input.kind, token]
    have length : i + (nodes a (before ++ o :: after)).length =
        i + (nodes a before).length + 1 + (nodes o.operand after).length := by
      rw [nodes_append, List.length_append, List.length_cons]
      omega
    rw [length] at aheadRoot aheadAfter ⊢
    have left : read g s p i = readOn g s p x (i + (nodes a before).length) := by
      refine ihLeft ⟨operands.1, operandsBefore⟩ balancedBefore hasBefore tighterBefore ?_
      rw [kind]
      exact root.le_grip
    have right : read g s (g.grip o.operator.kind) (i + (nodes a before).length + 1) =
        done y (i + (nodes a before).length + 1 + (nodes o.operand after).length) := by
      refine read_eq_done ?_ aheadRoot
      exact ihRight ⟨operandRoot, operandsAfter⟩ balancedAfter hasAfter
        (root.grip_lt balancedRoot) aheadAfter
    rw [left, readOn_binary (by rwa [kind]) (by rw [kind]; exact balancedRoot.role) right, token]

/-- The tree of a chain is the one that comes of splitting it at its roots. -/
theorem ofInput_chain {a : Tree} {ls : List Link} {ends : List Tree}
    (quiet : g.power .finish = 0)
    (operands : g.start a.kind = .leaf ∧ ∀ l ∈ ls, g.start l.operand.kind = .leaf)
    (balanced : ∀ l ∈ ls, g.Balanced l.operator.kind) (finished : ∀ x ∈ ends, x.kind = .finish) :
    ∃ t, Tree.ofInput g .refuse (.ofList (nodes a ls ++ ends)) = .ok t ∧
      ∀ u, Splits g a ls u ↔ u = t := by
  have ahead : (Input.ofList (nodes a ls ++ ends)).kind (0 + (nodes a ls).length) = .finish := by
    rw [Input.kind, Input.token_ofList]
    cases ends with
    | nil => simp [Tree.finish, Tree.kind, Tree.label, Token.finish, Token.mark]
    | cons x ends => simpa using finished x (List.mem_cons_self ..)
  have stops (q : Power) :
      g.power ((Input.ofList (nodes a ls ++ ends)).kind (0 + (nodes a ls).length)) ≤ q := by
    rw [ahead, quiet]
    exact Nat.zero_le q
  have ok (t : Tree) (splits : Splits g a ls t) :
      Tree.ofInput g .refuse (.ofList (nodes a ls ++ ends)) = .ok t := by
    have whole := read_of_splits (p := 0) splits operands balanced (Input.has_ofList _ ends)
      (fun l listed => (balanced l listed).1) (fun _ _ => stops _)
    have read := read_eq_done whole (stops 0)
    simp only [ofInput, read, ahead, ne_eq, not_true_eq_false, and_false, if_false]
  obtain ⟨t, splits⟩ := exists_splits g a ls
  refine ⟨t, ok t splits, fun u => ⟨fun other => ?_, ?_⟩⟩
  · exact Except.ok.inj ((ok u other).symm.trans (ok t splits))
  · rintro rfl
    exact splits

/-- Two operators of one power that group to different sides, and a tighter one. -/
def mixed : Grammar :=
  .ofRules [.leaf .literal, .power .plus 5, .leftward .plus 5, .power .minus 5, .rightward .minus 5,
    .power .times 7, .leftward .times 7]

/-- What comes after the literal `1` in `1 + 2 - 3 * 4 + 5`. -/
def mixedLinks : List Link :=
  [⟨.leaf (.mark .plus), .leaf (.number 2)⟩, ⟨.leaf (.mark .minus), .leaf (.number 3)⟩,
    ⟨.leaf (.mark .times), .leaf (.number 4)⟩, ⟨.leaf (.mark .plus), .leaf (.number 5)⟩]

/-- Of the three weakest operators of `1 + 2 - 3 * 4 + 5`, the one that groups to the right is the
root. -/
theorem ofInput_chain_mixed :
    (mixed.power .finish = 0 ∧ mixed.start .literal = .leaf ∧
      ∀ l ∈ mixedLinks, mixed.Balanced l.operator.kind) ∧
    ∃ t, t = .binary (.mark .minus)
        (.binary (.mark .plus) (.leaf (.number 1)) (.leaf (.number 2)))
        (.binary (.mark .plus)
          (.binary (.mark .times) (.leaf (.number 3)) (.leaf (.number 4))) (.leaf (.number 5))) ∧
      Tree.ofInput mixed .refuse (.ofList (nodes (.leaf (.number 1)) mixedLinks ++ [.finish])) =
        .ok t ∧
      ∀ u, Splits mixed (.leaf (.number 1)) mixedLinks u ↔ u = t := by
  have balanced : ∀ l ∈ mixedLinks, mixed.Balanced l.operator.kind := by decide
  obtain ⟨t, ok, only⟩ := @ofInput_chain mixed (.leaf (.number 1)) mixedLinks [.finish] (by decide)
    (by decide) balanced (by decide)
  exact ⟨⟨by decide, by decide, balanced⟩, t, Except.ok.inj (ok.symm.trans (by rfl)), ok, only⟩

end Chain

end Calculator
