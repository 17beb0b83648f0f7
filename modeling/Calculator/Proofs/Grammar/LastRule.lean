import Calculator.Grammar.Arithmetic
import Calculator.Grammar.Draft

/-!
# The last rule counts

A role has four slots, and a rule fills one slot of one kind. In a grammar every slot holds what the
last of the rules that fill it has put there, and what it holds in the empty grammar if there is none
(`setting_ofSteps`). So the order of rules for different slots is of no account, and all orders of the
rules of arithmetic build the same grammar.
-/

namespace Calculator

namespace Grammar

inductive Slot where
  | power | start | extension | meaning
  deriving DecidableEq, Repr

/-- The slot that a setting is for. -/
def Setting.slot : Setting → Slot
  | power _ => .power
  | start _ => .start
  | extension _ => .extension
  | meaning _ => .meaning

end Grammar

open Grammar (Setting Slot)

/-- What a slot of a role holds, as the setting that puts it there. -/
def Role.setting (r : Role) : Slot → Setting
  | .power => .power r.power
  | .start => .start r.start
  | .extension => .extension r.extension
  | .meaning => .meaning r.meaning

theorem Role.ext_setting {r r' : Role} (same : ∀ slot, r.setting slot = r'.setting slot) : r = r' := by
  obtain ⟨p, s, e, m⟩ := r
  obtain ⟨p', s', e', m'⟩ := r'
  cases same .power
  cases same .start
  cases same .extension
  cases same .meaning
  rfl

namespace Grammar

theorem setting_apply (s : Setting) (r : Role) (slot : Slot) :
    (s.apply r).setting slot = if s.slot = slot then s else r.setting slot := by
  cases s <;> cases slot <;> rfl

/-- The rule fills this slot of this kind. -/
def Rule.Fills (rule : Rule) (k : Kind) (slot : Slot) : Prop :=
  rule.kind = k ∧ rule.setting.slot = slot

instance (rule : Rule) (k : Kind) (slot : Slot) : Decidable (rule.Fills k slot) :=
  inferInstanceAs (Decidable (_ ∧ _))

/-- What one more rule does: it fills its slot and leaves all others alone. -/
theorem setting_add (g : Grammar) (rule : Rule) (k : Kind) (slot : Slot) :
    ((g.add rule).role k).setting slot =
      if rule.Fills k slot then rule.setting else (g.role k).setting slot := by
  by_cases own : k = rule.kind
  · subst own
    rw [role_add_self, setting_apply]
    simp [Rule.Fills]
  · have other : ¬ rule.Fills k slot := fun fills => own fills.1.symm
    rw [role_add_of_ne g own, if_neg other]

/-- What the last of the rules for a slot puts there. -/
def lastSetting? (rules : List Rule) (k : Kind) (slot : Slot) : Option Setting :=
  (rules.filter fun rule => rule.Fills k slot).getLast?.map Rule.setting

theorem lastSetting?_cons (rule : Rule) (rules : List Rule) (k : Kind) (slot : Slot) :
    lastSetting? (rule :: rules) k slot = if rule.Fills k slot then
      some ((lastSetting? rules k slot).getD rule.setting) else lastSetting? rules k slot := by
  by_cases fills : rule.Fills k slot
  · rw [lastSetting?, List.filter_cons_of_pos (by simpa using fills), List.getLast?_cons, if_pos fills,
      lastSetting?]
    cases (rules.filter fun rule => rule.Fills k slot).getLast? <;> rfl
  · rw [lastSetting?, List.filter_cons_of_neg (by simpa using fills), if_neg fills, lastSetting?]

/-- The rules of a list one after another: each slot that one of them fills holds what the last of
these has put there, and all other slots are left alone. -/
theorem setting_foldl (rules : List Rule) (g : Grammar) (k : Kind) (slot : Slot) :
    ((rules.foldl add g).role k).setting slot =
      (lastSetting? rules k slot).getD ((g.role k).setting slot) := by
  induction rules generalizing g with
  | nil => rfl
  | cons rule rules ih =>
    rw [List.foldl_cons, ih, setting_add, lastSetting?_cons]
    split
    · cases lastSetting? rules k slot <;> rfl
    · rfl

theorem setting_ofRules (rules : List Rule) (k : Kind) (slot : Slot) :
    ((ofRules rules).role k).setting slot =
      (lastSetting? rules k slot).getD (Role.setting {} slot) :=
  setting_foldl rules empty k slot

theorem ofRules_congr {rules rules' : List Rule}
    (same : ∀ k slot, lastSetting? rules' k slot = lastSetting? rules k slot) :
    ofRules rules' = ofRules rules := by
  refine ext fun k => Role.ext_setting fun slot => ?_
  rw [setting_ofRules, setting_ofRules, same]

/-! ## Rules in another order -/

/-- A rule that is the only one for its slot is the last one for it in every order. -/
theorem lastSetting?_perm {rules rules' : List Rule} {k : Kind} {slot : Slot}
    (single : (rules.filter fun rule => rule.Fills k slot).length ≤ 1) (perm : rules'.Perm rules) :
    lastSetting? rules' k slot = lastSetting? rules k slot := by
  have filtered : (rules'.filter fun rule => rule.Fills k slot).Perm
      (rules.filter fun rule => rule.Fills k slot) := perm.filter _
  unfold lastSetting?
  generalize rules.filter _ = fillers at *
  match fillers, single with
  | [], _ => rw [List.perm_nil.1 filtered]
  | [rule], _ => rw [List.perm_singleton.1 filtered]

theorem single_arithmeticRules (k : Kind) (slot : Slot) :
    (arithmeticRules.filter fun rule => rule.Fills k slot).length ≤ 1 := by
  cases k <;> cases slot <;> decide

theorem ofRules_perm_arithmeticRules {rules : List Rule} (perm : rules.Perm arithmeticRules) :
    ofRules rules = arithmetic :=
  ofRules_congr fun k slot => lastSetting?_perm (single_arithmeticRules k slot) perm

/-! ## Drafts -/

def Step.rule? : Step → Option Rule
  | rule r => some r
  | issue => none

/-- The rules among some steps. -/
def rulesOf (steps : List Step) : List Rule :=
  steps.filterMap Step.rule?

namespace Draft

theorem current_foldl (steps : List Step) (d : Draft) :
    (steps.foldl after d).current = (rulesOf steps).foldl add d.current := by
  induction steps generalizing d with
  | nil => rfl
  | cons step steps ih =>
    rw [List.foldl_cons, ih]
    cases step <;> rfl

theorem current_ofSteps (steps : List Step) :
    (ofSteps steps).current = ofRules (rulesOf steps) :=
  current_foldl steps {}

/-- Nothing is taken back that has been issued. -/
theorem issued_foldl (steps : List Step) (d : Draft) :
    ∃ newer, newer.length = steps.count .issue ∧ (steps.foldl after d).issued = newer ++ d.issued := by
  induction steps generalizing d with
  | nil => exact ⟨[], rfl, rfl⟩
  | cons step steps ih =>
    obtain ⟨newer, number, rest⟩ := ih (d.after step)
    rw [List.foldl_cons, rest]
    cases step with
    | rule r => exact ⟨newer, by simp [number], rfl⟩
    | issue => exact ⟨newer ++ [d.current], by simp [number], by simp [after]⟩

theorem issued_ofSteps (before later : List Step) :
    ∃ newer, newer.length = later.count .issue ∧ (ofSteps (before ++ .issue :: later)).issued =
      newer ++ (ofSteps before).current :: (ofSteps before).issued := by
  rw [ofSteps, List.foldl_append, List.foldl_cons]
  exact issued_foldl later _

/-- Whatever steps are taken, every slot holds what the last rule for it has put there, and what it
holds in the empty grammar if there is no rule for it. A grammar that is issued is the one that the
steps before have made, and no later step changes it. So grammars made with the same last rules are
the same, and the rules of arithmetic build the grammar of arithmetic in every order. -/
theorem setting_ofSteps :
    (∀ steps k slot, ((ofSteps steps).current.role k).setting slot =
      (lastSetting? (rulesOf steps) k slot).getD (Role.setting {} slot)) ∧
    (∀ before later, ∃ newer, newer.length = later.count .issue ∧
      (ofSteps (before ++ .issue :: later)).issued =
        newer ++ (ofSteps before).current :: (ofSteps before).issued) ∧
    (∀ steps steps',
      (∀ k slot, lastSetting? (rulesOf steps') k slot = lastSetting? (rulesOf steps) k slot) →
        (ofSteps steps').current = (ofSteps steps).current) ∧
    (∀ steps, (rulesOf steps).Perm arithmeticRules → (ofSteps steps).current = arithmetic) ∧
    ∀ k p m,
      [.power k p, .leaf k, .operand k p, .group k, .leftward k p, .rightward k p, .call k,
          .meaning k m] =
        [.power p, .start .leaf, .start (.operand p), .start .group, .extension (.leftward p),
          .extension (.rightward p), .extension .call, .meaning m].map (Rule.mk k) := by
  refine ⟨fun steps => ?_, issued_ofSteps, fun steps steps' same => ?_, fun steps perm => ?_, ?_⟩
  · rw [current_ofSteps]
    exact setting_ofRules _
  · rw [current_ofSteps, current_ofSteps]
    exact ofRules_congr same
  · rw [current_ofSteps]
    exact ofRules_perm_arithmeticRules perm
  · intro k p m
    rfl

/-- The rules of arithmetic from the last to the first. -/
def backwardSteps : List Step :=
  .issue :: arithmeticRules.reverse.map .rule

/-- Steps that give `+` a power and then another one. -/
def correctedSteps : List Step :=
  [.rule (.power .plus 5), .issue, .rule (.leftward .plus 5), .rule (.leaf .plus),
    .rule (.power .plus 7)]

/-- Steps that give `+` its power at once. -/
def plainSteps : List Step :=
  [.rule (.power .plus 7), .rule (.leaf .plus), .rule (.leftward .plus 5)]

/-- The rules of arithmetic from the last to the first build the grammar of arithmetic. A power that
is given twice is the second one, and the grammar issued in between has the first. -/
theorem setting_ofSteps_backward :
    (rulesOf backwardSteps).Perm arithmeticRules ∧ (ofSteps backwardSteps).current = arithmetic ∧
      (∀ k slot,
        lastSetting? (rulesOf correctedSteps) k slot = lastSetting? (rulesOf plainSteps) k slot) ∧
      (ofSteps correctedSteps).current = (ofSteps plainSteps).current ∧
      ((ofSteps correctedSteps).current.role .plus).setting .power = .power 7 ∧
      ∃ newer : List Grammar, newer.length = 0 ∧
        (ofSteps correctedSteps).issued = newer ++ [(ofSteps (correctedSteps.take 1)).current] := by
  obtain ⟨slots, kept, congr, backward, -⟩ := setting_ofSteps
  have perm : (rulesOf backwardSteps).Perm arithmeticRules := by
    have reversed : rulesOf backwardSteps = arithmeticRules.reverse := by rfl
    rw [reversed]
    exact List.reverse_perm _
  have same : ∀ k slot,
      lastSetting? (rulesOf correctedSteps) k slot = lastSetting? (rulesOf plainSteps) k slot := by
    intro k slot
    cases k <;> cases slot <;> decide
  refine ⟨perm, backward _ perm, same, congr _ _ same, ?_,
    kept (correctedSteps.take 1) (correctedSteps.drop 2)⟩
  rw [slots]
  decide

end Draft

end Grammar

end Calculator
