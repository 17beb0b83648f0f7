import Calculator.Input

/-!
# The tokens of an input

An input made of a list of tokens has these tokens in order and then its end for ever. `Has` says
what nodes an input has from a position on, and `Holds` that they are tokens without children.
-/

namespace Calculator

/-- No token of the list is the end of the input. -/
def EndFree (ts : List Token) : Prop :=
  ∀ t ∈ ts, t.kind ≠ .finish

instance (ts : List Token) : Decidable (EndFree ts) :=
  inferInstanceAs (Decidable (∀ t ∈ ts, t.kind ≠ .finish))

theorem endFree_append {ts us : List Token} : EndFree (ts ++ us) ↔ EndFree ts ∧ EndFree us :=
  List.forall_mem_append

namespace Input

/-- From `i` on, the input has the nodes. -/
def Has (s : Input) : Nat → List Tree → Prop
  | _, [] => True
  | i, x :: xs => s.token i = x ∧ s.Has (i + 1) xs

theorem has_append {s : Input} {i : Nat} {xs ys : List Tree} :
    s.Has i (xs ++ ys) ↔ s.Has i xs ∧ s.Has (i + xs.length) ys := by
  induction xs generalizing i with
  | nil => simp [Has]
  | cons x xs ih =>
    have : i + 1 + xs.length = i + (xs.length + 1) := by omega
    simp [Has, ih, and_assoc, this]

theorem has_ofList (xs ys : List Tree) : (ofList (xs ++ ys)).Has 0 xs := by
  suffices ∀ zs xs, (ofList (zs ++ xs ++ ys)).Has zs.length xs from this [] xs
  intro zs xs
  induction xs generalizing zs with
  | nil => trivial
  | cons x xs ih =>
    refine ⟨by simp, ?_⟩
    simpa using ih (zs ++ [x])

/-- From `i` on, the input has the tokens `ts`, none of which has children. -/
def Holds (s : Input) : Nat → List Token → Prop
  | _, [] => True
  | i, t :: ts => s.token i = .leaf t ∧ s.Holds (i + 1) ts

theorem holds_nil {s : Input} {i : Nat} : s.Holds i [] := trivial

theorem holds_iff_has {s : Input} {i : Nat} {ts : List Token} :
    s.Holds i ts ↔ s.Has i (ts.map .leaf) := by
  induction ts generalizing i with
  | nil => exact Iff.rfl
  | cons t ts ih => simp [Holds, Has, ih]

theorem holds_append {s : Input} {i : Nat} {ts us : List Token} :
    s.Holds i (ts ++ us) ↔ s.Holds i ts ∧ s.Holds (i + ts.length) us := by
  simp only [holds_iff_has, List.map_append, has_append, List.length_map]

theorem holds_singleton {s : Input} {i : Nat} {t : Token} : s.Holds i [t] ↔ s.token i = .leaf t := by
  simp [Holds]

/-- No token of the input has children. -/
def Childless (s : Input) : Prop :=
  ∀ i, s.token i = .leaf (s.token i).label

/-- The tokens of an input up to some token and that token itself. -/
theorem holds_snoc {s : Input} {i : Nat} {ts : List Token} (childless : s.Childless)
    (holds : s.Holds i ts) : s.Holds i (ts ++ [(s.token (i + ts.length)).label]) :=
  holds_append.2 ⟨holds, holds_singleton.2 (childless _)⟩

theorem length_snoc (i : Nat) (ts : List Token) (t : Token) :
    i + ts.length + 1 = i + (ts ++ [t]).length := by
  simp [Nat.add_assoc]

theorem token_of_holds {s : Input} {i j : Nat} {ts : List Token} (holds : s.Holds i ts)
    (lt : j < ts.length) : s.token (i + j) = .leaf ts[j] := by
  induction ts generalizing i j with
  | nil => exact absurd lt (Nat.not_lt_zero j)
  | cons t ts ih =>
    cases j with
    | zero => exact holds.1
    | succ j =>
      have := ih holds.2 (Nat.lt_of_succ_lt_succ lt)
      rwa [Nat.add_right_comm] at this

/-- From one position on there is only one list of each length. -/
theorem eq_of_holds {s : Input} {i : Nat} {ts us : List Token} (first : s.Holds i ts)
    (second : s.Holds i us) (length : ts.length = us.length) : ts = us := by
  refine List.ext_getElem length fun j lt lt' => ?_
  exact Tree.leaf.inj ((token_of_holds first lt).symm.trans (token_of_holds second lt'))

theorem kind_of_token {s : Input} {i : Nat} {t : Token} (token : s.token i = .leaf t) :
    s.kind i = t.kind := by
  rw [kind, token]
  rfl

/-- The input that consists of tokens without children. -/
def ofTokens (ts : List Token) : Input := ofList (ts.map .leaf)

theorem token_ofTokens (ts : List Token) (i : Nat) :
    (ofTokens ts).token i = .leaf (ts.getD i .finish) := by
  rw [ofTokens, token_ofList, List.getD_eq_getElem?_getD, List.getD_eq_getElem?_getD,
    List.getElem?_map]
  cases ts[i]? <;> rfl

theorem kind_ofTokens (ts : List Token) (i : Nat) :
    (ofTokens ts).kind i = (ts.getD i .finish).kind :=
  kind_of_token (token_ofTokens ts i)

theorem childless_ofTokens (ts : List Token) : (ofTokens ts).Childless := by
  intro i
  rw [token_ofTokens]
  rfl

theorem holds_ofTokens (ts us : List Token) : (ofTokens (ts ++ us)).Holds 0 ts := by
  rw [holds_iff_has, ofTokens, List.map_append]
  exact has_ofList _ _

/-- Between any two positions there are tokens. -/
theorem exists_holds {s : Input} (childless : s.Childless) {i j : Nat} (le : i ≤ j) :
    ∃ ts, s.Holds i ts ∧ j = i + ts.length := by
  induction le with
  | refl => exact ⟨[], holds_nil, rfl⟩
  | step _ ih =>
    obtain ⟨ts, holds, rfl⟩ := ih
    exact ⟨_, holds_snoc childless holds, length_snoc ..⟩

theorem getD_of_holds {ts us : List Token} (holds : (ofTokens ts).Holds 0 us) {j : Nat}
    (lt : j < us.length) : ts.getD j .finish = us[j] := by
  have token := token_of_holds holds lt
  rw [Nat.zero_add, token_ofTokens] at token
  exact Tree.leaf.inj token

/-- The input of a list consists of the list and of ends after it. -/
theorem prefix_of_holds {ts us : List Token} (holds : (ofTokens ts).Holds 0 us) :
    us <+: ts ++ List.replicate us.length .finish := by
  rw [List.prefix_iff_getElem?]
  intro j lt
  rw [← getD_of_holds holds lt, List.getD_eq_getElem?_getD]
  by_cases inner : j < ts.length
  · rw [List.getElem?_append_left inner, List.getElem?_eq_getElem inner]
    rfl
  · have outer : ts.length ≤ j := Nat.le_of_not_lt inner
    rw [List.getElem?_append_right outer, List.getElem?_eq_none outer, List.getElem?_replicate,
      if_pos (by omega)]
    rfl

/-- What the input of a list has from the beginning on are tokens of the list, unless there is an
end among them. -/
theorem eq_take_of_holds {ts us : List Token} (endFree : EndFree us)
    (holds : (ofTokens (ts ++ [.finish])).Holds 0 us) :
    us.length ≤ ts.length ∧ us = ts.take us.length := by
  have same (j : Nat) (lt : j < us.length) : (ts ++ [Token.finish]).getD j .finish = us[j] :=
    getD_of_holds holds lt
  have le : us.length ≤ ts.length := by
    refine Nat.le_of_not_lt fun lt => endFree _ (List.getElem_mem lt) ?_
    rw [← same _ lt]
    simp [Token.finish, Token.mark]
  refine ⟨le, List.ext_getElem (by simp [le]) fun j lt _ => ?_⟩
  rw [← same j lt, List.getElem_take]
  have : j < ts.length := Nat.lt_of_lt_of_le lt le
  simp [List.getD_eq_getElem?_getD, List.getElem?_append_left this, this]

end Input

end Calculator
