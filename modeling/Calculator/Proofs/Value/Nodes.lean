import Calculator.Proofs.Value.Faults

/-!
# The nodes of a tree

`Tree.nodes` lists a tree and everything below it, the callees of calls too. A node fits the meaning
that a grammar gives its label if the evaluation has a rule for it, whatever the values below it.
Every fault is one of a node: of one that does not fit, or of one that calls what is no function
(`mem_faults`). Every call that an evaluation makes is one of a node too (`names_of_mem_calls`).
-/

namespace Calculator

namespace Tree

mutual

/-- A tree and everything below it, from left to right. -/
def nodes : Tree → List Tree
  | leaf t => [leaf t]
  | unary t operand => unary t operand :: operand.nodes
  | binary t left right => binary t left right :: (left.nodes ++ right.nodes)
  | call t callee arguments => call t callee arguments :: (callee.nodes ++ nodesAmong arguments)

def nodesAmong : List Tree → List Tree
  | [] => []
  | t :: ts => t.nodes ++ nodesAmong ts

end

theorem nodesAmong_eq (ts : List Tree) : nodesAmong ts = ts.flatMap nodes := by
  induction ts with
  | nil => rfl
  | cons t ts ih => rw [nodesAmong, ih, List.flatMap_cons]

theorem mem_nodes_self (t : Tree) : t ∈ t.nodes := by
  cases t <;> exact List.mem_cons_self ..

theorem nodes_subset_of_left (label : Token) (left right : Tree) :
    left.nodes ⊆ (binary label left right).nodes := by
  intro u below
  exact List.mem_cons_of_mem _ (List.mem_append_left _ below)

theorem nodes_subset_of_right (label : Token) (left right : Tree) :
    right.nodes ⊆ (binary label left right).nodes := by
  intro u below
  exact List.mem_cons_of_mem _ (List.mem_append_right _ below)

theorem nodes_subset_of_mem {label : Token} {callee t : Tree} {arguments : List Tree}
    (listed : t ∈ arguments) : t.nodes ⊆ (call label callee arguments).nodes := by
  intro u below
  have deeper : u ∈ nodesAmong arguments := by
    rw [nodesAmong_eq]
    exact List.mem_flatMap.2 ⟨t, listed, below⟩
  exact List.mem_cons_of_mem _ (List.mem_append_right _ deeper)

/-! ## Shapes and meanings -/

/-- The shape of a node and what its label carries are such as its meaning needs. -/
def Fits (g : Grammar) (t : Tree) : Prop :=
  match g.meaning t.kind with
  | .none => False
  | .literal => t.number?.isSome = true
  | .operator op => t.shape = .binary ∨ t.shape = .unary ∧ (op = .add ∨ op = .subtract)
  | .call => t.shape = .call

/-- The fault is one of a node of the tree. -/
inductive Blamed (g : Grammar) (t : Tree) : EvalError → Prop where
  | meaningless {u : Tree} (below : u ∈ t.nodes) (misfit : ¬ u.Fits g) :
    Blamed g t (.meaningless u.kind)
  | callee {label : Token} {callee : Tree} {arguments : List Tree} {e : EvalError}
    (below : call label callee arguments ∈ t.nodes) (fault : e ∈ calleeFaults callee) :
    Blamed g t e

theorem Blamed.mono {g : Grammar} {t u : Tree} {e : EvalError} (blamed : Blamed g t e)
    (within : t.nodes ⊆ u.nodes) : Blamed g u e := by
  cases blamed with
  | meaningless below misfit => exact .meaningless (within below) misfit
  | callee below fault => exact .callee (within below) fault

theorem blamed_of_misfit {g : Grammar} {t : Tree} {e : EvalError} (misfit : ¬ t.Fits g)
    (fault : e ∈ [EvalError.meaningless t.kind]) : Blamed g t e := by
  rw [List.mem_singleton.1 fault]
  exact .meaningless t.mem_nodes_self misfit

section Trees

variable {g : Grammar}

mutual

/-- Every fault of a tree is one of its nodes. -/
theorem mem_faults (t : Tree) {e : EvalError} (fault : e ∈ t.faults g) : Blamed g t e := by
  rw [faults.eq_def] at fault
  cases role : g.meaning t.kind with
  | none =>
    simp only [role] at fault
    exact blamed_of_misfit (by simp [Fits, role]) fault
  | literal =>
    simp only [role] at fault
    split at fault
    · exact nomatch fault
    · next missing => exact blamed_of_misfit (by simpa [Fits, role] using missing) fault
  | operator op =>
    simp only [role] at fault
    cases t with
    | binary t left right =>
      rcases List.mem_append.1 fault with first | second
      · exact (mem_faults left first).mono (nodes_subset_of_left t left right)
      · exact (mem_faults right second).mono (nodes_subset_of_right t left right)
    | unary t operand =>
      rcases List.mem_append.1 fault with below | here
      · exact (mem_faults operand below).mono (List.subset_cons_self ..)
      · split at here
        · exact nomatch here
        · next unsigned =>
          exact blamed_of_misfit (by simpa [Fits, role, shape] using unsigned) here
    | leaf | call => exact blamed_of_misfit (by simp [Fits, role, shape]) fault
  | call =>
    simp only [role] at fault
    cases t with
    | call t callee arguments =>
      rcases List.mem_append.1 fault with named | among
      · exact .callee (mem_nodes_self _) named
      · obtain ⟨u, listed, blamed⟩ := mem_faultsAmong arguments among
        exact blamed.mono (nodes_subset_of_mem listed)
    | leaf | unary | binary => exact blamed_of_misfit (by simp [Fits, role, shape]) fault

theorem mem_faultsAmong : ∀ (ts : List Tree) {e : EvalError}, e ∈ faultsAmong g ts →
    ∃ t ∈ ts, Blamed g t e
  | [], _, fault => nomatch fault
  | t :: ts, e, fault => by
    rcases List.mem_append.1 fault with first | later
    · exact ⟨t, List.mem_cons_self .., mem_faults t first⟩
    · obtain ⟨u, listed, blamed⟩ := mem_faultsAmong ts later
      exact ⟨u, List.mem_cons_of_mem t listed, blamed⟩

end

end Trees

/-! ## Calls and their nodes -/

theorem name?_of_calledFunction {callee : Tree} {f : Function}
    (called : calledFunction callee = .ok f) : callee.name? = some f.name := by
  unfold calledFunction at called
  split at called
  · next name named =>
    split at called
    · next f' found =>
      obtain rfl := Except.ok.inj called
      rw [named, Function.name_of_named? found]
    · exact nomatch called
  · exact nomatch called

/-- A node of the tree calls the function by its name. -/
def Names (t : Tree) (f : Function) : Prop :=
  ∃ label callee arguments, call label callee arguments ∈ t.nodes ∧ callee.name? = some f.name

theorem Names.mono {t u : Tree} {f : Function} (names : t.Names f) (within : t.nodes ⊆ u.nodes) :
    u.Names f := by
  obtain ⟨label, callee, arguments, below, named⟩ := names
  exact ⟨label, callee, arguments, within below, named⟩

section Calls

variable {g : Grammar}

mutual

/-- Whatever an evaluation calls is called by name in the tree. -/
theorem names_of_mem_calls : ∀ (t : Tree) {source : RandomSource} {c : Call},
    c ∈ t.calls g source → t.Names c.function
  | leaf _, _, _, made => nomatch made
  | unary t operand, source, c, made => by
    rw [calls] at made
    split at made
    · exact (names_of_mem_calls operand made).mono (List.subset_cons_self ..)
    · exact nomatch made
  | binary t left right, source, c, made => by
    rw [calls] at made
    split at made
    · rcases List.mem_append.1 made with first | second
      · exact (names_of_mem_calls left first).mono (nodes_subset_of_left t left right)
      · obtain ⟨x, -, second⟩ := mem_afterOk.1 second
        exact (names_of_mem_calls right second).mono (nodes_subset_of_right t left right)
    · exact nomatch made
  | call t callee arguments, source, c, made => by
    rw [calls] at made
    split at made
    · obtain ⟨f, called, made⟩ := mem_afterOk.1 made
      rcases List.mem_append.1 made with among | last
      · obtain ⟨u, listed, names⟩ := names_of_mem_callsAmong arguments among
        exact names.mono (nodes_subset_of_mem listed)
      · obtain ⟨xs, -, last⟩ := mem_afterOk.1 last
        obtain rfl := List.mem_singleton.1 last
        exact ⟨t, callee, arguments, mem_nodes_self _, name?_of_calledFunction called⟩
    · exact nomatch made

theorem names_of_mem_callsAmong : ∀ (ts : List Tree) {source : RandomSource} {i : Nat} {c : Call},
    c ∈ callsAmong g source i ts → ∃ t ∈ ts, t.Names c.function
  | [], _, _, _, made => nomatch made
  | t :: ts, source, i, c, made => by
    rw [callsAmong] at made
    rcases List.mem_append.1 made with first | later
    · exact ⟨t, List.mem_cons_self .., names_of_mem_calls t first⟩
    · obtain ⟨x, -, later⟩ := mem_afterOk.1 later
      obtain ⟨u, listed, names⟩ := names_of_mem_callsAmong ts later
      exact ⟨u, List.mem_cons_of_mem t listed, names⟩

end

end Calls

end Tree

end Calculator
