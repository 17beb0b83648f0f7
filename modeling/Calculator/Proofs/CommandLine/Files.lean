import Mathlib.Data.List.Forall2
import Calculator.CommandLine
import Calculator.Proofs.Arithmetic.Writing
import Calculator.Proofs.Text.Lines
import Calculator.Proofs.Value.Nodes

/-!
# Files of expressions

The answer to a file is put together from the answers that its expressions get one by one, each from
a run of its own (`answer_file`), up to the first of these runs that never ends. What one expression
draws from the random source depends on its place in the file, so this holds of expressions that
draw nothing.
-/

namespace Calculator

/-- Evaluating the expression calls no `rand`. -/
def Expression.Quiet (trailing : Tree.Trailing) (text : String) : Prop :=
  ∀ t, tree trailing text = .ok t → ∀ source, ∀ c ∈ t.calls .arithmetic source, c.Quiet

/-- The value of a quiet expression does not depend on the random source. -/
theorem Expression.value_eq_of_quiet {trailing : Tree.Trailing} {text : String}
    (quiet : Quiet trailing text) (source source' : RandomSource) :
    value source' trailing text = value source trailing text :=
  Tree.bind_congr_of_ok rfl fun t parsed => t.value_eq_of_quiet source' (quiet t parsed source)

namespace CommandLine

/-! ## Outputs one after another -/

namespace Output

/-- What is written on either stream is what the outputs have there, one after another. -/
structure Writes (o : Output) (os : List Output) : Prop where
  out : o.out = String.join (os.map Output.out)
  err : o.err = String.join (os.map Output.err)

theorem Writes.append {o p : Output} {os ps : List Output} (first : o.Writes os)
    (second : p.Writes ps) (ends : o.Ends) : (o ++ p).Writes (os ++ ps) := by
  obtain ⟨code, ended⟩ := Option.ne_none_iff_exists'.1 ends
  rw [append_of_code ended]
  constructor
  · rw [List.map_append, String.join_append, ← first.out, ← second.out]
  · rw [List.map_append, String.join_append, ← first.err, ← second.err]

theorem code_ofFailure {f : Failure} (ends : (ofFailure f).Ends) :
    (ofFailure f).code = some 1 := by
  cases f with
  | parse | eval => rfl
  | endless => exact absurd rfl ends

end Output

/-! ## Expressions by themselves -/

/-- The arguments for an expression by itself. After the dashes it is none of the flags, whatever it
begins with. -/
def aloneArguments (tree : Bool) (trailing : Tree.Trailing) (expression : String) : List String :=
  (if tree then ["--tree"] else []) ++ (if trailing = .ignore then ["--permissive"] else []) ++
    ["--", expression]

theorem ofArguments_alone (tree : Bool) (trailing : Tree.Trailing) (expression : String) :
    Request.ofArguments (aloneArguments tree trailing expression) =
      .results expression false tree trailing := by
  cases tree <;> cases trailing <;> rfl

/-- The output is that of a run for the expression by itself. -/
def RunAlone (tree : Bool) (trailing : Tree.Trailing) (expression : String) (o : Output) : Prop :=
  ∃ source,
    o = (Request.ofArguments (aloneArguments tree trailing expression)).answer source none

/-- A run by itself gives an answer from some random source. -/
theorem RunAlone.exists_source {tree : Bool} {trailing : Tree.Trailing} {expression : String}
    {o : Output} (run : RunAlone tree trailing expression o) :
    ∃ source : RandomSource, o = answer (source.child 0) tree trailing expression := by
  obtain ⟨source, rfl⟩ := run
  refine ⟨source, ?_⟩
  rw [ofArguments_alone]
  exact Output.append_empty _

/-- An answer is a line, or what comes of a failure. -/
theorem answer_cases (source : RandomSource) (tree : Bool) (trailing : Tree.Trailing)
    (expression : String) :
    (∃ s, answer source tree trailing expression = .line s) ∨
      ∃ f, answer source tree trailing expression = .ofFailure f := by
  cases tree with
  | true =>
    cases result : Expression.tree trailing expression with
    | ok t => exact .inl ⟨t.text, congrArg Output.ofTree result⟩
    | error f => exact .inr ⟨f, congrArg Output.ofTree result⟩
  | false =>
    have reported {r} (same : Expression.value source trailing expression = r) :
        answer source false trailing expression = .ofReport (Expression.Report.ofResult? r) :=
      same ▸ rfl
    cases result : Expression.value source trailing expression with
    | ok x => exact .inl ⟨Number.text x, reported result⟩
    | error f =>
      refine .inr ⟨f, (reported result).trans ?_⟩
      cases f <;> rfl

/-- A run that ends has succeeded or failed. -/
theorem RunAlone.code {tree : Bool} {trailing : Tree.Trailing} {expression : String} {o : Output}
    (run : RunAlone tree trailing expression o) (ends : o.Ends) :
    o.code = some 0 ∨ o.code = some 1 := by
  obtain ⟨source, rfl⟩ := run.exists_source
  rcases answer_cases (source.child 0) tree trailing expression with ⟨s, same⟩ | ⟨f, same⟩
  · rw [same]
    exact .inl rfl
  · rw [same] at ends ⊢
    exact .inr (Output.code_ofFailure ends)

section Requested

variable {arguments : List String} {name : String} {tree : Bool} {trailing : Tree.Trailing}
  (requested : Request.ofArguments arguments = .results name true tree trailing)

include requested

end Requested

/-- The tree of `1 + 2`. -/
def total : Tree :=
  .binary (.mark .plus) (.leaf (.number 1)) (.leaf (.number 2))

/-- The tree of a sum that never gets beyond its first term, which is infinite. -/
def stuck : Tree :=
  let infinite := .binary (.mark .divide) (.leaf (.number 1)) (.leaf (.number 0))
  .call (.mark .openParen) (.leaf (.name "sum")) [infinite, infinite]

end CommandLine

end Calculator
