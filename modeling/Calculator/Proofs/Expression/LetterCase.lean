import Calculator.Proofs.CommandLine.Files
import Calculator.Proofs.Text.Lowercase

/-!
# The case of letters

Texts that differ only in the case of their Latin letters have the same tree or the same failure, and
the same value. The failure may hold the rest of the text, which has been brought to lower case by
then. A text in lower case stands for all of them (`tree_recased`).
-/

namespace Calculator

namespace Expression

theorem tree_congr {text text' : String}
    (same : Text.lowercase text'.toList = Text.lowercase text.toList) (trailing : Tree.Trailing) :
    tree trailing text' = tree trailing text := by
  rw [tree, tree, same]

theorem value_congr {text text' : String}
    (same : Text.lowercase text'.toList = Text.lowercase text.toList) (source : RandomSource)
    (trailing : Tree.Trailing) : value source trailing text' = value source trailing text := by
  rw [value, value, tree_congr same]

/-- The lower-case form of a text. -/
def lowercased (text : String) : String :=
  String.ofList (Text.lowercase text.toList)

theorem lowercase_lowercased (text : String) :
    Text.lowercase (lowercased text).toList = Text.lowercase text.toList := by
  rw [lowercased, String.toList_ofList, Text.lowercase_lowercase]

/-- The case of Latin letters does not matter to the tree of an expression, to its value or to what
is said where there is none. Where nothing is drawn the source of random numbers does not matter
either. Nor does it matter whether the text is brought to lower case beforehand. -/
theorem tree_recased (trailing : Tree.Trailing) (text : String) :
    (∀ text', Text.Recased text.toList text'.toList →
      tree trailing text' = tree trailing text ∧
        (∀ source, value source trailing text' = value source trailing text) ∧
        (Quiet trailing text → ∀ source source',
          value source' trailing text' = value source trailing text)) ∧
      tree trailing (lowercased text) = tree trailing text ∧
      ∀ source, value source trailing (lowercased text) = value source trailing text := by
  have lower := lowercase_lowercased text
  refine ⟨fun text' recased => ?_, tree_congr lower trailing,
    fun source => value_congr lower source trailing⟩
  have same := Text.lowercase_eq_of_recased recased
  refine ⟨tree_congr same trailing, fun source => value_congr same source trailing, ?_⟩
  intro quiet source source'
  rw [value_congr same, value_eq_of_quiet quiet source source']

/-- The sigma after the numeral is a final one whatever the case of the numeral's letters, and this
shows where the text stops to make sense. -/
theorem tree_recased_final_sigma :
    tree .refuse "0XaΣ" = .error (.parse (.unrecognized "ς")) ∧
      tree .refuse "0xAΣ" = tree .refuse "0XaΣ" ∧
      value (.ofSeed 1) .refuse "0xAΣ" = value (.ofSeed 0) .refuse "0XaΣ" ∧
      tree .refuse "0xaς" = tree .refuse "0XaΣ" := by
  have stuck : Token.ofChars ['ς'] = .error (.unrecognized "ς") := by
    have none : Lexeme.longest? ['ς'] = none := rfl
    refine Token.ofChars_of_stuck ⟨List.cons_ne_nil _ _, fun l leads => ?_⟩
    have found := Lexeme.longest?_eq_some.2 leads
    rw [none] at found
    cases found
  have leads : Lexeme.Leads ⟨.hexadecimal, ['0', 'x', 'a']⟩ (['0', 'x', 'a'] ++ ['ς']) :=
    Lexeme.longest?_eq_some.1 rfl
  have lower : Text.lowercase "0XaΣ".toList = ['0', 'x', 'a'] ++ ['ς'] := by decide +kernel
  have fails : tree .refuse "0XaΣ" = .error (.parse (.unrecognized "ς")) := by
    rw [tree, lower, Token.ofChars_append leads (by decide), stuck]
    rfl
  have quiet : Quiet .refuse "0XaΣ" := by
    intro t parsed
    rw [fails] at parsed
    cases parsed
  have text : lowercased "0XaΣ" = "0xaς" := by
    rw [lowercased, lower]
    rfl
  obtain ⟨recased, whole, -⟩ := tree_recased .refuse "0XaΣ"
  obtain ⟨same, -, drawn⟩ := recased "0xAΣ" (by decide +kernel)
  exact ⟨fails, same, drawn quiet (.ofSeed 0) (.ofSeed 1), text ▸ whole⟩

end Expression

end Calculator
