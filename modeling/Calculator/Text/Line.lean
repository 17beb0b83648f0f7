import Calculator.Text.Blank

/-!
# Lines

A text is cut into lines at its line feeds. A line that ends with a carriage return before the line
feed keeps it, and loses it like all blank characters at its ends when it is trimmed.
-/

namespace Calculator

namespace Text

/-- A text without the blank characters at its ends. -/
def trim (s : List Char) : List Char :=
  ((s.dropWhile isBlank).reverse.dropWhile isBlank).reverse

def lines (s : List Char) : List (List Char) :=
  s.splitOn '\n'

/-- The lines of a text that are not blank, trimmed. -/
def trimmedLines (s : List Char) : List (List Char) :=
  ((lines s).map trim).filter fun line => !line.isEmpty

end Text

end Calculator
