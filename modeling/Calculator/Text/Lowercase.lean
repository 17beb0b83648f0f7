import Calculator.Text.Case

/-!
# Lower case

Every letter is replaced by its lower-case form. Two letters are special. A dotted capital `I`
becomes two characters. A capital sigma has two lower-case forms, one of them for the end of a word:
it is taken where a letter with case stands before the sigma and none after it, not counting
case-ignorable characters in between.
-/

namespace Calculator

namespace Text

def capitalSigma : Char := 'Σ'

def smallSigma : Char := 'σ'

def finalSigma : Char := 'ς'

/-- The lower-case form of a character other than a capital sigma. -/
def lowercaseChar (c : Char) : List Char :=
  if c = 'İ' then ['i', '\u0307']
  else
    match lowercaseRanges.find? (·.pairs c) with
    | some r => [Char.ofNat (c.toNat + r.offset).toNat]
    | none => [c]

/-- Is the next character that is not case-ignorable a letter with case? -/
def leadsToCased (s : List Char) : Bool :=
  (s.find? fun c => !isCaseIgnorable c).any isCased

/-- The lower-case form of a capital sigma, from the characters before it, the nearest first, and
those after it. -/
def lowercaseSigma (before after : List Char) : Char :=
  if leadsToCased before && !leadsToCased after then finalSigma else smallSigma

/-- The lower-case form of a text that stands after the characters `before`, the nearest first. -/
def lowercaseAfter (before : List Char) : List Char → List Char
  | [] => []
  | c :: after =>
    (if c = capitalSigma then [lowercaseSigma before after] else lowercaseChar c) ++
      lowercaseAfter (c :: before) after

def lowercase (s : List Char) : List Char :=
  lowercaseAfter [] s

end Text

end Calculator
