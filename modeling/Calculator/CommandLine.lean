import Calculator.Expression
import Calculator.Text.Line

/-!
# The command line

The program evaluates the expression that is its argument, or every line of a file. What it was
asked for is read off the arguments from left to right, so the first thing wrong with them decides,
and what it answers is computed from the arguments and the file alone.
-/

namespace Calculator

namespace CommandLine

/-! ## Arguments -/

inductive Flag where
  /-- The contents are the name of a file with an expression in every line. -/
  | file
  /-- The answers are trees instead of values. -/
  | tree
  /-- What stands after a whole expression is ignored. -/
  | permissive
  /-- The answer is a list of the functions. -/
  | listFunctions
  | help
  | version
  deriving DecidableEq, Repr

namespace Flag

/-- Every flag, in the order of the help. -/
def all : List Flag := [file, tree, permissive, listFunctions, help, version]

/-- What stands after two dashes. -/
def word : Flag → String
  | file => "file"
  | tree => "tree"
  | permissive => "permissive"
  | listFunctions => "list-functions"
  | help => "help"
  | version => "version"

/-- What stands after one dash, alone or among other letters. -/
def letter? : Flag → Option Char
  | file => some 'f'
  | tree => some 't'
  | permissive => none
  | listFunctions => some 'l'
  | help => some 'h'
  | version => some 'V'

def ofWord? (s : String) : Option Flag := all.find? (·.word == s)

def ofLetter? (c : Char) : Option Flag := all.find? (·.letter? == some c)

/-- What the help says about a flag, in lines. -/
def description : Flag → List String
  | file => ["Treat CONTENTS as a file and evaluate each non-empty line of it"]
  | tree => ["Print the parsed tree as an s-expression instead of evaluating it"]
  | permissive =>
    ["Ignore anything after the first complete expression instead of reporting it as", "an error"]
  | listFunctions => ["List the built-in functions and exit"]
  | help => ["Print help"]
  | version => ["Print version"]

/-- How the help writes a flag. Words stand below each other, also those without a letter. -/
def spelling (flag : Flag) : String :=
  let letter := match flag.letter? with
    | some c => String.ofList ['-', c, ',', ' ']
    | none => "    "
  "  " ++ letter ++ "--" ++ flag.word

/-- Where the descriptions begin: two blanks after the longest spelling. -/
def descriptionColumn : Nat :=
  (all.map fun flag => flag.spelling.length).foldl max 0 + 2

/-- The lines of the help on a flag. -/
def helpLines (flag : Flag) : List String :=
  (flag.description.zipIdx).map fun (line, i) =>
    let margin := if i = 0 then flag.spelling else ""
    margin.pushn ' ' (descriptionColumn - margin.length) ++ line

end Flag

/-- The arguments read so far. -/
structure Arguments where
  flags : List Flag := []
  contents : Option String := none

/-- Why the arguments are not read to their end. -/
inductive Stop where
  /-- They are not understood. -/
  | refused
  /-- They ask for help, whatever follows. -/
  | help
  /-- They ask for the version, whatever follows. -/
  | version
  deriving DecidableEq, Repr

namespace Arguments

/-- Adds a flag, which must exist and be new. -/
def addFlag (a : Arguments) : Option Flag → Except Stop Arguments
  | none => .error .refused
  | some .help => .error .help
  | some .version => .error .version
  | some flag =>
    if flag ∈ a.flags then .error .refused else .ok { a with flags := flag :: a.flags }

/-- Adds an argument that is no flag. There is at most one. -/
def addContents (a : Arguments) (s : String) : Except Stop Arguments :=
  match a.contents with
  | none => .ok { a with contents := some s }
  | some _ => .error .refused

/-- Adds one argument. A dash alone is no flag. -/
def add (a : Arguments) (s : String) : Except Stop Arguments :=
  match s.toList with
  | '-' :: '-' :: word => a.addFlag (Flag.ofWord? (String.ofList word))
  | '-' :: letter :: letters =>
    (letter :: letters).foldlM (fun a c => a.addFlag (Flag.ofLetter? c)) a
  | _ => a.addContents s

/-- Adds all arguments. After two dashes alone there are no more flags. -/
def addAll (a : Arguments) : List String → Except Stop Arguments
  | [] => .ok a
  | s :: rest => if s = "--" then rest.foldlM addContents a else do (← a.add s).addAll rest

end Arguments

/-- What the program is asked for. -/
inductive Request where
  | refused
  | help
  | version
  | listing
  /-- The value or the tree of every expression in `contents`, or in the file of this name. -/
  | results (contents : String) (file tree : Bool) (trailing : Tree.Trailing)

/-- Without a listing there have to be contents. -/
def Request.ofArguments (arguments : List String) : Request :=
  match ({} : Arguments).addAll arguments with
  | .error .refused => refused
  | .error .help => help
  | .error .version => version
  | .ok a =>
    if .listFunctions ∈ a.flags then listing
    else
      match a.contents with
      | none => refused
      | some contents =>
        results contents (decide (.file ∈ a.flags)) (decide (.tree ∈ a.flags))
          (if .permissive ∈ a.flags then .ignore else .refuse)

/-! ## Answers -/

/-- What the program leaves behind: its exit code, if it ever ends, and what it has written. -/
@[ext] structure Output where
  code : Option Nat
  out : String
  err : String
  deriving DecidableEq, Repr

namespace Output

/-- Does the program end? -/
def Ends (o : Output) : Prop := o.code ≠ none

def empty : Output := ⟨some 0, "", ""⟩

/-- The output of work that never ends. -/
def endless : Output := ⟨none, "", ""⟩

/-- One output after another. After work that never ends there is nothing more. Together they have
failed if one of them has. -/
def append (a b : Output) : Output :=
  match a.code with
  | some code => ⟨b.code.map (max code), a.out ++ b.out, a.err ++ b.err⟩
  | none => a

instance : Append Output := ⟨append⟩

theorem append_of_code {a : Output} {code : Nat} (ends : a.code = some code) (b : Output) :
    a ++ b = ⟨b.code.map (max code), a.out ++ b.out, a.err ++ b.err⟩ := by
  change a.append b = _
  rw [append, ends]

theorem append_of_endless {a : Output} (endless : a.code = none) (b : Output) : a ++ b = a := by
  change a.append b = _
  rw [append, endless]

@[simp] theorem append_empty (a : Output) : a ++ empty = a := by
  cases code : a.code with
  | none => exact append_of_endless code empty
  | some _ =>
    rw [append_of_code code]
    simp [empty, ← code]

theorem append_assoc (a b c : Output) : a ++ b ++ c = a ++ (b ++ c) := by
  cases first : a.code with
  | none => rw [append_of_endless first, append_of_endless first, append_of_endless first]
  | some i =>
    cases second : b.code with
    | none =>
      have endless : (a ++ b).code = none := by simp [append_of_code first, second]
      rw [append_of_endless second, append_of_endless endless]
    | some j =>
      have both : (a ++ b).code = some (max i j) := by simp [append_of_code first, second]
      have largest : max (max i j) = max i ∘ max j := funext fun _ => Nat.max_assoc ..
      rw [append_of_code both, append_of_code first, append_of_code first, append_of_code second]
      simp [largest, String.append_assoc]

/-- Success with some lines. -/
def ofLines (lines : List String) : Output :=
  ⟨some 0, String.join (lines.map (· ++ "\n")), ""⟩

/-- Success with a line. -/
def line (s : String) : Output :=
  ⟨some 0, s ++ "\n", ""⟩

/-- Failure with a message on the other stream. -/
def failure (message : String) : Output :=
  ⟨some 1, "", message ++ "\n"⟩

/-- The output for what has failed, or never ends. -/
def ofFailure (f : Failure) : Output :=
  match f.message? with
  | some message => failure message
  | none => endless

/-- The output for the tree of an expression. -/
def ofTree : Except Failure Tree → Output
  | .ok t => line t.text
  | .error f => ofFailure f

/-- The output for the value of an expression, of which there may never be a report. -/
def ofReport : Option Expression.Report → Output
  | some report =>
    match report.message with
    | none => line (Number.text report.answer)
    | some message => failure message
  | none => endless

end Output

/-- The answer to an expression. -/
def answer (source : RandomSource) (tree : Bool) (trailing : Tree.Trailing) (expression : String) :
    Output :=
  if tree then .ofTree (Expression.tree trailing expression)
  else .ofReport (Expression.Report.ofResult? (Expression.value source trailing expression))

/-- The answers to expressions one after another, the first of them with number `i`. -/
def answers (source : RandomSource) (tree : Bool) (trailing : Tree.Trailing) (i : Nat) :
    List String → Output
  | [] => .empty
  | e :: es =>
    answer (source.child i) tree trailing e ++ answers source tree trailing (i + 1) es

/-- The expressions in the text of a file. -/
def expressionsOf (text : String) : List String :=
  (Text.trimmedLines text.toList).map String.ofList

def versionText : String := "matheval 0.1.0"

def usageLine : String := "Usage: matheval [OPTIONS] [CONTENTS]"

def helpLines : List String :=
  ["Arithmetic expression evaluator built on a top-down operator precedence parser", "", usageLine,
    "", "Arguments:", "  [CONTENTS]  The expression to evaluate, or a path when `--file` is given", "",
    "Options:"] ++ Flag.all.flatMap Flag.helpLines

/-- The output for arguments that are not understood, without a word on what is wrong with them. -/
def misused : Output :=
  ⟨some 2, "", usageLine ++ "\n\nFor more information, try '--help'.\n"⟩

/-- The output where a file cannot be read, or is not a text. -/
def unreadable (name : String) : Output :=
  .failure ("Failed to read the input file '" ++ name ++ "'. Perhaps this file does not exist?")

/-- The file that has to be read for a request. -/
def Request.file? : Request → Option String
  | results contents true _ _ => some contents
  | _ => none

/-- The answer to a request. The bytes of the file are given if it could be read; they have to be a
text. -/
def Request.answer (source : RandomSource) (file : Option ByteArray) : Request → Output
  | refused => misused
  | help => .ofLines helpLines
  | version => .ofLines [versionText]
  | listing => .ofLines (Function.all.map Function.signature)
  | results contents false tree trailing => answers source tree trailing 0 [contents]
  | results contents true tree trailing =>
    match file.bind String.fromUTF8? with
    | none => unreadable contents
    | some text => answers source tree trailing 0 (expressionsOf text)

end CommandLine

end Calculator
