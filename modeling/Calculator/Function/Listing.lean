/-!
# Functions

The functions that can be called, with their names and the signatures that a listing shows.
-/

namespace Calculator

inductive Function where
  | sin | cos | tan | cot | asin | acos | atan | atan2
  | sqrt | exp | log | floor | round | ceil | rand | sum
  deriving DecidableEq, Repr

namespace Function

/-- Every function, in the order of listings. -/
def all : List Function :=
  [sin, cos, tan, cot, asin, acos, atan, atan2, sqrt, exp, log, floor, round, ceil, rand, sum]

theorem mem_all (f : Function) : f ∈ all := by
  cases f <;> decide

/-- The name a function is called by. -/
def name : Function → String
  | sin => "sin"
  | cos => "cos"
  | tan => "tan"
  | cot => "cot"
  | asin => "asin"
  | acos => "acos"
  | atan => "atan"
  | atan2 => "atan2"
  | sqrt => "sqrt"
  | exp => "exp"
  | log => "log"
  | floor => "floor"
  | round => "round"
  | ceil => "ceil"
  | rand => "rand"
  | sum => "sum"

/-- The names of a function's parameters, as a listing shows them. -/
def parameters : Function → String
  | atan2 => "y, x"
  | rand => ""
  | sum => "start, stop, step?"
  | _ => "x"

/-- A function with its parameters. -/
def signature (f : Function) : String :=
  f.name ++ "(" ++ f.parameters ++ ")"

/-- The function called `s`. -/
def named? (s : String) : Option Function :=
  all.find? (·.name == s)

theorem named?_name (f : Function) : named? f.name = some f := by
  cases f <;> decide

end Function

end Calculator
