import Calculator.CommandLine

/-!
# The program

Reads what a request needs from the world and writes the answer.
-/

open Calculator CommandLine

/-- What is left to do for work that never ends. -/
def waitForever : IO UInt32 := do
  repeat IO.sleep 1000
  return 0

def main (arguments : List String) : IO UInt32 := do
  let request := Request.ofArguments arguments
  let file ← match request.file? with
    | none => pure none
    | some name =>
      try
        pure (some (← IO.FS.readBinFile name))
      catch _ => pure none
  let seed ← IO.rand 0 (UInt64.size - 1)
  let output := request.answer (.ofSeed (UInt64.ofNat seed)) file
  IO.print output.out
  IO.eprint output.err
  match output.code with
  | some code => return UInt32.ofNat code
  | none => waitForever
