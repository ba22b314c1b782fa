import TypedHeap.Inspect.CommandLine

/-!
# The program

Prints what `TypedHeap.CommandLine.run` says and exits the way it says.
-/

def main (args : List String) : IO UInt32 := do
  let response := TypedHeap.CommandLine.run args
  IO.print response.stdout
  IO.eprint response.stderr
  return response.code
