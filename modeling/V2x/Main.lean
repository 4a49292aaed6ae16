import V2x.CommandLine.Run

/-!
# The program

Hands arguments and input to the command line and prints what it leaves behind.
-/

def main (args : List String) : IO UInt32 := do
  let input ← if V2x.CommandLine.readsInput args then (← IO.getStdin).readToEnd else pure ""
  let output := V2x.CommandLine.run args input
  (← IO.getStderr).putStr output.stderr
  (← IO.getStdout).putStr output.stdout
  return UInt32.ofNat output.code
