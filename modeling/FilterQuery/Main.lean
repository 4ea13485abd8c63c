import FilterQuery.Command

/-!
# The program

Reads the standard input if the command needs it, runs the command, and writes its texts.
-/

open FilterQuery

/-- The bytes of the standard input, if it is no terminal. -/
def readStandardInput : IO (Option ByteArray) := do
  let input ← IO.getStdin
  if ← input.isTty then return none
  return some (← input.readBinToEnd)

/-- The program. -/
def main (args : List String) : IO UInt32 := do
  let needed := (Command.ofArguments? args).any Command.needsInput
  let input ← if needed then readStandardInput else pure none
  let outcome := Command.runArguments args input
  (← IO.getStdout).putStr outcome.output
  (← IO.getStderr).putStr outcome.errors
  return outcome.exitCode.toUInt32
