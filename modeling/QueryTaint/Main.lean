import QueryTaint.Command.Basic
import QueryTaint.Command.Bundle

/-!
# The command line program

Reads a bundle of files from the standard input and runs the command on it.
-/

open QueryTaint

/-- Everything that a stream still holds. -/
partial def readRest (stream : IO.FS.Stream) (before : String) : IO String := do
  let line ← stream.getLine
  if line.isEmpty then return before else readRest stream (before ++ line)

/-- Runs the command on the files that the standard input holds. -/
def main (args : List String) : IO UInt32 := do
  match Command.bundle? "/" (← readRest (← IO.getStdin) "") with
  | none =>
    IO.eprintln "cannot read the files"
    return 1
  | some tree =>
    let outcome := Command.run tree args
    IO.print outcome.output
    IO.eprint outcome.messages
    if let some (path, text) := outcome.written then IO.FS.writeFile path text
    return outcome.exit.toUInt32
