import LaxJson.Cli
/-
# Entry point

Reads a document from standard input and prints what the command line prints. When it stops
early, the reason goes to standard error and the exit code is 1.
-/

set_option autoImplicit false
namespace LaxJson

/-- Reads the rest of a stream. -/
partial def readStream (stream : IO.FS.Stream) (acc : String) : IO String := do
  let line ← stream.getLine
  if line.isEmpty then return acc else readStream stream (acc ++ line)

end LaxJson

open LaxJson in
/-- Runs the command line on standard input. -/
def main : IO UInt32 := do
  let input ← readStream (← IO.getStdin) ""
  let t := Transcript.ofInput input
  IO.print t.stdout
  match t.abort with
  | none => return 0
  | some a =>
    IO.eprintln ("error: " ++ a.message)
    return 1
