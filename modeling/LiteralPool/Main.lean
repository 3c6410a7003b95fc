import LiteralPool.Run

/-!
# The command

The machine on which the program runs as a host, and the entry point.
-/

namespace LiteralPool

/-- The machine's own files, standard streams and environment. It has no subscriber to the events
of a run. -/
def machine : Host IO where
  filter := IO.getEnv "CONSTPOOL_TRACE"
  subscribe _ := return ()
  notify _ := return ()
  read p := do
    try return some (← IO.FS.readFile p.text)
    catch _ => return none
  sameFile p q := do
    try return (← IO.FS.realPath p.text) == (← IO.FS.realPath q.text)
    catch _ => return false
  print text := do
    let stdout ← IO.getStdout
    stdout.putStr text
    stdout.flush
  complain text := do (← IO.getStderr).putStr text
  create p text := do
    try
      IO.FS.writeFile p.text text
      return true
    catch _ => return false

end LiteralPool

/-- Runs the command and gives its exit code. -/
def main (arguments : List String) : IO UInt32 := do
  match ← LiteralPool.machine.run arguments with
  | .exit code => return code.toUInt32
  | .crash e =>
    LiteralPool.machine.complain (e.message ++ "\n")
    return 101
