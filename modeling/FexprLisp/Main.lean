import FexprLisp.Console.Transcript

/-!
# The program

An interactive session on the terminal. Lines come from standard input, answers go to standard
output, and the journal goes to standard error if the settings ask for it.
-/

namespace FexprLisp

/-- Writes what the console printed and logged since the last time. -/
def publish (settings : Settings) (before after : Machine) : IO Unit := do
  IO.print (after.printedSince before.output.size)
  if settings.level.showsDebug then
    IO.eprint (after.logSince before.journal.size)
  (← IO.getStdout).flush

/-- Asks for a line, takes it, and asks again. -/
partial def converse (settings : Settings) (console : Console) : IO Unit := do
  IO.print console.prompt
  (← IO.getStdout).flush
  let line ← (← IO.getStdin).getLine
  let event : Event :=
    if line.isEmpty then .endOfInput else .line (line.dropEndWhile (· == '\n')).copy
  match console.react event with
  | .next next =>
    publish settings console.machine next.machine
    converse settings next
  | .over last error =>
    publish settings console.machine last.machine
    match error with
    | none => pure ()
    | some (.read _) => throw (IO.userError "an integer literal has too many digits")
    | some (.eval _) => throw (IO.userError "a condition is neither true nor false")

end FexprLisp

/-- Starts a session with the settings of the environment. -/
def main : IO Unit := do
  let limit ← IO.getEnv FexprLisp.Settings.limitVariable
  let level ← IO.getEnv FexprLisp.Settings.levelVariable
  let settings := FexprLisp.Settings.ofVariables limit level
  match FexprLisp.Console.boot? settings.limit with
  | none => throw (IO.userError "the limit on nested evaluations is too high for the stack")
  | some console =>
    let console := console.print FexprLisp.Console.greeting
    FexprLisp.publish settings (FexprLisp.Machine.blank settings.limit) console.machine
    FexprLisp.converse settings console
