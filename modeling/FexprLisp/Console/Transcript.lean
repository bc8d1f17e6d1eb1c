import FexprLisp.Console.Basic
import FexprLisp.Settings

/-!
# Conversations at the console

The console asks for a line, takes it, and asks again, until there is no more input. A conversation
is fixed by what happens at each prompt.

## Main definitions

- `Event` — what may happen at a prompt
- `Console.react` — what the console does about it
- `Transcript` — the prompts, what was printed, and what was logged
- `Console.converse` — a whole conversation
-/

namespace FexprLisp

/-- What may happen at a prompt. -/
inductive Event where
  | line (text : String)
  | interrupt
  | endOfInput
deriving DecidableEq, Repr

/-- What happens after an event: the console asks again, or the conversation is over. -/
inductive Console.Turn where
  | next (console : Console)
  | over (console : Console) (error : Option RunError)

namespace Console

/-- The line that opens a conversation. -/
def greeting : String := "fexl repl - Ctrl-D to exit"

/-- The prompt. -/
def prompt (console : Console) : String :=
  if console.isPending then "....  " else "fexl> "

/-- What the console does about an event. -/
def react (console : Console) : Event → Turn
  | .endOfInput => .over (console.print "") none
  | .interrupt => .next (console.reset.print "KeyboardInterrupt")
  | .line text =>
    match console.feed text with
    | .ok _ console => .next console
    | .error error console => .over console (some error)

/-- The prompts of a conversation, and the console and the error at its end. Behind the events
the input ends. -/
def attend (console : Console) : List Event → List String × Console × Option RunError
  | [] => ([console.prompt], console.print "", none)
  | event :: events =>
    match console.react event with
    | .over last error => ([console.prompt], last, error)
    | .next next =>
      let (prompts, rest) := attend next events
      (console.prompt :: prompts, rest)

end Console

/-- What ends a conversation early, or keeps it from starting. -/
inductive Abort where
  /-- The host's stack has no room for the machine. -/
  | noRoom
  /-- A line led to an error that is no failure of the language. -/
  | run (error : RunError)
deriving DecidableEq, Repr

/-- What is left of a conversation. -/
structure Transcript where
  prompts : List String := []
  /-- Everything that was printed. -/
  printed : String := ""
  /-- Everything that was logged. -/
  log : String := ""
  /-- What ended the conversation early. -/
  abort : Option Abort := none
deriving DecidableEq, Repr

/-- The journal of a machine as lines of a log, from the given entry on. -/
def Machine.logSince (m : Machine) (count : Nat) : String :=
  String.join ((m.journal.toList.drop count).map (·.line ++ "\n"))

/-- The conversation that events lead to. -/
def Console.converse (settings : Settings) (events : List Event) : Transcript :=
  match Console.boot? settings.limit with
  | none => { abort := some .noRoom }
  | some console =>
    let (prompts, console, error) := (console.print greeting).attend events
    { prompts
      printed := console.machine.printedSince 0
      log := if settings.level.showsDebug then console.machine.logSince 0 else ""
      abort := error.map .run }

end FexprLisp
