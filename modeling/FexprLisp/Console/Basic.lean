import FexprLisp.Machine.Basic

/-!
# The console

A console collects lines until they can be read completely, and then evaluates what they hold, one
node after the other. It prints the value of each, or what went wrong.

## Main definitions

- `Console` — a machine with the text that is not complete yet
- `Console.answer`, `Console.answerEach` — evaluate a node and print what it leads to, evaluate many
- `Console.feed` — takes a line
- `Console.reset` — forgets the text

## Main statements

- `Console.feed_of_ok`, `Console.feed_of_incomplete`, `Console.feed_of_refused` — what becomes of a
  line

## Design notes

Text that ends too early is kept, and text that is refused is reported and dropped. An error that is
no failure of the language ends the feeding. If it is an error of the reader, the text is kept then;
if a node leads to it, the nodes behind are not evaluated.
-/

namespace FexprLisp

/-- A machine with the text that is not complete yet. -/
structure Console where
  machine : Machine
  buffer : String := ""
deriving DecidableEq, Repr

namespace Console

/-- A console with a new machine, if the host's stack has room for it. -/
def boot? (limit : Int) : Option Console :=
  (Machine.boot? limit).map fun machine => { machine }

/-- Whether there is text that is not complete yet. -/
def isPending (console : Console) : Bool :=
  console.buffer != ""

/-- Prints a line. -/
def print (console : Console) (line : String) : Console :=
  { console with machine := (console.machine.perform (EvalM.print line)).machine }

/-- The line that reports a failure. -/
def errorLine (failure : Failure) : String :=
  "Error: " ++ failure.message

/-- Evaluates a node and prints its value or what went wrong. -/
def answer (m : Machine) (node : Node) : Machine.Outcome EvalError Unit :=
  match m.evaluate node with
  | .ok value m => m.perform (EvalM.print value.inspect)
  | .error error m =>
    match error.failure? with
    | none => .error error m
    | some failure =>
      m.perform do
        EvalM.note (.failed failure)
        EvalM.print (errorLine failure)

/-- Answers nodes in order. -/
def answerEach (m : Machine) : List Node → Machine.Outcome EvalError Unit
  | [] => .ok () m
  | node :: nodes =>
    match answer m node with
    | .ok _ m => answerEach m nodes
    | .error error m => .error error m

/-- Forgets the text that is not complete yet. -/
def reset (console : Console) : Console :=
  { console with buffer := "" }

/-- The console behind nodes that were answered. No text is left then. -/
def answered : Machine.Outcome EvalError Unit → EStateM.Result RunError Console Unit
  | .ok _ machine => .ok () { machine }
  | .error error machine => .error (.eval error) { machine }

/-- Takes a line. -/
def feed (console : Console) (line : String) : EStateM.Result RunError Console Unit :=
  let buffer := console.buffer ++ line ++ "\n"
  match readNodes buffer with
  | .ok nodes => answered (answerEach console.machine nodes)
  | .error error =>
    match error.failure? with
    | none => .error (.read error) { console with buffer }
    | some failure =>
      if error.isIncomplete then .ok () { console with buffer }
      else .ok () (console.reset.print (errorLine failure))

/-- Text that can be read completely is evaluated. -/
theorem feed_of_ok {console : Console} {line : String} {nodes : List Node}
    (h : readNodes (console.buffer ++ line ++ "\n") = .ok nodes) :
    console.feed line = answered (answerEach console.machine nodes) := by
  simp only [feed, h]

/-- Text that ends too early is kept. -/
theorem feed_of_incomplete {console : Console} {line : String} {error : ReadError}
    (h : readNodes (console.buffer ++ line ++ "\n") = .error error)
    (hincomplete : error.isIncomplete = true) :
    console.feed line = .ok () { console with buffer := console.buffer ++ line ++ "\n" } := by
  obtain ⟨failure, hfailure, -⟩ := ReadError.isIncomplete_iff.1 hincomplete
  simp only [feed, h, hfailure, hincomplete, if_true]

/-- Text that is refused is reported and dropped. -/
theorem feed_of_refused {console : Console} {line : String} {error : ReadError} {failure : Failure}
    (h : readNodes (console.buffer ++ line ++ "\n") = .error error)
    (hfailure : error.failure? = some failure) (hincomplete : error.isIncomplete = false) :
    console.feed line = .ok () (console.reset.print (errorLine failure)) := by
  simp [feed, h, hfailure, hincomplete]

end Console

end FexprLisp
