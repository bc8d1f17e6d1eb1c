import FexprLisp.Machine.Basic
import FexprLisp.Scope.Handle
import FexprLisp.Scope.Print

/-!
# Scripts

A script drives a machine by commands, reports on each of them, and goes on after those that fail.
Scripts reach what programs cannot: they enter and leave scopes by hand, assign to outer scopes and
drop all frames.

## Main definitions

- `Action` — one operation on a machine
- `Command` — an action, or commands inside a scope of their own
- `Report` — what a command led to
- `Watched` — a machine with handles on the frames of the scopes that commands are inside
- `Command.obey`, `Command.obeyEach` — run commands and report on them

## Design notes

A command inside a scope leaves that scope by popping whatever frame is innermost then. If none
can be popped, that takes the place of every other outcome. What the commands inside print is in
their own reports, and not again in the report on the whole.
-/

namespace FexprLisp

/-- One operation on a machine. -/
inductive Action where
  /-- The value of a variable. -/
  | lookup (name : String)
  /-- The frame that binds a variable. -/
  | owner (name : String)
  /-- Binds a variable anew where it is bound. -/
  | assign (name : String) (value : Value)
  /-- Binds a name in the innermost frame. -/
  | bind (name : String) (value : Value)
  /-- Binds a native operation in the base frame. -/
  | register (name : String) (operation : Primitive)
  /-- Pushes a frame. -/
  | enter
  /-- Pops a frame. -/
  | leave
  /-- Drops all frames. -/
  | clear
  /-- The innermost frame. -/
  | innermost
  /-- The debug form of the scopes. -/
  | inspect
  /-- Evaluates a node. -/
  | evaluate (node : Node)
  /-- Calls a value with raw arguments. -/
  | call (value : Value) (args : List Node)
  /-- Reads and evaluates a text, node by node. -/
  | run (text : String)
  /-- Reads a whole text and then evaluates it. -/
  | runAfterReading (text : String)
  /-- An action that could not be read, and does nothing but fail. -/
  | unread (error : ReadError)
deriving DecidableEq, Repr

/-- What an action that succeeds gives back. -/
inductive Reply where
  | done
  | value (value : Value)
  /-- The number of a frame, counted from the base frame. -/
  | owner (index : Nat)
  | frame (frame : Frame Value)
  | text (text : String)
deriving DecidableEq, Repr

namespace Action

/-- The result of an operation as a reply. -/
def answer {ε α : Type} (blame : ε → RunError) (reply : α → Reply) :
    Machine.Outcome ε α → Machine.Outcome RunError Reply
  | .ok a m => .ok (reply a) m
  | .error error m => .error (blame error) m

/-- A computation on the state, as an operation with a reply. -/
def performed {α : Type} (m : Machine) (reply : α → Reply) (action : EvalM α) :
    Machine.Outcome RunError Reply :=
  answer .eval reply (m.perform action)

/-- Looks at the scopes without changing them. -/
def observed {α : Type} (m : Machine) (reply : α → Reply) :
    Except ScopeError α → Machine.Outcome RunError Reply
  | .ok a => .ok (reply a) m
  | .error error => .error (.eval (.scope error)) m

/-- Carries out an action. -/
def perform (m : Machine) : Action → Machine.Outcome RunError Reply
  | lookup name => performed m .value (EvalM.lookup name)
  | owner name =>
    observed m .owner <|
      match m.scopes.owner? name with
      | some index => .ok index
      | none => .error (.unbound name)
  | assign name value => performed m (fun _ => .done) (EvalM.onScopes (·.assign name value))
  | bind name value => performed m (fun _ => .done) (EvalM.bind name value)
  | register name operation => performed m (fun _ => .done) (EvalM.register name operation)
  | enter => performed m (fun _ => .done) EvalM.enter
  | leave => performed m (fun _ => .done) EvalM.leave
  | clear => .ok .done { m with scopes := .bare }
  | innermost => observed m .frame m.scopes.innermost
  | inspect => .ok (.text m.scopes.inspect) m
  | evaluate node => answer .eval .value (m.evaluate node)
  | call value args => answer .eval .value (m.call value args)
  | run text => answer id .value (m.run text)
  | runAfterReading text => answer id .value (m.runAfterReading text)
  | unread error => .error (.read error) m

end Action

/-- One step of a script. -/
inductive Command where
  | act (action : Action)
  /-- Runs commands in a scope of their own, going on after those that fail, and then at most
  one more, whose outcome becomes that of the whole. -/
  | within (commands : List Command) (last : Option Command)

/-- What a command led to. -/
structure Report where
  result : Except RunError Reply
  /-- What was printed since the report before. -/
  printed : String
  /-- How many frames there are after it. -/
  frames : Nat
  /-- How many evaluations are open after it. -/
  evaluations : Int
  /-- Reports on the commands inside its scope. -/
  inner : List Report := []
  /-- The frame of its scope, as those commands left it. -/
  scope : Option (Frame Value) := none

/-- A machine with handles on the frames of the scopes that commands are inside, innermost first. -/
structure Watched where
  machine : Machine
  handles : List (Handle Value) := []
  /-- How many printed lines have been reported. -/
  reported : Nat := 0

namespace Watched

/-- The handles follow an operation. -/
def update (w : Watched) (m : Machine) : Watched :=
  { w with machine := m, handles := w.handles.map (Handle.follow w.machine.scopes m.scopes) }

/-- Carries out an action. -/
def perform (w : Watched) (action : Action) : Except RunError Reply × Watched :=
  match action.perform w.machine with
  | .ok reply m => (.ok reply, w.update m)
  | .error error m => (.error error, w.update m)

/-- Enters a scope, with a handle on its frame. -/
def enter (w : Watched) : Watched :=
  let w := (w.perform .enter).2
  { w with handles := Handle.ofInnermost w.machine.scopes :: w.handles }

/-- The frame of the scope that was entered last and not left since. -/
def held (w : Watched) : Option (Frame Value) :=
  w.handles.head?.map (Handle.contents w.machine.scopes)

/-- Leaves a scope and gives up the handle on its frame. -/
def leave (w : Watched) : Except RunError Reply × Watched :=
  let (result, w) := w.perform .leave
  (result, { w with handles := w.handles.tail })

/-- The outcome of a command, with the reports on what happened inside its scope and the frame of
that scope. -/
structure Answer where
  result : Except RunError Reply
  inner : List Report := []
  scope : Option (Frame Value) := none

/-- Reports on a command that has just been run. A line that was printed is reported once. -/
def report (w : Watched) (answer : Answer) : Report × Watched :=
  ({ result := answer.result
     printed := w.machine.printedSince w.reported
     frames := w.machine.scopes.depth
     evaluations := w.machine.depth
     inner := answer.inner
     scope := answer.scope },
    { w with reported := w.machine.output.size })

end Watched

namespace Command

mutual

/-- Runs a command without reporting on it. -/
def carryOut (w : Watched) : Command → Watched.Answer × Watched
  | .act action =>
    let (result, w) := w.perform action
    ({ result }, w)
  | .within commands last =>
    let (inner, w) := obeyEach w.enter commands
    let scope := w.held
    let (result, w) := carryOutLast w last
    let (left, w) := w.leave
    match left with
    | .ok _ => ({ result, inner, scope }, w)
    | .error error => ({ result := .error error, inner, scope }, w)

/-- Runs at most one command without reporting on it. -/
def carryOutLast (w : Watched) : Option Command → Except RunError Reply × Watched
  | none => (.ok .done, w)
  | some command =>
    let (answer, w) := carryOut w command
    (answer.result, w)

/-- Runs commands one after the other and reports on each. -/
def obeyEach (w : Watched) : List Command → List Report × Watched
  | [] => ([], w)
  | command :: commands =>
    let (answer, w) := carryOut w command
    let (report, w) := w.report answer
    let (reports, w) := obeyEach w commands
    (report :: reports, w)

end

/-- Runs a command and reports on it. -/
def obey (w : Watched) (command : Command) : Report × Watched :=
  let (answer, w) := carryOut w command
  w.report answer

end Command

end FexprLisp
