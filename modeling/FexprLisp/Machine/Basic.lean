import FexprLisp.Eval.Evaluate
import FexprLisp.HostStack
import FexprLisp.Source.Cursor

/-!
# Machines

A machine is a state that lasts from one evaluation to the next. What was bound at top level stays
bound, also after an evaluation that failed.

## Main definitions

- `Machine` — a state that lasts
- `Machine.boot`, `Machine.boot?` — a new machine with the standard operations bound, and the same on
  a host that may not have the stack for it
- `Machine.evaluate`, `Machine.call` — evaluate a node, call a value
- `Machine.run` — reads and evaluates a text, node by node
- `Machine.runAfterReading` — reads a whole text and then evaluates it
-/

namespace FexprLisp

/-- A state that lasts. -/
abbrev Machine := State

/-- Why a text could not be run: it could not be read, or not be evaluated. -/
inductive RunError where
  | read (error : ReadError)
  | eval (error : EvalError)
deriving DecidableEq, Repr

/-- What a user is told, if anything. -/
def RunError.failure? : RunError → Option Failure
  | read error => error.failure?
  | eval error => error.failure?

namespace Machine

/-- What an operation of a machine leads to: a result or an error, and the machine after it. -/
abbrev Outcome (ε α : Type) := EStateM.Result ε Machine α

/-- The machine after an operation, whatever else the operation led to. -/
def Outcome.machine {ε α : Type} : Outcome ε α → Machine
  | .ok _ m => m
  | .error _ m => m

@[simp]
theorem Outcome.machine_ok {ε α : Type} (a : α) (m : Machine) :
    Outcome.machine (.ok a m : Outcome ε α) = m := rfl

@[simp]
theorem Outcome.machine_error {ε α : Type} (error : ε) (m : Machine) :
    Outcome.machine (.error error m : Outcome ε α) = m := rfl

/-- A machine with an empty base frame. -/
def blank (limit : Int) : Machine :=
  { scopes := .initial, limit }

/-- Runs a computation on the state. -/
def perform {α : Type} (m : Machine) (action : EvalM α) : Outcome EvalError α :=
  action m

/-- Binds native operations in the base frame, each under its own name. -/
def registerEach : List Primitive → EvalM Unit
  | [] => pure ()
  | operation :: operations => do
    EvalM.register operation.name operation
    registerEach operations

/-- A machine with the standard operations bound. -/
def standard (limit : Int) : Machine :=
  ((blank limit).perform (registerEach Primitive.standard)).machine

/-- A new machine with the standard operations bound, which records that it is ready. -/
def boot (limit : Int) : Machine :=
  ((standard limit).perform (EvalM.note (.ready Primitive.standard.length))).machine

/-- A new machine, if the host's stack has room for evaluations up to the limit. -/
def boot? (limit : Int) : Option Machine :=
  if HostStack.supports limit then some (boot limit) else none

/-- Evaluates a node. -/
def evaluate (m : Machine) (node : Node) : Outcome EvalError Value :=
  m.perform (FexprLisp.evaluate node)

/-- Calls a value with raw arguments. -/
def call (m : Machine) (value : Value) (args : List Node) : Outcome EvalError Value :=
  m.perform (callValue FexprLisp.evaluate value args)

/-- Evaluates each node as soon as it has been read. The last value is the result. -/
def runFrom (m : Machine) (last : Value) (c : Cursor) : Outcome RunError Value :=
  match _ : c.readNode with
  | .ok none _ => .ok last m
  | .error error _ => .error (.read error) m
  | .ok (some node) c' =>
    match m.evaluate node with
    | .ok value m => runFrom m value c'
    | .error error m => .error (.eval error) m
termination_by c.pending.length
decreasing_by exact Cursor.pending_readNode_lt (by assumption)

/-- Reads and evaluates a text, node by node. The last value is the result. -/
def run (m : Machine) (text : String) : Outcome RunError Value :=
  m.runFrom .empty (Cursor.ofText text)

/-- Evaluates nodes in order. The last value is the result. -/
def evaluateEach (m : Machine) (last : Value) : List Node → Outcome EvalError Value
  | [] => .ok last m
  | node :: nodes =>
    match m.evaluate node with
    | .ok value m => evaluateEach m value nodes
    | .error error m => .error error m

/-- Reads a whole text and then evaluates its nodes in order. -/
def runAfterReading (m : Machine) (text : String) : Outcome RunError Value :=
  match readNodes text with
  | .error error => .error (.read error) m
  | .ok nodes =>
    match m.evaluateEach .empty nodes with
    | .ok value m => .ok value m
    | .error error m => .error (.eval error) m

/-- The lines printed since there were only so many, each with its line feed. -/
def printedSince (m : Machine) (count : Nat) : String :=
  String.join ((m.output.toList.drop count).map (· ++ "\n"))

end Machine

end FexprLisp
