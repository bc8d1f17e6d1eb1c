import FexprLisp.Eval.Error
import FexprLisp.Text.Shown

/-!
# The journal

What a machine records about its own work, beside what it prints.

## Main definitions

- `Entry` — one record
- `Entry.line` — its line in the log
-/

namespace FexprLisp

/-- One record of a machine's work. -/
inductive Entry where
  /-- A native operation was bound in the base frame. -/
  | registered (name : String)
  /-- A machine is ready, with so many names bound. -/
  | ready (count : Nat)
  /-- A scope was entered; the depth is the one after it. -/
  | entered (depth : Nat)
  /-- A scope was left; the depth is the one after it. -/
  | left (depth : Nat)
  /-- A function is about to be called with these values. -/
  | applied (params : List String) (values : List Value)
  /-- The console caught a failure. -/
  | failed (failure : Failure)
deriving DecidableEq, Repr

namespace Entry

/-- The part of the machine that an entry comes from. -/
def channel : Entry → String
  | registered _ | entered _ | left _ => "fexl.types.ns_stack"
  | ready _ => "fexl.interpreter"
  | applied .. => "fexl.evaluation.apply"
  | failed _ => "fexl.repl"

/-- What an entry says. -/
def message : Entry → String
  | registered name => "registered intrinsic " ++ name
  | ready count => "runtime ready with " ++ toString count ++ " intrinsics"
  | entered depth => "enter scope, depth=" ++ toString depth
  | left depth => "exit scope, depth=" ++ toString depth
  | applied params values =>
    "apply " ++ Text.shownTuple params ++ " to " ++ Value.inspectRow values
  | failed failure =>
    "evaluation failed: " ++ failure.kind.label ++ "(" ++ Text.shown failure.text ++ ")"

/-- The line of an entry in the log. Every entry is of the lowest severity. -/
def line (entry : Entry) : String :=
  "DEBUG " ++ entry.channel ++ ": " ++ entry.message

end Entry

end FexprLisp
