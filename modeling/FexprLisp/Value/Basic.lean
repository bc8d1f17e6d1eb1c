import FexprLisp.Node.Basic
import FexprLisp.Value.Primitive

/-!
# Values

What evaluation produces.

## Main definitions

- `Value` — the values
- `Value.truth?` — which values count as true
- `Value.same` — the language's own equality

## Design notes

There is no type of truth values: a number other than zero, a text other than the empty one and
the quoted name `true` count as true. Native operations are compared by the name under which they
were bound, and by nothing else.
-/

namespace FexprLisp

/-- The values of the language. -/
inductive Value where
  | int (value : Int)
  | str (text : String)
  /-- Captured code. -/
  | quote (node : Node)
  /-- A native operation, under the name by which it was bound. -/
  | intrinsic (name : String) (operation : Primitive)
  /-- A function. It captures no scope: its free names are looked up where it is called. -/
  | function (params : List String) (body : Node)
  /-- The result of what has no other result. -/
  | empty
  /-- A place where no value stands. Evaluation never makes one. -/
  | hole
deriving DecidableEq, Inhabited, Repr

namespace Value

/-- Whether a value counts as true. Only a hole is neither true nor false. -/
def truth? : Value → Option Bool
  | int value => some (value != 0)
  | str text => some (text != "")
  | quote node => some (node == .ident "true")
  | intrinsic .. | function .. | empty => some false
  | hole => none

/-- The language's own equality. -/
def same : Value → Value → Bool
  | int a, int b => a == b
  | str a, str b => a == b
  | quote a, quote b => a == b
  | intrinsic a _, intrinsic b _ => a == b
  | function ps a, function qs b => ps == qs && a == b
  | empty, empty => true
  | hole, hole => true
  | _, _ => false

/-- The code inside a value holds no hole, and the value is none itself. -/
def isComplete : Value → Bool
  | quote node => node.isComplete
  | function _ body => body.isComplete
  | hole => false
  | _ => true

end Value

end FexprLisp
