/-!
# Native operations

The operations that a machine knows from the start. Each is called with raw argument nodes and
decides by itself which of them to evaluate.

## Main definitions

- `Arith` — the arithmetic operations
- `Primitive` — all native operations
- `Primitive.standard` — those that a new machine binds, in order
-/

namespace FexprLisp

/-- The arithmetic operations. -/
inductive Arith where
  | add
  | sub
  | mul
  | div
  | mod
deriving DecidableEq, Repr

/-- The name of an arithmetic operation. -/
def Arith.name : Arith → String
  | add => "+"
  | sub => "-"
  | mul => "*"
  | div => "/"
  | mod => "mod"

/-- The native operations. -/
inductive Primitive where
  /-- Binds names to values in the innermost frame. -/
  | define
  /-- Captures its argument. -/
  | quote
  /-- Evaluates captured code. -/
  | unquote
  /-- Evaluates its arguments one after the other. -/
  | sequence
  /-- Evaluates one of two arguments. -/
  | branch
  /-- Makes a function. -/
  | lambda
  /-- Prints values. -/
  | trace
  /-- Computes with two integers. -/
  | arith (op : Arith)
  /-- Compares two values. -/
  | equal
  /-- Compares two values, and says the opposite. -/
  | differ
  /-- Captures all its arguments in one list. No machine binds it from the start. -/
  | capture
deriving DecidableEq, Repr

namespace Primitive

/-- The name of a native operation, under which a new machine binds it. -/
def name : Primitive → String
  | define => "let"
  | quote => "quote"
  | unquote => "unquote"
  | sequence => "do"
  | branch => "if"
  | lambda => "fn"
  | trace => "debug"
  | arith op => op.name
  | equal => "="
  | differ => "!="
  | capture => "record"

/-- The operations that a new machine binds, in order. -/
def standard : List Primitive :=
  [define, quote, unquote, sequence, branch, lambda, trace, arith .add, arith .sub, arith .mul,
    arith .div, arith .mod, equal, differ]

/-- The native operation of a name. -/
def ofName? (name : String) : Option Primitive :=
  (capture :: standard).find? (·.name == name)

end Primitive

end FexprLisp
