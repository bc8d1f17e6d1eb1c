/-!
# Failures

What a user is told when reading or evaluating fails: a kind, a text and, for a missing variable,
its name. The message is the kind's lead followed by the text.

## Main definitions

- `FailureKind` — the kinds, with the label under which each is reported
- `FailureKind.ancestry` — a kind and the wider kinds that it belongs to
- `Failure` — a kind with its text
- `Failure.message` — the line that a user sees
-/

namespace FexprLisp

/-- The kinds of failure. -/
inductive FailureKind where
  /-- Any failure; every other kind is one. -/
  | general
  /-- A value of the wrong sort, or something that cannot be called. -/
  | mistyped
  /-- A form with the wrong number or shape of arguments. -/
  | malformed
  /-- The scope stack would lose its base frame, or has none. -/
  | underflow
  /-- A variable that no frame binds. -/
  | unbound
  /-- Division by zero, overflow, or evaluation nested too deeply. -/
  | runtime
  /-- Text that the reader refuses. -/
  | unreadable
  /-- Text that ends before a node is complete. -/
  | incomplete
deriving DecidableEq, Repr

namespace FailureKind

/-- The label under which a kind is reported. -/
def label : FailureKind → String
  | general => "FexlError"
  | mistyped => "FexlTypeError"
  | malformed => "FexlSyntaxError"
  | underflow => "FexlStackEmpty"
  | unbound => "FexlVariableNotFound"
  | runtime => "FexlRuntimeError"
  | unreadable => "FexlParseError"
  | incomplete => "FexlIncompleteInput"

/-- The words that open a message of a kind. -/
def lead : FailureKind → String
  | mistyped => "Type error: "
  | malformed => "Syntax error: "
  | runtime => "Runtime error: "
  | unreadable | incomplete => "Parse error: "
  | general | underflow | unbound => ""

/-- A kind and the wider kinds that it belongs to, narrowest first. -/
def ancestry : FailureKind → List FailureKind
  | general => [general]
  | unreadable => [unreadable, malformed, general]
  | incomplete => [incomplete, unreadable, malformed, general]
  | kind => [kind, general]

/-- All kinds. -/
def all : List FailureKind :=
  [general, mistyped, malformed, underflow, unbound, runtime, unreadable, incomplete]

/-- The kind reported under a label. -/
def ofLabel? (label : String) : Option FailureKind :=
  all.find? (·.label == label)

end FailureKind

/-- A failure as a user is told of it. -/
structure Failure where
  kind : FailureKind
  /-- The text behind the kind's lead. -/
  text : String
  /-- The variable that is missing, if one is. -/
  name : Option String := none
deriving DecidableEq, Repr

namespace Failure

/-- The failure to find a variable. -/
def missing (name : String) : Failure :=
  { kind := .unbound, text := "Variable " ++ name ++ " is not in scope.", name := some name }

/-- An underflow of the scope stack. -/
def underflow : Failure :=
  { kind := .underflow, text := "Stack underflowed." }

/-- A failure of a kind from its detail: the name of a missing variable, or the text itself. Without
a detail an underflow has its usual text and any other text is empty, but a variable that is missing
must be named. -/
def ofDetail? : FailureKind → Option String → Option Failure
  | .unbound, detail => detail.map missing
  | .underflow, none => some underflow
  | kind, detail => some { kind, text := detail.getD "" }

/-- The line that a user sees. -/
def message (failure : Failure) : String :=
  failure.kind.lead ++ failure.text

end Failure

end FexprLisp
