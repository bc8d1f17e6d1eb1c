import FexprLisp.Node.Print
import FexprLisp.Value.Basic

/-!
# Printed values

Two printed forms of a value: a debug form, which the machine prints, and a source form, which
a user would type in where there is such a text.

## Main definitions

- `Value.inspect` — the debug form
- `Value.source` — the source form
- `Value.source?` — the source form of a value whose code has no holes
-/

namespace FexprLisp.Value

/-- The debug form of a value. -/
def inspect : Value → String
  | int value => "Int(" ++ toString value ++ ")"
  | str text => "Str(" ++ Text.quoted text ++ ")"
  | quote node => "Quote(" ++ node.inspect ++ ")"
  | intrinsic name _ => "Intrinsic(" ++ Text.quoted name ++ ")"
  | function params body =>
    "Function([" ++ ", ".intercalate (params.map Text.quoted) ++ "], " ++ body.inspect ++ ")"
  | empty => "Empty"
  | hole => "None"

/-- The source form of a value. -/
def source : Value → String
  | int value => toString value
  | str text => Text.quoted text
  | quote node => "'" ++ node.source
  | intrinsic name _ => "<intrinsic " ++ name ++ ">"
  | function params body => "(fn (" ++ " ".intercalate params ++ ") " ++ body.source ++ ")"
  | empty => ""
  | hole => "None"

/-- The source form of a value; a value that captured code with a hole has none. -/
def source? : Value → Option String
  | quote node => node.source?.map ("'" ++ ·)
  | function params body =>
    body.source?.map fun text => "(fn (" ++ " ".intercalate params ++ ") " ++ text ++ ")"
  | value => some value.source

/-- A row of values between brackets, in debug form. -/
def inspectRow (values : List Value) : String :=
  "[" ++ ", ".intercalate (values.map inspect) ++ "]"

instance : Hashable Value := ⟨fun value => hash value.inspect⟩

end FexprLisp.Value
