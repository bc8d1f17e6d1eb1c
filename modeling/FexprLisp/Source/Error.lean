import FexprLisp.Failure
import FexprLisp.Text.Escape
import FexprLisp.Text.Shown

/-!
# Reading errors

Why a text cannot be read, one constructor for each cause.

## Main definitions

- `maxNesting` — how deep lists and quotations may nest
- `ReadError` — the causes
- `ReadError.failure?` — what a user is told; two causes are no failures of the language
- `ReadError.isIncomplete` — the text only ends too early

## Main statements

- `ReadError.isIncomplete_iff` — the texts that end too early are those reported as incomplete

## Design notes

A literal with too many digits is refused before its value is known, and a body that ends in a
lone backslash stands for no text. These two have no failure kind: nothing that handles failures
handles them. The second never comes from a scanned literal.
-/

namespace FexprLisp

/-- How deep lists and quotations may nest. -/
def maxNesting : Nat := 256

/-- Why a text cannot be read. -/
inductive ReadError where
  /-- A character that starts no lexeme, or that touches the end of a number or a name. -/
  | unexpectedChar (position : Nat) (c : Char)
  /-- The text ends inside a string literal. -/
  | unterminatedString
  /-- The body of a string literal stands for no text. -/
  | badEscape (error : Text.EscapeError)
  /-- An integer literal with too many digits. -/
  | tooManyDigits
  /-- An integer literal above 2³¹ - 1. -/
  | tooLarge (digits : String)
  /-- A closing parenthesis where a node should start. -/
  | unexpectedClose
  /-- A list without items. -/
  | emptyList
  /-- Lists and quotations nested deeper than `maxNesting`. -/
  | tooDeep
  /-- The text ends inside a list. -/
  | unmatchedOpen
  /-- The text ends where a token is needed. -/
  | unexpectedEnd
  /-- The text holds no node. -/
  | noExpression
deriving DecidableEq, Repr

namespace ReadError

/-- What a user is told. -/
def failure? : ReadError → Option Failure
  | unexpectedChar position c =>
    refused ("Unexpected char at " ++ toString position ++ ": " ++ Text.shownChar c)
  | unterminatedString => ended "Unterminated string literal"
  | badEscape (.unknown c) =>
    refused ("Unknown escape sequence \\" ++ String.ofList [c] ++ " in string literal")
  | badEscape .dangling => none
  | tooManyDigits => none
  | tooLarge digits => refused ("Integer literal " ++ digits ++ " does not fit in 32 bits")
  | unexpectedClose => refused "Unexpected token ')'"
  | emptyList => refused "Empty list"
  | tooDeep => refused ("Nesting deeper than " ++ toString maxNesting ++ " levels")
  | unmatchedOpen => ended "Unmatched '('"
  | unexpectedEnd => ended "Unexpected end of input"
  | noExpression => ended "No expression in input"
where
  /-- The text is refused, whatever might follow it. -/
  refused (text : String) : Option Failure := some { kind := .unreadable, text }
  /-- The text ends too early. -/
  ended (text : String) : Option Failure := some { kind := .incomplete, text }

/-- The text only ends too early: more of it might complete a node. -/
def isIncomplete : ReadError → Bool
  | unterminatedString | unmatchedOpen | unexpectedEnd | noExpression => true
  | _ => false

/-- An error says that the text ends too early exactly when it is told as such. -/
theorem isIncomplete_iff {error : ReadError} :
    error.isIncomplete = true ↔ ∃ failure, error.failure? = some failure ∧
      failure.kind = .incomplete := by
  rcases error with _ | _ | (_ | _) | _ | _ | _ | _ | _ | _ | _ | _ <;>
    simp [isIncomplete, failure?, failure?.refused, failure?.ended]

end ReadError

end FexprLisp
