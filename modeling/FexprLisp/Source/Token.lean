/-!
# Tokens

The words of a source text. A token is a lexeme together with the place where it ends.

## Main definitions

- `Lexeme` — the six classes of words
- `Lexeme.text` — the characters of a lexeme
- `Token` — a lexeme and where it ends
- `isSeparator`, `isDelimiter`, `startsName`, `continuesName` — the character classes
-/

namespace FexprLisp

/-- A word of a source text. -/
inductive Lexeme where
  /-- An opening parenthesis. -/
  | lparen
  /-- A closing parenthesis. -/
  | rparen
  /-- A single quote. -/
  | quote
  /-- A string literal, by its raw body, without the quotes around it. -/
  | string (body : String)
  /-- An unsigned integer literal. -/
  | integer (digits : String)
  /-- A name. -/
  | identifier (name : String)
deriving DecidableEq, Repr

namespace Lexeme

/-- The characters of a lexeme. -/
def text : Lexeme → String
  | lparen => "("
  | rparen => ")"
  | quote => "'"
  | string body => "\"" ++ body ++ "\""
  | integer digits => digits
  | identifier name => name

/-- The name of a lexeme's class. -/
def className : Lexeme → String
  | lparen => "lparen"
  | rparen => "rparen"
  | quote => "quote"
  | string _ => "string"
  | integer _ => "integer"
  | identifier _ => "identifier"

end Lexeme

/-- A lexeme and where it ends. -/
structure Token where
  lexeme : Lexeme
  /-- How many characters of the source stand before the end of the lexeme. -/
  stop : Nat
deriving DecidableEq, Repr

/-- Characters that separate lexemes and belong to none. -/
def isSeparator (c : Char) : Bool :=
  c = ' ' || c = '\t' || c = '\r' || c = '\n'

/-- Characters that may directly follow a number or a name. -/
def isDelimiter (c : Char) : Bool :=
  isSeparator c || c = '(' || c = ')' || c = '\x27' || c = '"'

/-- Characters that may start a name. -/
def startsName (c : Char) : Bool :=
  c.isAlpha || c = '+' || c = '-' || c = '*' || c = '/' || c = '_' || c = '=' || c = '!'

/-- Characters that may continue a name. -/
def continuesName (c : Char) : Bool :=
  startsName c || c.isDigit

end FexprLisp
