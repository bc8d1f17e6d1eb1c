import FexprLisp.Source.Error
import FexprLisp.Source.Token

/-!
# Scanning

Turns a text into tokens, one character at a time. Lexemes are as long as possible. A number or
a name must be followed by a delimiter or the end of the text; parentheses, quotes and strings
may touch anything.

## Main definitions

- `Mode` — what the characters read so far leave open
- `Mode.next` — one character
- `Mode.finish` — the end of the text
- `Scanned` — the tokens, and the fault that ends them early
- `scan`, `scanAfter` — a whole text, and what follows its first characters

## Design notes

The scanner never looks ahead and never goes back, so a fault depends only on the characters up
to it. A string literal may hold any character except that a backslash must not stand before a
line feed. Such a literal is spoiled, but it is refused only where it closes: while it is open
it counts as unterminated.
-/

namespace FexprLisp

/-- What the characters read so far leave open. Characters of an open lexeme are kept in reverse. -/
inductive Mode where
  /-- Between lexemes. -/
  | gap
  /-- Inside a number. -/
  | number (read : List Char)
  /-- Inside a name. -/
  | name (read : List Char)
  /-- Inside a string literal whose opening quote stands at `start`. The flag `escaping` says that
  the last character was a backslash that escapes the next one, and `spoiled` that an escaped line
  feed was met. -/
  | string (start : Nat) (read : List Char) (escaping spoiled : Bool)
deriving DecidableEq, Repr

/-- What one character leads to: a fault, or finished tokens and the mode after them. -/
abbrev Mode.Step := Except ReadError (List Token × Mode)

/-- A character that stands between lexemes, at the given position. -/
def Mode.start (position : Nat) (c : Char) : Mode.Step :=
  if isSeparator c then .ok ([], .gap)
  else if c = '(' then .ok ([⟨.lparen, position + 1⟩], .gap)
  else if c = ')' then .ok ([⟨.rparen, position + 1⟩], .gap)
  else if c = '\x27' then .ok ([⟨.quote, position + 1⟩], .gap)
  else if c = '"' then .ok ([], .string position [] false false)
  else if c.isDigit then .ok ([], .number [c])
  else if startsName c then .ok ([], .name [c])
  else .error (.unexpectedChar position c)

/-- A character that ends a number or a name, and starts whatever comes next. -/
def Mode.endWord (lexeme : Lexeme) (position : Nat) (c : Char) : Mode.Step :=
  if isDelimiter c then
    (Mode.start position c).map fun (tokens, mode) => (⟨lexeme, position⟩ :: tokens, mode)
  else .error (.unexpectedChar position c)

/-- One character, at the given position. -/
def Mode.next (position : Nat) (c : Char) : Mode → Mode.Step
  | .gap => Mode.start position c
  | .number read =>
    if c.isDigit then .ok ([], .number (c :: read))
    else Mode.endWord (.integer (String.ofList read.reverse)) position c
  | .name read =>
    if continuesName c then .ok ([], .name (c :: read))
    else Mode.endWord (.identifier (String.ofList read.reverse)) position c
  | .string start read true spoiled =>
    .ok ([], .string start (c :: read) false (spoiled || c = '\n'))
  | .string start read false spoiled =>
    if c = '\\' then .ok ([], .string start (c :: read) true spoiled)
    else if c = '"' then
      if spoiled then .error (.unexpectedChar start '"')
      else .ok ([⟨.string (String.ofList read.reverse), position + 1⟩], .gap)
    else .ok ([], .string start (c :: read) false spoiled)

/-- The tokens of a text, and the fault that ends them early. -/
structure Scanned where
  tokens : List Token
  fault : Option ReadError
deriving DecidableEq, Repr

/-- The end of the text, at the given position. -/
def Mode.finish (position : Nat) : Mode → Scanned
  | .gap => ⟨[], none⟩
  | .number read => ⟨[⟨.integer (String.ofList read.reverse), position⟩], none⟩
  | .name read => ⟨[⟨.identifier (String.ofList read.reverse), position⟩], none⟩
  | .string .. => ⟨[], some .unterminatedString⟩

/-- The rest of a text, from the given position on. -/
def Mode.scan (mode : Mode) (position : Nat) : List Char → Scanned
  | [] => mode.finish position
  | c :: rest =>
    match mode.next position c with
    | .error fault => ⟨[], some fault⟩
    | .ok (tokens, mode) =>
      let later := Mode.scan mode (position + 1) rest
      ⟨tokens ++ later.tokens, later.fault⟩

/-- The tokens of a text after its first `start` characters. Positions still count from the
beginning of the text. -/
def scanAfter (start : Nat) (text : String) : Scanned :=
  Mode.gap.scan start (text.toList.drop start)

/-- The tokens of a text. -/
def scan (text : String) : Scanned :=
  scanAfter 0 text

end FexprLisp
