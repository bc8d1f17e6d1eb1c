import FexprLisp.Text.Unprintable

/-!
# Texts shown in diagnostics

A diagnostic shows a character or a text between quotes, so that it can be told from the words
around it. Characters without a visible form are shown by their code point.

## Main definitions

- `Text.shown` — a text between quotes
- `Text.shownChar` — a single character between quotes
- `Text.shownTuple` — several texts in one pair of parentheses

## Design notes

Single quotes are preferred. Double quotes are taken when the text holds a single quote and no
double quote, since then nothing inside needs a backslash.
-/

namespace FexprLisp.Text

/-- The lower-case hexadecimal digits of a number, padded with zeros to a width. -/
def hexPadded (width n : Nat) : List Char :=
  let digits := Nat.toDigits 16 n
  List.replicate (width - digits.length) '0' ++ digits

/-- A code point behind the shortest of three markers that has room for it. -/
def codePointEscape (n : Nat) : List Char :=
  if n < 0x100 then '\\' :: 'x' :: hexPadded 2 n
  else if n < 0x10000 then '\\' :: 'u' :: hexPadded 4 n
  else '\\' :: 'U' :: hexPadded 8 n

/-- How one character appears between the given quotes. -/
def showChar (mark c : Char) : List Char :=
  if c = '\\' then ['\\', '\\']
  else if c = mark then ['\\', mark]
  else if c = '\t' then ['\\', 't']
  else if c = '\n' then ['\\', 'n']
  else if c = '\r' then ['\\', 'r']
  else if isPrintable c then [c]
  else codePointEscape c.toNat

/-- The quotes that go around a text. -/
def quoteMark (text : List Char) : Char :=
  if '\x27' ∈ text ∧ '"' ∉ text then '"' else '\x27'

/-- A text between quotes. -/
def shown (text : String) : String :=
  let mark := quoteMark text.toList
  String.ofList (mark :: (text.toList.flatMap (showChar mark) ++ [mark]))

/-- A single character between quotes. -/
def shownChar (c : Char) : String :=
  shown (String.ofList [c])

/-- Several texts in parentheses; one text alone is followed by a comma. -/
def shownTuple : List String → String
  | [text] => "(" ++ shown text ++ ",)"
  | texts => "(" ++ ", ".intercalate (texts.map shown) ++ ")"

end FexprLisp.Text
