import FexprLisp.Source.Scan

/-!
# Scanning from a place

A text may be scanned from a place inside it. The place is how many characters come before it, or
as a negative number how far it is back from the end.

## Main definitions

- `StartError` — why a text cannot be scanned from a place
- `scanFrom` — the tokens from a place on

## Main statements

- `scanFrom_natCast` — from a place that is given by the characters before it, scanning always starts

## Design notes

A place back from the end only says where to look first. Separators are skipped from there up to
the end of the text. If nothing else stands there the text is scanned from its beginning. If
something does, a lexeme must open the text, and then too the text is scanned from its beginning;
otherwise what stands there is out of place.
-/

namespace FexprLisp

/-- Why a text cannot be scanned from a place. -/
inductive StartError where
  /-- The place lies before the beginning of the text. -/
  | outside
  /-- A character out of place, so far back from the end. -/
  | unexpectedChar (back : Nat) (c : Char)
deriving DecidableEq, Repr

/-- What a user is told; that a place lies outside the text is no failure of the language. -/
def StartError.failure? : StartError → Option Failure
  | outside => none
  | unexpectedChar back c =>
    some {
      kind := .unreadable
      text := "Unexpected char at -" ++ toString back ++ ": " ++ Text.shownChar c }

/-- Characters that open a lexeme other than a string literal. -/
def opensPlainLexeme (c : Char) : Bool :=
  c = '(' || c = ')' || c = '\x27' || c.isDigit || startsName c

/-- Whether a text that starts with a character and is scanned in a way may be scanned when
another character was met first: a lexeme opens it, or both characters open a string literal that
never closes. -/
def opensText (first : Char) (scanned : Scanned) (met : Char) : Bool :=
  if first = '"' then
    scanned.tokens != [] || (met = '"' && scanned.fault == some .unterminatedString)
  else opensPlainLexeme first

/-- The tokens of a text when scanning looks at its last `back` characters first. -/
def scanBack (back : Nat) (text : String) : Except StartError Scanned :=
  if text.length < back then .error .outside
  else
    match (text.toList.drop (text.length - back)).dropWhile isSeparator with
    | [] => .ok (scan text)
    | met :: rest =>
      if (text.toList.head?.map (opensText · (scan text) met)).getD false then .ok (scan text)
      else .error (.unexpectedChar (rest.length + 1) met)

/-- The tokens of a text from a place on. Positions always count from the beginning of the text. -/
def scanFrom (start : Int) (text : String) : Except StartError Scanned :=
  match start with
  | .ofNat start => .ok (scanAfter start text)
  | .negSucc back => scanBack (back + 1) text

/-- From a place that is given by the characters before it, scanning always starts. -/
theorem scanFrom_natCast (start : Nat) (text : String) :
    scanFrom start text = .ok (scanAfter start text) := rfl

end FexprLisp
