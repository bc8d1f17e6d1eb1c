/-!
# Escaped text

A text is written between double quotes. Inside them a backslash, a double quote and a line feed
are escaped; every other character stands for itself.

## Main definitions

- `Text.replaceChar` — a character replaced wherever it stands
- `Text.escape` — the characters written between the quotes
- `Text.quoted` — the whole literal, quotes included
- `Text.unescape` — the text that a literal's body stands for

## Main statements

- `Text.escape_eq_flatMap` — the three replacements write one character after the other
- `Text.unescape_escape` — reading a written body gives the text back
- `Text.unescape_append` — a body is read from left to right
-/

namespace FexprLisp.Text

/-- Why the body of a literal stands for no text. -/
inductive EscapeError where
  /-- A backslash before a character that names no escape. -/
  | unknown (c : Char)
  /-- A backslash with nothing after it. -/
  | dangling
deriving DecidableEq, Repr

/-- Replaces a character wherever it stands. -/
def replaceChar (old : Char) (new text : List Char) : List Char :=
  text.flatMap fun c => if c = old then new else [c]

/-- The body of the literal that stands for a text. The backslashes come first, so that those which
the other two replacements write are left alone. -/
def escape (text : List Char) : List Char :=
  replaceChar '\n' ['\\', 'n'] (replaceChar '"' ['\\', '"'] (replaceChar '\\' ['\\', '\\'] text))

/-- The literal that stands for a text. -/
def quoted (text : String) : String :=
  "\"" ++ String.ofList (escape text.toList) ++ "\""

/-- The character that an escape names. -/
def escapeMeaning (c : Char) : Option Char :=
  if c = '"' then some '"'
  else if c = '\\' then some '\\'
  else if c = 'n' then some '\n'
  else none

/-- The text that a literal's body stands for. -/
def unescape : List Char → Except EscapeError (List Char)
  | [] => .ok []
  | '\\' :: [] => .error .dangling
  | '\\' :: e :: rest =>
    match escapeMeaning e with
    | none => .error (.unknown e)
    | some c => (unescape rest).map (c :: ·)
  | c :: rest => (unescape rest).map (c :: ·)

/-- How one character is written inside a literal. -/
def escapeChar (c : Char) : List Char :=
  if c = '\\' then ['\\', '\\']
  else if c = '"' then ['\\', '"']
  else if c = '\n' then ['\\', 'n']
  else [c]

theorem replaceChar_append (old : Char) (new text more : List Char) :
    replaceChar old new (text ++ more) = replaceChar old new text ++ replaceChar old new more :=
  List.flatMap_append

theorem escape_append (text more : List Char) :
    escape (text ++ more) = escape text ++ escape more := by
  simp only [escape, replaceChar_append]

theorem escape_singleton (c : Char) : escape [c] = escapeChar c := by
  unfold escapeChar
  split
  · next hbackslash =>
    rw [hbackslash]
    rfl
  split
  · next hquote =>
    rw [hquote]
    rfl
  split
  · next hfeed =>
    rw [hfeed]
    rfl
  · next hbackslash hquote hfeed => simp [escape, replaceChar, hbackslash, hquote, hfeed]

@[simp]
theorem escape_nil : escape [] = [] := rfl

@[simp]
theorem escape_cons (c : Char) (text : List Char) :
    escape (c :: text) = escapeChar c ++ escape text := by
  rw [← escape_singleton, ← escape_append, List.singleton_append]

/-- The replacements do not meddle with one another: each character is written on its own. -/
theorem escape_eq_flatMap (text : List Char) : escape text = text.flatMap escapeChar := by
  induction text with
  | nil => rfl
  | cons c text ih => rw [escape_cons, ih, List.flatMap_cons]

/-- A character other than a backslash stands for itself. -/
theorem unescape_cons_of_ne {c : Char} (h : c ≠ '\\') (rest : List Char) :
    unescape (c :: rest) = (unescape rest).map (c :: ·) := by
  rw [unescape.eq_4 c rest (fun h' _ => h h') (fun _ _ h' _ => h h')]

/-- A written character reads back as itself, whatever is written after it. -/
theorem unescape_escapeChar_append (c : Char) (rest : List Char) :
    unescape (escapeChar c ++ rest) = (unescape rest).map (c :: ·) := by
  by_cases backslash : c = '\\'
  · subst backslash
    simp [escapeChar, unescape, escapeMeaning]
  by_cases quote : c = '"'
  · subst quote
    simp [escapeChar, unescape, escapeMeaning]
  by_cases feed : c = '\n'
  · subst feed
    simp [escapeChar, unescape, escapeMeaning]
  · simp [escapeChar, backslash, quote, feed, unescape_cons_of_ne]

/-- Reading a written body gives the text back. -/
theorem unescape_escape (text : List Char) : unescape (escape text) = .ok text := by
  induction text with
  | nil => rfl
  | cons c text ih => simp [unescape_escapeChar_append, ih, Except.map]

theorem ne_backslash {c : Char} {rest : List Char} (hlast : c = '\\' → rest = [] → False)
    (hescape : ∀ e later, c = '\\' → rest = e :: later → False) : c ≠ '\\' := by
  rintro rfl
  cases rest with
  | nil => exact hlast rfl rfl
  | cons e later => exact hescape e later rfl rfl

theorem map_cons_ne_dangling {result : Except EscapeError (List Char)} {c : Char}
    (h : result.map (c :: ·) ≠ .error .dangling) : result ≠ .error .dangling := by
  rintro rfl
  exact h rfl

/-- What follows a body is read on its own, unless the body ends in a lone backslash. -/
theorem unescape_append {body : List Char} (h : unescape body ≠ .error .dangling)
    (more : List Char) :
    unescape (body ++ more) =
      (unescape body).bind fun text => (unescape more).map (text ++ ·) := by
  fun_induction unescape body with
  | case1 => cases hmore : unescape more <;> simp [hmore, Except.bind, Except.map]
  | case2 => exact absurd rfl h
  | case3 e rest hnone => simp [unescape, hnone, Except.bind]
  | case4 e rest c hsome ih =>
    simp only [List.cons_append, unescape, hsome, ih (map_cons_ne_dangling h)]
    cases unescape rest <;> cases unescape more <;> rfl
  | case5 c rest hlast hescape ih =>
    rw [List.cons_append, unescape_cons_of_ne (ne_backslash hlast hescape),
      ih (map_cons_ne_dangling h)]
    cases unescape rest <;> cases unescape more <;> rfl

end FexprLisp.Text
