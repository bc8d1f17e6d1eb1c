import FexprLisp.Proofs.Source.Malformed

/-!
# Texts one behind the other

Behind a text that was read completely and a separator, another text is read as if it stood alone.
Only the places that errors name are counted from the beginning of the whole.

## Main definitions

- `ReadError.shift`, `Scanned.shift` — further to the right in a text
- `Mode.shift` — the same for what is open while a text is scanned
- `ReadError.isFault` — an error that the scanner met

## Main statements

- `Mode.scan_shift` — scanning does not depend on what stands before
- `Mode.exists_next_of_isSeparator` — a separator ends every word, and no literal
- `readNodes_append_separated` — a text behind one that is read completely
- `readNodes_append_separator` — a separator behind a text changes nothing
- `readNodes_append_of_refused` — nor does anything behind a text that is refused
- `reading_concatenates` — what is read of texts with a separator between them
-/

namespace FexprLisp

def ReadError.shift (offset : Nat) : ReadError → ReadError
  | .unexpectedChar position c => .unexpectedChar (position + offset) c
  | error => error

/-- Only a character that is out of place is told of with its place. -/
theorem ReadError.shift_eq_self {error : ReadError}
    (h : ∀ position c, error ≠ .unexpectedChar position c) (offset : Nat) :
    error.shift offset = error := by
  cases error with
  | unexpectedChar position c => exact absurd rfl (h position c)
  | _ => rfl

/-- Whether the scanner met an error, and not the reader. -/
def ReadError.isFault : ReadError → Bool
  | .unexpectedChar .. | .unterminatedString => true
  | _ => false

def Token.shift (offset : Nat) (token : Token) : Token :=
  { token with stop := token.stop + offset }

def Scanned.shift (offset : Nat) (scanned : Scanned) : Scanned where
  tokens := scanned.tokens.map (Token.shift offset)
  fault := scanned.fault.map (ReadError.shift offset)

theorem Scanned.shift_prepend (offset : Nat) (tokens : List Token) (scanned : Scanned) :
    (scanned.prepend tokens).shift offset =
      (scanned.shift offset).prepend (tokens.map (Token.shift offset)) := by
  simp [shift, prepend]

theorem lexemesOf_shift (offset : Nat) (tokens : List Token) :
    lexemesOf (tokens.map (Token.shift offset)) = lexemesOf tokens := by
  simp only [lexemesOf, List.map_map]
  rfl

-- ════════════════════════════════════════════════════════════════════════
-- Scanning does not depend on what stands before
-- ════════════════════════════════════════════════════════════════════════

namespace Mode

/-- Only an open literal remembers a place, that of its first quote. -/
def shift (offset : Nat) : Mode → Mode
  | .string start read escaping spoiled => .string (start + offset) read escaping spoiled
  | mode => mode

def shiftStep (offset : Nat) : Mode.Step → Mode.Step
  | .error fault => .error (fault.shift offset)
  | .ok (tokens, mode) => .ok (tokens.map (Token.shift offset), mode.shift offset)

theorem start_shift (offset position : Nat) (c : Char) :
    Mode.start (position + offset) c = shiftStep offset (Mode.start position c) := by
  have hplace : position + offset + 1 = position + 1 + offset := by omega
  unfold Mode.start
  repeat' split
  all_goals simp [shiftStep, shift, Token.shift, ReadError.shift, hplace]

theorem endWord_shift (offset : Nat) (lexeme : Lexeme) (position : Nat) (c : Char) :
    Mode.endWord lexeme (position + offset) c =
      shiftStep offset (Mode.endWord lexeme position c) := by
  unfold Mode.endWord
  by_cases hdelimiter : isDelimiter c = true
  · rw [if_pos hdelimiter, if_pos hdelimiter, start_shift]
    cases Mode.start position c with
    | error fault => rfl
    | ok step => rfl
  · rw [if_neg hdelimiter, if_neg hdelimiter]
    rfl

theorem next_shift (offset : Nat) (mode : Mode) (position : Nat) (c : Char) :
    (mode.shift offset).next (position + offset) c = shiftStep offset (mode.next position c) := by
  cases mode with
  | gap => exact start_shift offset position c
  | number read =>
    simp only [shift, Mode.next]
    by_cases hdigit : c.isDigit = true
    · rw [if_pos hdigit, if_pos hdigit]
      rfl
    · rw [if_neg hdigit, if_neg hdigit, endWord_shift]
  | name read =>
    simp only [shift, Mode.next]
    by_cases hletter : continuesName c = true
    · rw [if_pos hletter, if_pos hletter]
      rfl
    · rw [if_neg hletter, if_neg hletter, endWord_shift]
  | string start read escaping spoiled =>
    have hplace : position + offset + 1 = position + 1 + offset := by omega
    cases escaping with
    | true => rfl
    | false =>
      simp only [shift, Mode.next]
      repeat' split
      all_goals simp [shiftStep, shift, Token.shift, ReadError.shift, hplace]

theorem finish_shift (offset : Nat) (mode : Mode) (position : Nat) :
    (mode.shift offset).finish (position + offset) = (mode.finish position).shift offset := by
  cases mode <;> rfl

theorem scan_shift (offset : Nat) (mode : Mode) (position : Nat) (text : List Char) :
    (mode.shift offset).scan (position + offset) text = (mode.scan position text).shift offset := by
  induction text generalizing mode position with
  | nil => exact finish_shift offset mode position
  | cons c rest ih =>
    have hnext := next_shift offset mode position c
    cases hstep : mode.next position c with
    | error fault =>
      rw [hstep] at hnext
      simp only [Mode.scan, hnext, hstep, shiftStep]
      rfl
    | ok step =>
      obtain ⟨tokens, after⟩ := step
      rw [hstep] at hnext
      have hplace : position + offset + 1 = position + 1 + offset := by omega
      rw [scan_cons hnext, scan_cons hstep, Scanned.shift_prepend, hplace, ih]

theorem scan_gap_shift (offset : Nat) (text : List Char) :
    Mode.gap.scan offset text = (Mode.gap.scan 0 text).shift offset := by
  have hshift := scan_shift offset Mode.gap 0 text
  rwa [Nat.zero_add] at hshift

-- ════════════════════════════════════════════════════════════════════════
-- Separators
-- ════════════════════════════════════════════════════════════════════════

theorem start_of_isSeparator {c : Char} (h : isSeparator c = true) (position : Nat) :
    Mode.start position c = .ok ([], .gap) := if_pos h

theorem endWord_of_isSeparator {c : Char} (h : isSeparator c = true) (lexeme : Lexeme)
    (position : Nat) : Mode.endWord lexeme position c = .ok ([⟨lexeme, position⟩], .gap) := by
  rw [Mode.endWord, if_pos (isDelimiter_of_isSeparator h), start_of_isSeparator h]
  rfl

/-- A separator finishes what the end of the text would finish. It leaves a literal open, and
nothing else. -/
theorem exists_next_of_isSeparator {c : Char} (h : isSeparator c = true) (mode : Mode)
    (position : Nat) :
    ∃ after, mode.next position c = .ok ((mode.finish position).tokens, after) ∧
      (∀ place, (after.finish place).tokens = [] ∧
        (after.finish place).fault = (mode.finish position).fault) ∧
      ((mode.finish position).fault = none → after = .gap) := by
  obtain ⟨hletter, hdigit⟩ := isDelimiter_not_continuesName (isDelimiter_of_isSeparator h)
  cases mode with
  | gap => exact ⟨.gap, start_of_isSeparator h position, fun _ => ⟨rfl, rfl⟩, fun _ => rfl⟩
  | number read =>
    refine ⟨.gap, ?_, fun _ => ⟨rfl, rfl⟩, fun _ => rfl⟩
    simp only [Mode.next, hdigit, Bool.false_eq_true, if_false]
    exact endWord_of_isSeparator h _ position
  | name read =>
    refine ⟨.gap, ?_, fun _ => ⟨rfl, rfl⟩, fun _ => rfl⟩
    simp only [Mode.next, hletter, Bool.false_eq_true, if_false]
    exact endWord_of_isSeparator h _ position
  | string start read escaping spoiled =>
    cases escaping with
    | true => exact ⟨_, rfl, fun _ => ⟨rfl, rfl⟩, by simp [Mode.finish]⟩
    | false =>
      have hplain : c ≠ '\\' ∧ c ≠ '"' := by
        constructor
        · rintro rfl
          revert h
          decide
        · rintro rfl
          revert h
          decide
      refine ⟨.string start (c :: read) false spoiled, ?_, fun _ => ⟨rfl, rfl⟩, by simp [Mode.finish]⟩
      simp only [Mode.next, if_neg hplain.1, if_neg hplain.2]
      rfl

end Mode

-- ════════════════════════════════════════════════════════════════════════
-- Reading behind a separator
-- ════════════════════════════════════════════════════════════════════════

/-- Faults are met by the scanner alone. -/
theorem Level.isFault_of_move {levels : List Level} {lexeme : Lexeme} {error : ReadError}
    (h : (move levels lexeme).error? = some error) : error.isFault = false := by
  rcases error_cases_of_move h with
    rfl | rfl | rfl | ⟨digits, -, hdigits⟩ | ⟨body, -, hbody⟩
  · rfl
  · rfl
  · rfl
  · rcases readInteger_eq_error hdigits with ⟨rfl, -⟩ | rfl
    · rfl
    · rfl
  · obtain ⟨cause, rfl, -⟩ := readString_eq_error hbody
    rfl

theorem Level.shift_of_readOn {levels : List Level} {lexemes : List Lexeme} {error : ReadError}
    (h : readOn levels lexemes = .error error) (offset : Nat) : error.shift offset = error := by
  obtain ⟨opened, lexeme, -, hmove⟩ := exists_move_of_readOn_error h
  have hfault := Level.isFault_of_move hmove
  refine ReadError.shift_eq_self ?_ offset
  rintro position c rfl
  cases hfault

theorem conclude_shift (offset : Nat) (fault : Option ReadError) (levels : List Level)
    (lexemes : List Lexeme) :
    conclude (fault.map (ReadError.shift offset)) (Level.readOn levels lexemes) =
      (conclude fault (Level.readOn levels lexemes)).mapError (ReadError.shift offset) := by
  cases hread : Level.readOn levels lexemes with
  | error error =>
    show Except.error error = Except.error (error.shift offset)
    rw [Level.shift_of_readOn hread]
  | ok result =>
    obtain ⟨nodes, opened⟩ := result
    cases fault with
    | some fault => rfl
    | none =>
      cases opened with
      | nil => rfl
      | cons level outer => cases level <;> rfl

/-- A text that stands behind another one, with a separator between them. -/
theorem readNodes_append_of_separator {text : String} {tokens : List Token} {mode : Mode} {c : Char}
    (hadvance : Mode.gap.advance 0 text.toList = (tokens, .ok mode)) (hc : isSeparator c = true)
    (hclosed : (mode.finish text.length).fault = none) (more : String) :
    readNodes (text ++ c.toString ++ more) =
      conclude ((scan more).fault.map (ReadError.shift (text.length + 1)))
        (Level.readOn []
          (lexemesOf (tokens ++ (mode.finish text.length).tokens) ++
            lexemesOf (scan more).tokens)) := by
  obtain ⟨after, hnext, -, hgap⟩ := Mode.exists_next_of_isSeparator hc mode text.length
  rw [hgap hclosed] at hnext
  have hscan : mode.scan text.length (c.toString ++ more).toList =
      ((scan more).shift (text.length + 1)).prepend (mode.finish text.length).tokens := by
    rw [String.toList_append, Char.toString, String.toList_singleton, List.singleton_append,
      Mode.scan_cons hnext, Mode.scan_gap_shift]
    rfl
  rw [String.append_assoc, readNodes_append_of_mode hadvance, hscan]
  simp only [Scanned.prepend, Scanned.shift, lexemesOf_append, lexemesOf_shift, List.append_assoc]

/-- A text whose reading met no error is left in a mode that only the end of the text can finish. -/
theorem exists_mode_of_readNodes {text : String} {nodes : List Node}
    (h : readNodes text = .ok nodes) :
    ∃ tokens mode, Mode.gap.advance 0 text.toList = (tokens, .ok mode) ∧
      (mode.finish text.length).fault = none ∧
      Level.readOn [] (lexemesOf (tokens ++ (mode.finish text.length).tokens)) =
        .ok (nodes, []) := by
  rcases hadvance : Mode.gap.advance 0 text.toList with ⟨tokens, fault | mode⟩
  · have hfault := readNodes_append_of_fault hadvance ""
    rw [String.append_empty, h] at hfault
    have hnone := (conclude_eq_ok_iff.1 hfault.symm).1
    cases hnone
  · rw [readNodes_of_mode hadvance, conclude_eq_ok_iff] at h
    refine ⟨tokens, mode, rfl, h.1, ?_⟩
    rw [lexemesOf_append]
    exact h.2

/-- Behind a text that is read completely and a separator, a text is read as if it stood alone. Only
the places in errors are counted from the beginning of the whole. -/
theorem readNodes_append_separated {text : String} {nodes : List Node}
    (h : readNodes text = .ok nodes) {c : Char} (hc : isSeparator c = true) (more : String) :
    readNodes (text ++ c.toString ++ more) =
      ((readNodes more).mapError (ReadError.shift (text.length + 1))).map (nodes ++ ·) := by
  obtain ⟨tokens, mode, hadvance, hclosed, hread⟩ := exists_mode_of_readNodes h
  rw [readNodes_append_of_separator hadvance hc hclosed, Level.readOn_append_of_ok hread,
    conclude_map, conclude_shift, readNodes_eq_conclude]

/-- A separator behind a text changes nothing. -/
theorem readNodes_append_separator (text : String) {c : Char} (hc : isSeparator c = true) :
    readNodes (text ++ c.toString) = readNodes text := by
  rcases hadvance : Mode.gap.advance 0 text.toList with ⟨tokens, fault | mode⟩
  · exact readNodes_append_eq_of_fault hadvance c.toString
  · obtain ⟨after, hnext, hafter, -⟩ := Mode.exists_next_of_isSeparator hc mode text.length
    obtain ⟨htokens, hfault⟩ := hafter (text.length + 1)
    have hscan : mode.scan text.length c.toString.toList = mode.finish text.length := by
      rw [Char.toString, String.toList_singleton, Mode.scan_cons hnext, Mode.scan, Scanned.prepend,
        htokens, hfault, List.append_nil]
    rw [readNodes_append_of_mode hadvance, hscan, readNodes_of_mode hadvance]

/-- Behind a separator, nothing changes the error that a text was refused with. -/
theorem readNodes_append_of_refused {text : String} {error : ReadError}
    (h : readNodes text = .error error) (hm : error.isIncomplete = false) {c : Char}
    (hc : isSeparator c = true) (more : String) :
    readNodes (text ++ c.toString ++ more) = .error error := by
  rcases hadvance : Mode.gap.advance 0 text.toList with ⟨tokens, fault | mode⟩
  · rw [String.append_assoc, readNodes_append_eq_of_fault hadvance, h]
  · rw [readNodes_of_mode hadvance] at h
    have hread := error_of_conclude_finish h hm
    obtain ⟨after, hnext, -, -⟩ := Mode.exists_next_of_isSeparator hc mode text.length
    rw [String.append_assoc, readNodes_append_of_mode hadvance, String.toList_append,
      Char.toString, String.toList_singleton, List.singleton_append, Mode.scan_cons hnext,
      Scanned.prepend, lexemesOf_append, ← List.append_assoc, Level.readOn_append_of_error hread]
    rfl

-- ════════════════════════════════════════════════════════════════════════
-- Concatenation
-- ════════════════════════════════════════════════════════════════════════

/-- Reading carries concatenation over to the nodes. Behind a text that is read completely and a
separator, the nodes of another text follow those of the first one. If the second text cannot be
read, the whole is refused with the same error, and a character that is out of place in the second
text is out of place at its place in the whole. -/
theorem reading_concatenates {text : String} {nodes : List Node} (h : readNodes text = .ok nodes)
    {c : Char} (hc : isSeparator c = true) (more : String) :
    (∀ later, readNodes more = .ok later →
      readNodes (text ++ c.toString ++ more) = .ok (nodes ++ later)) ∧
    (∀ position found, readNodes more = .error (.unexpectedChar position found) →
      readNodes (text ++ c.toString ++ more) =
        .error (.unexpectedChar (position + (text.length + 1)) found)) ∧
    ∀ error, readNodes more = .error error →
      (∀ position found, error ≠ .unexpectedChar position found) →
      readNodes (text ++ c.toString ++ more) = .error error := by
  have hwhole := readNodes_append_separated h hc more
  refine ⟨fun later hmore => ?_, fun position found hmore => ?_, fun error hmore herror => ?_⟩
  · rw [hwhole, hmore]
    rfl
  · rw [hwhole, hmore]
    rfl
  · rw [hwhole, hmore]
    show Except.error (error.shift (text.length + 1)) = Except.error error
    rw [ReadError.shift_eq_self herror]

/-- Behind a list, a number and a tab: a text, a name with a character out of place behind it, and a
list that does not end. -/
theorem reading_concatenates_list_number :
    let text := "(f 'a) 7" ++ '\t'.toString
    readNodes (text ++ "\"b\"") =
        .ok [.list [.ident "f", .quote (.ident "a")], .int 7, .str "b"] ∧
      readNodes (text ++ "x #") = .error (.unexpectedChar 11 '#') ∧
      readNodes (text ++ "(g") = .error .unmatchedOpen := by
  have htext : readNodes "(f 'a) 7" =
      .ok [.list [.ident "f", .quote (.ident "a")], .int 7] := by
    rw [readNodes_eq_conclude]
    rfl
  have hmore : readNodes "\"b\"" = .ok [.str "b"] ∧
      readNodes "x #" = .error (.unexpectedChar 2 '#') ∧
      readNodes "(g" = .error .unmatchedOpen := by
    simp only [readNodes_eq_conclude]
    exact ⟨rfl, rfl, rfl⟩
  have hread := reading_concatenates htext (show isSeparator '\t' = true by decide)
  refine ⟨?_, ?_, ?_⟩
  · exact (hread "\"b\"").1 _ hmore.1
  · exact (hread "x #").2.1 2 '#' hmore.2.1
  · exact (hread "(g").2.2 _ hmore.2.2 (by simp)

end FexprLisp
