import FexprLisp.Source.Scan

/-!
# Lexemes in a text

Which texts a lexeme may have, and that the scanner finds exactly these: it finds a lexeme that
stands in a text as long as nothing extends it, and it finds nothing else.

## Main definitions

- `isBody`, `isNumeral`, `isName` — the texts inside a string literal, of a number, of a name
- `Lexeme.wellFormed` — the text of a lexeme belongs to its class
- `startsApart` — what follows cannot extend a number or a name
- `Mode.Sound` — the characters that an open lexeme keeps may become a lexeme of its class

## Main statements

- `scan_lexeme` — a lexeme that stands in a text is found
- `Mode.start_cases` — what a character between lexemes does
- `scan_wellFormed` — every lexeme that is found belongs to its class
- `unescape_ne_dangling` — no string literal ends in the middle of an escape
-/

namespace FexprLisp

/-- The text between the quotes of a string literal: a backslash escapes any character except a line
feed, and a double quote stands only behind a backslash. -/
def isBody : List Char → Bool
  | [] => true
  | '\\' :: c :: rest => c != '\n' && isBody rest
  | c :: rest => c != '\\' && c != '"' && isBody rest

/-- The text of a number. -/
def isNumeral (text : List Char) : Bool :=
  !text.isEmpty && text.all Char.isDigit

/-- The text of a name. -/
def isName : List Char → Bool
  | [] => false
  | c :: rest => startsName c && rest.all continuesName

namespace Lexeme

/-- The text of a lexeme belongs to its class. -/
def wellFormed : Lexeme → Bool
  | lparen | rparen | quote => true
  | string body => isBody body.toList
  | integer digits => isNumeral digits.toList
  | identifier name => isName name.toList

/-- Numbers and names may not touch what follows them unless it is a delimiter. -/
def isWord : Lexeme → Bool
  | integer _ | identifier _ => true
  | _ => false

end Lexeme

/-- A text that cannot extend a number or a name before it. -/
def startsApart : List Char → Bool
  | [] => true
  | c :: _ => isDelimiter c

/-- What was scanned, behind tokens that come before it. -/
def Scanned.prepend (tokens : List Token) (scanned : Scanned) : Scanned :=
  ⟨tokens ++ scanned.tokens, scanned.fault⟩

@[simp]
theorem Scanned.prepend_nil (scanned : Scanned) : scanned.prepend [] = scanned := rfl

theorem Scanned.prepend_append (before after : List Token) (scanned : Scanned) :
    scanned.prepend (before ++ after) = (scanned.prepend after).prepend before := by
  simp [prepend]

-- ════════════════════════════════════════════════════════════════════════
-- Character classes
-- ════════════════════════════════════════════════════════════════════════

theorem isDelimiter_of_isSeparator {c : Char} (h : isSeparator c = true) : isDelimiter c = true := by
  simp [isDelimiter, h]

theorem isDelimiter_not_continuesName {c : Char} (h : isDelimiter c = true) :
    continuesName c = false ∧ c.isDigit = false := by
  simp only [isDelimiter, isSeparator, Bool.or_eq_true, decide_eq_true_eq] at h
  rcases h with ((((((rfl | rfl) | rfl) | rfl) | rfl) | rfl) | rfl) | rfl <;> decide

theorem startsName_not_isDigit {c : Char} (h : startsName c = true) : c.isDigit = false := by
  simp only [startsName, Bool.or_eq_true, decide_eq_true_eq] at h
  rcases h with ((((((h | rfl) | rfl) | rfl) | rfl) | rfl) | rfl) | rfl
  · have halpha : c.isAlpha = (decide (c.val ≥ 'A'.val ∧ c.val ≤ 'Z'.val) ||
        (decide (c.val ≥ 'a'.val) && decide (c.val ≤ 'z'.val))) := rfl
    rw [halpha] at h
    simp only [Bool.or_eq_true, Bool.and_eq_true, decide_eq_true_eq, UInt32.le_iff_toNat_le,
      ge_iff_le] at h
    simp only [Char.isDigit, Bool.and_eq_false_iff, decide_eq_false_iff_not, UInt32.le_iff_toNat_le,
      ge_iff_le]
    have : 'A'.val.toNat = 65 := rfl
    have : 'a'.val.toNat = 97 := rfl
    have : '9'.val.toNat = 57 := rfl
    omega
  all_goals decide

theorem Mode.start_of_isDelimiter {c : Char} (h : isDelimiter c = true) (position : Nat) :
    ∃ tokens mode, Mode.start position c = .ok (tokens, mode) := by
  simp only [isDelimiter, Bool.or_eq_true, decide_eq_true_eq] at h
  rcases h with (((h | rfl) | rfl) | rfl) | rfl
  · exact ⟨_, _, if_pos h⟩
  all_goals exact ⟨_, _, rfl⟩

theorem isDelimiter_of_continuesName {c : Char} (h : continuesName c = true) :
    isDelimiter c = false := by
  cases hc : isDelimiter c with
  | false => rfl
  | true => simp [isDelimiter_not_continuesName hc] at h

theorem Mode.start_of_isDigit {c : Char} (h : c.isDigit = true) (position : Nat) :
    Mode.start position c = .ok ([], .number [c]) := by
  have hd : isDelimiter c = false := isDelimiter_of_continuesName (by simp [continuesName, h])
  simp only [isDelimiter, Bool.or_eq_false_iff, decide_eq_false_iff_not] at hd
  simp [Mode.start, hd, h]

theorem Mode.start_of_startsName {c : Char} (h : startsName c = true) (position : Nat) :
    Mode.start position c = .ok ([], .name [c]) := by
  have hd : isDelimiter c = false := isDelimiter_of_continuesName (by simp [continuesName, h])
  simp only [isDelimiter, Bool.or_eq_false_iff, decide_eq_false_iff_not] at hd
  simp [Mode.start, hd, h, startsName_not_isDigit h]

-- ════════════════════════════════════════════════════════════════════════
-- A lexeme that stands in a text is found
-- ════════════════════════════════════════════════════════════════════════

namespace Mode

theorem scan_cons {mode after : Mode} {position : Nat} {c : Char} {tokens : List Token}
    (h : mode.next position c = .ok (tokens, after)) (rest : List Char) :
    mode.scan position (c :: rest) = (after.scan (position + 1) rest).prepend tokens := by
  simp only [Mode.scan, h, Scanned.prepend]

theorem scan_separators {gap : List Char} (h : gap.all isSeparator = true) (position : Nat)
    (rest : List Char) :
    Mode.gap.scan position (gap ++ rest) = Mode.gap.scan (position + gap.length) rest := by
  induction gap generalizing position with
  | nil => rfl
  | cons c gap ih =>
    simp only [List.all_cons, Bool.and_eq_true] at h
    have hc : Mode.gap.next position c = .ok ([], .gap) := by
      simp [Mode.next, Mode.start, h.1]
    rw [List.cons_append, scan_cons hc, ih h.2, Scanned.prepend_nil, List.length_cons]
    congr 1
    omega

/-- An open word ends where the text ends or a delimiter follows. -/
theorem scan_word_end {mode : Mode} (lexeme : Lexeme) {position : Nat}
    (hfinish : mode.finish position = ⟨[⟨lexeme, position⟩], none⟩)
    (hnext : ∀ c, isDelimiter c = true → mode.next position c = Mode.endWord lexeme position c)
    {rest : List Char} (h : startsApart rest = true) :
    mode.scan position rest = (Mode.gap.scan position rest).prepend [⟨lexeme, position⟩] := by
  cases rest with
  | nil =>
    rw [Mode.scan, hfinish]
    rfl
  | cons c rest =>
    have hc : isDelimiter c = true := h
    obtain ⟨tokens, after, hstart⟩ := Mode.start_of_isDelimiter hc position
    have hword : mode.next position c = .ok (⟨lexeme, position⟩ :: tokens, after) := by
      rw [hnext c hc, Mode.endWord, if_pos hc, hstart]
      rfl
    have hgap : Mode.gap.next position c = .ok (tokens, after) := hstart
    rw [scan_cons hword, scan_cons hgap]
    rfl

theorem scan_digits {digits : List Char} (h : digits.all Char.isDigit = true) (read : List Char)
    (position : Nat) (rest : List Char) :
    (Mode.number read).scan position (digits ++ rest) =
      (Mode.number (digits.reverse ++ read)).scan (position + digits.length) rest := by
  induction digits generalizing read position with
  | nil => rfl
  | cons c digits ih =>
    simp only [List.all_cons, Bool.and_eq_true] at h
    have hc : (Mode.number read).next position c = .ok ([], .number (c :: read)) := by
      simp [Mode.next, h.1]
    rw [List.cons_append, scan_cons hc, ih h.2, Scanned.prepend_nil]
    simp [Nat.add_assoc, Nat.add_comm 1]

theorem scan_letters {letters : List Char} (h : letters.all continuesName = true)
    (read : List Char) (position : Nat) (rest : List Char) :
    (Mode.name read).scan position (letters ++ rest) =
      (Mode.name (letters.reverse ++ read)).scan (position + letters.length) rest := by
  induction letters generalizing read position with
  | nil => rfl
  | cons c letters ih =>
    simp only [List.all_cons, Bool.and_eq_true] at h
    have hc : (Mode.name read).next position c = .ok ([], .name (c :: read)) := by
      simp [Mode.next, h.1]
    rw [List.cons_append, scan_cons hc, ih h.2, Scanned.prepend_nil]
    simp [Nat.add_assoc, Nat.add_comm 1]

/-- A string literal ends at the first double quote that is not escaped. -/
theorem scan_body {body : List Char} (h : isBody body = true) (start : Nat) (read : List Char)
    (position : Nat) (rest : List Char) :
    (Mode.string start read false false).scan position (body ++ '"' :: rest) =
      (Mode.gap.scan (position + body.length + 1) rest).prepend
        [⟨.string (String.ofList (read.reverse ++ body)), position + body.length + 1⟩] := by
  fun_induction isBody body generalizing read position with
  | case1 =>
    have hclose : (Mode.string start read false false).next position '"' =
        .ok ([⟨.string (String.ofList read.reverse), position + 1⟩], .gap) := rfl
    rw [List.nil_append, scan_cons hclose]
    simp
  | case2 c body ih =>
    simp only [Bool.and_eq_true, bne_iff_ne] at h
    have h₁ : (Mode.string start read false false).next position '\\' =
        .ok ([], .string start ('\\' :: read) true false) := by simp [Mode.next]
    have h₂ : (Mode.string start ('\\' :: read) true false).next (position + 1) c =
        .ok ([], .string start (c :: '\\' :: read) false false) := by simp [Mode.next, h.1]
    rw [List.cons_append, List.cons_append, scan_cons h₁, scan_cons h₂, ih h.2]
    simp only [Scanned.prepend_nil, List.reverse_cons, List.append_assoc, List.cons_append,
      List.nil_append, List.length_cons]
    rw [show position + 1 + 1 + body.length + 1 = position + (body.length + 1 + 1) + 1 by omega]
  | case3 c body _ ih =>
    simp only [Bool.and_eq_true, bne_iff_ne] at h
    have hc : (Mode.string start read false false).next position c =
        .ok ([], .string start (c :: read) false false) := by
      simp [Mode.next, h.1.1, h.1.2]
    rw [List.cons_append, scan_cons hc, ih h.2]
    simp [Nat.add_assoc, Nat.add_comm 1]

end Mode

/-- A lexeme of its class is found where it stands, if nothing extends it. -/
theorem scan_lexeme {lexeme : Lexeme} (h : lexeme.wellFormed = true) {rest : List Char}
    (hrest : lexeme.isWord = true → startsApart rest = true) (position : Nat) :
    Mode.gap.scan position (lexeme.text.toList ++ rest) =
      (Mode.gap.scan (position + lexeme.text.length) rest).prepend
        [⟨lexeme, position + lexeme.text.length⟩] := by
  cases lexeme with
  | lparen => exact Mode.scan_cons rfl rest
  | rparen => exact Mode.scan_cons rfl rest
  | quote => exact Mode.scan_cons rfl rest
  | string body =>
    have hopen : Mode.gap.next position '"' = .ok ([], .string position [] false false) := rfl
    have htext : (Lexeme.string body).text.toList ++ rest = '"' :: (body.toList ++ '"' :: rest) := by
      simp [Lexeme.text]
    have hlength : (Lexeme.string body).text.length = body.toList.length + 2 := by
      rw [← String.length_toList]
      simp [Lexeme.text]
    rw [htext, Mode.scan_cons hopen, Mode.scan_body h, hlength]
    simp [Nat.add_assoc, Nat.add_comm 1]
  | integer digits =>
    simp only [Lexeme.wellFormed, isNumeral, Bool.and_eq_true] at h
    obtain ⟨hne, hdigits⟩ := h
    cases htext : digits.toList with
    | nil => simp [htext] at hne
    | cons c cs =>
      rw [htext, List.all_cons, Bool.and_eq_true] at hdigits
      have hopen : Mode.gap.next position c = .ok ([], .number [c]) :=
        Mode.start_of_isDigit hdigits.1 position
      have hlength : digits.length = cs.length + 1 := by
        rw [← String.length_toList, htext, List.length_cons]
      have hback : digits = String.ofList (cs.reverse ++ [c]).reverse := by
        simp [← htext]
      rw [Lexeme.text, htext, List.cons_append, Mode.scan_cons hopen, Mode.scan_digits hdigits.2,
        Mode.scan_word_end (.integer digits) (by simp [Mode.finish, hback]) _ (hrest rfl),
        hlength]
      · simp [Nat.add_assoc, Nat.add_comm 1]
      · intro d hd
        rw [hback]
        simp [Mode.next, isDelimiter_not_continuesName hd]
  | identifier name =>
    cases htext : name.toList with
    | nil => simp [Lexeme.wellFormed, isName, htext] at h
    | cons c cs =>
      simp only [Lexeme.wellFormed, isName, htext, Bool.and_eq_true] at h
      have hopen : Mode.gap.next position c = .ok ([], .name [c]) :=
        Mode.start_of_startsName h.1 position
      have hlength : name.length = cs.length + 1 := by
        rw [← String.length_toList, htext, List.length_cons]
      have hback : name = String.ofList (cs.reverse ++ [c]).reverse := by
        simp [← htext]
      rw [Lexeme.text, htext, List.cons_append, Mode.scan_cons hopen, Mode.scan_letters h.2,
        Mode.scan_word_end (.identifier name) (by simp [Mode.finish, hback]) _ (hrest rfl),
        hlength]
      · simp [Nat.add_assoc, Nat.add_comm 1]
      · intro d hd
        rw [hback]
        simp [Mode.next, isDelimiter_not_continuesName hd]

-- ════════════════════════════════════════════════════════════════════════
-- Nothing else is found
-- ════════════════════════════════════════════════════════════════════════

theorem isBody_append {body : List Char} (h : isBody body = true) (more : List Char) :
    isBody (body ++ more) = isBody more := by
  fun_induction isBody body with
  | case1 => rfl
  | case2 c body ih =>
    simp only [Bool.and_eq_true] at h
    simp only [List.cons_append, isBody, h.1, Bool.true_and]
    exact ih h.2
  | case3 c body hne ih =>
    simp only [Bool.and_eq_true, bne_iff_ne] at h
    rw [List.cons_append, isBody.eq_3 c _ (fun _ _ hc _ => h.1.1 hc), ih h.2]
    simp [h.1.1, h.1.2]

namespace Mode

/-- The characters that an open lexeme keeps may become a lexeme of its class. A literal that is
spoiled never does. -/
def Sound : Mode → Prop
  | .gap => True
  | .number read => isNumeral read.reverse = true
  | .name read => isName read.reverse = true
  | .string _ read false false => isBody read.reverse = true
  | .string _ read true false => ∃ body, read = '\\' :: body ∧ isBody body.reverse = true
  | .string _ _ _ true => True

/-- All tokens belong to their classes, and so does what is left open. -/
def SoundStep (step : List Token × Mode) : Prop :=
  (∀ token ∈ step.1, token.lexeme.wellFormed = true) ∧ step.2.Sound

/-- A character between lexemes belongs to the gap, is a lexeme by itself, or opens one. -/
theorem start_cases {position : Nat} {c : Char} {step : List Token × Mode}
    (h : Mode.start position c = .ok step) :
    (isSeparator c = true ∧ step = ([], .gap)) ∨
    (∃ lexeme : Lexeme, lexeme.wellFormed = true ∧ lexeme.isWord = false ∧
      lexeme.text.toList = [c] ∧ step = ([⟨lexeme, position + 1⟩], .gap)) ∨
    (c = '"' ∧ step = ([], .string position [] false false)) ∨
    (c.isDigit = true ∧ step = ([], .number [c])) ∨
    (startsName c = true ∧ step = ([], .name [c])) := by
  unfold Mode.start at h
  split at h
  · next hc =>
    cases h
    exact .inl ⟨hc, rfl⟩
  split at h
  · next hc =>
    cases h
    exact .inr (.inl ⟨.lparen, rfl, rfl, by rw [hc]; rfl, rfl⟩)
  split at h
  · next hc =>
    cases h
    exact .inr (.inl ⟨.rparen, rfl, rfl, by rw [hc]; rfl, rfl⟩)
  split at h
  · next hc =>
    cases h
    exact .inr (.inl ⟨.quote, rfl, rfl, by rw [hc]; rfl, rfl⟩)
  split at h
  · next hc =>
    cases h
    exact .inr (.inr (.inl ⟨hc, rfl⟩))
  split at h
  · next hc =>
    cases h
    exact .inr (.inr (.inr (.inl ⟨hc, rfl⟩)))
  split at h
  · next hc =>
    cases h
    exact .inr (.inr (.inr (.inr ⟨hc, rfl⟩)))
  · cases h

theorem start_sound {position : Nat} {c : Char} {step : List Token × Mode}
    (h : Mode.start position c = .ok step) : SoundStep step := by
  rcases start_cases h with ⟨-, rfl⟩ | ⟨lexeme, hformed, -, -, rfl⟩ | ⟨-, rfl⟩ | ⟨hdigit, rfl⟩ |
    ⟨hname, rfl⟩
  · exact ⟨by simp, trivial⟩
  · exact ⟨by simpa using hformed, trivial⟩
  · exact ⟨by simp, rfl⟩
  · exact ⟨by simp, by simpa [Sound, isNumeral] using hdigit⟩
  · exact ⟨by simp, by simpa [Sound, isName] using hname⟩

/-- Behind a word stands what its delimiter starts. -/
theorem exists_start_of_endWord {lexeme : Lexeme} {position : Nat} {c : Char}
    {step : List Token × Mode} (h : Mode.endWord lexeme position c = .ok step) :
    ∃ first, Mode.start position c = .ok first ∧
      step = (⟨lexeme, position⟩ :: first.1, first.2) := by
  unfold Mode.endWord at h
  split at h
  · cases hstart : Mode.start position c with
    | error fault => simp [hstart, Except.map] at h
    | ok first =>
      simp only [hstart, Except.map, Except.ok.injEq] at h
      exact ⟨first, rfl, h.symm⟩
  · cases h

theorem endWord_sound {lexeme : Lexeme} (hl : lexeme.wellFormed = true) {position : Nat} {c : Char}
    {step : List Token × Mode} (h : Mode.endWord lexeme position c = .ok step) :
    SoundStep step := by
  obtain ⟨first, hstart, rfl⟩ := exists_start_of_endWord h
  obtain ⟨htokens, hmode⟩ := start_sound hstart
  refine ⟨?_, hmode⟩
  intro token ht
  rcases List.mem_cons.1 ht with rfl | ht
  · exact hl
  · exact htokens token ht

/-- One character keeps an open lexeme within its class, and closes only lexemes of their class. -/
theorem next_sound {mode : Mode} (hmode : mode.Sound) {position : Nat} {c : Char}
    {step : List Token × Mode} (h : mode.next position c = .ok step) : SoundStep step := by
  cases mode with
  | gap => exact start_sound h
  | number read =>
    simp only [Mode.next] at h
    split at h
    · next hdigit =>
      cases h
      refine ⟨by simp, ?_⟩
      simp only [Sound, isNumeral, Bool.and_eq_true] at hmode ⊢
      simp [hdigit, hmode.2]
    · exact endWord_sound (by simpa [Lexeme.wellFormed, Sound] using hmode) h
  | name read =>
    simp only [Mode.next] at h
    split at h
    · next hletter =>
      cases h
      refine ⟨by simp, ?_⟩
      simp only [Sound, List.reverse_cons] at hmode ⊢
      cases hread : read.reverse with
      | nil => simp [hread, isName] at hmode
      | cons d rest =>
        simp only [hread, isName, Bool.and_eq_true] at hmode
        simp [isName, hmode.1, hmode.2, hletter]
    · exact endWord_sound (by simpa [Lexeme.wellFormed, Sound] using hmode) h
  | string start read escaping spoiled =>
    cases escaping with
    | true =>
      simp only [Mode.next, Except.ok.injEq] at h
      subst h
      refine ⟨by simp, ?_⟩
      cases spoiled with
      | true => trivial
      | false =>
        by_cases hc : c = '\n'
        · simp [Sound, hc]
        · obtain ⟨body, rfl, hbody⟩ := hmode
          simp only [Bool.false_or, hc, decide_false, Sound, List.reverse_cons, List.append_assoc,
            List.cons_append, List.nil_append]
          rw [isBody_append hbody]
          simp [isBody, hc]
    | false =>
      simp only [Mode.next] at h
      split at h
      · next hc =>
        cases h
        refine ⟨by simp, ?_⟩
        cases spoiled with
        | true => trivial
        | false => exact ⟨read, by rw [hc], hmode⟩
      split at h
      · split at h
        · cases h
        · next hspoiled =>
          cases h
          simp only [Bool.not_eq_true] at hspoiled
          subst hspoiled
          exact ⟨by simpa [Lexeme.wellFormed, Sound] using hmode, trivial⟩
      · next hbackslash hquote =>
        cases h
        refine ⟨by simp, ?_⟩
        cases spoiled with
        | true => trivial
        | false =>
          simp only [Sound, List.reverse_cons] at hmode ⊢
          rw [isBody_append hmode, isBody.eq_3 c [] (by simp)]
          simp [hbackslash, hquote, isBody]

theorem finish_sound {mode : Mode} (hmode : mode.Sound) (position : Nat) :
    ∀ token ∈ (mode.finish position).tokens, token.lexeme.wellFormed = true := by
  cases mode with
  | gap => simp [Mode.finish]
  | number read => simpa [Mode.finish, Lexeme.wellFormed, Sound] using hmode
  | name read => simpa [Mode.finish, Lexeme.wellFormed, Sound] using hmode
  | string start read escaping spoiled => simp [Mode.finish]

theorem scan_sound {mode : Mode} (hmode : mode.Sound) (position : Nat) (text : List Char) :
    ∀ token ∈ (mode.scan position text).tokens, token.lexeme.wellFormed = true := by
  induction text generalizing mode position with
  | nil => exact finish_sound hmode position
  | cons c rest ih =>
    cases h : mode.next position c with
    | error fault => simp [Mode.scan, h]
    | ok step =>
      obtain ⟨tokens, after⟩ := step
      obtain ⟨htokens, hafter⟩ := next_sound hmode h
      rw [scan_cons h]
      intro token ht
      rcases List.mem_append.1 ht with ht | ht
      · exact htokens token ht
      · exact ih hafter (position + 1) token ht

end Mode

/-- Every lexeme that is found in a text belongs to its class. -/
theorem scan_wellFormed (text : String) :
    ∀ token ∈ (scan text).tokens, token.lexeme.wellFormed = true :=
  Mode.scan_sound (show Mode.gap.Sound from trivial) 0 _

/-- The body of a string literal never ends in a lone backslash. -/
theorem unescape_ne_dangling {body : List Char} (h : isBody body = true) :
    Text.unescape body ≠ .error .dangling := by
  fun_induction isBody body with
  | case1 => simp [Text.unescape]
  | case2 e rest ih =>
    simp only [Bool.and_eq_true] at h
    simp only [Text.unescape]
    split
    · simp
    · cases hrest : Text.unescape rest with
      | ok text => simp [Except.map]
      | error error => simpa [Except.map, hrest] using ih h.2
  | case3 c rest _ ih =>
    simp only [Bool.and_eq_true, bne_iff_ne] at h
    rw [Text.unescape_cons_of_ne h.1.1]
    cases hrest : Text.unescape rest with
    | ok text => simp [Except.map]
    | error error => simpa [Except.map, hrest] using ih h.2

end FexprLisp
