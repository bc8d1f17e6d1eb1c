import FexprLisp.Proofs.Source.Malformed
import FexprLisp.Proofs.Source.RoundTrip

/-!
# Completing a text

A text that ends too early can be completed, unless it is spoiled already in a way that is found
only later: the string literal that it ends in holds an escape that is none, or so many lists are
open that nothing may stand in the innermost one.

## Main definitions

- `openLiteral`, `openLevels` — the literal and the levels that are open where a text ends
- `closable` — neither of them is beyond help
- `Hopeless` — told to end too early, though nothing completes it

## Main statements

- `closable_of_completed` — only a text that is closable can be completed
- `exists_completion` — a text that is closable can be completed
- `incomplete_completable_iff` — which texts that end too early can be completed
- `incomplete_not_completable` — three that cannot
-/

namespace FexprLisp

/-- The body of the string literal that is open in a mode. -/
def Mode.literal? : Mode → Option (List Char)
  | .string _ read _ _ => some read.reverse
  | _ => none

/-- The body, so far, of the string literal that a text ends in. -/
def openLiteral (text : String) : Option (List Char) :=
  match Mode.gap.advance 0 text.toList with
  | (_, .ok mode) => mode.literal?
  | (_, .error _) => none

/-- The levels that are open where a text ends. -/
def openLevels (text : String) : List Level :=
  match Level.readOn [] (lexemesOf (scan text).tokens) with
  | .ok (_, levels) => levels
  | .error _ => []

/-- The body of a literal holds no escape that is none. The last one may be open. -/
def escapesKnown (body : List Char) : Bool :=
  match Text.unescape body with
  | .error (.unknown _) => false
  | _ => true

/-- The literal that a text ends in holds only escapes that are known, and there is room for a node
inside the open levels. -/
def closable (text : String) : Bool :=
  (openLiteral text).all escapesKnown && (openLevels text).length ≤ maxNesting

-- ════════════════════════════════════════════════════════════════════════
-- Open literals
-- ════════════════════════════════════════════════════════════════════════

theorem escapesKnown_of_append {body more : List Char} (h : escapesKnown (body ++ more) = true) :
    escapesKnown body = true := by
  cases hresult : Text.unescape body with
  | ok text => simp [escapesKnown, hresult]
  | error error =>
    cases error with
    | dangling => simp [escapesKnown, hresult]
    | unknown c =>
      have happend : Text.unescape (body ++ more) = .error (.unknown c) := by
        rw [Text.unescape_append (by simp [hresult]), hresult]
        rfl
      simp [escapesKnown, happend] at h

theorem escapesKnown_of_unescape {body text : List Char} (h : Text.unescape body = .ok text) :
    escapesKnown body = true := by
  simp [escapesKnown, h]

/-- A body that is complete and holds only escapes that are known stands for a text. -/
theorem exists_text_of_escapesKnown {body : List Char} (hbody : isBody body = true)
    (h : escapesKnown body = true) : ∃ text, Text.unescape body = .ok text := by
  cases hresult : Text.unescape body with
  | ok text => exact ⟨text, rfl⟩
  | error error =>
    cases error with
    | unknown c => simp [escapesKnown, hresult] at h
    | dangling => exact absurd hresult (unescape_ne_dangling hbody)

theorem escapesKnown_feed {body : List Char} (hbody : isBody body = true) :
    escapesKnown (body ++ ['\\', '\n']) = false := by
  cases hknown : escapesKnown (body ++ ['\\', '\n']) with
  | false => rfl
  | true =>
    obtain ⟨text, htext⟩ := exists_text_of_escapesKnown hbody (escapesKnown_of_append hknown)
    have hfeed : Text.unescape (body ++ ['\\', '\n']) = .error (.unknown '\n') := by
      rw [Text.unescape_append (by simp [htext]), htext]
      rfl
    simp [escapesKnown, hfeed] at hknown

namespace Mode

/-- A literal that is spoiled holds an escape that is none. -/
def SpoiledByEscape : Mode → Prop
  | .string _ read _ spoiled => spoiled = true → escapesKnown read.reverse = false
  | _ => True

theorem start_spoiledByEscape {position : Nat} {c : Char} {step : List Token × Mode}
    (h : Mode.start position c = .ok step) : step.2.SpoiledByEscape := by
  rcases start_cases h with ⟨-, rfl⟩ | ⟨lexeme, -, -, -, rfl⟩ | ⟨-, rfl⟩ | ⟨-, rfl⟩ | ⟨-, rfl⟩
  · trivial
  · trivial
  · intro hspoiled
    cases hspoiled
  · trivial
  · trivial

theorem endWord_spoiledByEscape {lexeme : Lexeme} {position : Nat} {c : Char}
    {step : List Token × Mode} (h : Mode.endWord lexeme position c = .ok step) :
    step.2.SpoiledByEscape := by
  obtain ⟨first, hstart, rfl⟩ := exists_start_of_endWord h
  have hfirst : first.2.SpoiledByEscape := start_spoiledByEscape hstart
  exact hfirst

theorem next_spoiledByEscape {mode : Mode} (hsound : mode.Sound) (hmode : mode.SpoiledByEscape)
    {position : Nat} {c : Char} {step : List Token × Mode}
    (h : mode.next position c = .ok step) : step.2.SpoiledByEscape := by
  cases mode with
  | gap => exact start_spoiledByEscape h
  | number read =>
    simp only [Mode.next] at h
    split at h
    · cases h
      trivial
    · exact endWord_spoiledByEscape h
  | name read =>
    simp only [Mode.next] at h
    split at h
    · cases h
      trivial
    · exact endWord_spoiledByEscape h
  | string start read escaping spoiled =>
    -- a literal that is spoiled keeps the escape, whatever is added to it
    have hkeeps : spoiled = true → escapesKnown (c :: read).reverse = false := by
      intro hspoiled
      cases hknown : escapesKnown (c :: read).reverse with
      | false => rfl
      | true =>
        rw [List.reverse_cons] at hknown
        have hunknown : escapesKnown read.reverse = false := hmode hspoiled
        simp [escapesKnown_of_append hknown] at hunknown
    cases escaping with
    | true =>
      simp only [Mode.next, Except.ok.injEq] at h
      rw [← h]
      intro hspoiled
      rcases Bool.or_eq_true_iff.1 hspoiled with hbefore | hfeed
      · exact hkeeps hbefore
      · cases spoiled with
        | true => exact hkeeps rfl
        | false =>
          obtain ⟨body, rfl, hbody⟩ := hsound
          rw [of_decide_eq_true hfeed]
          simpa using escapesKnown_feed hbody
    | false =>
      simp only [Mode.next] at h
      split at h
      · cases h
        exact hkeeps
      split at h
      · split at h
        · cases h
        · cases h
          trivial
      · cases h
        exact hkeeps

theorem advance_sound {mode after : Mode} (hsound : mode.Sound) (hmode : mode.SpoiledByEscape)
    {position : Nat} {text : List Char} {tokens : List Token}
    (h : mode.advance position text = (tokens, .ok after)) :
    after.Sound ∧ after.SpoiledByEscape := by
  induction text generalizing mode position tokens with
  | nil =>
    simp only [advance, Prod.mk.injEq, Except.ok.injEq] at h
    rw [← h.2]
    exact ⟨hsound, hmode⟩
  | cons c text ih =>
    cases hnext : mode.next position c with
    | error fault => simp [advance, hnext] at h
    | ok step =>
      obtain ⟨first, between⟩ := step
      rw [advance_cons hnext, Prod.mk.injEq] at h
      exact ih (next_sound hsound hnext).2 (next_spoiledByEscape hsound hmode hnext)
        (Prod.ext rfl h.2)

/-- A literal that closes, if it does, begins as it did while it was open. -/
theorem scan_open_literal (start : Nat) (read : List Char) (escaping spoiled : Bool)
    (position : Nat) (more : List Char) :
    (∃ fault, (Mode.string start read escaping spoiled).scan position more = ⟨[], some fault⟩) ∨
      ∃ body later, lexemesOf ((Mode.string start read escaping spoiled).scan position more).tokens =
        .string (String.ofList (read.reverse ++ body)) :: later := by
  induction more generalizing read escaping spoiled position with
  | nil => exact .inl ⟨_, rfl⟩
  | cons c more ih =>
    have hgoes : ∀ escaping' spoiled', (Mode.string start read escaping spoiled).next position c =
        .ok ([], .string start (c :: read) escaping' spoiled') →
        (∃ fault, (Mode.string start read escaping spoiled).scan position (c :: more) =
          ⟨[], some fault⟩) ∨
        ∃ body later, lexemesOf
          ((Mode.string start read escaping spoiled).scan position (c :: more)).tokens =
            .string (String.ofList (read.reverse ++ body)) :: later := by
      intro escaping' spoiled' hnext
      rw [scan_cons hnext, Scanned.prepend_nil]
      rcases ih (c :: read) escaping' spoiled' (position + 1) with hfault | ⟨body, later, hbody⟩
      · exact .inl hfault
      · refine .inr ⟨c :: body, later, ?_⟩
        rw [hbody, List.reverse_cons, List.append_assoc, List.singleton_append]
    cases escaping with
    | true => exact hgoes _ _ rfl
    | false =>
      by_cases hbackslash : c = '\\'
      · exact hgoes true spoiled (by simp [Mode.next, hbackslash])
      by_cases hquote : c = '"'
      · subst hquote
        cases spoiled with
        | true => exact .inl ⟨_, rfl⟩
        | false =>
          have hclose : (Mode.string start read false false).next position '"' =
              .ok ([⟨.string (String.ofList read.reverse), position + 1⟩], .gap) := rfl
          right
          rw [scan_cons hclose]
          exact ⟨[], _, by rw [List.append_nil]; rfl⟩
      · exact hgoes false spoiled (by simp [Mode.next, hbackslash, hquote])

end Mode

-- ════════════════════════════════════════════════════════════════════════
-- Open levels
-- ════════════════════════════════════════════════════════════════════════

namespace Level

/-- There is room for a node inside the levels, or nothing stands in the innermost list yet. -/
def Bounded (levels : List Level) : Prop :=
  levels.length ≤ maxNesting ∨ ∃ outer, levels = .list [] :: outer

theorem length_of_fill {levels after : List Level} {node : Node}
    (h : fill levels node = .shift after) : after.length ≤ levels.length := by
  induction levels generalizing node with
  | nil => cases h
  | cons level outer ih =>
    cases level with
    | quote => exact Nat.le_succ_of_le (ih h)
    | list read =>
      cases h
      exact Nat.le_refl _

theorem length_of_fillWith {levels after : List Level} {result : Except ReadError Node}
    (h : fillWith levels result = .shift after) : after.length ≤ levels.length := by
  cases result with
  | ok node => exact length_of_fill h
  | error error => cases h

theorem start_bounded {levels after : List Level} {lexeme : Lexeme}
    (hroom : levels.length ≤ maxNesting) (h : start levels lexeme = .shift after) :
    Bounded after := by
  cases lexeme with
  | lparen =>
    cases h
    exact .inr ⟨levels, rfl⟩
  | rparen => cases h
  | quote =>
    simp only [start] at h
    split at h
    · cases h
    · cases h
      left
      simp only [List.length_cons]
      omega
  | string body => exact .inl (Nat.le_trans (length_of_fillWith h) hroom)
  | integer digits => exact .inl (Nat.le_trans (length_of_fillWith h) hroom)
  | identifier name => exact .inl (Nat.le_trans (length_of_fill h) hroom)

theorem move_bounded {levels after : List Level} {lexeme : Lexeme} (hlevels : Bounded levels)
    (h : move levels lexeme = .shift after) : Bounded after := by
  unfold move at h
  split at h
  · cases h
  · next item read outer =>
    have hroom : outer.length + 1 ≤ maxNesting := by
      rcases hlevels with hroom | ⟨_, hempty⟩
      · exact hroom
      · simp at hempty
    have := length_of_fill h
    exact .inl (by omega)
  · split at h
    · cases h
    · next hroom => exact start_bounded (Nat.not_lt.1 hroom) h

theorem readOn_bounded {levels opened : List Level} {lexemes : List Lexeme} {nodes : List Node}
    (hlevels : Bounded levels) (h : readOn levels lexemes = .ok (nodes, opened)) :
    Bounded opened := by
  induction lexemes generalizing levels nodes with
  | nil =>
    simp only [readOn, Except.ok.injEq, Prod.mk.injEq] at h
    rwa [← h.2]
  | cons lexeme lexemes ih =>
    cases hmove : move levels lexeme with
    | shift after =>
      simp only [readOn, hmove] at h
      exact ih (move_bounded hlevels hmove) h
    | finish node =>
      simp only [readOn, hmove] at h
      cases hrest : readOn [] lexemes with
      | error error => simp [hrest, Except.map] at h
      | ok result =>
        obtain ⟨later, opened'⟩ := result
        simp only [hrest, Except.map, Except.ok.injEq, Prod.mk.injEq] at h
        rw [h.2] at hrest
        exact ih (.inl (Nat.zero_le _)) hrest
    | reject error => simp [readOn, hmove] at h
    | refuse error => simp [readOn, hmove] at h

theorem exists_of_readOn_append {levels between opened : List Level} {lexemes more : List Lexeme}
    {first nodes : List Node} (hfirst : readOn levels lexemes = .ok (first, between))
    (h : readOn levels (lexemes ++ more) = .ok (nodes, opened)) :
    ∃ later, nodes = first ++ later ∧ readOn between more = .ok (later, opened) := by
  rw [readOn_append_of_ok hfirst] at h
  cases hmore : readOn between more with
  | error error => simp [hmore, Except.map] at h
  | ok result =>
    simp only [hmore, Except.map, Except.ok.injEq, Prod.mk.injEq] at h
    exact ⟨result.1, h.1.symm, congrArg _ (Prod.ext rfl h.2)⟩

/-- Where nothing may stand in the innermost list, every lexeme is refused. -/
theorem exists_error_of_full {levels : List Level} (hlevels : Bounded levels)
    (hfull : maxNesting < levels.length) (lexeme : Lexeme) :
    ∃ error, (move levels lexeme).error? = some error := by
  rcases hlevels with hroom | ⟨outer, rfl⟩
  · omega
  · by_cases hclose : lexeme = .rparen
    · subst hclose
      exact ⟨_, rfl⟩
    · rw [move_of_ne_rparen hclose, if_pos hfull]
      exact ⟨_, rfl⟩

theorem length_le_of_readOn {levels : List Level} {lexemes : List Lexeme} {nodes : List Node}
    (hlevels : Bounded levels) (h : readOn levels lexemes = .ok (nodes, [])) :
    levels.length ≤ maxNesting := by
  refine Nat.not_lt.1 fun hfull => ?_
  cases lexemes with
  | nil =>
    simp only [readOn, Except.ok.injEq, Prod.mk.injEq] at h
    rw [h.2] at hfull
    exact absurd hfull (Nat.not_lt_zero _)
  | cons lexeme lexemes =>
    obtain ⟨error, herror⟩ := exists_error_of_full hlevels hfull lexeme
    rw [readOn_cons_of_error herror] at h
    cases h

theorem length_of_word {levels after : List Level} {lexeme : Lexeme}
    (hword : lexeme.isWord = true) (h : move levels lexeme = .shift after) :
    after.length ≤ maxNesting := by
  have hclose : lexeme ≠ .rparen := by
    rintro rfl
    cases hword
  rw [move_of_ne_rparen hclose] at h
  split at h
  · cases h
  · next hroom =>
    refine Nat.le_trans ?_ (Nat.not_lt.1 hroom)
    cases lexeme with
    | integer digits => exact length_of_fillWith h
    | identifier name => exact length_of_fill h
    | _ => cases hword

/-- A string literal that is read stands for a text. -/
theorem exists_text_of_readOn {levels : List Level} {body : String} {more : List Lexeme}
    {result : List Node × List Level} (h : readOn levels (.string body :: more) = .ok result) :
    ∃ text, Text.unescape body.toList = .ok text := by
  cases htext : Text.unescape body.toList with
  | ok text => exact ⟨text, rfl⟩
  | error error =>
    have hstring : readString body = .error (.badEscape error) := by simp [readString, htext]
    have hmove : ∃ error', (move levels (.string body)).error? = some error' := by
      rw [move_of_ne_rparen (by simp)]
      split
      · exact ⟨_, rfl⟩
      · exact ⟨_, (error?_fillWith levels _ _).2 hstring⟩
    obtain ⟨error', herror'⟩ := hmove
    rw [readOn_cons_of_error herror'] at h
    cases h

/-- A word leaves room for a node, since it stands where one may stand. -/
theorem length_le_of_word {levels opened : List Level} {lexeme : Lexeme} {nodes : List Node}
    (hword : lexeme.isWord = true) (h : readOn levels [lexeme] = .ok (nodes, opened)) :
    opened.length ≤ maxNesting := by
  cases hmove : move levels lexeme with
  | shift after =>
    simp only [readOn, hmove, Except.ok.injEq, Prod.mk.injEq] at h
    rw [← h.2]
    exact length_of_word hword hmove
  | finish node =>
    simp only [readOn, hmove, Except.map, Except.ok.injEq, Prod.mk.injEq] at h
    rw [← h.2]
    exact Nat.zero_le _
  | reject error => simp [readOn, hmove] at h
  | refuse error => simp [readOn, hmove] at h

/-- How many lists are among the levels. -/
def lists : List Level → Nat
  | [] => 0
  | .quote :: outer => lists outer
  | .list _ :: outer => lists outer + 1

/-- Behind a node that is handed to the levels, their lists can be closed. -/
theorem readOn_closings (levels : List Level) (node : Node) :
    ∃ whole, ∀ (around : List Level) (lexeme : Lexeme), move around lexeme = fill levels node →
      readOn around (lexeme :: List.replicate (lists levels) .rparen) = .ok ([whole], []) := by
  induction levels generalizing node with
  | nil =>
    refine ⟨node, fun around lexeme h => ?_⟩
    simp only [lists, List.replicate_zero, readOn, h, fill]
    rfl
  | cons level outer ih =>
    cases level with
    | quote => exact ih (.quote node)
    | list read =>
      obtain ⟨whole, hwhole⟩ := ih (.list (node :: read).reverse)
      refine ⟨whole, fun around lexeme h => ?_⟩
      simp only [lists, List.replicate_succ]
      rw [readOn, h, fill]
      exact hwhole (.list (node :: read) :: outer) .rparen rfl

end Level

-- ════════════════════════════════════════════════════════════════════════
-- Texts that end too early
-- ════════════════════════════════════════════════════════════════════════

/-- Where a text ends too early, the scanner has met no fault and the reader no error. -/
theorem exists_open_of_incomplete {text : String} {error : ReadError}
    (h : readNodes text = .error error) (hincomplete : error.isIncomplete = true) :
    ∃ tokens mode nodes levels, Mode.gap.advance 0 text.toList = (tokens, .ok mode) ∧
      Level.readOn [] (lexemesOf tokens ++ lexemesOf (mode.finish text.length).tokens) =
        .ok (nodes, levels) := by
  have hopen : ∀ {lexemes : List Lexeme}, Level.readOn [] lexemes ≠ .error error := by
    intro lexemes hread
    rw [Level.isIncomplete_of_readOn hread] at hincomplete
    cases hincomplete
  rcases hadvance : Mode.gap.advance 0 text.toList with ⟨tokens, fault | mode⟩
  · have hfault := readNodes_append_of_fault hadvance ""
    rw [String.append_empty, h] at hfault
    cases hread : Level.readOn [] (lexemesOf tokens) with
    | error error' =>
      rw [hread, conclude, Except.error.injEq] at hfault
      exact absurd (hread.trans (congrArg _ hfault.symm)) hopen
    | ok result =>
      rw [hread, conclude, Except.error.injEq] at hfault
      obtain ⟨position, c, hchar⟩ := Mode.isUnexpected_of_advance hadvance
      rw [hfault, hchar] at hincomplete
      cases hincomplete
  · rw [readNodes_of_mode hadvance] at h
    cases hread : Level.readOn []
        (lexemesOf tokens ++ lexemesOf (mode.finish text.length).tokens) with
    | error error' =>
      rw [hread, conclude, Except.error.injEq] at h
      exact absurd (hread.trans (congrArg _ h)) hopen
    | ok result => exact ⟨tokens, mode, result.1, result.2, rfl, hread⟩

theorem openLiteral_of_mode {text : String} {tokens : List Token} {mode : Mode}
    (h : Mode.gap.advance 0 text.toList = (tokens, .ok mode)) :
    openLiteral text = mode.literal? := by
  simp only [openLiteral, h]

theorem openLevels_of_mode {text : String} {tokens : List Token} {mode : Mode} {nodes : List Node}
    {levels : List Level} (h : Mode.gap.advance 0 text.toList = (tokens, .ok mode))
    (hread : Level.readOn [] (lexemesOf tokens ++ lexemesOf (mode.finish text.length).tokens) =
      .ok (nodes, levels)) : openLevels text = levels := by
  have hscan : scan text = (mode.finish text.length).prepend tokens := by
    have happend := Mode.scan_append_of_mode h []
    rw [List.append_nil, Nat.zero_add, String.length_toList] at happend
    exact happend
  simp only [openLevels, hscan, Scanned.prepend, lexemesOf_append, hread]

/-- Only a text that is closable can be completed. -/
theorem closable_of_completed {text more : String} {error : ReadError} {nodes : List Node}
    (h : readNodes text = .error error) (hincomplete : error.isIncomplete = true)
    (hmore : readNodes (text ++ more) = .ok nodes) : closable text = true := by
  obtain ⟨tokens, mode, before, levels, hadvance, hread⟩ := exists_open_of_incomplete h hincomplete
  rw [readNodes_append_of_mode hadvance, conclude_eq_ok_iff] at hmore
  obtain ⟨hfault, hwhole⟩ := hmore
  cases hfirst : Level.readOn [] (lexemesOf tokens) with
  | error error' =>
    rw [Level.readOn_append_of_error hfirst] at hread
    cases hread
  | ok result =>
    obtain ⟨first, outer⟩ := result
    have houter : Level.Bounded outer := Level.readOn_bounded (.inl (Nat.zero_le _)) hfirst
    obtain ⟨before', -, hlast⟩ := Level.exists_of_readOn_append hfirst hread
    obtain ⟨later, -, hlater⟩ := Level.exists_of_readOn_append hfirst hwhole
    rw [closable, openLiteral_of_mode hadvance, openLevels_of_mode hadvance hread,
      Bool.and_eq_true, decide_eq_true_eq]
    cases mode with
    | gap =>
      cases hlast
      exact ⟨rfl, Level.length_le_of_readOn houter hlater⟩
    | number read => exact ⟨rfl, Level.length_le_of_word rfl hlast⟩
    | name read => exact ⟨rfl, Level.length_le_of_word rfl hlast⟩
    | string start read escaping spoiled =>
      cases hlast
      refine ⟨?_, Level.length_le_of_readOn houter hlater⟩
      rcases Mode.scan_open_literal start read escaping spoiled text.length more.toList with
        ⟨fault, hscan⟩ | ⟨body, rest, hclosed⟩
      · simp [hscan] at hfault
      · rw [hclosed] at hlater
        obtain ⟨decoded, hdecoded⟩ := Level.exists_text_of_readOn hlater
        rw [String.toList_ofList] at hdecoded
        exact escapesKnown_of_append (escapesKnown_of_unescape hdecoded)

/-- What closes the literal that is open in a mode, or is a literal by itself. -/
def Mode.closing : Mode → List Char
  | .string _ _ true _ => ['n', '"']
  | .string _ _ false _ => ['"']
  | _ => ['"', '"']

theorem Mode.scan_gap_closing (position : Nat) (rest : List Char) :
    Mode.gap.scan position (['"', '"'] ++ rest) =
      (Mode.gap.scan (position + 2) rest).prepend [⟨.string "", position + 2⟩] :=
  scan_lexeme (show (Lexeme.string "").wellFormed = true from rfl) (by simp [Lexeme.isWord]) position

theorem Mode.scan_word_closing {mode : Mode} (lexeme : Lexeme) {position : Nat}
    (hfinish : mode.finish position = ⟨[⟨lexeme, position⟩], none⟩)
    (hnext : ∀ c, isDelimiter c = true → mode.next position c = Mode.endWord lexeme position c)
    (rest : List Char) :
    mode.scan position (['"', '"'] ++ rest) =
      (Mode.gap.scan (position + 2) rest).prepend
        [⟨lexeme, position⟩, ⟨.string "", position + 2⟩] := by
  rw [scan_word_end lexeme hfinish hnext rfl, scan_gap_closing]
  rfl

/-- A literal that holds only escapes that are known can be closed; behind anything else there can
be a literal. -/
theorem Mode.scan_closing {mode : Mode} (hsound : mode.Sound) (hmode : mode.SpoiledByEscape)
    (hknown : mode.literal?.all escapesKnown = true) (position : Nat) :
    ∃ tokens stop body node,
      (∀ rest, mode.scan position (mode.closing ++ rest) =
        (Mode.gap.scan stop rest).prepend tokens) ∧
      lexemesOf tokens = lexemesOf (mode.finish position).tokens ++ [.string body] ∧
      (Lexeme.string body).Denotes node := by
  have hempty : (Lexeme.string "").Denotes (.str "") := rfl
  cases mode with
  | gap => exact ⟨_, _, "", _, scan_gap_closing position, rfl, hempty⟩
  | number read =>
    refine ⟨_, _, "", _, scan_word_closing (.integer (String.ofList read.reverse)) rfl ?_, rfl, hempty⟩
    intro c hc
    simp [Mode.next, isDelimiter_not_continuesName hc]
  | name read =>
    refine ⟨_, _, "", _, scan_word_closing (.identifier (String.ofList read.reverse)) rfl ?_, rfl,
      hempty⟩
    intro c hc
    simp [Mode.next, isDelimiter_not_continuesName hc]
  | string start read escaping spoiled =>
    have hescapes : escapesKnown read.reverse = true := hknown
    cases spoiled with
    | true =>
      have hunknown : escapesKnown read.reverse = false := hmode rfl
      rw [hescapes] at hunknown
      cases hunknown
    | false =>
      cases escaping with
      | false =>
        obtain ⟨text, htext⟩ := exists_text_of_escapesKnown hsound hescapes
        have hclose : (Mode.string start read false false).next position '"' =
            .ok ([⟨.string (String.ofList read.reverse), position + 1⟩], .gap) := rfl
        refine ⟨_, _, String.ofList read.reverse, .str (String.ofList text), scan_cons hclose,
          rfl, ?_⟩
        simp [Lexeme.Denotes, readString, htext]
      | true =>
        -- the open escape becomes a line feed
        obtain ⟨body, rfl, hbody⟩ := hsound
        rw [List.reverse_cons] at hescapes
        obtain ⟨text, htext⟩ :=
          exists_text_of_escapesKnown hbody (escapesKnown_of_append hescapes)
        have hescape : (Mode.string start ('\\' :: body) true false).next position 'n' =
            .ok ([], .string start ('n' :: '\\' :: body) false false) := rfl
        have hclose : (Mode.string start ('n' :: '\\' :: body) false false).next (position + 1) '"' =
            .ok ([⟨.string (String.ofList ('n' :: '\\' :: body).reverse), position + 2⟩], .gap) := rfl
        refine ⟨[⟨.string (String.ofList ('n' :: '\\' :: body).reverse), position + 2⟩], position + 2,
          _, .str (String.ofList (text ++ ['\n'])), fun rest => ?_, rfl, ?_⟩
        · rw [closing, List.cons_append, scan_cons hescape, Scanned.prepend_nil, List.cons_append,
            scan_cons hclose, List.nil_append]
        · have hwhole : Text.unescape (body.reverse ++ ['\\', 'n']) = .ok (text ++ ['\n']) := by
            rw [Text.unescape_append (by simp [htext]), htext]
            rfl
          simp [Lexeme.Denotes, readString, hwhole]

/-- Parentheses of one kind, in a row, are found one by one. -/
theorem Mode.scan_replicate (lexeme : Lexeme) (c : Char)
    (hnext : ∀ position, Mode.gap.next position c = .ok ([⟨lexeme, position + 1⟩], .gap))
    (count : Nat) {gap : List Char} (hgap : gap.all isSeparator = true) (position : Nat) :
    lexemesOf (Mode.gap.scan position (List.replicate count c ++ gap)).tokens =
        List.replicate count lexeme ∧
      (Mode.gap.scan position (List.replicate count c ++ gap)).fault = none := by
  induction count generalizing position with
  | zero =>
    have hscan := scan_separators hgap position []
    rw [List.append_nil] at hscan
    rw [List.replicate_zero, List.nil_append, hscan]
    exact ⟨rfl, rfl⟩
  | succ count ih =>
    obtain ⟨htokens, hfault⟩ := ih (position + 1)
    rw [List.replicate_succ, List.cons_append, scan_cons (hnext position)]
    refine ⟨?_, hfault⟩
    rw [Scanned.prepend, lexemesOf_append, htokens]
    rfl

/-- A text that is closable can be completed, and separators may follow. -/
theorem exists_completion {text : String} {error : ReadError} (h : readNodes text = .error error)
    (hincomplete : error.isIncomplete = true) (hclosable : closable text = true) :
    ∃ more nodes, ∀ gap, isGap gap = true → readNodes (text ++ (more ++ gap)) = .ok nodes := by
  obtain ⟨tokens, mode, nodes, levels, hadvance, hread⟩ := exists_open_of_incomplete h hincomplete
  rw [closable, openLiteral_of_mode hadvance, openLevels_of_mode hadvance hread,
    Bool.and_eq_true, decide_eq_true_eq] at hclosable
  obtain ⟨hknown, hroom⟩ := hclosable
  obtain ⟨hsound, hspoiled⟩ := Mode.advance_sound (show Mode.gap.Sound from trivial) trivial hadvance
  obtain ⟨closing, stop, body, node, hscan, hlexemes, hnode⟩ :=
    Mode.scan_closing hsound hspoiled hknown text.length
  obtain ⟨whole, hwhole⟩ := Level.readOn_closings levels node
  have hmove : Level.move levels (.string body) = Level.fill levels node := by
    rw [Level.move_of_denotes hnode, if_neg (Nat.not_lt.2 hroom)]
  refine ⟨String.ofList (mode.closing ++ List.replicate (Level.lists levels) ')'), nodes ++ [whole],
    fun gap hgap => ?_⟩
  obtain ⟨hclosings, hfault⟩ :=
    Mode.scan_replicate .rparen ')' (fun _ => rfl) (Level.lists levels) hgap stop
  rw [readNodes_append_of_mode hadvance, String.toList_append, String.toList_ofList,
    List.append_assoc, hscan, conclude_eq_ok_iff]
  refine ⟨hfault, ?_⟩
  rw [Scanned.prepend, lexemesOf_append, hlexemes, hclosings, List.append_assoc, ← List.append_assoc,
    Level.readOn_append_of_ok hread, List.singleton_append, hwhole levels _ hmove]
  rfl

/-- A text that ends too early can be completed exactly when it is closable, and then one more line
completes it at the console. -/
theorem incomplete_completable_iff {text : String} {error : ReadError}
    (h : readNodes text = .error error) (hincomplete : error.isIncomplete = true) :
    ((∃ more nodes, readNodes (text ++ more) = .ok nodes) ↔ closable text = true) ∧
      (closable text = true → ∃ (line : String) (nodes : List Node), ∀ m : Machine,
        Console.feed { machine := m, buffer := text } line =
          Console.answered (Console.answerEach m nodes)) := by
  refine ⟨⟨?_, fun hclosable => ?_⟩, fun hclosable => ?_⟩
  · rintro ⟨more, nodes, hmore⟩
    exact closable_of_completed h hincomplete hmore
  · obtain ⟨more, nodes, hmore⟩ := exists_completion h hincomplete hclosable
    exact ⟨more ++ "", nodes, hmore "" rfl⟩
  · obtain ⟨more, nodes, hmore⟩ := exists_completion h hincomplete hclosable
    refine ⟨more, nodes, fun m => Console.feed_of_ok ?_⟩
    rw [String.append_assoc]
    exact hmore "\n" rfl

/-- Inside a literal, behind a backslash, with a list open around it. -/
theorem incomplete_completable_iff_escape :
    readNodes "('a \"b\\" = .error .unterminatedString ∧
      ∃ more nodes, readNodes ("('a \"b\\" ++ more) = .ok nodes := by
  have h : readNodes "('a \"b\\" = .error .unterminatedString := by
    rw [readNodes_eq_conclude]
    rfl
  exact ⟨h, (incomplete_completable_iff h rfl).1.2 (by decide +kernel)⟩

/-- Lists can be opened until nothing may stand in the innermost one. -/
theorem Level.readOn_openings (count : Nat) (levels : List Level)
    (h : levels.length + count ≤ maxNesting + 1) :
    readOn levels (List.replicate count .lparen) =
      .ok ([], List.replicate count (.list []) ++ levels) := by
  induction count generalizing levels with
  | zero => rfl
  | succ count ih =>
    have hmove : move levels .lparen = .shift (.list [] :: levels) := by
      rw [move_of_ne_rparen (by simp), if_neg (by omega), start]
    have hlength : (Level.list [] :: levels).length + count ≤ maxNesting + 1 := by
      simp only [List.length_cons]
      omega
    rw [List.replicate_succ, readOn, hmove]
    simp only [ih _ hlength]
    rw [List.replicate_succ', List.append_assoc, List.singleton_append]

theorem readOn_scan_openings {count : Nat} (h : count ≤ maxNesting + 1) :
    Level.readOn [] (lexemesOf (scan (String.ofList (List.replicate count '('))).tokens) =
        .ok ([], List.replicate count (.list [])) ∧
      (scan (String.ofList (List.replicate count '('))).fault = none := by
  have hgap : ([] : List Char).all isSeparator = true := rfl
  have hscan := Mode.scan_replicate .lparen '(' (fun _ => rfl) count hgap 0
  have hread := Level.readOn_openings count [] (by simpa using h)
  rw [List.append_nil] at hscan hread
  simp only [scan, scanAfter, String.toList_ofList, List.drop_zero, hscan, hread, and_self]

/-- A text that is told to end too early, though nothing that follows completes it. -/
def Hopeless (text : String) : Prop :=
  (∃ error, readNodes text = .error error ∧ error.isIncomplete = true) ∧
    ∀ more nodes, readNodes (text ++ more) ≠ .ok nodes

theorem hopeless_of_not_closable {text : String} {error : ReadError}
    (h : readNodes text = .error error) (hincomplete : error.isIncomplete = true)
    (hclosable : closable text = false) : Hopeless text := by
  refine ⟨⟨error, h, hincomplete⟩, ?_⟩
  intro more nodes hmore
  rw [closable_of_completed h hincomplete hmore] at hclosable
  cases hclosable

/-- Not every text that ends too early can be completed: not behind an escaped line feed or another
escape that is none, nor inside 257 lists. -/
theorem incomplete_not_completable :
    Hopeless "\"\\\n" ∧ Hopeless "\"\\q" ∧ Hopeless (String.ofList (List.replicate 257 '(')) := by
  refine ⟨?_, ?_, ?_⟩
  · have hread : readNodes "\"\\\n" = .error .unterminatedString := by
      rw [readNodes_eq_conclude]
      rfl
    exact hopeless_of_not_closable hread rfl (by decide +kernel)
  · have hread : readNodes "\"\\q" = .error .unterminatedString := by
      rw [readNodes_eq_conclude]
      rfl
    exact hopeless_of_not_closable hread rfl (by decide +kernel)
  · obtain ⟨hopened, hfault⟩ := readOn_scan_openings (Nat.le_refl 257)
    have hread : readNodes (String.ofList (List.replicate 257 '(')) = .error .unmatchedOpen := by
      rw [readNodes_eq_conclude, hopened, hfault]
      rfl
    have hfull : ¬ (List.replicate 257 (Level.list [])).length ≤ maxNesting := by
      rw [List.length_replicate]
      decide
    refine hopeless_of_not_closable hread rfl ?_
    rw [closable, openLevels, hopened, decide_eq_false hfull, Bool.and_false]

end FexprLisp
