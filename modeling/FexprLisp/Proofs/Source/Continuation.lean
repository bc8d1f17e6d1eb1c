import FexprLisp.Proofs.Source.Reading

/-!
# Texts that go on

Scanning and reading never look back, so what is made of a text that goes on is made of its
beginning first: the scanner is left in a mode and the reader with open levels, and both go on from
there. An error that is met in the beginning is met whatever follows.

## Main definitions

- `Mode.advance` — the scanner over the characters of a text, without the end of the text
- `Level.readOn` — the reader over the lexemes of a text, without its end
- `conclude` — the end of a text

## Main statements

- `readNodes_eq_conclude` — reading a text is reading its lexemes and then its end
- `readNodes_append_of_fault`, `readNodes_append_of_mode` — a text that goes on
-/

namespace FexprLisp

/-- The lexemes of some tokens. -/
def lexemesOf (tokens : List Token) : List Lexeme :=
  tokens.map (·.lexeme)

@[simp]
theorem lexemesOf_append (before after : List Token) :
    lexemesOf (before ++ after) = lexemesOf before ++ lexemesOf after :=
  List.map_append

namespace Mode

/-- The tokens that are finished in a text, and the mode behind it unless a fault is met. -/
def advance (mode : Mode) (position : Nat) : List Char → List Token × Except ReadError Mode
  | [] => ([], .ok mode)
  | c :: rest =>
    match mode.next position c with
    | .error fault => ([], .error fault)
    | .ok (tokens, mode) =>
      let later := advance mode (position + 1) rest
      (tokens ++ later.1, later.2)

theorem advance_cons {mode after : Mode} {position : Nat} {c : Char} {tokens : List Token}
    (h : mode.next position c = .ok (tokens, after)) (rest : List Char) :
    mode.advance position (c :: rest) =
      (tokens ++ (after.advance (position + 1) rest).1, (after.advance (position + 1) rest).2) := by
  simp only [advance, h]

theorem scan_append_of_fault {mode : Mode} {position : Nat} {text : List Char}
    {tokens : List Token} {fault : ReadError}
    (h : mode.advance position text = (tokens, .error fault)) (more : List Char) :
    mode.scan position (text ++ more) = ⟨tokens, some fault⟩ := by
  induction text generalizing mode position tokens with
  | nil => simp [advance] at h
  | cons c text ih =>
    cases hnext : mode.next position c with
    | error fault' =>
      simp only [advance, hnext, Prod.mk.injEq, Except.error.injEq] at h
      obtain ⟨rfl, rfl⟩ := h
      simp [Mode.scan, hnext]
    | ok step =>
      obtain ⟨first, after⟩ := step
      rw [advance_cons hnext, Prod.mk.injEq] at h
      obtain ⟨rfl, hfault⟩ := h
      have hlater := ih (Prod.ext rfl hfault)
      rw [List.cons_append, scan_cons hnext, hlater]
      rfl

theorem scan_append_of_mode {mode after : Mode} {position : Nat} {text : List Char}
    {tokens : List Token} (h : mode.advance position text = (tokens, .ok after))
    (more : List Char) :
    mode.scan position (text ++ more) =
      (after.scan (position + text.length) more).prepend tokens := by
  induction text generalizing mode position tokens with
  | nil =>
    simp only [advance, Prod.mk.injEq, Except.ok.injEq] at h
    obtain ⟨rfl, rfl⟩ := h
    rfl
  | cons c text ih =>
    cases hnext : mode.next position c with
    | error fault => simp [advance, hnext] at h
    | ok step =>
      obtain ⟨first, between⟩ := step
      rw [advance_cons hnext, Prod.mk.injEq] at h
      obtain ⟨rfl, hafter⟩ := h
      have hlater := ih (Prod.ext rfl hafter)
      rw [List.cons_append, scan_cons hnext, hlater, ← Scanned.prepend_append, List.length_cons]
      rw [show position + 1 + text.length = position + (text.length + 1) by omega]

/-- The only fault that a character can be is that it is out of place. -/
def IsUnexpected (fault : ReadError) : Prop :=
  ∃ position c, fault = .unexpectedChar position c

theorem isUnexpected_of_start {position : Nat} {c : Char} {fault : ReadError}
    (h : Mode.start position c = .error fault) : IsUnexpected fault := by
  unfold Mode.start at h
  repeat' split at h
  all_goals cases h <;> exact ⟨position, c, rfl⟩

theorem isUnexpected_of_endWord {lexeme : Lexeme} {position : Nat} {c : Char} {fault : ReadError}
    (h : Mode.endWord lexeme position c = .error fault) : IsUnexpected fault := by
  unfold Mode.endWord at h
  split at h
  · next hdelimiter =>
    obtain ⟨tokens, after, hstart⟩ := Mode.start_of_isDelimiter hdelimiter position
    rw [hstart] at h
    cases h
  · cases h
    exact ⟨position, c, rfl⟩

theorem isUnexpected_of_next {mode : Mode} {position : Nat} {c : Char} {fault : ReadError}
    (h : mode.next position c = .error fault) : IsUnexpected fault := by
  cases mode with
  | gap => exact isUnexpected_of_start h
  | number read =>
    simp only [Mode.next] at h
    split at h
    · cases h
    · exact isUnexpected_of_endWord h
  | name read =>
    simp only [Mode.next] at h
    split at h
    · cases h
    · exact isUnexpected_of_endWord h
  | string start read escaping spoiled =>
    cases escaping with
    | true => cases h
    | false =>
      simp only [Mode.next] at h
      repeat' split at h
      all_goals cases h <;> exact ⟨_, _, rfl⟩

theorem isUnexpected_of_advance {mode : Mode} {position : Nat} {text : List Char}
    {tokens : List Token} {fault : ReadError}
    (h : mode.advance position text = (tokens, .error fault)) : IsUnexpected fault := by
  induction text generalizing mode position tokens with
  | nil => simp [advance] at h
  | cons c text ih =>
    cases hnext : mode.next position c with
    | error fault' =>
      simp only [advance, hnext, Prod.mk.injEq, Except.error.injEq] at h
      rw [← h.2]
      exact isUnexpected_of_next hnext
    | ok step =>
      obtain ⟨first, after⟩ := step
      rw [advance_cons hnext, Prod.mk.injEq] at h
      exact ih (Prod.ext rfl h.2)

end Mode

namespace Level

/-- The nodes that some lexemes complete, and the levels that they leave open. -/
def readOn (levels : List Level) : List Lexeme → Except ReadError (List Node × List Level)
  | [] => .ok ([], levels)
  | lexeme :: rest =>
    match move levels lexeme with
    | .shift levels => readOn levels rest
    | .finish node => (readOn [] rest).map fun (nodes, levels) => (node :: nodes, levels)
    | .reject error | .refuse error => .error error

theorem readOn_append_of_error {levels : List Level} {lexemes : List Lexeme} {error : ReadError}
    (h : readOn levels lexemes = .error error) (more : List Lexeme) :
    readOn levels (lexemes ++ more) = .error error := by
  induction lexemes generalizing levels with
  | nil => simp [readOn] at h
  | cons lexeme lexemes ih =>
    rw [List.cons_append]
    cases hmove : move levels lexeme with
    | shift after =>
      simp only [readOn, hmove] at h ⊢
      exact ih h
    | finish node =>
      simp only [readOn, hmove] at h ⊢
      cases hrest : readOn [] lexemes with
      | ok result => simp [hrest, Except.map] at h
      | error error' =>
        have herror : error' = error := by simpa [hrest, Except.map] using h
        rw [ih (hrest.trans (congrArg _ herror)), Except.map]
    | reject error' => simpa only [readOn, hmove] using h
    | refuse error' => simpa only [readOn, hmove] using h

theorem readOn_append_of_ok {levels opened : List Level} {lexemes : List Lexeme}
    {nodes : List Node} (h : readOn levels lexemes = .ok (nodes, opened)) (more : List Lexeme) :
    readOn levels (lexemes ++ more) =
      (readOn opened more).map fun (later, opened) => (nodes ++ later, opened) := by
  induction lexemes generalizing levels nodes with
  | nil =>
    simp only [readOn, Except.ok.injEq, Prod.mk.injEq] at h
    obtain ⟨rfl, rfl⟩ := h
    rw [List.nil_append]
    cases readOn levels more <;> rfl
  | cons lexeme lexemes ih =>
    rw [List.cons_append]
    cases hmove : move levels lexeme with
    | shift after =>
      simp only [readOn, hmove] at h ⊢
      exact ih h
    | finish node =>
      simp only [readOn, hmove] at h ⊢
      cases hrest : readOn [] lexemes with
      | error error => simp [hrest, Except.map] at h
      | ok result =>
        obtain ⟨first, between⟩ := result
        simp only [hrest, Except.map, Except.ok.injEq, Prod.mk.injEq] at h
        obtain ⟨rfl, rfl⟩ := h
        rw [ih hrest]
        cases readOn between more <;> rfl
    | reject error => simp [readOn, hmove] at h
    | refuse error => simp [readOn, hmove] at h

end Level

/-- The error that a move finds. -/
def Move.error? : Move → Option ReadError
  | .shift _ | .finish _ => none
  | .reject error | .refuse error => some error

namespace Level

theorem readOn_cons_of_error {levels : List Level} {lexeme : Lexeme} {error : ReadError}
    (h : (move levels lexeme).error? = some error) (more : List Lexeme) :
    readOn levels (lexeme :: more) = .error error := by
  cases hmove : move levels lexeme with
  | shift after => simp [hmove, Move.error?] at h
  | finish node => simp [hmove, Move.error?] at h
  | reject error' =>
    simp only [hmove, Move.error?, Option.some.injEq] at h
    simp [readOn, hmove, h]
  | refuse error' =>
    simp only [hmove, Move.error?, Option.some.injEq] at h
    simp [readOn, hmove, h]

theorem error?_of_readOn_singleton {levels : List Level} {lexeme : Lexeme} {error : ReadError}
    (h : readOn levels [lexeme] = .error error) : (move levels lexeme).error? = some error := by
  cases hmove : move levels lexeme with
  | shift after => simp [readOn, hmove] at h
  | finish node => simp [readOn, hmove, Except.map] at h
  | reject error' => simpa [readOn, hmove, Move.error?] using h
  | refuse error' => simpa [readOn, hmove, Move.error?] using h

/-- An error that the reader meets is found by a move. -/
theorem exists_move_of_readOn_error {levels : List Level} {lexemes : List Lexeme}
    {error : ReadError} (h : readOn levels lexemes = .error error) :
    ∃ opened, ∃ lexeme ∈ lexemes, (move opened lexeme).error? = some error := by
  induction lexemes generalizing levels with
  | nil => simp [readOn] at h
  | cons lexeme lexemes ih =>
    cases hmove : move levels lexeme with
    | shift after =>
      simp only [readOn, hmove] at h
      obtain ⟨opened, later, hmem, hlater⟩ := ih h
      exact ⟨opened, later, List.mem_cons_of_mem _ hmem, hlater⟩
    | finish node =>
      simp only [readOn, hmove] at h
      cases hrest : readOn [] lexemes with
      | ok result => simp [hrest, Except.map] at h
      | error error' =>
        have herror : error' = error := by simpa [hrest, Except.map] using h
        obtain ⟨opened, later, hmem, hlater⟩ := ih (hrest.trans (congrArg _ herror))
        exact ⟨opened, later, List.mem_cons_of_mem _ hmem, hlater⟩
    | reject error' =>
      refine ⟨levels, lexeme, List.mem_cons_self, ?_⟩
      simpa [readOn, hmove, Move.error?] using h
    | refuse error' =>
      refine ⟨levels, lexeme, List.mem_cons_self, ?_⟩
      simpa [readOn, hmove, Move.error?] using h

theorem error?_fill (levels : List Level) (node : Node) : (fill levels node).error? = none := by
  induction levels generalizing node with
  | nil => rfl
  | cons level levels ih =>
    cases level with
    | quote => exact ih (.quote node)
    | list read => rfl

theorem error?_fillWith (levels : List Level) (result : Except ReadError Node) (error : ReadError) :
    (fillWith levels result).error? = some error ↔ result = .error error := by
  cases result with
  | ok node => simp [fillWith, error?_fill]
  | error error' => simp [fillWith, Move.error?]

/-- The errors that a move finds: those of shape, and those of a literal. -/
theorem error_cases_of_move {levels : List Level} {lexeme : Lexeme} {error : ReadError}
    (h : (move levels lexeme).error? = some error) :
    error = .emptyList ∨ error = .tooDeep ∨ error = .unexpectedClose ∨
      (∃ digits, lexeme = .integer digits ∧ readInteger digits = .error error) ∨
      ∃ body, lexeme = .string body ∧ readString body = .error error := by
  unfold move at h
  split at h
  · cases h
    simp
  · simp [error?_fill] at h
  split at h
  · cases h
    simp
  cases lexeme with
  | lparen => cases h
  | rparen =>
    cases h
    simp
  | quote =>
    simp only [start] at h
    split at h
    · cases h
      simp
    · cases h
  | string body => simp [(error?_fillWith levels _ error).1 h]
  | integer digits => simp [(error?_fillWith levels _ error).1 h]
  | identifier name => simp [start, error?_fill] at h

end Level

theorem readInteger_eq_error {digits : String} {error : ReadError}
    (h : readInteger digits = .error error) :
    (error = .tooManyDigits ∧ Text.digitLimit < digits.length) ∨ error = .tooLarge digits := by
  unfold readInteger at h
  split at h
  · next hmany =>
    cases h
    exact .inl ⟨rfl, hmany⟩
  · simp only at h
    split at h
    · cases h
      exact .inr rfl
    · cases h

theorem readString_eq_error {body : String} {error : ReadError}
    (h : readString body = .error error) :
    ∃ cause, error = .badEscape cause ∧ Text.unescape body.toList = .error cause := by
  unfold readString at h
  split at h
  · cases h
  · next cause hcause =>
    cases h
    exact ⟨cause, rfl, hcause⟩

/-- No move finds that a text ends too early. -/
theorem Level.isIncomplete_of_readOn {levels : List Level} {lexemes : List Lexeme}
    {error : ReadError} (h : readOn levels lexemes = .error error) :
    error.isIncomplete = false := by
  obtain ⟨opened, lexeme, _, hmove⟩ := exists_move_of_readOn_error h
  rcases error_cases_of_move hmove with
    rfl | rfl | rfl | ⟨digits, -, hdigits⟩ | ⟨body, -, hbody⟩
  · rfl
  · rfl
  · rfl
  · rcases readInteger_eq_error hdigits with ⟨rfl, -⟩ | rfl
    · rfl
    · rfl
  · obtain ⟨cause, rfl, -⟩ := readString_eq_error hbody
    rfl

/-- The end of a text, behind which a fault of the scanner may stand. -/
def conclude (fault : Option ReadError) :
    Except ReadError (List Node × List Level) → Except ReadError (List Node)
  | .error error => .error error
  | .ok (nodes, levels) =>
    match fault, Level.missing levels with
    | some fault, _ => .error fault
    | none, some error => .error error
    | none, none => .ok nodes

theorem conclude_eq_ok_iff {fault : Option ReadError}
    {read : Except ReadError (List Node × List Level)} {nodes : List Node} :
    conclude fault read = .ok nodes ↔ fault = none ∧ read = .ok (nodes, []) := by
  cases read with
  | error error => simp [conclude]
  | ok result =>
    obtain ⟨nodes', levels⟩ := result
    cases fault with
    | some fault => simp [conclude]
    | none =>
      cases levels with
      | nil => simp [conclude, Level.missing]
      | cons level levels => cases level <;> simp [conclude, Level.missing]

theorem conclude_map (fault : Option ReadError) (f : List Node → List Node)
    (read : Except ReadError (List Node × List Level)) :
    conclude fault (read.map fun (nodes, levels) => (f nodes, levels)) =
      (conclude fault read).map f := by
  cases read with
  | error error => rfl
  | ok result =>
    obtain ⟨nodes, levels⟩ := result
    simp only [Except.map, conclude]
    cases fault with
    | some fault => rfl
    | none => cases Level.missing levels <;> rfl

namespace Cursor

/-- The result or the error that an operation leads to, without the cursor after it. -/
def outcome {α : Type} : Outcome α → Except ReadError α
  | .ok a _ => .ok a
  | .error error _ => .error error

/-- All nodes, when the next one has been read. -/
def andThenAll : Outcome (Option Node) → Except ReadError (List Node)
  | .error error _ => .error error
  | .ok none _ => .ok []
  | .ok (some node) c => (outcome (readAll c)).map (node :: ·)

theorem outcome_readAll (c : Cursor) : outcome (readAll c) = andThenAll (readNode c) := by
  cases h : readNode c with
  | error error c' => rw [readAll_of_error h, outcome, andThenAll]
  | ok result c' =>
    cases result with
    | none => rw [readAll_of_end h, outcome, andThenAll]
    | some node =>
      rw [readAll_of_node h, andThenAll]
      cases readAll c' <;> rfl

theorem andThenAll_resume (fault : Option ReadError) (position : Nat) (levels : List Level)
    (tokens : List Token) :
    andThenAll (resume fault position levels tokens) =
      conclude fault (Level.readOn levels (lexemesOf tokens)) := by
  induction tokens generalizing position levels with
  | nil =>
    simp only [resume, lexemesOf, List.map_nil, Level.readOn, conclude]
    cases fault with
    | some fault => rfl
    | none => cases Level.missing levels <;> rfl
  | cons token rest ih =>
    simp only [lexemesOf, List.map_cons, Level.readOn]
    cases hmove : Level.move levels token.lexeme with
    | shift after =>
      rw [resume_cons hmove (by simp), proceed]
      exact ih token.stop after
    | finish node =>
      -- reading all that follows begins with no level open, as the induction hypothesis allows
      have hrest : outcome (readAll (before fault token.stop rest)) =
          conclude fault (Level.readOn [] (lexemesOf rest)) := by
        rw [outcome_readAll, readNode_before]
        exact ih token.stop []
      rw [resume_cons hmove (by simp), proceed, andThenAll]
      refine (congrArg _ hrest).trans ?_
      exact (conclude_map fault (node :: ·) _).symm
    | reject error =>
      rw [resume_cons hmove (by simp)]
      rfl
    | refuse error =>
      obtain ⟨c, hc⟩ := resume_refuse hmove fault position rest
      rw [hc]
      rfl

end Cursor

/-- Reading a text is reading its lexemes and then its end. -/
theorem readNodes_eq_conclude (text : String) :
    readNodes text =
      conclude (scan text).fault (Level.readOn [] (lexemesOf (scan text).tokens)) := by
  have hcursor : readNodes text = Cursor.outcome (Cursor.ofText text).readAll := by
    unfold readNodes
    cases (Cursor.ofText text).readAll <;> rfl
  rw [hcursor, Cursor.outcome_readAll, Cursor.readNode_eq_resume (Cursor.idle_ofText text)]
  exact Cursor.andThenAll_resume _ 0 [] _

theorem readNodes_append_of_fault {text : String} {tokens : List Token} {fault : ReadError}
    (h : Mode.gap.advance 0 text.toList = (tokens, .error fault)) (more : String) :
    readNodes (text ++ more) = conclude (some fault) (Level.readOn [] (lexemesOf tokens)) := by
  have hscan : scan (text ++ more) = ⟨tokens, some fault⟩ := by
    have happend := Mode.scan_append_of_fault h more.toList
    rw [← String.toList_append] at happend
    exact happend
  rw [readNodes_eq_conclude, hscan]

theorem readNodes_append_eq_of_fault {text : String} {tokens : List Token} {fault : ReadError}
    (h : Mode.gap.advance 0 text.toList = (tokens, .error fault)) (more : String) :
    readNodes (text ++ more) = readNodes text := by
  have htext := readNodes_append_of_fault h ""
  rw [String.append_empty] at htext
  rw [readNodes_append_of_fault h, htext]

theorem readNodes_append_of_mode {text : String} {tokens : List Token} {mode : Mode}
    (h : Mode.gap.advance 0 text.toList = (tokens, .ok mode)) (more : String) :
    readNodes (text ++ more) =
      conclude (mode.scan text.length more.toList).fault
        (Level.readOn []
          (lexemesOf tokens ++ lexemesOf (mode.scan text.length more.toList).tokens)) := by
  have hscan : scan (text ++ more) = (mode.scan text.length more.toList).prepend tokens := by
    have happend := Mode.scan_append_of_mode h more.toList
    rw [← String.toList_append, Nat.zero_add, String.length_toList] at happend
    exact happend
  rw [readNodes_eq_conclude, hscan, Scanned.prepend, lexemesOf_append]

theorem readNodes_of_mode {text : String} {tokens : List Token} {mode : Mode}
    (h : Mode.gap.advance 0 text.toList = (tokens, .ok mode)) :
    readNodes text =
      conclude (mode.finish text.length).fault
        (Level.readOn [] (lexemesOf tokens ++ lexemesOf (mode.finish text.length).tokens)) := by
  have happend := readNodes_append_of_mode h ""
  rwa [String.append_empty] at happend

end FexprLisp
