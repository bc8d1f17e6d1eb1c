import FexprLisp.Proofs.Source.Continuation
import FexprLisp.Proofs.Source.RoundTrip

/-!
# The grammar

Which rows of lexemes nodes are written as, said without the reader, and that the reader accepts
exactly these. What it does not accept it refuses with a failure of the language, except that a
number may have too many digits to be read at all.

## Main definitions

- `Decodes` — the body of a literal stands for a text
- `Lexeme.Writes` — a lexeme by itself is a node
- `Flattens` — a row of lexemes is a row of nodes, one after the other
- `Level.Consumed` — the lexemes that open levels were made from

## Main statements

- `flattens_iff_spellsEach` — the grammar gives the spellings that the reader knows
- `Level.flattens_of_readOn` — what is read is written by the grammar
- `scan_infix` — every lexeme that is found stands in the text
- `readNodes_accepts_grammar` — the reader accepts exactly the grammar
-/

namespace FexprLisp

/-- The body of a literal stands for a text: there are three escapes, and every other character
stands for itself. -/
inductive Decodes : List Char → List Char → Prop
  | nil : Decodes [] []
  | quote {body text : List Char} (h : Decodes body text) :
    Decodes ('\\' :: '"' :: body) ('"' :: text)
  | backslash {body text : List Char} (h : Decodes body text) :
    Decodes ('\\' :: '\\' :: body) ('\\' :: text)
  | feed {body text : List Char} (h : Decodes body text) :
    Decodes ('\\' :: 'n' :: body) ('\n' :: text)
  | plain {c : Char} {body text : List Char} (hc : c ≠ '\\') (h : Decodes body text) :
    Decodes (c :: body) (c :: text)

/-- A lexeme by itself is a node. -/
inductive Lexeme.Writes : Lexeme → Node → Prop
  | name (name : String) : Writes (.identifier name) (.ident name)
  | number {digits : String} {value : Nat} (hdigits : digits.length ≤ 4300)
    (hvalue : Nat.ofDigitChars 10 digits.toList 0 = value) (hmax : value ≤ 2147483647) :
    Writes (.integer digits) (.int value)
  | text {body text : String} (h : Decodes body.toList text.toList) :
    Writes (.string body) (.str text)

/-- A row of lexemes is a row of nodes, one after the other. -/
inductive Flattens : List Node → List Lexeme → Prop
  | nil : Flattens [] []
  | atom {lexeme : Lexeme} {node : Node} {nodes : List Node} {lexemes : List Lexeme}
    (hnode : lexeme.Writes node) (h : Flattens nodes lexemes) :
    Flattens (node :: nodes) (lexeme :: lexemes)
  | quote {node : Node} {nodes : List Node} {inner lexemes : List Lexeme}
    (hnode : Flattens [node] inner) (h : Flattens nodes lexemes) :
    Flattens (.quote node :: nodes) (.quote :: (inner ++ lexemes))
  | list {items nodes : List Node} {inner lexemes : List Lexeme} (hne : items ≠ [])
    (hitems : Flattens items inner) (h : Flattens nodes lexemes) :
    Flattens (.list items :: nodes) (.lparen :: (inner ++ .rparen :: lexemes))

-- ════════════════════════════════════════════════════════════════════════
-- Atoms
-- ════════════════════════════════════════════════════════════════════════

theorem unescape_of_decodes {body text : List Char} (h : Decodes body text) :
    Text.unescape body = .ok text := by
  induction h with
  | nil => rfl
  | quote h ih => simp [Text.unescape, Text.escapeMeaning, ih, Except.map]
  | backslash h ih => simp [Text.unescape, Text.escapeMeaning, ih, Except.map]
  | feed h ih => simp [Text.unescape, Text.escapeMeaning, ih, Except.map]
  | plain hc h ih => rw [Text.unescape_cons_of_ne hc, ih, Except.map]

theorem decodes_of_escapeMeaning {e c : Char} (h : Text.escapeMeaning e = some c)
    {body text : List Char} (hbody : Decodes body text) :
    Decodes ('\\' :: e :: body) (c :: text) := by
  unfold Text.escapeMeaning at h
  split at h
  · next he =>
    cases h
    exact he ▸ hbody.quote
  split at h
  · next he =>
    cases h
    exact he ▸ hbody.backslash
  split at h
  · next he =>
    cases h
    exact he ▸ hbody.feed
  · cases h

theorem decodes_of_unescape {body text : List Char} (h : Text.unescape body = .ok text) :
    Decodes body text := by
  fun_induction Text.unescape body generalizing text with
  | case1 =>
    cases h
    exact .nil
  | case2 => cases h
  | case3 e rest hnone => cases h
  | case4 e rest c hsome ih =>
    cases hrest : Text.unescape rest with
    | error error => simp [hrest, Except.map] at h
    | ok later =>
      simp only [hrest, Except.map, Except.ok.injEq] at h
      exact h ▸ decodes_of_escapeMeaning hsome (ih hrest)
  | case5 c rest hlast hescape ih =>
    cases hrest : Text.unescape rest with
    | error error => simp [hrest, Except.map] at h
    | ok later =>
      simp only [hrest, Except.map, Except.ok.injEq] at h
      exact h ▸ .plain (Text.ne_backslash hlast hescape) (ih hrest)

theorem Lexeme.Writes.denotes {lexeme : Lexeme} {node : Node} (h : lexeme.Writes node) :
    lexeme.Denotes node := by
  cases h with
  | name name => rfl
  | number hdigits hvalue hmax =>
    have hlimit : ¬ Text.digitLimit < _ := Nat.not_lt.2 hdigits
    simp only [Denotes, readInteger, if_neg hlimit, hvalue]
    rw [if_neg (by unfold maxInt; omega)]
  | text h => simp [Denotes, readString, unescape_of_decodes h]

theorem Lexeme.Denotes.writes {lexeme : Lexeme} {node : Node} (h : lexeme.Denotes node) :
    lexeme.Writes node := by
  cases lexeme with
  | identifier name =>
    simp only [Denotes] at h
    exact h ▸ .name name
  | integer digits =>
    simp only [Denotes, readInteger] at h
    split at h
    · cases h
    · next hdigits =>
      split at h
      · cases h
      · next hmax =>
        cases h
        unfold maxInt at hmax
        exact .number (Nat.not_lt.1 hdigits) rfl (by omega)
  | string body =>
    simp only [Denotes, readString] at h
    split at h
    · next text htext =>
      cases h
      refine .text ?_
      rw [String.toList_ofList]
      exact decodes_of_unescape htext
    · cases h
  | lparen => exact h.elim
  | rparen => exact h.elim
  | quote => exact h.elim

-- ════════════════════════════════════════════════════════════════════════
-- The grammar gives the spellings that the reader knows
-- ════════════════════════════════════════════════════════════════════════

theorem spells_of_writes {lexeme : Lexeme} {node : Node} (h : lexeme.Writes node) :
    Spells node [lexeme] := by
  refine spells_atom h.denotes ?_ ?_
  · rintro inner rfl
    cases h
  · rintro items rfl
    cases h

theorem spellsEach_of_flattens {nodes : List Node} {lexemes : List Lexeme}
    (h : Flattens nodes lexemes) : SpellsEach nodes lexemes := by
  induction h with
  | nil => rfl
  | atom hnode _ ih => exact ⟨_, _, List.singleton_append.symm, spells_of_writes hnode, ih⟩
  | @quote node nodes inner lexemes _ _ ihnode ih =>
    obtain ⟨first, more, rfl, hfirst, rfl⟩ := ihnode
    exact ⟨.quote :: (first ++ []), lexemes, rfl, ⟨first, by simp, hfirst⟩, ih⟩
  | @list items nodes inner lexemes hne _ _ ihitems ih =>
    refine ⟨.lparen :: (inner ++ [.rparen]), lexemes, by simp, ⟨hne, inner, rfl, ihitems⟩, ih⟩

mutual

theorem flattens_of_spells : ∀ (node : Node) {first : List Lexeme}, Spells node first →
    ∀ {nodes : List Node} {more : List Lexeme}, Flattens nodes more →
    Flattens (node :: nodes) (first ++ more)
  | .ident _, _, ⟨_, rfl, hnode⟩, _, _, h => .atom hnode.writes h
  | .int _, _, ⟨_, rfl, hnode⟩, _, _, h => .atom hnode.writes h
  | .str _, _, ⟨_, rfl, hnode⟩, _, _, h => .atom hnode.writes h
  | .hole, _, ⟨_, rfl, hnode⟩, _, _, h => .atom hnode.writes h
  | .quote node, _, ⟨inner, rfl, hinner⟩, _, _, h => by
    have hnode := flattens_of_spells node hinner .nil
    rw [List.append_nil] at hnode
    exact .quote hnode h
  | .list items, _, ⟨hne, inner, rfl, hinner⟩, _, more, h => by
    have hitems := Flattens.list hne (flattens_of_spellsEach items hinner) h
    simpa using hitems

theorem flattens_of_spellsEach : ∀ (nodes : List Node) {lexemes : List Lexeme},
    SpellsEach nodes lexemes → Flattens nodes lexemes
  | [], _, h => h ▸ .nil
  | node :: nodes, _, ⟨_, _, hlexemes, hfirst, hmore⟩ =>
    hlexemes ▸ flattens_of_spells node hfirst (flattens_of_spellsEach nodes hmore)

end

theorem flattens_iff_spellsEach {nodes : List Node} {lexemes : List Lexeme} :
    Flattens nodes lexemes ↔ SpellsEach nodes lexemes :=
  ⟨spellsEach_of_flattens, flattens_of_spellsEach nodes⟩

theorem Flattens.append {nodes more : List Node} {first later : List Lexeme}
    (h : Flattens nodes first) (hmore : Flattens more later) :
    Flattens (nodes ++ more) (first ++ later) := by
  induction h with
  | nil => exact hmore
  | atom hnode _ ih => exact .atom hnode ih
  | quote hnode _ _ ih =>
    rw [List.cons_append, List.cons_append, List.append_assoc]
    exact .quote hnode ih
  | list hne hitems _ _ ih =>
    rw [List.cons_append, List.cons_append, List.append_assoc, List.cons_append]
    exact .list hne hitems ih

-- ════════════════════════════════════════════════════════════════════════
-- What is read is written by the grammar
-- ════════════════════════════════════════════════════════════════════════

/-- The lexemes that open levels were made from. -/
def Level.Consumed : List Level → List Lexeme → Prop
  | [], lexemes => lexemes = []
  | .quote :: outer, lexemes => ∃ before, lexemes = before ++ [.quote] ∧ Consumed outer before
  | .list read :: outer, lexemes => ∃ before inner, lexemes = before ++ .lparen :: inner ∧
      Consumed outer before ∧ Flattens read.reverse inner

/-- The lexemes that what a move leaves behind was made from. -/
def Move.Consumed : Move → List Lexeme → Prop
  | .shift levels, lexemes => Level.Consumed levels lexemes
  | .finish node, lexemes => Flattens [node] lexemes
  | .reject _, _ | .refuse _, _ => True

namespace Level

theorem fill_consumed {levels : List Level} {before : List Lexeme} (h : Consumed levels before)
    {node : Node} {inner : List Lexeme} (hnode : Flattens [node] inner) :
    (fill levels node).Consumed (before ++ inner) := by
  induction levels generalizing before node inner with
  | nil =>
    cases h
    exact hnode
  | cons level outer ih =>
    cases level with
    | quote =>
      obtain ⟨around, rfl, hout⟩ := h
      have hquote := ih hout (Flattens.quote hnode .nil)
      simpa [fill] using hquote
    | list read =>
      obtain ⟨around, items, rfl, hout, hread⟩ := h
      refine ⟨around, items ++ inner, by simp, hout, ?_⟩
      rw [List.reverse_cons]
      exact hread.append hnode

theorem fillWith_consumed {levels : List Level} {before : List Lexeme} (h : Consumed levels before)
    {lexeme : Lexeme} {result : Except ReadError Node}
    (hresult : ∀ node, result = .ok node → lexeme.Denotes node) :
    (fillWith levels result).Consumed (before ++ [lexeme]) := by
  cases result with
  | error error => trivial
  | ok node => exact fill_consumed h (.atom (hresult node rfl).writes .nil)

theorem start_consumed {levels : List Level} {before : List Lexeme} (h : Consumed levels before)
    (lexeme : Lexeme) : (start levels lexeme).Consumed (before ++ [lexeme]) := by
  cases lexeme with
  | lparen => exact ⟨before, [], rfl, h, .nil⟩
  | rparen => trivial
  | quote =>
    simp only [start]
    split
    · trivial
    · exact ⟨before, rfl, h⟩
  | string body => exact fillWith_consumed h fun _ hnode => hnode
  | integer digits => exact fillWith_consumed h fun _ hnode => hnode
  | identifier name => exact fill_consumed h (.atom (.name name) .nil)

theorem move_consumed {levels : List Level} {before : List Lexeme} (h : Consumed levels before)
    (lexeme : Lexeme) : (move levels lexeme).Consumed (before ++ [lexeme]) := by
  unfold move
  split
  · trivial
  · next item read outer =>
    obtain ⟨around, items, rfl, hout, hread⟩ := h
    have hlist := fill_consumed hout (Flattens.list (by simp) hread .nil)
    simpa using hlist
  · split
    · trivial
    · exact start_consumed h lexeme

theorem readOn_consumed {levels opened : List Level} {before lexemes : List Lexeme}
    {nodes : List Node} (hlevels : Consumed levels before)
    (h : readOn levels lexemes = .ok (nodes, opened)) :
    ∃ first rest, before ++ lexemes = first ++ rest ∧ Flattens nodes first ∧
      Consumed opened rest := by
  induction lexemes generalizing levels before nodes with
  | nil =>
    simp only [readOn, Except.ok.injEq, Prod.mk.injEq] at h
    obtain ⟨rfl, rfl⟩ := h
    exact ⟨[], before, by simp, .nil, hlevels⟩
  | cons lexeme lexemes ih =>
    have hmoved := move_consumed hlevels lexeme
    cases hmove : move levels lexeme with
    | shift after =>
      rw [hmove] at hmoved
      simp only [readOn, hmove] at h
      obtain ⟨first, rest, hsplit, hfirst, hrest⟩ := ih hmoved h
      exact ⟨first, rest, by simpa using hsplit, hfirst, hrest⟩
    | finish node =>
      rw [hmove] at hmoved
      simp only [readOn, hmove] at h
      cases hlater : readOn [] lexemes with
      | error error => simp [hlater, Except.map] at h
      | ok result =>
        obtain ⟨later, opened'⟩ := result
        simp only [hlater, Except.map, Except.ok.injEq, Prod.mk.injEq] at h
        obtain ⟨rfl, rfl⟩ := h
        obtain ⟨first, rest, hsplit, hfirst, hrest⟩ := ih (show Consumed [] [] from rfl) hlater
        refine ⟨before ++ [lexeme] ++ first, rest, ?_, hmoved.append hfirst, hrest⟩
        simpa using hsplit
    | reject error => simp [readOn, hmove] at h
    | refuse error => simp [readOn, hmove] at h

theorem flattens_of_readOn {lexemes : List Lexeme} {nodes : List Node}
    (h : readOn [] lexemes = .ok (nodes, [])) : Flattens nodes lexemes := by
  obtain ⟨first, rest, hsplit, hfirst, rfl⟩ := readOn_consumed (show Consumed [] [] from rfl) h
  rw [List.nil_append, List.append_nil] at hsplit
  exact hsplit ▸ hfirst

end Level

-- ════════════════════════════════════════════════════════════════════════
-- Every lexeme stands in the text
-- ════════════════════════════════════════════════════════════════════════

namespace Mode

/-- The characters of an open lexeme are the last of those that were scanned. -/
def Trails : Mode → List Char → Prop
  | .gap, _ => True
  | .number read, scanned => read.reverse <:+ scanned
  | .name read, scanned => read.reverse <:+ scanned
  | .string _ read _ _, scanned => '"' :: read.reverse <:+ scanned

/-- All tokens stand in what was scanned, and what is left open stands at its end. -/
def TrailsStep (step : List Token × Mode) (scanned : List Char) : Prop :=
  (∀ token ∈ step.1, token.lexeme.text.toList <:+: scanned) ∧ step.2.Trails scanned

theorem suffix_snoc {read scanned : List Char} (h : read <:+ scanned) (c : Char) :
    read ++ [c] <:+ scanned ++ [c] := by
  obtain ⟨before, rfl⟩ := h
  exact ⟨before, by simp⟩

theorem start_trails {position : Nat} {c : Char} {step : List Token × Mode}
    (h : Mode.start position c = .ok step) (scanned : List Char) :
    TrailsStep step (scanned ++ [c]) := by
  have hlast : [c] <:+ scanned ++ [c] := List.suffix_append scanned [c]
  rcases start_cases h with ⟨-, rfl⟩ | ⟨lexeme, -, -, htext, rfl⟩ | ⟨rfl, rfl⟩ | ⟨-, rfl⟩ | ⟨-, rfl⟩
  · exact ⟨by simp, trivial⟩
  · refine ⟨?_, trivial⟩
    intro token htoken
    rw [List.mem_singleton.1 htoken, htext]
    exact hlast.isInfix
  · exact ⟨by simp, hlast⟩
  · exact ⟨by simp, hlast⟩
  · exact ⟨by simp, hlast⟩

theorem endWord_trails {lexeme : Lexeme} {scanned : List Char}
    (hlexeme : lexeme.text.toList <:+ scanned) {position : Nat} {c : Char}
    {step : List Token × Mode} (h : Mode.endWord lexeme position c = .ok step) :
    TrailsStep step (scanned ++ [c]) := by
  obtain ⟨first, hstart, rfl⟩ := exists_start_of_endWord h
  obtain ⟨htokens, hmode⟩ := start_trails hstart scanned
  refine ⟨?_, hmode⟩
  intro token htoken
  rcases List.mem_cons.1 htoken with rfl | htoken
  · exact hlexeme.isInfix.trans (List.prefix_append scanned [c]).isInfix
  · exact htokens token htoken

theorem next_trails {mode : Mode} {scanned : List Char} (hmode : mode.Trails scanned)
    {position : Nat} {c : Char} {step : List Token × Mode}
    (h : mode.next position c = .ok step) : TrailsStep step (scanned ++ [c]) := by
  cases mode with
  | gap => exact start_trails h scanned
  | number read =>
    simp only [Mode.next] at h
    split at h
    · cases h
      exact ⟨by simp, by simpa [Trails] using suffix_snoc hmode c⟩
    · exact endWord_trails (by simpa [Lexeme.text, Trails] using hmode) h
  | name read =>
    simp only [Mode.next] at h
    split at h
    · cases h
      exact ⟨by simp, by simpa [Trails] using suffix_snoc hmode c⟩
    · exact endWord_trails (by simpa [Lexeme.text, Trails] using hmode) h
  | string start read escaping spoiled =>
    have hgrown : '"' :: (c :: read).reverse <:+ scanned ++ [c] := by
      simpa using suffix_snoc hmode c
    cases escaping with
    | true =>
      cases h
      exact ⟨by simp, hgrown⟩
    | false =>
      simp only [Mode.next] at h
      split at h
      · cases h
        exact ⟨by simp, hgrown⟩
      split at h
      · next hquote =>
        split at h
        · cases h
        · cases h
          refine ⟨?_, trivial⟩
          intro token htoken
          rw [List.mem_singleton.1 htoken]
          -- the quote that closes the literal belongs to its text, but not to what was kept open
          have htext : (Lexeme.string (String.ofList read.reverse)).text.toList =
              '"' :: (c :: read).reverse := by
            simp [Lexeme.text, hquote]
          exact htext ▸ hgrown.isInfix
      · cases h
        exact ⟨by simp, hgrown⟩

theorem finish_trails {mode : Mode} {scanned : List Char} (hmode : mode.Trails scanned)
    (position : Nat) :
    ∀ token ∈ (mode.finish position).tokens, token.lexeme.text.toList <:+: scanned := by
  cases mode with
  | gap => simp [Mode.finish]
  | number read => simpa [Mode.finish, Lexeme.text] using List.IsSuffix.isInfix hmode
  | name read => simpa [Mode.finish, Lexeme.text] using List.IsSuffix.isInfix hmode
  | string start read escaping spoiled => simp [Mode.finish]

theorem scan_trails {mode : Mode} {scanned : List Char} (hmode : mode.Trails scanned)
    (position : Nat) (text : List Char) :
    ∀ token ∈ (mode.scan position text).tokens,
      token.lexeme.text.toList <:+: scanned ++ text := by
  induction text generalizing mode position scanned with
  | nil =>
    rw [List.append_nil]
    exact finish_trails hmode position
  | cons c rest ih =>
    cases h : mode.next position c with
    | error fault => simp [Mode.scan, h]
    | ok step =>
      obtain ⟨tokens, after⟩ := step
      obtain ⟨htokens, hafter⟩ := next_trails hmode h
      have happend : scanned ++ c :: rest = scanned ++ [c] ++ rest := by simp
      rw [scan_cons h, happend]
      intro token htoken
      rcases List.mem_append.1 htoken with htoken | htoken
      · exact (htokens token htoken).trans (List.prefix_append _ rest).isInfix
      · exact ih hafter (position + 1) token htoken

end Mode

/-- Every lexeme that is found stands in the text. -/
theorem scan_infix (text : String) :
    ∀ token ∈ (scan text).tokens, token.lexeme.text.toList <:+: text.toList :=
  Mode.scan_trails (show Mode.gap.Trails [] from trivial) 0 _

-- ════════════════════════════════════════════════════════════════════════
-- What is not read is refused with a failure
-- ════════════════════════════════════════════════════════════════════════

/-- A user is told that a text is unreadable or that it ends too early. -/
def ReadError.IsTold (error : ReadError) : Prop :=
  ∃ failure, error.failure? = some failure ∧
    (failure.kind = .unreadable ∨ failure.kind = .incomplete)

theorem Mode.isTold_of_fault {mode : Mode} {position : Nat} {text : List Char} {fault : ReadError}
    (h : (mode.scan position text).fault = some fault) : fault.IsTold := by
  induction text generalizing mode position with
  | nil =>
    cases mode with
    | string start read escaping spoiled =>
      cases h
      exact ⟨_, rfl, .inr rfl⟩
    | _ => cases h
  | cons c rest ih =>
    cases hnext : mode.next position c with
    | error error =>
      simp only [Mode.scan, hnext, Option.some.injEq] at h
      obtain ⟨place, d, rfl⟩ := isUnexpected_of_next (hnext.trans (congrArg _ h))
      exact ⟨_, rfl, .inl rfl⟩
    | ok step =>
      obtain ⟨tokens, after⟩ := step
      rw [scan_cons hnext] at h
      exact ih h

theorem Level.isTold_of_missing {levels : List Level} {error : ReadError}
    (h : missing levels = some error) : error.IsTold := by
  cases levels with
  | nil => cases h
  | cons level outer =>
    cases level with
    | quote =>
      cases h
      exact ⟨_, rfl, .inr rfl⟩
    | list read =>
      cases h
      exact ⟨_, rfl, .inr rfl⟩

/-- A row of well-formed lexemes is refused with a failure, unless a number has too many digits. -/
theorem Level.isTold_or_long_of_readOn {lexemes : List Lexeme}
    (hform : ∀ lexeme ∈ lexemes, lexeme.wellFormed = true)
    {levels : List Level} {error : ReadError} (h : readOn levels lexemes = .error error) :
    error.IsTold ∨ error = .tooManyDigits ∧
      ∃ digits, Lexeme.integer digits ∈ lexemes ∧ Text.digitLimit < digits.length := by
  obtain ⟨opened, lexeme, hmem, hmove⟩ := exists_move_of_readOn_error h
  rcases error_cases_of_move hmove with
    rfl | rfl | rfl | ⟨digits, rfl, hdigits⟩ | ⟨body, rfl, hbody⟩
  · exact .inl ⟨_, rfl, .inl rfl⟩
  · exact .inl ⟨_, rfl, .inl rfl⟩
  · exact .inl ⟨_, rfl, .inl rfl⟩
  · rcases readInteger_eq_error hdigits with ⟨rfl, hmany⟩ | rfl
    · exact .inr ⟨rfl, digits, hmem, hmany⟩
    · exact .inl ⟨_, rfl, .inl rfl⟩
  · obtain ⟨cause, rfl, hcause⟩ := readString_eq_error hbody
    cases cause with
    | unknown c => exact .inl ⟨_, rfl, .inl rfl⟩
    | dangling => exact absurd hcause (unescape_ne_dangling (hform _ hmem))

/-- A text that is not read is refused with a failure, unless too many digits stand in a row. -/
theorem isTold_or_long_of_readNodes {text : String} {error : ReadError}
    (h : readNodes text = .error error) :
    error.IsTold ∨ error = .tooManyDigits ∧
      ∃ run, run <:+: text.toList ∧ run.all Char.isDigit = true ∧ 4300 < run.length := by
  have hform : ∀ lexeme ∈ lexemesOf (scan text).tokens, lexeme.wellFormed = true := by
    intro lexeme hlexeme
    obtain ⟨token, htoken, rfl⟩ := List.mem_map.1 hlexeme
    exact scan_wellFormed text token htoken
  rw [readNodes_eq_conclude] at h
  cases hread : Level.readOn [] (lexemesOf (scan text).tokens) with
  | error error' =>
    simp only [hread, conclude, Except.error.injEq] at h
    subst h
    refine (Level.isTold_or_long_of_readOn hform hread).imp_right ?_
    rintro ⟨herror, digits, hlexeme, hmany⟩
    have hnumeral := hform _ hlexeme
    simp only [Lexeme.wellFormed, isNumeral, Bool.and_eq_true] at hnumeral
    obtain ⟨token, htoken, hinteger⟩ := List.mem_map.1 hlexeme
    have hinfix := scan_infix text token htoken
    rw [hinteger] at hinfix
    rw [← String.length_toList] at hmany
    exact ⟨herror, digits.toList, hinfix, hnumeral.2, hmany⟩
  | ok result =>
    obtain ⟨nodes, levels⟩ := result
    left
    cases hfault : (scan text).fault with
    | some fault =>
      simp only [hread, hfault, conclude, Except.error.injEq] at h
      exact h ▸ Mode.isTold_of_fault hfault
    | none =>
      cases hmissing : Level.missing levels with
      | none => simp [hread, hfault, hmissing, conclude] at h
      | some error' =>
        simp only [hread, hfault, hmissing, conclude, Except.error.injEq] at h
        exact h ▸ Level.isTold_of_missing hmissing

theorem isTold_of_readNodes {text : String}
    (hshort : ∀ run, run <:+: text.toList → run.all Char.isDigit = true → run.length ≤ 4300)
    {error : ReadError} (h : readNodes text = .error error) : error.IsTold := by
  rcases isTold_or_long_of_readNodes h with htold | ⟨-, run, hrun, hdigits, hmany⟩
  · exact htold
  · have hfew := hshort run hrun hdigits
    omega

-- ════════════════════════════════════════════════════════════════════════
-- The reader accepts exactly the grammar
-- ════════════════════════════════════════════════════════════════════════

theorem readNodes_eq_ok_iff {text : String} {nodes : List Node} :
    readNodes text = .ok nodes ↔
      (scan text).fault = none ∧ Flattens nodes (lexemesOf (scan text).tokens) ∧
        ∀ node ∈ nodes, node.nesting ≤ maxNesting := by
  constructor
  · intro h
    have hfit : ∀ node ∈ nodes, node.nesting ≤ maxNesting :=
      fun node hnode => (readNodes_readable h node hnode).2
    rw [readNodes_eq_conclude, conclude_eq_ok_iff] at h
    exact ⟨h.1, Level.flattens_of_readOn h.2, hfit⟩
  · rintro ⟨hfault, hflat, hfit⟩
    have hscan : Mode.gap.scan 0 text.toList = ⟨(scan text).tokens, none⟩ := by
      rw [← hfault]
      rfl
    obtain ⟨c, hall⟩ := Cursor.readAll_spelled (flattens_iff_spellsEach.1 hflat) hfit 0
    rw [readNodes, ofText_eq_before hscan, hall]

/-- The reader accepts exactly the grammar: it reads some nodes from a text if and only if the text
is scanned without a fault, its lexemes are these nodes one after the other, and none of them is
nested deeper than 256 levels. From a text without a run of more than 4300 digits it reads nodes or
tells that the text is unreadable or ends too early, and no string literal that is scanned ends in
the middle of an escape. -/
theorem readNodes_accepts_grammar :
    (∀ (text : String) (nodes : List Node), readNodes text = .ok nodes ↔
      (scan text).fault = none ∧ Flattens nodes (lexemesOf (scan text).tokens) ∧
        ∀ node ∈ nodes, node.nesting ≤ 256) ∧
    (∀ text : String,
      (∀ run, run <:+: text.toList → run.all Char.isDigit = true → run.length ≤ 4300) →
      (∃ nodes, readNodes text = .ok nodes) ∨
        ∃ error failure, readNodes text = .error error ∧ error.failure? = some failure ∧
          (failure.kind = .unreadable ∨ failure.kind = .incomplete)) ∧
    ∀ (text : String) (body : String), Lexeme.string body ∈ lexemesOf (scan text).tokens →
      Text.unescape body.toList ≠ .error .dangling := by
  refine ⟨fun text nodes => readNodes_eq_ok_iff, fun text hshort => ?_, fun text body hbody => ?_⟩
  · cases h : readNodes text with
    | ok nodes => exact .inl ⟨nodes, rfl⟩
    | error error =>
      obtain ⟨failure, hfailure, hkind⟩ := isTold_of_readNodes hshort h
      exact .inr ⟨error, failure, rfl, hfailure, hkind⟩
  · obtain ⟨token, htoken, hstring⟩ := List.mem_map.1 hbody
    have hform := scan_wellFormed text token htoken
    rw [hstring] at hform
    exact unescape_ne_dangling hform

/-- A quoted list of a name, a number with leading zeros and a text with an escape is read; a list
that goes on for too long is told to end too early. -/
theorem readNodes_accepts_grammar_quoted_list :
    readNodes "'(f 007 \"\\n\")" = .ok [.quote (.list [.ident "f", .int 7, .str "\n"])] ∧
    (∃ error failure, readNodes "(f 007" = .error error ∧ error.failure? = some failure ∧
      (failure.kind = .unreadable ∨ failure.kind = .incomplete)) ∧
    Text.unescape "\\n".toList ≠ .error .dangling := by
  obtain ⟨hgrammar, htold, hescape⟩ := readNodes_accepts_grammar
  refine ⟨(hgrammar _ _).2 ⟨by decide, ?_, by decide⟩, ?_, ?_⟩
  · have hlexemes : lexemesOf (scan "'(f 007 \"\\n\")").tokens =
        [.quote, .lparen, .identifier "f", .integer "007", .string "\\n", .rparen] := by
      decide
    have htext : Flattens [.str "\n"] [.string "\\n"] :=
      .atom (.text (Decodes.feed .nil)) .nil
    have hnumber : Flattens [.int 7, .str "\n"] [.integer "007", .string "\\n"] :=
      .atom (.number (by decide) rfl (by decide)) htext
    have hlist := Flattens.list (by simp) (.atom (.name "f") hnumber) .nil
    rw [hlexemes]
    exact .quote hlist .nil
  · have hread : ¬ ∃ nodes, readNodes "(f 007" = .ok nodes := by
      rintro ⟨nodes, hnodes⟩
      rw [readNodes_eq_conclude, conclude_eq_ok_iff] at hnodes
      cases hnodes.2
    refine (htold "(f 007" ?_).resolve_left hread
    intro run hrun _
    exact Nat.le_trans hrun.length_le (by decide)
  · exact hescape "\"\\n\"" "\\n" (by decide)

end FexprLisp
