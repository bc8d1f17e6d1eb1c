import FexprLisp.Proofs.Source.Descent

/-!
# Open levels

Reading can be told without descending: what is open at any moment is a stack of levels, quotations
that wait for their node and lists that wait for more items or their closing parenthesis, and each
token does something to these levels. The two ways to read lead to the same.

## Main definitions

- `Level` — an open quotation or list
- `Level.move` — what one token does to the open levels
- `Cursor.resume` — reading on with some levels open
- `Cursor.before` — the cursor before some tokens
- `Cursor.Idle` — a cursor that is in no level and has looked at one token at most

## Main statements

- `Cursor.resume_eq_descend`, `Cursor.resume_eq_descendList` — reading on with levels open is the
  descent inside them
- `Cursor.readNode_eq_resume` — reading a node is reading on with no level open
-/

namespace FexprLisp

/-- Something open around the next token. -/
inductive Level where
  /-- A quotation that waits for its node. -/
  | quote
  /-- A list, with the items read so far in reverse. -/
  | list (read : List Node)
deriving DecidableEq, Repr

/-- What a token does to the open levels. -/
inductive Move where
  /-- The token is consumed and these levels are open after it. -/
  | shift (levels : List Level)
  /-- The token is consumed and completes a node that stands in no level. -/
  | finish (node : Node)
  /-- The token is consumed and an error found. -/
  | reject (error : ReadError)
  /-- An error is found before the token is consumed. -/
  | refuse (error : ReadError)
deriving DecidableEq, Repr

namespace Level

/-- A complete node is handed to the innermost level, and completes the quotations around it. -/
def fill : List Level → Node → Move
  | [], node => .finish node
  | .quote :: outer, node => fill outer (.quote node)
  | .list read :: outer, node => .shift (.list (node :: read) :: outer)

/-- A literal completes a node, or is rejected. -/
def fillWith (levels : List Level) : Except ReadError Node → Move
  | .ok node => fill levels node
  | .error error => .reject error

/-- What a token does where a node should start. -/
def start (levels : List Level) : Lexeme → Move
  | .lparen => .shift (.list [] :: levels)
  | .rparen => .reject .unexpectedClose
  | .quote =>
    if maxNesting ≤ levels.length then .reject .tooDeep else .shift (.quote :: levels)
  | .string body => fillWith levels (readString body)
  | .integer digits => fillWith levels (readInteger digits)
  | .identifier name => fill levels (.ident name)

/-- What a token does to the open levels. -/
def move : List Level → Lexeme → Move
  | .list [] :: _, .rparen => .reject .emptyList
  | .list (item :: read) :: outer, .rparen => fill outer (.list (item :: read).reverse)
  | levels, lexeme =>
    if maxNesting < levels.length then .refuse .tooDeep else start levels lexeme

/-- What is missing when the text ends inside these levels. -/
def missing : List Level → Option ReadError
  | [] => none
  | .quote :: _ => some .unexpectedEnd
  | .list _ :: _ => some .unmatchedOpen

/-- Only a closing parenthesis does something to an open list that other tokens cannot do. -/
theorem move_of_ne_rparen {lexeme : Lexeme} (h : lexeme ≠ .rparen) (levels : List Level) :
    move levels lexeme =
      if maxNesting < levels.length then .refuse .tooDeep else start levels lexeme :=
  move.eq_3 levels lexeme (fun _ _ hl => absurd hl h) (fun _ _ _ _ hl => absurd hl h)

theorem fill_ne_refuse (levels : List Level) (node : Node) (error : ReadError) :
    fill levels node ≠ .refuse error := by
  induction levels generalizing node with
  | nil => simp [fill]
  | cons level levels ih =>
    cases level with
    | quote => exact ih (.quote node)
    | list read => simp [fill]

theorem fillWith_ne_refuse (levels : List Level) (result : Except ReadError Node)
    (error : ReadError) : fillWith levels result ≠ .refuse error := by
  cases result with
  | ok node => exact fill_ne_refuse levels node error
  | error found => simp [fillWith]

end Level

namespace Cursor

/-- Reads on, with the given levels open, until a node is complete. -/
def resume (fault : Option ReadError) (position : Nat) (levels : List Level) :
    List Token → Outcome (Option Node)
  | [] =>
    match fault, Level.missing levels with
    | some fault, _ => .error fault { upcoming := [], position }
    | none, some error => .error error { upcoming := [], position }
    | none, none => .ok none { upcoming := [], position }
  | token :: rest =>
    match Level.move levels token.lexeme with
    | .shift levels => resume fault token.stop levels rest
    | .finish node => .ok (some node) { upcoming := rest, fault, position := token.stop }
    | .reject error => .error error { upcoming := rest, fault, position := token.stop }
    | .refuse error => .error error { buffer := [token], upcoming := rest, fault, position }

/-- How reading goes on after a move that consumed a token. -/
def proceed (fault : Option ReadError) (position : Nat) (rest : List Token) :
    Move → Outcome (Option Node)
  | .shift levels => resume fault position levels rest
  | .finish node => .ok (some node) { upcoming := rest, fault, position }
  | .reject error | .refuse error => .error error { upcoming := rest, fault, position }

theorem resume_cons {levels : List Level} {token : Token} {move : Move}
    (h : Level.move levels token.lexeme = move) (hne : ∀ error, move ≠ .refuse error)
    (fault : Option ReadError) (position : Nat) (rest : List Token) :
    resume fault position levels (token :: rest) = proceed fault token.stop rest move := by
  cases move with
  | refuse error => exact absurd rfl (hne error)
  | _ => simp [resume, h, proceed]

theorem resume_refuse {levels : List Level} {token : Token} {error : ReadError}
    (h : Level.move levels token.lexeme = .refuse error) (fault : Option ReadError)
    (position : Nat) (rest : List Token) :
    ∃ c, resume fault position levels (token :: rest) = .error error c :=
  ⟨_, by rw [resume, h]⟩

-- ════════════════════════════════════════════════════════════════════════
-- The descent inside open levels
-- ════════════════════════════════════════════════════════════════════════

/-- The cursor before some tokens, none of which has been looked at. -/
def before (fault : Option ReadError) (position : Nat) (tokens : List Token) : Cursor :=
  { upcoming := tokens, fault, position }

/-- A cursor in no level, which has looked at one token at most. -/
structure Idle (c : Cursor) : Prop where
  nesting : c.nesting = 0
  lookahead : c.lookahead ≤ 1

theorem idle_before (fault : Option ReadError) (position : Nat) (tokens : List Token) :
    (before fault position tokens).Idle :=
  ⟨rfl, Nat.zero_le 1⟩

theorem idle_ofText (text : String) : (ofText text).Idle :=
  idle_before (scan text).fault 0 (scan text).tokens

/-- Consuming tokens leaves a cursor as idle as it was. -/
theorem Idle.consumes {c c' : Cursor} {tokens : List Token} (h : c.Idle)
    (hconsumes : Consumes c tokens c') : c'.Idle where
  nesting := hconsumes.moved.nesting.trans h.nesting
  lookahead := hconsumes.moved.lookahead h.lookahead

/-- The cursor with all levels left. -/
def surfaced (c : Cursor) : Cursor :=
  { c with nesting := 0 }

theorem surfaced_of_end {c : Cursor} (h : c.pending = []) :
    c.surfaced = before c.fault c.position [] := by
  obtain ⟨buffer, upcoming, fault, position, nesting⟩ := c
  obtain ⟨rfl, rfl⟩ := List.append_eq_nil_iff.1 h
  rfl

theorem surfaced_cleared {c : Cursor} (h : c.pending = []) :
    c.cleared.surfaced = before none c.position [] :=
  surfaced_of_end (c := c.cleared) h

theorem surfaced_eq {c : Cursor} (h : c.nesting = 0) : c.surfaced = c := by
  rw [surfaced, ← h]

/-- Outside all levels, the end of the tokens looks the same however they were consumed. -/
theorem eq_before_of_pending {c : Cursor} (h : c.nesting = 0) (hpending : c.pending = []) :
    c = before c.fault c.position [] := by
  rw [← surfaced_of_end hpending, surfaced_eq h]

/-- A node may start at a cursor inside some levels. -/
structure Awaits (levels : List Level) (c : Cursor) : Prop where
  ended : c.pending = [] → c.fault = none → Level.missing levels = some .unexpectedEnd
  started : ∀ token rest, c.pending = token :: rest → Level.move levels token.lexeme =
    if maxNesting < levels.length then .refuse .tooDeep else Level.start levels token.lexeme

theorem awaits_nil {c : Cursor} {token : Token} {rest : List Token}
    (h : c.pending = token :: rest) : Awaits [] c where
  ended hnil := by
    rw [hnil] at h
    cases h
  started _ _ _ := rfl

theorem awaits_quote (outer : List Level) (c : Cursor) : Awaits (.quote :: outer) c :=
  ⟨fun _ _ => rfl, fun _ _ _ => rfl⟩

theorem awaits_item {c : Cursor} {token : Token} {rest : List Token}
    (h : c.pending = token :: rest) (hne : token.lexeme ≠ .rparen) (read : List Node)
    (outer : List Level) : Awaits (.list read :: outer) c where
  ended hnil := by
    rw [hnil] at h
    cases h
  started first later hpending := by
    obtain ⟨rfl, rfl⟩ := List.cons.inj (h.symm.trans hpending)
    exact Level.move_of_ne_rparen hne _

/-- A node that was read inside some levels is handed to them, and reading goes on from there. -/
def Outcome.handTo (levels : List Level) : Outcome Node → Outcome (Option Node)
  | .error error c => .error error c.surfaced
  | .ok node c =>
    match Level.fill levels node with
    | .shift levels => resume c.fault c.position levels c.pending
    | .finish node => .ok (some node) c.surfaced
    | .reject error | .refuse error => .error error c.surfaced

theorem Outcome.handTo_quoted (levels : List Level) (result : Outcome Node) :
    result.quoted.handTo levels = result.handTo (.quote :: levels) := by
  cases result <;> rfl

theorem Outcome.handTo_nil (result : Outcome Node) (h : result.cursor.nesting = 0) :
    result.handTo [] = result.found := by
  cases result with
  | ok node c =>
    have hc : c.surfaced = c := surfaced_eq h
    simp only [handTo, Level.fill, found, hc]
  | error error c =>
    have hc : c.surfaced = c := surfaced_eq h
    simp only [handTo, found, hc]

theorem nested_of_room {α : Type} {c : Cursor} (h : c.nesting < maxNesting)
    (body : (inner : Cursor) → inner.pending = c.pending → Outcome α) :
    c.nested body = match body c.deeper rfl with
      | .ok a inner => .ok a inner.shallower
      | .error error inner => .error error inner.shallower :=
  if_neg (Int.not_le.2 h)

theorem handTo_nested {c : Cursor} (h : c.nesting < maxNesting) (levels : List Level)
    (body : (inner : Cursor) → inner.pending = c.pending → Outcome Node) :
    (c.nested body).handTo levels = (body c.deeper rfl).handTo levels := by
  rw [nested_of_room h]
  cases body c.deeper rfl <;> rfl

theorem handTo_give (levels : List Level) (c : Cursor) (token : Token) (rest : List Token)
    (result : Except ReadError Node) :
    ((c.behind token rest).give result).handTo levels =
      proceed c.fault token.stop rest (Level.fillWith levels result) := by
  cases result with
  | error error => rfl
  | ok node =>
    simp only [give, Outcome.handTo, Level.fillWith]
    cases Level.fill levels node <;> rfl

/-- A parenthesis closes the innermost list. -/
theorem resume_eq_close {c : Cursor} {token : Token} {rest : List Token} (hle : c.lookahead ≤ 1)
    (h : c.pending = token :: rest) (hclose : token.lexeme = .rparen) (read : List Node)
    (outer : List Level) :
    resume c.fault c.position (.list read :: outer) c.pending = (c.close read).handTo outer := by
  rw [h]
  cases read with
  | nil =>
    have hmove : Level.move (.list [] :: outer) token.lexeme = .reject .emptyList := by
      rw [hclose]
      rfl
    rw [resume_cons hmove (by simp)]
    simp only [close, advance_of_pending hle h]
    rfl
  | cons item read =>
    have hmove : Level.move (.list (item :: read) :: outer) token.lexeme =
        Level.fill outer (.list (item :: read).reverse) := by
      rw [hclose]
      rfl
    rw [resume_cons hmove (Level.fill_ne_refuse _ _)]
    simp only [close, advance_of_pending hle h]
    exact (handTo_give outer c token rest (.ok (.list (item :: read).reverse))).symm

mutual

/-- Reading on inside some levels, where a node may start, is the descent to that node. -/
theorem resume_eq_descend (c : Cursor) (levels : List Level) (hle : c.lookahead ≤ 1)
    (hnesting : c.nesting = levels.length) (hroom : levels.length ≤ maxNesting)
    (hawaits : Awaits levels c) :
    resume c.fault c.position levels c.pending = (descend c).outcome.handTo levels := by
  cases hpending : c.pending with
  | nil =>
    cases hfault : c.fault with
    | some error =>
      rw [descend_of_error (advance_of_fault hpending hfault), Outcome.handTo,
        surfaced_cleared hpending]
      rfl
    | none =>
      rw [descend_of_error (advance_of_end hpending hfault), Outcome.handTo,
        surfaced_of_end hpending, hfault]
      simp only [resume, hawaits.ended hpending hfault, before]
  | cons token rest =>
    have hadvance := advance_of_pending hle hpending
    have hlt : rest.length < c.pending.length := c.shortens_advance _ _ hadvance
    have hmove := hawaits.started token rest hpending
    rw [if_neg (Nat.not_lt.2 hroom)] at hmove
    rw [descend_of_token hadvance]
    obtain ⟨lexeme, stop⟩ := token
    cases lexeme with
    | identifier name =>
      have hfill : Level.move levels _ = Level.fill levels (.ident name) := hmove
      rw [resume_cons hfill (Level.fill_ne_refuse _ _)]
      exact (handTo_give levels c _ rest (.ok (.ident name))).symm
    | integer digits =>
      have hfill : Level.move levels _ = Level.fillWith levels (readInteger digits) := hmove
      rw [resume_cons hfill (Level.fillWith_ne_refuse _ _)]
      exact (handTo_give levels c _ rest (readInteger digits)).symm
    | string body =>
      have hfill : Level.move levels _ = Level.fillWith levels (readString body) := hmove
      rw [resume_cons hfill (Level.fillWith_ne_refuse _ _)]
      exact (handTo_give levels c _ rest (readString body)).symm
    | rparen =>
      have hreject : Level.move levels _ = .reject .unexpectedClose := hmove
      rw [resume_cons hreject (by simp)]
      rfl
    | lparen =>
      have hshift : Level.move levels _ = .shift (.list [] :: levels) := hmove
      rw [resume_cons hshift (by simp)]
      exact resume_eq_descendList (c.behind ⟨.lparen, stop⟩ rest) [] levels (Nat.zero_le 1) hnesting
        hroom
    | quote =>
      by_cases hfull : maxNesting ≤ levels.length
      · have hreject : Level.move levels _ = .reject .tooDeep := hmove.trans (if_pos hfull)
        have hnested : maxNesting ≤ (c.behind ⟨.quote, stop⟩ rest).nesting := by
          show maxNesting ≤ c.nesting
          omega
        rw [resume_cons hreject (by simp)]
        simp only [nested, if_pos hnested]
        rfl
      · have hshift : Level.move levels _ = .shift (.quote :: levels) :=
          hmove.trans (if_neg hfull)
        have hnested : (c.behind ⟨.quote, stop⟩ rest).nesting < maxNesting := by
          show c.nesting < maxNesting
          omega
        have hdeeper : (c.behind ⟨.quote, stop⟩ rest).deeper.nesting =
            (Level.quote :: levels).length := by
          show c.nesting + 1 = ((levels.length + 1 : Nat) : Int)
          omega
        rw [resume_cons hshift (by simp)]
        show _ = Outcome.handTo levels (Outcome.quoted _)
        rw [Outcome.handTo_quoted, handTo_nested hnested]
        exact resume_eq_descend (c.behind ⟨.quote, stop⟩ rest).deeper (.quote :: levels)
          (Nat.zero_le 1) hdeeper (Nat.lt_of_not_le hfull) (awaits_quote _ _)
termination_by 2 * c.pending.length

/-- Reading on inside a list is the descent to its remaining items. -/
theorem resume_eq_descendList (c : Cursor) (read : List Node) (outer : List Level)
    (hle : c.lookahead ≤ 1) (hnesting : c.nesting = outer.length)
    (hroom : outer.length ≤ maxNesting) :
    resume c.fault c.position (.list read :: outer) c.pending =
      (descendList c read).outcome.handTo outer := by
  obtain ⟨token, rest, hpending, hpeek⟩ | ⟨error, hpending, hfault, hpeek⟩ |
    ⟨hpending, hfault, hpeek⟩ := c.peek_cases hle
  · have hfacing : (c.facing token rest).pending = c.pending := hpending.symm
    rw [descendList_of_token hpeek]
    by_cases hclose : token.lexeme = .rparen
    · rw [if_pos hclose, ← hfacing]
      exact resume_eq_close (c := c.facing token rest) (Nat.le_refl 1) rfl hclose read outer
    · rw [if_neg hclose]
      by_cases hfull : maxNesting ≤ outer.length
      · have hmove := Level.move_of_ne_rparen hclose (.list read :: outer)
        have hdeep : maxNesting < (Level.list read :: outer).length := Nat.lt_succ_of_le hfull
        rw [if_pos hdeep] at hmove
        have hnested : maxNesting ≤ (c.facing token rest).nesting := by
          show maxNesting ≤ c.nesting
          omega
        simp only [nested, if_pos hnested, hpending, resume, hmove]
        rfl
      · have hnested : (c.facing token rest).nesting < maxNesting := by
          show c.nesting < maxNesting
          omega
        have hdeeper : (c.facing token rest).deeper.nesting =
            (Level.list read :: outer).length := by
          show c.nesting + 1 = ((outer.length + 1 : Nat) : Int)
          omega
        have hitem := resume_eq_descend (c.facing token rest).deeper (.list read :: outer)
          (Nat.le_refl 1) hdeeper (Nat.lt_of_not_le hfull) (awaits_item rfl hclose read outer)
        have hshortens := (descend (c.facing token rest).deeper).shortens
        obtain ⟨tokens, hconsumes⟩ := consumes_descend (c.facing token rest).deeper
        have hmoved := hconsumes.moved
        rw [← hfacing]
        refine hitem.trans ?_
        rw [nested_of_room hnested]
        cases hread : (descend (c.facing token rest).deeper).outcome with
        | error error inner => rfl
        | ok item inner =>
          rw [hread, Outcome.cursor_ok] at hmoved
          have hlt : inner.pending.length < c.pending.length := by
            rw [← hfacing]
            exact hshortens item inner hread
          have houter : inner.shallower.nesting = outer.length := by
            have hinner := hmoved.nesting.trans hdeeper
            rw [List.length_cons] at hinner
            show inner.nesting - 1 = outer.length
            omega
          exact resume_eq_descendList inner.shallower (item :: read) outer
            (hmoved.lookahead (Nat.le_refl 1)) houter hroom
  · rw [descendList_of_error hpeek, Outcome.handTo, surfaced_cleared hpending, hpending, hfault]
    rfl
  · rw [descendList_of_end hpeek, Outcome.handTo, surfaced_of_end hpending, hpending, hfault]
    rfl
termination_by 2 * c.pending.length + 1
decreasing_by
  · rw [pending_deeper, hfacing]
    exact Nat.lt_succ_self _
  · rw [pending_shallower]
    omega

end

/-- Reading a node is reading on with no level open. -/
theorem readNode_eq_resume {c : Cursor} (h : c.Idle) :
    c.readNode = resume c.fault c.position [] c.pending := by
  obtain ⟨token, rest, hpending, hpeek⟩ | ⟨error, hpending, hfault, hpeek⟩ |
    ⟨hpending, hfault, hpeek⟩ := c.peek_cases h.lookahead
  · obtain ⟨tokens, hconsumes⟩ := consumes_descend (c.facing token rest)
    have hnesting := hconsumes.moved.nesting.trans h.nesting
    rw [readNode_of_token hpeek, ← Outcome.handTo_nil _ hnesting, hpending]
    exact (resume_eq_descend (c.facing token rest) [] (Nat.le_refl 1) h.nesting (Nat.zero_le _)
      (awaits_nil rfl)).symm
  · have hcleared : c.cleared = before none c.position [] :=
      eq_before_of_pending (c := c.cleared) h.nesting hpending
    simp only [readNode, hpeek, hpending, hfault, hcleared]
    rfl
  · have hend : c = before c.fault c.position [] := eq_before_of_pending h.nesting hpending
    rw [hfault] at hend
    simp only [readNode, hpeek, hpending, hfault]
    exact congrArg (EStateM.Result.ok none) hend

theorem readNode_before (fault : Option ReadError) (position : Nat) (tokens : List Token) :
    readNode (before fault position tokens) = resume fault position [] tokens :=
  readNode_eq_resume (idle_before fault position tokens)

end Cursor

end FexprLisp
