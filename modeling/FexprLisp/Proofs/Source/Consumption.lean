import FexprLisp.Proofs.Source.Stepwise

/-!
# Cursors in use

A cursor may be used in any order, and goes on after every error. Each use does what looking at
tokens and consuming some of them does. So the tokens of a text come out of it in their order: those
that have been consumed, the one that has been looked at and those that are upcoming are all the
tokens of the text, also when an error was met in the middle of a node.

## Main definitions

- `Cursor.Use`, `Cursor.after` — one use of a cursor, and many of them
- `Cursor.Consistent` — what holds of a cursor at any time

## Main statements

- `Cursor.consumes_use`, `Cursor.consumes_after` — every use consumes tokens one by one
- `Cursor.exhausts_use`, `Cursor.after_end` — behind a fault there is nothing left
- `Cursor.stays_consistent` — what holds of a cursor after any uses
-/

namespace FexprLisp

namespace Cursor

/-- The tokens that are pending come out one by one. -/
theorem consumes_pending {c : Cursor} (h : c.lookahead ≤ 1) :
    ∃ last, Consumes c c.pending last ∧ last.pending = [] := by
  generalize hpending : c.pending = tokens
  induction tokens generalizing c with
  | nil => exact ⟨c, .stay c, hpending⟩
  | cons token rest ih =>
    have hadvance := advance_of_pending h hpending
    obtain ⟨last, hlater, hlast⟩ := ih (c := c.behind token rest) (Nat.zero_le 1) rfl
    exact ⟨last, .take hadvance hlater, hlast⟩

/-- The tokens that reading a node consumes are those of the node. -/
theorem flattens_readNode {c c' : Cursor} {node : Node} (h : c.Idle)
    (hread : c.readNode = .ok (some node) c') :
    ∃ tokens, Consumes c tokens c' ∧ Flattens [node] (lexemesOf tokens) := by
  obtain ⟨tokens, hconsumes⟩ := consumes_readNode c
  rw [hread] at hconsumes
  have hmoved := hconsumes.moved
  rw [readNode_eq_resume h] at hread
  obtain ⟨consumed, rest, hpending, rfl, hnode⟩ := resume_consumed hread
  have htokens : tokens = consumed :=
    List.append_cancel_right (hmoved.pending.symm.trans hpending)
  exact ⟨tokens, hconsumes, htokens ▸ Level.flattens_of_readOn hnode⟩

theorem cursor_readAll_of_node {c c' : Cursor} {node : Node}
    (h : c.readNode = .ok (some node) c') : c.readAll.cursor = c'.readAll.cursor := by
  rw [readAll_of_node h]
  cases c'.readAll <;> rfl

theorem consumes_readAll (c : Cursor) : c.readAll.Consumes c := by
  have hfirst := consumes_readNode c
  cases hread : c.readNode with
  | error error c' =>
    rw [hread] at hfirst
    rw [readAll_of_error hread]
    exact hfirst.of_cursor_eq rfl
  | ok result c' =>
    rw [hread] at hfirst
    cases result with
    | none =>
      rw [readAll_of_end hread]
      exact hfirst.of_cursor_eq rfl
    | some node =>
      have hshorter := pending_readNode_lt hread
      have hlater := consumes_readAll c'
      exact hfirst.trans rfl (hlater.of_cursor_eq (cursor_readAll_of_node hread))
termination_by c.pending.length

-- ════════════════════════════════════════════════════════════════════════
-- Uses
-- ════════════════════════════════════════════════════════════════════════

/-- One use of a cursor. -/
inductive Use where
  | peek
  | advance
  | readNode
  | readAll
deriving DecidableEq, Repr

/-- Whether an operation succeeded, and the cursor after it. -/
def Outcome.forget {α : Type} : Outcome α → Outcome Unit
  | .ok _ c => .ok () c
  | .error error c => .error error c

/-- Uses a cursor and keeps no result. -/
def Use.perform (c : Cursor) : Use → Outcome Unit
  | .peek => c.peek.forget
  | .advance => c.advance.forget
  | .readNode => c.readNode.forget
  | .readAll => c.readAll.forget

/-- The cursor after some uses, which go on after those that fail. -/
def after (c : Cursor) (uses : List Use) : Cursor :=
  uses.foldl (fun c use => (use.perform c).cursor) c

theorem Outcome.cursor_forget {α : Type} (result : Outcome α) :
    result.forget.cursor = result.cursor := by
  cases result <;> rfl

/-- Every use of a cursor only looks at tokens and consumes them. -/
theorem consumes_use (c : Cursor) (use : Use) : (use.perform c).Consumes c := by
  cases use with
  | peek => exact (consumes_peek c).of_cursor_eq (Outcome.cursor_forget _)
  | advance => exact (consumes_advance c).of_cursor_eq (Outcome.cursor_forget _)
  | readNode => exact (consumes_readNode c).of_cursor_eq (Outcome.cursor_forget _)
  | readAll => exact (consumes_readAll c).of_cursor_eq (Outcome.cursor_forget _)

theorem consumes_after (c : Cursor) (uses : List Use) :
    ∃ tokens, Consumes c tokens (c.after uses) := by
  induction uses generalizing c with
  | nil => exact ⟨[], .stay c⟩
  | cons use uses ih =>
    obtain ⟨tokens, hfirst⟩ := consumes_use c use
    obtain ⟨more, hlater⟩ := ih (use.perform c).cursor
    exact ⟨tokens ++ more, hfirst.append hlater⟩

end Cursor

-- ════════════════════════════════════════════════════════════════════════
-- Faults
-- ════════════════════════════════════════════════════════════════════════

theorem Level.isFault_of_missing {levels : List Level} {error : ReadError}
    (h : missing levels = some error) : error.isFault = false := by
  match levels with
  | [] => cases h
  | .quote :: _ =>
    cases h
    rfl
  | .list _ :: _ =>
    cases h
    rfl

namespace Cursor

/-- A fault that is met was the one behind the tokens, and nothing is left behind it. -/
def Exhausts (c : Cursor) {α : Type} (result : Outcome α) : Prop :=
  ∀ error c', result = .error error c' → error.isFault = true →
    c.fault = some error ∧ c' = before none c'.position []

theorem exhausts_peek {c : Cursor} (h : c.Idle) : c.Exhausts c.peek := by
  intro error c' herror _
  obtain ⟨token, rest, -, hpeek⟩ | ⟨fault, hpending, hfault, hpeek⟩ | ⟨-, -, hpeek⟩ :=
    c.peek_cases h.lookahead
  · rw [hpeek] at herror
    cases herror
  · rw [hpeek] at herror
    cases herror
    exact ⟨hfault, eq_before_of_pending (c := c.cleared) h.nesting hpending⟩
  · rw [hpeek] at herror
    cases herror

theorem exhausts_advance {c : Cursor} (h : c.Idle) : c.Exhausts c.advance := by
  intro error c' hadvance herror
  rcases peek_of_advance_error hadvance with ⟨-, rfl⟩ | hpeek
  · cases herror
  · exact exhausts_peek h error c' hpeek herror

theorem exhausts_resume {c : Cursor} (levels : List Level) (ahead : List Token) (position : Nat) :
    c.Exhausts (resume c.fault position levels ahead) := by
  intro error c' hread herror
  induction ahead generalizing levels position with
  | nil =>
    cases hfault : c.fault with
    | some fault =>
      simp only [resume, hfault] at hread
      cases hread
      exact ⟨rfl, rfl⟩
    | none =>
      simp only [resume, hfault] at hread
      cases hmissing : Level.missing levels with
      | none =>
        rw [hmissing] at hread
        cases hread
      | some found =>
        rw [hmissing] at hread
        cases hread
        rw [Level.isFault_of_missing hmissing] at herror
        cases herror
  | cons token rest ih =>
    cases hmove : Level.move levels token.lexeme with
    | shift after =>
      rw [resume_cons hmove (by simp), proceed] at hread
      exact ih after token.stop hread
    | finish node =>
      rw [resume_cons hmove (by simp), proceed] at hread
      cases hread
    | reject found =>
      have hfound := Level.isFault_of_move (congrArg Move.error? hmove)
      rw [resume_cons hmove (by simp), proceed] at hread
      cases hread
      rw [hfound] at herror
      cases herror
    | refuse found =>
      have hfound := Level.isFault_of_move (congrArg Move.error? hmove)
      simp only [resume, hmove] at hread
      cases hread
      rw [hfound] at herror
      cases herror

theorem exhausts_readNode {c : Cursor} (h : c.Idle) : c.Exhausts c.readNode := by
  rw [readNode_eq_resume h]
  exact exhausts_resume [] c.pending c.position

theorem exhausts_readAll {c : Cursor} (h : c.Idle) : c.Exhausts c.readAll := by
  intro error c' hall herror
  cases hread : c.readNode with
  | error found stopped =>
    rw [readAll_of_error hread] at hall
    cases hall
    exact exhausts_readNode h error c' hread herror
  | ok result next =>
    cases result with
    | none =>
      rw [readAll_of_end hread] at hall
      cases hall
    | some node =>
      have hshorter := pending_readNode_lt hread
      obtain ⟨tokens, hfirst⟩ := consumes_readNode c
      rw [hread, Outcome.cursor_ok] at hfirst
      have hlater : next.readAll = .error error c' := by
        rw [readAll_of_node hread] at hall
        cases hrest : next.readAll with
        | ok nodes last =>
          rw [hrest] at hall
          cases hall
        | error found last =>
          rw [hrest] at hall
          exact hall
      have hrest := exhausts_readAll (h.consumes hfirst) error c' hlater herror
      refine ⟨?_, hrest.2⟩
      -- the fault has not been met before, so it is the one that stood there
      rcases hfirst.moved.fault with hfault | ⟨hnone, -⟩
      · rw [← hfault]
        exact hrest.1
      · rw [hnone] at hrest
        cases hrest.1
termination_by c.pending.length

theorem Exhausts.forget {c : Cursor} {α : Type} {result : Outcome α} (h : c.Exhausts result) :
    c.Exhausts result.forget := by
  intro error c' hresult
  cases result with
  | ok a last => cases hresult
  | error found last =>
    cases hresult
    exact h error c' rfl

theorem exhausts_use {c : Cursor} (h : c.Idle) (use : Use) : c.Exhausts (use.perform c) := by
  cases use with
  | peek => exact (exhausts_peek h).forget
  | advance => exact (exhausts_advance h).forget
  | readNode => exact (exhausts_readNode h).forget
  | readAll => exact (exhausts_readAll h).forget

/-- Behind all tokens and every fault, nothing changes any more. -/
theorem after_end (position : Nat) (uses : List Use) :
    (before none position []).after uses = before none position [] := by
  induction uses with
  | nil => rfl
  | cons use uses ih =>
    have hend : readNode (before none position []) = .ok none (before none position []) := rfl
    have huse : (use.perform (before none position [])).cursor = before none position [] := by
      cases use with
      | readAll =>
        rw [Use.perform, readAll_of_end hend]
        rfl
      | _ => rfl
    rw [after, List.foldl_cons, huse]
    exact ih

end Cursor

-- ════════════════════════════════════════════════════════════════════════
-- Places
-- ════════════════════════════════════════════════════════════════════════

theorem scan_increasing (text : String) :
    (scan text).tokens.Pairwise fun token later => token.stop < later.stop := by
  obtain ⟨pieces, trail, hpieces, -, htokens, -⟩ := scan_parts text
  rw [htokens]
  exact pairwise_tokensFrom hpieces 0

theorem lastStop_cases (position : Nat) (tokens : List Token) :
    lastStop position tokens = position ∨ ∃ token ∈ tokens, lastStop position tokens = token.stop := by
  induction tokens generalizing position with
  | nil => exact .inl rfl
  | cons token tokens ih =>
    rcases ih token.stop with hlast | ⟨later, hmem, hlast⟩
    · exact .inr ⟨token, List.mem_cons_self, hlast⟩
    · exact .inr ⟨later, List.mem_cons_of_mem _ hmem, hlast⟩

theorem lastStop_le_append {consumed more : List Token}
    (h : (consumed ++ more).Pairwise fun token later => token.stop < later.stop) :
    lastStop 0 consumed ≤ lastStop 0 (consumed ++ more) := by
  obtain ⟨-, -, hbetween⟩ := List.pairwise_append.1 h
  rw [lastStop_append]
  rcases lastStop_cases (lastStop 0 consumed) more with hsame | ⟨later, hlater, hstop⟩
  · omega
  rcases lastStop_cases 0 consumed with hnone | ⟨token, htoken, hlast⟩
  · omega
  · have hlt := hbetween token htoken later hlater
    omega

namespace Cursor

/-- What holds of a cursor on a text at any time. The tokens that it has consumed were consumed one
by one, the count of levels is back at 0, at most one token is ahead of its turn, the position is
where the last token consumed ends, and no token of the text is missing, comes twice or comes out of
order. -/
structure Consistent (text : String) (consumed : List Token) (c : Cursor) : Prop where
  history : Consumes (ofText text) consumed c
  nesting : c.nesting = 0
  lookahead : c.lookahead ≤ 1
  position : c.position = lastStop 0 consumed
  tokens : consumed ++ c.buffer ++ c.upcoming = (scan text).tokens

theorem Consumes.consistent {text : String} {consumed : List Token} {c : Cursor}
    (h : Consumes (ofText text) consumed c) : Consistent text consumed c where
  history := h
  nesting := h.moved.nesting
  lookahead := h.moved.lookahead (Nat.zero_le 1)
  position := h.moved.position
  tokens := by
    rw [List.append_assoc]
    exact h.moved.pending.symm

theorem Consistent.position_le {text : String} {consumed more : List Token} {c c' : Cursor}
    (h : Consistent text consumed c) (h' : Consistent text (consumed ++ more) c') :
    c.position ≤ c'.position := by
  have htokens := scan_increasing text
  rw [← h'.tokens, List.append_assoc] at htokens
  rw [h.position, h'.position]
  exact lastStop_le_append (List.pairwise_append.1 htokens).1

theorem peek_again {c c' : Cursor} {token : Option Token} (h : c.peek = .ok token c') :
    c'.peek = .ok token c' := by
  have hpeek := h
  unfold peek at h
  split at h
  all_goals cases h
  · exact hpeek
  · rfl
  · exact hpeek

/-- A cursor stays consistent over any uses, also after those that failed. A further use adds to the
tokens that were consumed and never goes back. Those that were not consumed come out one by one.
Looking at a token does not move the cursor and gives the same when it is repeated. The tokens that
reading a node consumes are those of the node. And a fault of the text is met once, with nothing left
behind it. -/
theorem stays_consistent (text : String) (uses : List Use) :
    let c := (ofText text).after uses
    (∃ consumed, Consistent text consumed c ∧
      ∀ use : Use, ∃ more, Consistent text (consumed ++ more) (use.perform c).cursor) ∧
    (∃ last, Consumes c (c.buffer ++ c.upcoming) last ∧ last.pending = []) ∧
    (∀ use : Use, c.position ≤ (use.perform c).cursor.position) ∧
    c.peek.cursor.position = c.position ∧
    (∀ token c', c.peek = .ok token c' → c'.peek = .ok token c') ∧
    (∀ node c', c.readNode = .ok (some node) c' →
      ∃ tokens, Consumes c tokens c' ∧ Flattens [node] (lexemesOf tokens)) ∧
    ∀ (use : Use) error c', use.perform c = .error error c' → error.isFault = true →
      (scan text).fault = some error ∧ c'.peek = .ok none c' ∧ ∀ later, c'.after later = c' := by
  intro c
  obtain ⟨consumed, hconsumed⟩ := consumes_after (ofText text) uses
  have hidle : c.Idle := (idle_ofText text).consumes hconsumed
  have hgrows : ∀ use : Use, ∃ more, Consistent text (consumed ++ more) (use.perform c).cursor := by
    intro use
    obtain ⟨more, hmore⟩ := consumes_use c use
    exact ⟨more, (hconsumed.append hmore).consistent⟩
  refine ⟨⟨consumed, hconsumed.consistent, hgrows⟩, consumes_pending hidle.lookahead, ?_,
    (moved_peek c).position, fun token c' => peek_again, fun node c' => flattens_readNode hidle, ?_⟩
  · intro use
    obtain ⟨more, hmore⟩ := hgrows use
    exact hconsumed.consistent.position_le hmore
  · intro use error c' huse herror
    obtain ⟨hfault, hend⟩ := exhausts_use hidle use error c' huse herror
    refine ⟨?_, ?_, ?_⟩
    · rcases hconsumed.moved.fault with hkept | ⟨hnone, -⟩
      · exact hkept.symm.trans hfault
      · rw [hnone] at hfault
        cases hfault
    · rw [hend]
      rfl
    · rw [hend]
      exact after_end c'.position

/-- A quoted name, then a quotation inside two lists that a parenthesis cuts off, and a string literal
that never ends. -/
theorem stays_consistent_quoted_name_fault :
    let text := "'f ((g ')) \"h"
    let start := ofText text
    let behind := start.after [.readNode, .peek]
    let last := start.after [.readNode, .peek, .readNode]
    let ended := start.after [.readNode, .peek, .readNode, .advance]
    (∃ tokens, Consumes start tokens (start.after [.readNode]) ∧
      Flattens [.quote (.ident "f")] (lexemesOf tokens)) ∧
    behind.peek = .ok (some ⟨.lparen, 4⟩) behind ∧
    behind.readNode = .error .unexpectedClose last ∧ last.pending = [⟨.rparen, 10⟩] ∧
    (∃ consumed, Consistent text consumed last) ∧
    (scan text).fault = some .unterminatedString ∧
    Use.advance.perform ended = .error .unterminatedString (ended.after [.advance]) ∧
    (ended.after [.advance]).peek = .ok none (ended.after [.advance]) := by
  intro text start behind last ended
  let ahead : List Token := [⟨.lparen, 5⟩, ⟨.identifier "g", 6⟩, ⟨.quote, 8⟩, ⟨.rparen, 9⟩,
    ⟨.rparen, 10⟩]
  let next := before (some .unterminatedString) 2 (⟨.lparen, 4⟩ :: ahead)
  have hstart : start = before (some .unterminatedString) 0
      (⟨.quote, 1⟩ :: ⟨.identifier "f", 2⟩ :: ⟨.lparen, 4⟩ :: ahead) := by decide +kernel
  have hnext : start.after [.readNode] = next := by decide +kernel
  have hbehind : behind = next.facing ⟨.lparen, 4⟩ ahead := by decide +kernel
  have hlast : last = before (some .unterminatedString) 9 [⟨.rparen, 10⟩] := by decide +kernel
  have hended : ended = before (some .unterminatedString) 10 [] := by decide +kernel
  have hnode : start.readNode = .ok (some (.quote (.ident "f"))) (start.after [.readNode]) := by
    rw [hnext, hstart, readNode_before]
    rfl
  have hpeek : (start.after [.readNode]).peek = .ok (some ⟨.lparen, 4⟩) behind := by
    rw [hnext, hbehind]
    rfl
  have hclose : behind.readNode = .error .unexpectedClose last := by
    rw [hlast, hbehind, readNode_eq_resume (c := next.facing _ _) ⟨rfl, Nat.le_refl 1⟩]
    rfl
  have hfault : Use.advance.perform ended = .error .unterminatedString (ended.after [.advance]) := by
    rw [hended]
    rfl
  obtain ⟨-, -, -, -, -, htokens, -⟩ := stays_consistent text []
  obtain ⟨-, -, -, -, hagain, -, -⟩ := stays_consistent text [.readNode]
  obtain ⟨⟨consumed, hlater, -⟩, -⟩ := stays_consistent text [.readNode, .peek, .readNode]
  obtain ⟨-, -, -, -, -, -, hend⟩ := stays_consistent text [.readNode, .peek, .readNode, .advance]
  obtain ⟨hscan, hnone, -⟩ := hend .advance _ _ hfault rfl
  refine ⟨htokens _ _ hnode, hagain _ _ hpeek, hclose, ?_, ⟨consumed, hlater⟩, hscan, hfault, hnone⟩
  rw [hlast]
  rfl

end Cursor

end FexprLisp
