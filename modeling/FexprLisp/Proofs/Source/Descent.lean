import FexprLisp.Source.Cursor

/-!
# What reading consumes

However deep reading descends, and wherever it fails there, all it does is look at tokens, consume
some of them one by one, and go one level deeper and back again. So the levels are counted down to
where the count began, at most one token has been looked at and not consumed, and no token is lost.

## Main definitions

- `lastStop` — where the last of some tokens ends
- `Cursor.Consumes` — looking at tokens and consuming some of them, in nested levels
- `Cursor.Moved` — what that changes about a cursor

## Main statements

- `Cursor.Consumes.moved` — consuming tokens takes them from those that are pending
- `Cursor.consumes_descend`, `Cursor.consumes_descendList` — the descent consumes tokens one by one
- `Cursor.consumes_readNode` — reading a node does, whatever it leads to
-/

namespace FexprLisp

/-- Where the last of some tokens ends, or the given position if there are none. -/
def lastStop (position : Nat) (tokens : List Token) : Nat :=
  tokens.foldl (fun _ token => token.stop) position

theorem lastStop_append (position : Nat) (before after : List Token) :
    lastStop position (before ++ after) = lastStop (lastStop position before) after :=
  List.foldl_append

namespace Cursor

/-- The cursor after an operation, whatever else the operation led to. -/
def Outcome.cursor {α : Type} : Outcome α → Cursor
  | .ok _ c => c
  | .error _ c => c

@[simp]
theorem Outcome.cursor_ok {α : Type} (a : α) (c : Cursor) :
    Outcome.cursor (.ok a c : Outcome α) = c := rfl

@[simp]
theorem Outcome.cursor_error {α : Type} (error : ReadError) (c : Cursor) :
    Outcome.cursor (.error error c : Outcome α) = c := rfl

/-- From one cursor to another by looking at tokens and consuming some of them, one by one. Every
level that is entered on the way is left again. -/
inductive Consumes : Cursor → List Token → Cursor → Prop where
  | stay (c : Cursor) : Consumes c [] c
  | look {c c' : Cursor} {tokens : List Token} (later : Consumes c.peek.cursor tokens c') :
    Consumes c tokens c'
  | take {c next c' : Cursor} {token : Token} {tokens : List Token}
    (taken : c.advance = .ok token next) (later : Consumes next tokens c') :
    Consumes c (token :: tokens) c'
  | nest {c inner c' : Cursor} {tokens more : List Token} (inside : Consumes c.deeper tokens inner)
    (later : Consumes inner.shallower more c') : Consumes c (tokens ++ more) c'

theorem Consumes.append {c c' c'' : Cursor} {tokens more : List Token} (h : Consumes c tokens c')
    (h' : Consumes c' more c'') : Consumes c (tokens ++ more) c'' := by
  induction h with
  | stay => exact h'
  | look _ ih => exact .look (ih h')
  | take taken _ ih => exact .take taken (ih h')
  | nest inside _ _ ih =>
    rw [List.append_assoc]
    exact .nest inside (ih h')

-- ════════════════════════════════════════════════════════════════════════
-- What consuming tokens changes
-- ════════════════════════════════════════════════════════════════════════

/-- What consuming tokens changes about a cursor. The tokens are taken from those that are pending. A
fault stays where it is until it has been met, behind all tokens. -/
structure Moved (c : Cursor) (tokens : List Token) (c' : Cursor) : Prop where
  nesting : c'.nesting = c.nesting
  lookahead : c.lookahead ≤ 1 → c'.lookahead ≤ 1
  pending : c.pending = tokens ++ c'.pending
  position : c'.position = lastStop c.position tokens
  fault : c'.fault = c.fault ∨ c'.fault = none ∧ c'.pending = []

theorem Moved.refl (c : Cursor) : Moved c [] c :=
  ⟨rfl, id, rfl, rfl, .inl rfl⟩

theorem Moved.trans {c c' c'' : Cursor} {tokens more : List Token} (h : Moved c tokens c')
    (h' : Moved c' more c'') : Moved c (tokens ++ more) c'' where
  nesting := h'.nesting.trans h.nesting
  lookahead hle := h'.lookahead (h.lookahead hle)
  pending := by rw [h.pending, h'.pending, List.append_assoc]
  position := by rw [h'.position, h.position, lastStop_append]
  fault := by
    rcases h'.fault with hfault | hend
    · rcases h.fault with hfirst | ⟨hnone, hpending⟩
      · exact .inl (hfault.trans hfirst)
      · have hlater := h'.pending
        rw [hpending] at hlater
        exact .inr ⟨hfault.trans hnone, (List.append_eq_nil_iff.1 hlater.symm).2⟩
    · exact .inr hend

theorem Moved.nest {c inner : Cursor} {tokens : List Token} (h : Moved c.deeper tokens inner) :
    Moved c tokens inner.shallower where
  nesting := by
    have hinside : inner.nesting = c.nesting + 1 := h.nesting
    show inner.nesting - 1 = c.nesting
    omega
  lookahead := h.lookahead
  pending := h.pending
  position := h.position
  fault := h.fault

theorem moved_peek (c : Cursor) : Moved c [] c.peek.cursor := by
  unfold peek
  split
  · exact .refl c
  · next hbuffer hupcoming =>
    refine ⟨rfl, fun _ => Nat.le_refl 1, ?_, rfl, .inl rfl⟩
    simp [pending, hbuffer, hupcoming]
  · next hbuffer hupcoming _ =>
    refine ⟨rfl, id, rfl, rfl, .inr ⟨rfl, ?_⟩⟩
    simp [pending, hbuffer, hupcoming]
  · exact .refl c

theorem moved_advance {c c' : Cursor} {token : Token} (h : c.advance = .ok token c') :
    Moved c [token] c' := by
  unfold advance at h
  split at h
  · next first looked hpeek =>
    cases h
    obtain ⟨rest, hbuffer⟩ := buffer_peek hpeek
    have hmoved := c.moved_peek
    rw [hpeek, Outcome.cursor_ok] at hmoved
    refine hmoved.trans ⟨rfl, fun hle => ?_, ?_, rfl, .inl rfl⟩
    · rw [lookahead, List.length_tail]
      exact Nat.le_trans (Nat.sub_le _ 1) hle
    · simp [pending, hbuffer]
  · cases h
  · cases h

theorem Consumes.moved {c c' : Cursor} {tokens : List Token} (h : Consumes c tokens c') :
    Moved c tokens c' := by
  induction h with
  | stay c => exact .refl c
  | look _ ih => exact (moved_peek _).trans ih
  | take taken _ ih => exact (moved_advance taken).trans ih
  | nest _ _ ihinside ih => exact ihinside.nest.trans ih

-- ════════════════════════════════════════════════════════════════════════
-- Single operations
-- ════════════════════════════════════════════════════════════════════════

/-- The cursor that has looked at a token with the given rest behind it. -/
def facing (c : Cursor) (token : Token) (rest : List Token) : Cursor :=
  { c with buffer := [token], upcoming := rest }

/-- The cursor that has consumed a token with the given rest behind it. -/
def behind (c : Cursor) (token : Token) (rest : List Token) : Cursor :=
  { c with buffer := [], upcoming := rest, position := token.stop }

/-- The cursor that has met the fault behind all tokens. -/
def cleared (c : Cursor) : Cursor :=
  { c with fault := none }

@[simp]
theorem pending_facing (c : Cursor) (token : Token) (rest : List Token) :
    (c.facing token rest).pending = token :: rest := rfl

@[simp]
theorem pending_behind (c : Cursor) (token : Token) (rest : List Token) :
    (c.behind token rest).pending = rest := rfl

section Single

variable {c : Cursor} {token : Token} {rest : List Token} {error : ReadError}

theorem peek_of_pending (hle : c.lookahead ≤ 1) (h : c.pending = token :: rest) :
    c.peek = .ok (some token) (c.facing token rest) := by
  obtain ⟨buffer, upcoming, fault, position, nesting⟩ := c
  match buffer with
  | [] =>
    obtain rfl : upcoming = token :: rest := h
    rfl
  | [first] =>
    obtain ⟨rfl, rfl⟩ := List.cons.inj h
    rfl
  | _ :: _ :: _ => simp [lookahead] at hle

theorem peek_of_fault (h : c.pending = []) (hfault : c.fault = some error) :
    c.peek = .error error c.cleared := by
  obtain ⟨buffer, upcoming, fault, position, nesting⟩ := c
  obtain ⟨rfl, rfl⟩ := List.append_eq_nil_iff.1 h
  cases hfault
  rfl

theorem peek_of_end (h : c.pending = []) (hfault : c.fault = none) : c.peek = .ok none c := by
  obtain ⟨buffer, upcoming, fault, position, nesting⟩ := c
  obtain ⟨rfl, rfl⟩ := List.append_eq_nil_iff.1 h
  cases hfault
  rfl

/-- All that looking at a token can lead to. -/
theorem peek_cases (c : Cursor) (hle : c.lookahead ≤ 1) :
    (∃ token rest, c.pending = token :: rest ∧
      c.peek = .ok (some token) (c.facing token rest)) ∨
    (∃ error, c.pending = [] ∧ c.fault = some error ∧
      c.peek = .error error c.cleared) ∨
    (c.pending = [] ∧ c.fault = none ∧ c.peek = .ok none c) := by
  cases hpending : c.pending with
  | cons token rest => exact .inl ⟨token, rest, rfl, peek_of_pending hle hpending⟩
  | nil =>
    cases hfault : c.fault with
    | some error => exact .inr (.inl ⟨error, rfl, rfl, peek_of_fault hpending hfault⟩)
    | none => exact .inr (.inr ⟨rfl, rfl, peek_of_end hpending hfault⟩)

theorem advance_of_pending (hle : c.lookahead ≤ 1) (h : c.pending = token :: rest) :
    c.advance = .ok token (c.behind token rest) := by
  simp only [advance, peek_of_pending hle h]
  rfl

theorem advance_of_fault (h : c.pending = []) (hfault : c.fault = some error) :
    c.advance = .error error c.cleared := by
  simp only [advance, peek_of_fault h hfault]

theorem advance_of_end (h : c.pending = []) (hfault : c.fault = none) :
    c.advance = .error .unexpectedEnd c := by
  simp only [advance, peek_of_end h hfault]

end Single

-- ════════════════════════════════════════════════════════════════════════
-- Reading consumes tokens one by one
-- ════════════════════════════════════════════════════════════════════════

/-- A computation from a cursor only looks at tokens and consumes them. -/
def Outcome.Consumes {α : Type} (result : Outcome α) (c : Cursor) : Prop :=
  ∃ tokens, Cursor.Consumes c tokens result.cursor

theorem consumes_peek (c : Cursor) : c.peek.Consumes c :=
  ⟨[], .look (.stay _)⟩

/-- Only looking for a token can fail. -/
theorem peek_of_advance_error {c c' : Cursor} {error : ReadError}
    (h : c.advance = .error error c') :
    c.peek = .ok none c' ∧ error = .unexpectedEnd ∨ c.peek = .error error c' := by
  unfold advance at h
  split at h
  · cases h
  · next hpeek =>
    cases h
    exact .inl ⟨hpeek, rfl⟩
  · next hpeek =>
    cases h
    exact .inr hpeek

theorem consumes_advance (c : Cursor) : c.advance.Consumes c := by
  cases hadvance : c.advance with
  | ok token c' => exact ⟨[token], .take hadvance (.stay c')⟩
  | error error c' =>
    refine ⟨[], .look ?_⟩
    rcases peek_of_advance_error hadvance with ⟨hpeek, -⟩ | hpeek
    · rw [hpeek]
      exact .stay c'
    · rw [hpeek]
      exact .stay c'

namespace Outcome.Consumes

variable {α β : Type} {c c' : Cursor} {first : Outcome α} {second : Outcome β}

theorem of_cursor_eq (h : first.Consumes c) (hcursor : second.cursor = first.cursor) :
    second.Consumes c := by
  rw [Outcome.Consumes, hcursor]
  exact h

theorem trans (h : first.Consumes c) (hfirst : first.cursor = c') (h' : second.Consumes c') :
    second.Consumes c := by
  obtain ⟨tokens, htokens⟩ := h
  obtain ⟨more, hmore⟩ := h'
  rw [hfirst] at htokens
  exact ⟨tokens ++ more, htokens.append hmore⟩

end Outcome.Consumes

theorem consumes_close (c : Cursor) (read : List Node) : (c.close read).Consumes c := by
  have hadvance := c.consumes_advance
  unfold close
  cases h : c.advance with
  | error error c' =>
    rw [h] at hadvance
    exact hadvance
  | ok token c' =>
    rw [h] at hadvance
    cases read with
    | nil => exact hadvance
    | cons item read => exact hadvance

theorem consumes_nested {α : Type} {c : Cursor}
    {body : (inner : Cursor) → inner.pending = c.pending → Outcome α}
    (h : (body c.deeper rfl).Consumes c.deeper) : (c.nested body).Consumes c := by
  unfold nested
  split
  · exact ⟨[], .stay c⟩
  · obtain ⟨tokens, hinside⟩ := h
    refine ⟨tokens ++ [], .nest hinside ?_⟩
    cases body c.deeper rfl <;> exact .stay _

theorem cursor_give (c : Cursor) (result : Except ReadError Node) :
    (c.give result).cursor = c := by
  cases result <;> rfl

theorem Outcome.cursor_quoted (result : Outcome Node) : result.quoted.cursor = result.cursor := by
  cases result <;> rfl

theorem Outcome.cursor_found (result : Outcome Node) : result.found.cursor = result.cursor := by
  cases result <;> rfl

mutual

/-- Reading a node only looks at tokens and consumes them, and leaves every level that it enters,
whatever it leads to. -/
theorem consumes_descend (c : Cursor) : (descend c).outcome.Consumes c := by
  have hfirst := c.consumes_advance
  cases hadvance : c.advance with
  | error error c' =>
    rw [hadvance] at hfirst
    rw [descend_of_error hadvance]
    exact hfirst.of_cursor_eq rfl
  | ok token c' =>
    rw [hadvance] at hfirst
    have hlt := c.shortens_advance token c' hadvance
    rw [descend_of_token hadvance]
    cases token.lexeme with
    | identifier name => exact hfirst.of_cursor_eq rfl
    | rparen => exact hfirst.of_cursor_eq rfl
    | integer digits => exact hfirst.of_cursor_eq (cursor_give c' _)
    | string body => exact hfirst.of_cursor_eq (cursor_give c' _)
    | quote =>
      have hinside : (c'.nested fun inner _ => (descend inner).outcome).Consumes c' :=
        consumes_nested (consumes_descend c'.deeper)
      exact hfirst.trans rfl (hinside.of_cursor_eq (Outcome.cursor_quoted _))
    | lparen => exact hfirst.trans rfl (consumes_descendList c' [])
termination_by 2 * c.pending.length

theorem consumes_descendList (c : Cursor) (read : List Node) :
    (descendList c read).outcome.Consumes c := by
  have hfirst := c.consumes_peek
  cases hpeek : c.peek with
  | error error c' =>
    rw [hpeek] at hfirst
    rw [descendList_of_error hpeek]
    exact hfirst.of_cursor_eq rfl
  | ok token c' =>
    rw [hpeek] at hfirst
    have hpending := pending_peek hpeek
    cases token with
    | none =>
      rw [descendList_of_end hpeek]
      exact hfirst.of_cursor_eq rfl
    | some token =>
      rw [descendList_of_token hpeek]
      split
      · exact hfirst.trans rfl (consumes_close c' read)
      · have hdeeper : c'.deeper.pending = c.pending := hpending
        have hitem : (c'.nested fun inner _ => (descend inner).outcome).Consumes c' :=
          consumes_nested (consumes_descend c'.deeper)
        have hshortens := shortens_nested (c := c') fun inner _ => (descend inner).shortens
        cases hnested : c'.nested fun inner _ => (descend inner).outcome with
        | error error c'' =>
          rw [hnested] at hitem
          exact hfirst.trans rfl hitem
        | ok item c'' =>
          rw [hnested] at hitem
          have hlt := hshortens item c'' hnested
          exact hfirst.trans rfl (hitem.trans rfl (consumes_descendList c'' (item :: read)))
termination_by 2 * c.pending.length + 1
decreasing_by all_goals grind

end

theorem consumes_readNode (c : Cursor) : c.readNode.Consumes c := by
  have hfirst := c.consumes_peek
  cases hpeek : c.peek with
  | error error c' =>
    rw [hpeek] at hfirst
    simp only [readNode, hpeek]
    exact hfirst.of_cursor_eq rfl
  | ok token c' =>
    rw [hpeek] at hfirst
    cases token with
    | none =>
      simp only [readNode, hpeek]
      exact hfirst.of_cursor_eq rfl
    | some token =>
      rw [readNode_of_token hpeek]
      exact hfirst.trans rfl ((consumes_descend c').of_cursor_eq (Outcome.cursor_found _))

end Cursor

end FexprLisp
