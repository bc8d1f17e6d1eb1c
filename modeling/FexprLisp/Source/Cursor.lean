import FexprLisp.Bounds
import FexprLisp.Node.Basic
import FexprLisp.Source.Scan
import FexprLisp.Text.Numeral

/-!
# Reading nodes

A cursor moves over the tokens of a text and puts nodes together from them, by descending into
quotations and lists. It may look at one token before it consumes it, and it counts how deep it is
inside quotations and lists.

## Main definitions

- `Cursor` — a place among the tokens
- `Cursor.peek`, `Cursor.advance` — look at a token, consume it
- `Cursor.nested` — reads one level deeper, and comes back on every path
- `Cursor.descend`, `Cursor.descendList` — read a node, read the rest of a list
- `Cursor.readNode`, `Cursor.readAll` — read the next node if there is one, read all that remain
- `readNode`, `readNodes` — the same for a text

## Main statements

- `Cursor.descend_of_token`, `Cursor.descendList_of_token` — the descent, one token at a time
- `Cursor.pending_readNode_lt` — reading a node consumes a token

## Design notes

A node may stand inside at most `maxNesting` levels. A quotation that would exceed this is refused
once its quote has been consumed, and an item of a list before its first token is: that token
remains ahead of the cursor. A fault of the scanner is met once, where the tokens run out; after
it the text counts as ended. What was read of a node is lost where an error is met inside it, and
the tokens are not put back.
-/

namespace FexprLisp

/-- The node of an integer literal. -/
def readInteger (digits : String) : Except ReadError Node :=
  if Text.digitLimit < digits.length then .error .tooManyDigits
  else
    let value : Int := Nat.ofDigitChars 10 digits.toList 0
    if maxInt < value then .error (.tooLarge digits) else .ok (.int value)

/-- The node of a string literal with the given raw body. -/
def readString (body : String) : Except ReadError Node :=
  match Text.unescape body.toList with
  | .ok text => .ok (.str (String.ofList text))
  | .error error => .error (.badEscape error)

/-- A place among the tokens of a text. -/
structure Cursor where
  /-- The tokens that have been looked at and not consumed. -/
  buffer : List Token := []
  /-- The tokens that have not been looked at. -/
  upcoming : List Token
  /-- The fault that stands behind the tokens. -/
  fault : Option ReadError := none
  /-- Where the last token that was consumed ends. -/
  position : Nat := 0
  /-- In how many quotations and lists the next token stands. -/
  nesting : Int := 0
deriving DecidableEq, Repr

/-- What an operation of a cursor leads to: a result or an error, and the cursor after it. -/
abbrev Cursor.Outcome (α : Type) := EStateM.Result ReadError Cursor α

namespace Cursor

/-- The cursor at the beginning of a text. -/
def ofText (text : String) : Cursor :=
  let scanned := scan text
  { upcoming := scanned.tokens, fault := scanned.fault }

/-- The tokens that have not been consumed. -/
def pending (c : Cursor) : List Token :=
  c.buffer ++ c.upcoming

/-- How many tokens have been looked at and not consumed. -/
def lookahead (c : Cursor) : Nat :=
  c.buffer.length

/-- The next token, which stays where it is; none at the end. -/
def peek (c : Cursor) : Outcome (Option Token) :=
  match c.buffer, c.upcoming, c.fault with
  | token :: _, _, _ => .ok (some token) c
  | [], token :: upcoming, _ => .ok (some token) { c with buffer := [token], upcoming }
  | [], [], some fault => .error fault { c with fault := none }
  | [], [], none => .ok none c

/-- Consumes the next token. -/
def advance (c : Cursor) : Outcome Token :=
  match peek c with
  | .ok (some token) c => .ok token { c with buffer := c.buffer.tail, position := token.stop }
  | .ok none c => .error .unexpectedEnd c
  | .error fault c => .error fault c

/-- The cursor one level deeper. -/
def deeper (c : Cursor) : Cursor :=
  { c with nesting := c.nesting + 1 }

/-- The cursor one level less deep. -/
def shallower (c : Cursor) : Cursor :=
  { c with nesting := c.nesting - 1 }

@[simp]
theorem pending_deeper (c : Cursor) : c.deeper.pending = c.pending := rfl

@[simp]
theorem pending_shallower (c : Cursor) : c.shallower.pending = c.pending := rfl

/-- Reads one level deeper, where the same tokens are pending, unless that is too deep. The level is
left on every path. -/
def nested {α : Type} (c : Cursor)
    (body : (inner : Cursor) → inner.pending = c.pending → Outcome α) : Outcome α :=
  if maxNesting ≤ c.nesting then .error .tooDeep c
  else
    match body c.deeper rfl with
    | .ok a inner => .ok a inner.shallower
    | .error error inner => .error error inner.shallower

/-- A literal gives its node, or an error. -/
def give (c : Cursor) : Except ReadError Node → Outcome Node
  | .ok node => .ok node c
  | .error error => .error error c

/-- Consumes the parenthesis that closes a list with the given items, in reverse. -/
def close (c : Cursor) (read : List Node) : Outcome Node :=
  match c.advance, read with
  | .error error c, _ => .error error c
  | .ok _ c, [] => .error .emptyList c
  | .ok _ c, item :: read => .ok (.list (item :: read).reverse) c

/-- The node that was read stands in a quotation. -/
def Outcome.quoted : Outcome Node → Outcome Node
  | .ok node c => .ok (.quote node) c
  | .error error c => .error error c

/-- There was a node to be read. -/
def Outcome.found : Outcome Node → Outcome (Option Node)
  | .ok node c => .ok (some node) c
  | .error error c => .error error c

-- ════════════════════════════════════════════════════════════════════════
-- Reading consumes tokens
-- ════════════════════════════════════════════════════════════════════════

/-- Where an operation succeeds, fewer tokens are pending than before. -/
def Outcome.Shortens {α : Type} (result : Outcome α) (c : Cursor) : Prop :=
  ∀ a c', result = .ok a c' → c'.pending.length < c.pending.length

namespace Outcome

variable {α : Type} {c c' : Cursor}

theorem shortens_error (error : ReadError) : Shortens (.error error c' : Outcome α) c := by
  intro a last h
  cases h

theorem shortens_ok {a : α} (h : c'.pending.length < c.pending.length) :
    Shortens (.ok a c' : Outcome α) c := by
  intro b last hresult
  cases hresult
  exact h

theorem Shortens.of_le {result : Outcome α} (h : result.Shortens c')
    (hle : c'.pending.length ≤ c.pending.length) : result.Shortens c :=
  fun a last hresult => Nat.lt_of_lt_of_le (h a last hresult) hle

theorem Shortens.quoted {result : Outcome Node} (h : result.Shortens c) :
    result.quoted.Shortens c := by
  cases result with
  | error error last => exact shortens_error error
  | ok node last => exact shortens_ok (h node last rfl)

end Outcome

theorem pending_peek {c c' : Cursor} {token : Option Token} (h : c.peek = .ok token c') :
    c'.pending = c.pending := by
  unfold peek at h
  split at h
  all_goals cases h
  · rfl
  · next hbuffer hupcoming => simp [pending, hbuffer, hupcoming]
  · rfl

theorem buffer_peek {c c' : Cursor} {token : Token} (h : c.peek = .ok (some token) c') :
    ∃ rest, c'.buffer = token :: rest := by
  unfold peek at h
  split at h
  all_goals cases h
  · next rest hbuffer => exact ⟨rest, hbuffer⟩
  · exact ⟨[], rfl⟩

theorem shortens_advance (c : Cursor) : c.advance.Shortens c := by
  unfold advance
  split
  · next token c' hpeek =>
    obtain ⟨rest, hbuffer⟩ := buffer_peek hpeek
    refine Outcome.shortens_ok ?_
    rw [← pending_peek hpeek, pending, pending, hbuffer, List.tail_cons, List.cons_append]
    exact Nat.lt_succ_self _
  · exact Outcome.shortens_error _
  · exact Outcome.shortens_error _

theorem shortens_give {c c' : Cursor} (h : c'.pending.length < c.pending.length)
    (result : Except ReadError Node) : (c'.give result).Shortens c := by
  cases result with
  | ok node => exact Outcome.shortens_ok h
  | error error => exact Outcome.shortens_error error

theorem shortens_close (c : Cursor) (read : List Node) : (c.close read).Shortens c := by
  have hadvance := c.shortens_advance
  unfold close
  cases h : c.advance with
  | error error c' => exact Outcome.shortens_error error
  | ok token c' =>
    cases read with
    | nil => exact Outcome.shortens_error _
    | cons item read => exact Outcome.shortens_ok (hadvance token c' h)

theorem shortens_nested {α : Type} {c : Cursor}
    {body : (inner : Cursor) → inner.pending = c.pending → Outcome α}
    (h : ∀ inner hinner, (body inner hinner).Shortens inner) : (c.nested body).Shortens c := by
  unfold nested
  split
  · exact Outcome.shortens_error _
  · have hbody := h c.deeper rfl
    cases hresult : body c.deeper rfl with
    | ok a inner => exact Outcome.shortens_ok (hbody a inner hresult)
    | error error inner => exact Outcome.shortens_error error

/-- What reading a node leads to. It consumes a token if it succeeds. -/
structure Reading (c : Cursor) where
  outcome : Outcome Node
  shortens : outcome.Shortens c

mutual

/-- Reads a node, whose first token is the next one. -/
def descend (c : Cursor) : Reading c :=
  match hadvance : c.advance with
  | .error error c' => ⟨.error error c', Outcome.shortens_error error⟩
  | .ok token c' =>
    have hlt : c'.pending.length < c.pending.length := c.shortens_advance token c' hadvance
    match token.lexeme with
    | .identifier name => ⟨.ok (.ident name) c', Outcome.shortens_ok hlt⟩
    | .integer digits => ⟨c'.give (readInteger digits), shortens_give hlt _⟩
    | .string body => ⟨c'.give (readString body), shortens_give hlt _⟩
    | .quote =>
      ⟨(c'.nested fun inner _ => (descend inner).outcome).quoted,
        (shortens_nested fun inner _ => (descend inner).shortens).quoted.of_le (Nat.le_of_lt hlt)⟩
    | .lparen =>
      let list := descendList c' []
      ⟨list.outcome, list.shortens.of_le (Nat.le_of_lt hlt)⟩
    | .rparen => ⟨.error .unexpectedClose c', Outcome.shortens_error _⟩
termination_by 2 * c.pending.length
decreasing_by all_goals grind

/-- Reads the rest of a list, behind items that have been read, in reverse. -/
def descendList (c : Cursor) (read : List Node) : Reading c :=
  match hpeek : c.peek with
  | .error error c' => ⟨.error error c', Outcome.shortens_error error⟩
  | .ok none c' => ⟨.error .unmatchedOpen c', Outcome.shortens_error _⟩
  | .ok (some token) c' =>
    have hpending : c'.pending = c.pending := pending_peek hpeek
    if token.lexeme = .rparen then
      ⟨c'.close read,
        (c'.shortens_close read).of_le (Nat.le_of_eq (congrArg List.length hpending))⟩
    else
      match hitem : c'.nested fun inner _ => (descend inner).outcome with
      | .error error c'' => ⟨.error error c'', Outcome.shortens_error error⟩
      | .ok item c'' =>
        have hlt : c''.pending.length < c.pending.length :=
          hpending ▸ shortens_nested (fun inner _ => (descend inner).shortens) item c'' hitem
        let list := descendList c'' (item :: read)
        ⟨list.outcome, list.shortens.of_le (Nat.le_of_lt hlt)⟩
termination_by 2 * c.pending.length + 1
decreasing_by all_goals grind

end

section Equations

variable {c c' : Cursor} {token : Token} {error : ReadError}

theorem descend_of_error (h : c.advance = .error error c') :
    (descend c).outcome = .error error c' := by
  rw [descend]
  split
  · next hadvance =>
    cases hadvance.symm.trans h
    rfl
  · next hadvance => cases hadvance.symm.trans h

/-- A node by its first token. -/
theorem descend_of_token (h : c.advance = .ok token c') : (descend c).outcome =
    match token.lexeme with
    | .identifier name => .ok (.ident name) c'
    | .integer digits => c'.give (readInteger digits)
    | .string body => c'.give (readString body)
    | .quote => (c'.nested fun inner _ => (descend inner).outcome).quoted
    | .lparen => (descendList c' []).outcome
    | .rparen => .error .unexpectedClose c' := by
  rw [descend]
  split
  · next hadvance => cases hadvance.symm.trans h
  · next hadvance =>
    cases hadvance.symm.trans h
    cases token.lexeme <;> rfl

theorem descendList_of_error (h : c.peek = .error error c') (read : List Node) :
    (descendList c read).outcome = .error error c' := by
  rw [descendList]
  split
  · next hpeek =>
    cases hpeek.symm.trans h
    rfl
  · next hpeek => cases hpeek.symm.trans h
  · next hpeek => cases hpeek.symm.trans h

theorem descendList_of_end (h : c.peek = .ok none c') (read : List Node) :
    (descendList c read).outcome = .error .unmatchedOpen c' := by
  rw [descendList]
  split
  · next hpeek => cases hpeek.symm.trans h
  · next hpeek =>
    cases hpeek.symm.trans h
    rfl
  · next hpeek => cases hpeek.symm.trans h

/-- The rest of a list by its next token. -/
theorem descendList_of_token (h : c.peek = .ok (some token) c') (read : List Node) :
    (descendList c read).outcome =
      if token.lexeme = .rparen then c'.close read
      else
        match c'.nested fun inner _ => (descend inner).outcome with
        | .error error c'' => .error error c''
        | .ok item c'' => (descendList c'' (item :: read)).outcome := by
  rw [descendList]
  split
  · next hpeek => cases hpeek.symm.trans h
  · next hpeek => cases hpeek.symm.trans h
  · next hpeek =>
    cases hpeek.symm.trans h
    by_cases hclose : token.lexeme = .rparen
    · simp only [if_pos hclose]
    · simp only [if_neg hclose]
      split
      · next hitem => simp only [hitem]
      · next hitem => simp only [hitem]

end Equations

/-- Reads the next node; none at the end. -/
def readNode (c : Cursor) : Outcome (Option Node) :=
  match c.peek with
  | .error fault c => .error fault c
  | .ok none c => .ok none c
  | .ok (some _) c => (descend c).outcome.found

theorem readNode_of_token {c c' : Cursor} {token : Token} (h : c.peek = .ok (some token) c') :
    c.readNode = (descend c').outcome.found := by
  simp only [readNode, h]

theorem Outcome.eq_ok_of_found {result : Outcome Node} {node : Node} {c : Cursor}
    (h : result.found = .ok (some node) c) : result = .ok node c := by
  cases result with
  | ok first last =>
    cases h
    rfl
  | error error last => cases h

/-- Reading a node consumes a token. -/
theorem pending_readNode_lt {c c' : Cursor} {node : Node} (h : readNode c = .ok (some node) c') :
    c'.pending.length < c.pending.length := by
  cases hpeek : c.peek with
  | error fault looked =>
    simp only [readNode, hpeek] at h
    cases h
  | ok token looked =>
    cases token with
    | none =>
      simp only [readNode, hpeek] at h
      cases h
    | some token =>
      rw [readNode_of_token hpeek] at h
      rw [← pending_peek hpeek]
      exact (descend looked).shortens node c' (Outcome.eq_ok_of_found h)

/-- Reads all nodes that remain. -/
def readAll (c : Cursor) : Outcome (List Node) :=
  match _ : readNode c with
  | .ok none c => .ok [] c
  | .error error c => .error error c
  | .ok (some node) c' =>
    match readAll c' with
    | .ok nodes c => .ok (node :: nodes) c
    | .error error c => .error error c
termination_by c.pending.length
decreasing_by exact pending_readNode_lt (by assumption)

end Cursor

/-- Reads the first node of a text, and gives the text that follows it. -/
def readNode (text : String) : Except ReadError (Node × String) :=
  match (Cursor.ofText text).readNode with
  | .ok (some node) c => .ok (node, String.ofList (text.toList.drop c.position))
  | .ok none _ => .error .noExpression
  | .error error _ => .error error

/-- Reads all nodes of a text. -/
def readNodes (text : String) : Except ReadError (List Node) :=
  match (Cursor.ofText text).readAll with
  | .ok nodes _ => .ok nodes
  | .error error _ => .error error

end FexprLisp
