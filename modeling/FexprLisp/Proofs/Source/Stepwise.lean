import FexprLisp.Proofs.Source.Grammar
import FexprLisp.Proofs.Source.Layout
import FexprLisp.Proofs.Source.Separation
import FexprLisp.Source.Start

/-!
# Node by node

A text may be cut behind any of its tokens: both parts are scanned as if they stood alone. So a text
that is read node by node gives what it gives when it is read at once. Only the places that errors
name are counted from the beginning of what is read.

## Main statements

- `exists_cut` — a text may be cut behind any of its tokens
- `Cursor.resume_consumed` — the tokens of a node, and no token behind them, are consumed
- `readNodes_of_readNode` — the first node of a text, and all nodes of the rest
- `readNodes_of_readNode_error` — an error before the first node is complete
- `reading_stepwise` — all of this
-/

namespace FexprLisp

-- ════════════════════════════════════════════════════════════════════════
-- Cutting a text
-- ════════════════════════════════════════════════════════════════════════

theorem startsApart_of_append {first later : List Char} (h : startsApart (first ++ later) = true) :
    startsApart first = true := by
  cases first with
  | nil => rfl
  | cons c first => exact h

namespace Delimited

theorem left {trail : String} {before after : List (String × Lexeme)}
    (h : Delimited trail (before ++ after)) : Delimited (spread trail after) before := by
  induction before with
  | nil => exact .nil
  | cons piece before ih =>
    rw [List.cons_append] at h
    cases h with
    | cons gapped formed apart later =>
      rw [spread_append] at apart
      exact .cons gapped formed apart (ih later)

/-- Nothing extends the last lexeme of a text. -/
theorem untrailed {trail : String} {pieces : List (String × Lexeme)} (h : Delimited trail pieces) :
    Delimited "" pieces := by
  induction h with
  | nil => exact .nil
  | @cons gap lexeme pieces gapped formed apart later ih =>
    rw [spread_eq_append, String.toList_append] at apart
    exact .cons gapped formed (fun hword => startsApart_of_append (apart hword)) ih

end Delimited

theorem exists_split_of_tokensFrom {position : Nat} {pieces : List (String × Lexeme)}
    {before after : List Token} (h : tokensFrom position pieces = before ++ after) :
    ∃ consumed upcoming, pieces = consumed ++ upcoming ∧ tokensFrom position consumed = before := by
  induction before generalizing position pieces with
  | nil => exact ⟨[], pieces, rfl, rfl⟩
  | cons token before ih =>
    cases pieces with
    | nil => simp [tokensFrom] at h
    | cons piece pieces =>
      simp only [tokensFrom, List.cons_append, List.cons.injEq] at h
      obtain ⟨rfl, hlater⟩ := h
      obtain ⟨consumed, upcoming, rfl, hconsumed⟩ := ih hlater
      exact ⟨piece :: consumed, upcoming, rfl, by rw [tokensFrom, hconsumed]⟩

theorem lastStop_tokensFrom (position : Nat) (pieces : List (String × Lexeme)) :
    lastStop position (tokensFrom position pieces) = position + (spread "" pieces).length := by
  induction pieces generalizing position with
  | nil => rfl
  | cons piece pieces ih =>
    have hlater := ih (position + piece.1.length + piece.2.text.length)
    simpa [tokensFrom, lastStop, spread, String.length_append, Nat.add_assoc] using hlater

/-- What stands behind delimited lexemes is scanned as if it stood alone. -/
theorem scan_spread_shift {pieces : List (String × Lexeme)} {trail : String}
    (h : Delimited trail pieces) :
    scan (spread trail pieces) =
      ((scan trail).shift (spread "" pieces).length).prepend (tokensFrom 0 pieces) := by
  have hscan := scan_spread h 0
  rw [Nat.zero_add, Mode.scan_gap_shift (spread "" pieces).length] at hscan
  exact hscan

/-- A text may be cut behind any of its tokens. Both parts are scanned as if they stood alone, and a
fault lies in the second one. -/
theorem exists_cut {text : String} {before after : List Token} {fault : Option ReadError}
    (h : scan text = ⟨before ++ after, fault⟩) :
    ∃ first rest, text = first ++ rest ∧ first.length = lastStop 0 before ∧
      scan first = ⟨before, none⟩ ∧ (scan rest).shift first.length = ⟨after, fault⟩ := by
  obtain ⟨pieces, trail, hpieces, htext, htokens, -⟩ := scan_parts text
  rw [h] at htokens
  obtain ⟨consumed, upcoming, rfl, rfl⟩ := exists_split_of_tokensFrom htokens.symm
  have hwhole : text = spread (spread trail upcoming) consumed := by
    rw [← spread_append]
    exact String.toList_injective htext.symm
  refine ⟨spread "" consumed, spread trail upcoming, ?_, ?_, ?_, ?_⟩
  · rw [← spread_eq_append]
    exact hwhole
  · rw [lastStop_tokensFrom, Nat.zero_add]
  · rw [scan_spread_shift hpieces.left.untrailed]
    show Scanned.mk (tokensFrom 0 consumed ++ []) none = _
    rw [List.append_nil]
  · rw [hwhole, scan_spread_shift hpieces.left] at h
    simp only [Scanned.prepend, Scanned.mk.injEq, List.append_cancel_left_eq] at h
    obtain ⟨rfl, rfl⟩ := h
    rfl

-- ════════════════════════════════════════════════════════════════════════
-- The first node
-- ════════════════════════════════════════════════════════════════════════

namespace Cursor

/-- The tokens of a node, and no token behind them, are consumed when the node is read. -/
theorem resume_consumed {fault : Option ReadError} {position : Nat} {levels : List Level}
    {tokens : List Token} {node : Node} {c : Cursor}
    (h : resume fault position levels tokens = .ok (some node) c) :
    ∃ consumed rest, tokens = consumed ++ rest ∧ c = before fault (lastStop position consumed) rest ∧
      Level.readOn levels (lexemesOf consumed) = .ok ([node], []) := by
  induction tokens generalizing position levels with
  | nil =>
    simp only [resume] at h
    split at h <;> simp at h
  | cons token tokens ih =>
    cases hmove : Level.move levels token.lexeme with
    | shift after =>
      rw [resume_cons hmove (by simp), proceed] at h
      obtain ⟨consumed, rest, rfl, rfl, hread⟩ := ih h
      refine ⟨token :: consumed, rest, rfl, rfl, ?_⟩
      simp only [lexemesOf, List.map_cons, Level.readOn, hmove]
      exact hread
    | finish node' =>
      rw [resume_cons hmove (by simp), proceed] at h
      injection h with hnode hcursor
      injection hnode with hnode
      subst hnode
      refine ⟨[token], tokens, rfl, hcursor.symm, ?_⟩
      simp [lexemesOf, Level.readOn, hmove, Except.map]
    | reject error => simp [resume, hmove] at h
    | refuse error => simp [resume, hmove] at h

end Cursor

/-- The first node of a text is read from the tokens of a part of it, and the rest is what stands
behind this part. -/
theorem exists_cut_of_readNode {text rest : String} {node : Node}
    (h : readNode text = .ok (node, rest)) :
    ∃ first before after, text = first ++ rest ∧ scan text = ⟨before ++ after, (scan text).fault⟩ ∧
      scan first = ⟨before, none⟩ ∧ (scan rest).shift first.length = ⟨after, (scan text).fault⟩ ∧
      Level.readOn [] (lexemesOf before) = .ok ([node], []) := by
  unfold readNode at h
  split at h
  · next node' c hnode =>
    simp only [Except.ok.injEq, Prod.mk.injEq] at h
    obtain ⟨rfl, rfl⟩ := h
    rw [Cursor.readNode_eq_resume (Cursor.idle_ofText text)] at hnode
    obtain ⟨before, after, htokens, rfl, hread⟩ := Cursor.resume_consumed hnode
    have hscan : scan text = ⟨before ++ after, (scan text).fault⟩ :=
      congrArg (Scanned.mk · _) htokens
    obtain ⟨first, rest, htext, hlength, hfirst, hrest⟩ := exists_cut hscan
    have hdrop : String.ofList (text.toList.drop (lastStop 0 before)) = rest := by
      rw [← hlength, htext, String.toList_append, ← String.length_toList, List.drop_left,
        String.ofList_toList]
    refine ⟨first, before, after, ?_, hscan, hfirst, ?_, hread⟩
    · exact htext.trans (congrArg _ hdrop.symm)
    · exact (congrArg (fun rest => (scan rest).shift first.length) hdrop).trans hrest
  · cases h
  · cases h

theorem readNodes_of_readNode {text rest : String} {node : Node}
    (h : readNode text = .ok (node, rest)) :
    ∃ first, text = first ++ rest ∧ readNodes first = .ok [node] ∧
      readNodes text =
        ((readNodes rest).mapError (ReadError.shift first.length)).map (node :: ·) := by
  obtain ⟨first, before, after, htext, hscan, hfirst, hrest, hread⟩ := exists_cut_of_readNode h
  refine ⟨first, htext, ?_, ?_⟩
  · rw [readNodes_eq_conclude, hfirst, hread]
    rfl
  · have htokens : (scan rest).tokens.map (Token.shift first.length) = after :=
      congrArg Scanned.tokens hrest
    have hfault : (scan rest).fault.map (ReadError.shift first.length) = (scan text).fault :=
      congrArg Scanned.fault hrest
    have hlexemes : lexemesOf after = lexemesOf (scan rest).tokens := by
      rw [← htokens, lexemesOf_shift]
    calc readNodes text
        = conclude (scan text).fault
            (Level.readOn [] (lexemesOf before ++ lexemesOf (scan rest).tokens)) := by
          rw [readNodes_eq_conclude, congrArg Scanned.tokens hscan, lexemesOf_append, hlexemes]
      _ = (conclude (scan text).fault
            (Level.readOn [] (lexemesOf (scan rest).tokens))).map (node :: ·) := by
          rw [Level.readOn_append_of_ok hread, conclude_map]
          rfl
      _ = ((readNodes rest).mapError (ReadError.shift first.length)).map (node :: ·) := by
          rw [← hfault, conclude_shift, readNodes_eq_conclude]

/-- A text without nodes is a gap. -/
theorem isGap_of_readNodes {text : String} (h : readNodes text = .ok []) : isGap text = true := by
  obtain ⟨hfault, hflat, -⟩ := readNodes_eq_ok_iff.1 h
  obtain ⟨pieces, trail, hpieces, htext, htokens, htrail⟩ := scan_parts text
  generalize hlexemes : lexemesOf (scan text).tokens = lexemes at hflat
  cases hflat with
  | nil =>
    rw [lexemesOf, List.map_eq_nil_iff] at hlexemes
    cases pieces with
    | nil =>
      obtain rfl := String.toList_injective htext
      exact htrail hfault
    | cons piece pieces => simp [hlexemes, tokensFrom] at htokens

theorem readNodes_of_readNode_error {text : String} {error : ReadError}
    (h : readNode text = .error error) (htext : isGap text = false) :
    readNodes text = .error error := by
  unfold readNode at h
  split at h
  · cases h
  · next c hend =>
    have hnone : readNodes text = .ok [] := by
      rw [readNodes, Cursor.readAll_of_end hend]
    rw [isGap_of_readNodes hnone] at htext
    cases htext
  · next error' c herror =>
    cases h
    rw [readNodes, Cursor.readAll_of_error herror]

theorem scanFrom_shift (place : Nat) (text : String) :
    scanFrom place text =
      .ok ((scan (String.ofList (text.toList.drop place))).shift place) := by
  have hshift := Mode.scan_gap_shift place (text.toList.drop place)
  rw [scanFrom_natCast, scanAfter, hshift]
  simp [scan, scanAfter]

/-- Reading node by node agrees with reading at once. If a first node is read, the part of the text
before the rest is read as this node alone, and all nodes are this node and those of the rest, or the
error of the rest. If none can be read from a text that is more than a gap, the same error is met
when all are read. And scanning from a place is scanning what stands behind it. Places are
counted from the beginning of the text. -/
theorem reading_stepwise (text : String) :
    (∀ node rest, readNode text = .ok (node, rest) →
      ∃ first, text = first ++ rest ∧ readNodes first = .ok [node] ∧
        readNodes text =
          ((readNodes rest).mapError (ReadError.shift first.length)).map (node :: ·)) ∧
    (∀ error, readNode text = .error error → isGap text = false →
      readNodes text = .error error) ∧
    ∀ place : Nat, scanFrom place text =
      .ok ((scan (String.ofList (text.toList.drop place))).shift place) := by
  refine ⟨fun node rest => readNodes_of_readNode, fun error => readNodes_of_readNode_error, ?_⟩
  exact fun place => scanFrom_shift place text

/-- A quoted name and a text that a fault follows, and a list that does not end. -/
theorem reading_stepwise_quoted_name_list :
    (∃ first, " 'a\"b\" 7#" = first ++ "\"b\" 7#" ∧
      readNodes first = .ok [.quote (.ident "a")] ∧
      readNodes " 'a\"b\" 7#" =
        ((readNodes "\"b\" 7#").mapError (ReadError.shift first.length)).map
          (Node.quote (.ident "a") :: ·)) ∧
    readNodes "(f" = .error .unmatchedOpen := by
  have hquoted : readNode " 'a\"b\" 7#" = .ok (.quote (.ident "a"), "\"b\" 7#") := by
    rw [readNode, Cursor.readNode_eq_resume (Cursor.idle_ofText _)]
    rfl
  have hopen : readNode "(f" = .error .unmatchedOpen := by
    rw [readNode, Cursor.readNode_eq_resume (Cursor.idle_ofText _)]
    rfl
  refine ⟨(reading_stepwise " 'a\"b\" 7#").1 _ _ hquoted, ?_⟩
  exact (reading_stepwise "(f").2.1 _ hopen rfl

end FexprLisp
