import FexprLisp.Proofs.Source.Reading

/-!
# Printing and reading

Nodes that are printed in source form, with separators between them, are read back. Only nesting
stands in the way, and what the reader makes of any text can always be printed and read again.

## Main definitions

- `laidOut` — nodes in source form with separators around them
- `Spaced` — the separators keep every two nodes apart

## Main statements

- `readNodes_laidOut` — readable nodes are read back from their source forms
- `readNodes_tooDeep` — a legible node that is nested too deeply is refused as such
- `readNodes_readable` — all nodes that are read are readable
- `readNodes_inverse_source` — all of this
-/

namespace FexprLisp

/-- Nodes in source form, each behind a text, and a text behind them all. -/
def laidOut (trail : String) : List (String × Node) → String
  | [] => trail
  | (gap, node) :: pieces => gap ++ node.source ++ laidOut trail pieces

/-- A text of separators only. -/
def isGap (text : String) : Bool :=
  text.toList.all isSeparator

/-- Only separators stand around the nodes, and there are some between every two of them. -/
structure Spaced (pieces : List (String × Node)) (trail : String) : Prop where
  gaps : ∀ piece ∈ pieces, isGap piece.1 = true
  apart : ∀ piece ∈ pieces.tail, piece.1 ≠ ""
  trail : isGap trail = true

theorem startsApart_of_isGap {gap : String} (h : isGap gap = true) (hne : gap ≠ "")
    (rest : List Char) : startsApart (gap.toList ++ rest) = true := by
  cases htext : gap.toList with
  | nil => exact absurd (String.toList_eq_nil_iff.1 htext) hne
  | cons c cs =>
    simp only [isGap, htext, List.all_cons, Bool.and_eq_true] at h
    exact isDelimiter_of_isSeparator h.1

theorem startsApart_laidOut {pieces : List (String × Node)} {trail : String}
    (h : Spaced pieces trail) (hne : ∀ piece ∈ pieces, piece.1 ≠ "") :
    startsApart (laidOut trail pieces).toList = true := by
  cases pieces with
  | nil =>
    by_cases htrail : trail = ""
    · subst htrail
      rfl
    · simpa [laidOut] using startsApart_of_isGap h.trail htrail []
  | cons piece pieces =>
    obtain ⟨gap, node⟩ := piece
    simp only [laidOut, String.toList_append, List.append_assoc]
    exact startsApart_of_isGap (h.gaps (gap, node) (by simp)) (hne (gap, node) (by simp)) _

theorem scan_gap_of_isGap {trail : String} (h : isGap trail = true) (position : Nat) :
    Mode.gap.scan position trail.toList = ⟨[], none⟩ := by
  have hscan := Mode.scan_separators h position []
  rw [List.append_nil] at hscan
  rw [hscan]
  rfl

/-- Legible nodes that are laid out are scanned as a spelling of them, without a fault. -/
theorem scan_laidOut {pieces : List (String × Node)} {trail : String} (h : Spaced pieces trail)
    (hlegible : ∀ piece ∈ pieces, piece.2.isLegible = true) (position : Nat) :
    ∃ tokens : List Token, SpellsEach (pieces.map (·.2)) (tokens.map (·.lexeme)) ∧
      Mode.gap.scan position (laidOut trail pieces).toList = ⟨tokens, none⟩ := by
  induction pieces generalizing position with
  | nil =>
    exact ⟨[], rfl, scan_gap_of_isGap h.trail position⟩
  | cons piece pieces ih =>
    obtain ⟨gap, node⟩ := piece
    have hgap : gap.toList.all isSeparator = true := h.gaps (gap, node) (by simp)
    have hlater : Spaced pieces trail :=
      ⟨fun p hp => h.gaps p (by simp [hp]), fun p hp => h.apart p (List.mem_of_mem_tail hp), h.trail⟩
    have hapart := startsApart_laidOut hlater h.apart
    obtain ⟨tokens, hnode, hscan⟩ := scan_source node (hlegible (gap, node) (by simp)) _ hapart
      (position + gap.toList.length)
    obtain ⟨more, hmore, hscan'⟩ := ih hlater (fun p hp => hlegible p (by simp [hp]))
      (position + gap.toList.length + node.source.toList.length)
    refine ⟨tokens ++ more, ⟨_, _, List.map_append, hnode, hmore⟩, ?_⟩
    rw [laidOut, String.toList_append, String.toList_append, List.append_assoc,
      Mode.scan_separators hgap, hscan, hscan']
    rfl

theorem ofText_eq_before {text : String} {tokens : List Token} {fault : Option ReadError}
    (h : Mode.gap.scan 0 text.toList = ⟨tokens, fault⟩) :
    Cursor.ofText text = Cursor.before fault 0 tokens := by
  have hscan : scan text = ⟨tokens, fault⟩ := h
  simp only [Cursor.ofText, hscan, Cursor.before]

theorem readNodes_laidOut {pieces : List (String × Node)} {trail : String} (h : Spaced pieces trail)
    (hreadable : ∀ piece ∈ pieces, piece.2.Readable) :
    readNodes (laidOut trail pieces) = .ok (pieces.map (·.2)) := by
  obtain ⟨tokens, hspelled, hscan⟩ := scan_laidOut h (fun p hp => (hreadable p hp).1) 0
  have hfit : ∀ node ∈ pieces.map (·.2), node.nesting ≤ maxNesting := by
    intro node hn
    obtain ⟨piece, hp, rfl⟩ := List.mem_map.1 hn
    exact (hreadable piece hp).2
  obtain ⟨c, hall⟩ := Cursor.readAll_spelled hspelled hfit 0
  rw [readNodes, ofText_eq_before hscan, hall]

theorem readNodes_tooDeep {node : Node} (h : node.isLegible = true)
    (hdeep : maxNesting < node.nesting) : readNodes node.source = .error .tooDeep := by
  obtain ⟨tokens, hspells, hscan⟩ := scan_source node h [] rfl 0
  have htext : Cursor.ofText node.source = Cursor.before none 0 tokens := by
    refine ofText_eq_before ?_
    rw [List.append_nil] at hscan
    rw [hscan]
    simp [Mode.scan, Mode.finish, Scanned.prepend]
  have hlevels : maxNesting < node.nesting + ([] : List Level).length := hdeep
  obtain ⟨c, hresume⟩ := Cursor.resume_tooDeep node hspells hlevels none 0 []
  rw [List.append_nil, ← Cursor.readNode_before] at hresume
  rw [readNodes, htext, Cursor.readAll_of_error hresume]

theorem readNodes_readable {text : String} {nodes : List Node} (h : readNodes text = .ok nodes) :
    ∀ node ∈ nodes, node.Readable := by
  unfold readNodes at h
  split at h
  · next nodes' c hall =>
    cases h
    exact Cursor.readAll_readable (scan_wellFormed text) hall
  · cases h

/-- Printing and reading are inverse: readable nodes are read back from their source forms, whatever
separators stand around them; a node that is legible otherwise is refused for its nesting; and what
is read from any text is readable, so that it can be printed and read again. -/
theorem readNodes_inverse_source :
    (∀ (pieces : List (String × Node)) (trail : String), Spaced pieces trail →
      (∀ piece ∈ pieces, piece.2.Readable) →
      readNodes (laidOut trail pieces) = .ok (pieces.map (·.2))) ∧
    (∀ node : Node, node.isLegible = true → maxNesting < node.nesting →
      readNodes node.source = .error .tooDeep ∧
      ReadError.tooDeep.failure? =
        some { kind := .unreadable, text := "Nesting deeper than 256 levels" }) ∧
    (∀ (text : String) (nodes : List Node), readNodes text = .ok nodes →
      (∀ node ∈ nodes, node.Readable) ∧
      ∀ (pieces : List (String × Node)) (trail : String), Spaced pieces trail →
        pieces.map (·.2) = nodes → readNodes (laidOut trail pieces) = .ok nodes) := by
  refine ⟨fun pieces trail => readNodes_laidOut, fun node h hdeep => ?_, fun text nodes h => ?_⟩
  · exact ⟨readNodes_tooDeep h hdeep, rfl⟩
  · have hreadable := readNodes_readable h
    refine ⟨hreadable, ?_⟩
    rintro pieces trail hspaced rfl
    exact readNodes_laidOut hspaced fun piece hp => hreadable _ (List.mem_map_of_mem hp)

/-- A name and a list with a quoted text are read back, and a name in 257 quotations is not. -/
theorem readNodes_inverse_source_name_list_quotes :
    readNodes (laidOut "\r\n" [("", .ident "a"), (" \t", .list [.int 7, .quote (.str "x\\\"\n")])]) =
      .ok [.ident "a", .list [.int 7, .quote (.str "x\\\"\n")]] ∧
    readNodes (laidOut "" [("\n", .ident "a"), (" ", .list [.int 7, .quote (.str "x\\\"\n")])]) =
      .ok [.ident "a", .list [.int 7, .quote (.str "x\\\"\n")]] ∧
    readNodes (Nat.repeat Node.quote 257 (.ident "x")).source = .error .tooDeep := by
  obtain ⟨hprinted, hdeep, hread⟩ := readNodes_inverse_source
  have h := hprinted [("", .ident "a"), (" \t", .list [.int 7, .quote (.str "x\\\"\n")])] "\r\n"
    ⟨by decide, by decide, by decide⟩ (by decide)
  refine ⟨h, ?_, ?_⟩
  · exact (hread _ _ h).2 _ _ ⟨by decide, by decide, by decide⟩ rfl
  · exact (hdeep _ (by decide +kernel) (by decide +kernel)).1

end FexprLisp
