import FexprLisp.Proofs.Source.Levels
import FexprLisp.Proofs.Source.Spelling

/-!
# Reading spelled nodes

The cursor reads back what is spelled: the tokens that spell a node do to the open levels what the
node itself does, unless the node is nested too deeply there. And whatever the cursor reads, it
reads as a node that is readable.

## Main definitions

- `Node.FitsAt` — a node that may stand inside so many levels
- `Level.Fits` — all nodes that the open levels hold fit where they stand

## Main statements

- `Cursor.resume_spelled` — tokens that spell a node hand it to the open levels
- `Cursor.resume_tooDeep` — unless the node is nested too deeply
- `Cursor.readAll_spelled` — nodes that are spelled one after the other are all read
- `Cursor.readAll_readable` — every node that is read is readable
-/

namespace FexprLisp

namespace Level

/-- A lexeme that denotes a node hands it to the open levels, if there are not too many. -/
theorem move_of_denotes {lexeme : Lexeme} {node : Node} (h : lexeme.Denotes node)
    (levels : List Level) :
    move levels lexeme =
      if maxNesting < levels.length then .refuse .tooDeep else fill levels node := by
  cases lexeme with
  | identifier name =>
    rw [move_of_ne_rparen (by simp)]
    simp only [Lexeme.Denotes] at h
    rw [start, h]
  | integer digits =>
    rw [move_of_ne_rparen (by simp)]
    simp only [Lexeme.Denotes] at h
    rw [start, h, fillWith]
  | string body =>
    rw [move_of_ne_rparen (by simp)]
    simp only [Lexeme.Denotes] at h
    rw [start, h, fillWith]
  | lparen => exact h.elim
  | rparen => exact h.elim
  | quote => exact h.elim

theorem move_rparen {read : List Node} (h : read ≠ []) (outer : List Level) :
    move (.list read :: outer) .rparen = fill outer (.list read.reverse) := by
  cases read with
  | nil => exact absurd rfl h
  | cons item read => rfl

end Level

namespace Cursor

-- ════════════════════════════════════════════════════════════════════════
-- What is spelled is read
-- ════════════════════════════════════════════════════════════════════════

theorem resume_denoted {node : Node} {tokens : List Token}
    (h : ∃ lexeme : Lexeme, tokens.map (·.lexeme) = [lexeme] ∧ lexeme.Denotes node)
    {levels : List Level} (hfit : levels.length ≤ maxNesting) (fault : Option ReadError)
    (position : Nat) (rest : List Token) :
    resume fault position levels (tokens ++ rest) =
      proceed fault (lastStop position tokens) rest (Level.fill levels node) := by
  obtain ⟨lexeme, htokens, hdenotes⟩ := h
  obtain ⟨token, rfl, rfl⟩ := List.map_eq_singleton_iff.1 htokens
  refine resume_cons ?_ (Level.fill_ne_refuse levels node) fault position rest
  rw [Level.move_of_denotes hdenotes, if_neg (Nat.not_lt.2 hfit)]

mutual

/-- Tokens that spell a node hand it to the open levels, if it may stand inside them. -/
theorem resume_spelled : ∀ (node : Node) {tokens : List Token} {levels : List Level},
    Spells node (tokens.map (·.lexeme)) → node.nesting + levels.length ≤ maxNesting →
    ∀ (fault : Option ReadError) (position : Nat) (rest : List Token),
    resume fault position levels (tokens ++ rest) =
      proceed fault (lastStop position tokens) rest (Level.fill levels node)
  | .ident _, _, _, h, hfit => resume_denoted h (by simpa [Node.nesting] using hfit)
  | .int _, _, _, h, hfit => resume_denoted h (by simpa [Node.nesting] using hfit)
  | .str _, _, _, h, hfit => resume_denoted h (by simpa [Node.nesting] using hfit)
  | .hole, _, _, h, hfit => resume_denoted h (by simpa [Node.nesting] using hfit)
  | .quote node, tokens, levels, h, hfit => by
    intro fault position rest
    obtain ⟨inner, htokens, hinner⟩ := h
    obtain ⟨token, tokens, rfl, hquote, rfl⟩ := List.map_eq_cons_iff.1 htokens
    simp only [Node.nesting] at hfit
    have hmove : Level.move levels token.lexeme = .shift (.quote :: levels) := by
      rw [hquote, Level.move_of_ne_rparen (by simp), if_neg (by omega), Level.start,
        if_neg (by omega)]
    rw [List.cons_append, resume_cons hmove (by simp), proceed,
      resume_spelled node hinner (by simp only [List.length_cons]; omega)]
    rfl
  | .list items, tokens, levels, h, hfit => by
    intro fault position rest
    obtain ⟨hne, inner, htokens, hinner⟩ := h
    obtain ⟨first, tokens, rfl, hopen, hmap⟩ := List.map_eq_cons_iff.1 htokens
    obtain ⟨tokens, closing, rfl, rfl, hlast⟩ := List.map_eq_append_iff.1 hmap
    obtain ⟨last, rfl, hclose⟩ := List.map_eq_singleton_iff.1 hlast
    simp only [Node.nesting] at hfit
    have hmove : Level.move levels first.lexeme = .shift (.list [] :: levels) := by
      rw [hopen, Level.move_of_ne_rparen (by simp), if_neg (by omega), Level.start]
    have hfill : Level.move (.list items.reverse :: levels) last.lexeme =
        Level.fill levels (.list items) := by
      rw [hclose, Level.move_rparen (by simpa using hne), List.reverse_reverse]
    rw [List.cons_append, List.append_assoc, resume_cons hmove (by simp), proceed,
      resume_spelledEach items hinner (by omega), List.append_nil, List.singleton_append,
      resume_cons hfill (Level.fill_ne_refuse _ _)]
    simp [lastStop]

theorem resume_spelledEach : ∀ (nodes : List Node) {tokens : List Token} {read : List Node}
    {outer : List Level}, SpellsEach nodes (tokens.map (·.lexeme)) →
    Node.deepest nodes + (outer.length + 1) ≤ maxNesting →
    ∀ (fault : Option ReadError) (position : Nat) (rest : List Token),
    resume fault position (.list read :: outer) (tokens ++ rest) =
      resume fault (lastStop position tokens) (.list (nodes.reverse ++ read) :: outer) rest
  | [], tokens, _, _, h, _ => by
    intro fault position rest
    obtain rfl : tokens = [] := List.map_eq_nil_iff.1 h
    rfl
  | node :: nodes, tokens, read, outer, h, hfit => by
    intro fault position rest
    obtain ⟨first, more, htokens, hfirst, hmore⟩ := h
    obtain ⟨before, after, rfl, rfl, rfl⟩ := List.map_eq_append_iff.1 htokens
    simp only [Node.deepest] at hfit
    rw [List.append_assoc, resume_spelled node hfirst (by simp only [List.length_cons]; omega),
      Level.fill, proceed, resume_spelledEach nodes hmore (by omega), lastStop_append,
      List.reverse_cons, List.append_assoc, List.singleton_append]

end

-- ════════════════════════════════════════════════════════════════════════
-- What is nested too deeply is refused
-- ════════════════════════════════════════════════════════════════════════

theorem resume_denoted_tooDeep {node : Node} {tokens : List Token}
    (h : ∃ lexeme : Lexeme, tokens.map (·.lexeme) = [lexeme] ∧ lexeme.Denotes node)
    {levels : List Level} (hdeep : maxNesting < levels.length) (fault : Option ReadError)
    (position : Nat) (rest : List Token) :
    ∃ c, resume fault position levels (tokens ++ rest) = .error .tooDeep c := by
  obtain ⟨lexeme, htokens, hdenotes⟩ := h
  obtain ⟨token, rfl, rfl⟩ := List.map_eq_singleton_iff.1 htokens
  refine resume_refuse ?_ fault position rest
  rw [Level.move_of_denotes hdenotes, if_pos hdeep]

mutual

/-- Tokens that spell a node which may not stand inside the open levels are refused. -/
theorem resume_tooDeep : ∀ (node : Node) {tokens : List Token} {levels : List Level},
    Spells node (tokens.map (·.lexeme)) → maxNesting < node.nesting + levels.length →
    ∀ (fault : Option ReadError) (position : Nat) (rest : List Token),
    ∃ c, resume fault position levels (tokens ++ rest) = .error .tooDeep c
  | .ident _, _, _, h, hdeep => resume_denoted_tooDeep h (by simpa [Node.nesting] using hdeep)
  | .int _, _, _, h, hdeep => resume_denoted_tooDeep h (by simpa [Node.nesting] using hdeep)
  | .str _, _, _, h, hdeep => resume_denoted_tooDeep h (by simpa [Node.nesting] using hdeep)
  | .hole, _, _, h, hdeep => resume_denoted_tooDeep h (by simpa [Node.nesting] using hdeep)
  | .quote node, tokens, levels, h, hdeep => by
    intro fault position rest
    obtain ⟨inner, htokens, hinner⟩ := h
    obtain ⟨token, tokens, rfl, hquote, rfl⟩ := List.map_eq_cons_iff.1 htokens
    simp only [Node.nesting] at hdeep
    rw [List.cons_append]
    have hmove : Level.move levels token.lexeme =
        if maxNesting < levels.length then .refuse .tooDeep
        else if maxNesting ≤ levels.length then .reject .tooDeep
        else .shift (.quote :: levels) := by
      rw [hquote, Level.move_of_ne_rparen (by simp), Level.start]
    by_cases hlevels : maxNesting < levels.length
    · exact resume_refuse (by rw [hmove, if_pos hlevels]) fault position _
    rw [if_neg hlevels] at hmove
    by_cases hfull : maxNesting ≤ levels.length
    · rw [if_pos hfull] at hmove
      exact ⟨_, resume_cons hmove (by simp) fault position _⟩
    · rw [if_neg hfull] at hmove
      rw [resume_cons hmove (by simp), proceed]
      exact resume_tooDeep node hinner (by simp only [List.length_cons]; omega) _ _ _
  | .list items, tokens, levels, h, hdeep => by
    intro fault position rest
    obtain ⟨hne, inner, htokens, hinner⟩ := h
    obtain ⟨first, tokens, rfl, hopen, hmap⟩ := List.map_eq_cons_iff.1 htokens
    obtain ⟨tokens, closing, rfl, rfl, -⟩ := List.map_eq_append_iff.1 hmap
    simp only [Node.nesting] at hdeep
    rw [List.cons_append, List.append_assoc]
    have hmove : Level.move levels first.lexeme =
        if maxNesting < levels.length then .refuse .tooDeep else .shift (.list [] :: levels) := by
      rw [hopen, Level.move_of_ne_rparen (by simp), Level.start]
    by_cases hlevels : maxNesting < levels.length
    · exact resume_refuse (by rw [hmove, if_pos hlevels]) fault position _
    · rw [if_neg hlevels] at hmove
      rw [resume_cons hmove (by simp), proceed]
      exact resume_tooDeepEach items hne hinner (by omega) _ _ _

theorem resume_tooDeepEach : ∀ (nodes : List Node) {tokens : List Token} {read : List Node}
    {outer : List Level}, nodes ≠ [] → SpellsEach nodes (tokens.map (·.lexeme)) →
    maxNesting < Node.deepest nodes + (outer.length + 1) →
    ∀ (fault : Option ReadError) (position : Nat) (rest : List Token),
    ∃ c, resume fault position (.list read :: outer) (tokens ++ rest) = .error .tooDeep c
  | [], _, _, _, hne, _, _ => absurd rfl hne
  | node :: nodes, tokens, read, outer, _, h, hdeep => by
    intro fault position rest
    obtain ⟨first, more, htokens, hfirst, hmore⟩ := h
    obtain ⟨before, after, rfl, rfl, rfl⟩ := List.map_eq_append_iff.1 htokens
    simp only [Node.deepest] at hdeep
    rw [List.append_assoc]
    by_cases hfit : node.nesting + (outer.length + 1) ≤ maxNesting
    · -- the first node is read, so it is a later one that may not stand there
      have hne : nodes ≠ [] := by
        rintro rfl
        simp only [Node.deepest] at hdeep
        omega
      rw [resume_spelled node hfirst (by simpa using hfit), Level.fill, proceed]
      exact resume_tooDeepEach nodes hne hmore (by omega) _ _ _
    · exact resume_tooDeep node hfirst (by simp only [List.length_cons]; omega) _ _ _

end

theorem readAll_of_end {c c' : Cursor} (h : readNode c = .ok none c') : readAll c = .ok [] c' := by
  rw [readAll]
  split <;> simp_all

theorem readAll_of_error {c c' : Cursor} {error : ReadError} (h : readNode c = .error error c') :
    readAll c = .error error c' := by
  rw [readAll]
  split <;> simp_all

theorem readAll_of_node {c c' : Cursor} {node : Node} (h : readNode c = .ok (some node) c') :
    readAll c = match readAll c' with
      | .ok nodes c => .ok (node :: nodes) c
      | .error error c => .error error c := by
  rw [readAll]
  split
  · simp_all
  · simp_all
  · next heq =>
    simp only [h, EStateM.Result.ok.injEq, Option.some.injEq] at heq
    obtain ⟨rfl, rfl⟩ := heq
    rfl

/-- Nodes that are spelled one after the other are all read, up to the end of the text. -/
theorem readAll_spelled {nodes : List Node} {tokens : List Token}
    (h : SpellsEach nodes (tokens.map (·.lexeme)))
    (hfit : ∀ node ∈ nodes, node.nesting ≤ maxNesting) (position : Nat) :
    ∃ c, readAll (before none position tokens) = .ok nodes c := by
  induction nodes generalizing tokens position with
  | nil =>
    obtain rfl : tokens = [] := List.map_eq_nil_iff.1 h
    exact ⟨_, readAll_of_end (readNode_before none position [])⟩
  | cons node nodes ih =>
    obtain ⟨first, more, htokens, hfirst, hmore⟩ := h
    obtain ⟨start, rest, rfl, rfl, rfl⟩ := List.map_eq_append_iff.1 htokens
    have hnode : readNode (before none position (start ++ rest)) =
        .ok (some node) (before none (lastStop position start) rest) := by
      rw [readNode_before, resume_spelled node hfirst (by simpa using hfit node (by simp))]
      rfl
    obtain ⟨c, hall⟩ := ih hmore (fun n hn => hfit n (by simp [hn])) (lastStop position start)
    exact ⟨c, by rw [readAll_of_node hnode, hall]⟩

end Cursor

-- ════════════════════════════════════════════════════════════════════════
-- What is read is readable
-- ════════════════════════════════════════════════════════════════════════

/-- A node that may stand inside so many levels. -/
def Node.FitsAt (depth : Nat) (node : Node) : Prop :=
  node.isLegible = true ∧ node.nesting + depth ≤ maxNesting

theorem Node.FitsAt.list {depth : Nat} {items : List Node} (hne : items ≠ [])
    (h : ∀ item ∈ items, item.FitsAt (depth + 1)) : (Node.list items).FitsAt depth := by
  constructor
  · simp only [isLegible, Bool.and_eq_true, Bool.not_eq_true', List.isEmpty_eq_false_iff]
    exact ⟨hne, allLegible_iff.2 fun item hi => (h item hi).1⟩
  · have hdeepest : deepest items ≤ maxNesting - (depth + 1) :=
      deepest_le_iff.2 fun item hi => Nat.le_sub_of_add_le (h item hi).2
    obtain ⟨item, hi⟩ := List.exists_mem_of_ne_nil items hne
    have := (h item hi).2
    simp only [nesting]
    omega

theorem isLegible_of_readInteger {digits : String} {node : Node}
    (h : readInteger digits = .ok node) : node.isLegible = true ∧ node.nesting = 0 := by
  unfold readInteger at h
  split at h
  · cases h
  · simp only at h
    split at h
    · cases h
    · next hmax =>
      cases h
      simp only [Node.isLegible, Node.nesting, Bool.and_eq_true, decide_eq_true_eq, and_true]
      exact ⟨Int.natCast_nonneg _, Int.not_lt.1 hmax⟩

theorem isLegible_of_readString {body : String} {node : Node}
    (h : readString body = .ok node) : node.isLegible = true ∧ node.nesting = 0 := by
  unfold readString at h
  split at h
  · cases h
    exact ⟨rfl, rfl⟩
  · cases h

theorem Lexeme.Denotes.fitsAt {lexeme : Lexeme} {node : Node} (h : lexeme.Denotes node)
    (hform : lexeme.wellFormed = true) {depth : Nat} (hdepth : depth ≤ maxNesting) :
    node.FitsAt depth := by
  have hatom : node.isLegible = true ∧ node.nesting = 0 := by
    cases lexeme with
    | identifier name =>
      simp only [Lexeme.Denotes] at h
      subst h
      exact ⟨hform, rfl⟩
    | integer digits => exact isLegible_of_readInteger h
    | string body => exact isLegible_of_readString h
    | lparen => exact h.elim
    | rparen => exact h.elim
    | quote => exact h.elim
  exact ⟨hatom.1, by rw [hatom.2]; omega⟩

namespace Level

/-- All nodes that the open levels hold fit where they stand. -/
def Fits : List Level → Prop
  | [] => True
  | .quote :: outer => Fits outer
  | .list read :: outer => (∀ node ∈ read, node.FitsAt (outer.length + 1)) ∧ Fits outer

theorem fits_nil : Fits [] := trivial

end Level

/-- A move leaves levels that hold nodes which fit, or completes a readable node. -/
def Move.Fits : Move → Prop
  | .shift levels => Level.Fits levels
  | .finish node => node.Readable
  | .reject _ | .refuse _ => True

namespace Level

theorem fill_fits {levels : List Level} {node : Node} (h : Fits levels)
    (hnode : node.FitsAt levels.length) : (fill levels node).Fits := by
  induction levels generalizing node with
  | nil => exact hnode
  | cons level outer ih =>
    cases level with
    | quote =>
      refine ih h ⟨hnode.1, ?_⟩
      have := hnode.2
      simp only [List.length_cons, Node.nesting] at this ⊢
      omega
    | list read =>
      refine ⟨fun other hother => ?_, h.2⟩
      rcases List.mem_cons.1 hother with rfl | hother
      · exact hnode
      · exact h.1 other hother

theorem fillWith_fits {levels : List Level} (h : Fits levels) {result : Except ReadError Node}
    (hresult : ∀ node, result = .ok node → node.FitsAt levels.length) :
    (fillWith levels result).Fits := by
  cases result with
  | error error => trivial
  | ok node => exact fill_fits h (hresult node rfl)

theorem start_fits {levels : List Level} (h : Fits levels) (hlevels : levels.length ≤ maxNesting)
    {lexeme : Lexeme} (hform : lexeme.wellFormed = true) : (start levels lexeme).Fits := by
  cases lexeme with
  | lparen => exact ⟨by simp, h⟩
  | rparen => trivial
  | quote =>
    simp only [start]
    split
    · trivial
    · exact h
  | string body =>
    exact fillWith_fits h fun node hn =>
      (show (Lexeme.string body).Denotes node from hn).fitsAt hform hlevels
  | integer digits =>
    exact fillWith_fits h fun node hn =>
      (show (Lexeme.integer digits).Denotes node from hn).fitsAt hform hlevels
  | identifier name =>
    exact fill_fits h ((show (Lexeme.identifier name).Denotes _ from rfl).fitsAt hform hlevels)

/-- One token leaves nodes that fit where they stand. -/
theorem move_fits {levels : List Level} (h : Fits levels) {lexeme : Lexeme}
    (hform : lexeme.wellFormed = true) : (move levels lexeme).Fits := by
  unfold move
  split
  · trivial
  · next item read outer =>
    refine fill_fits h.2 (Node.FitsAt.list (by simp) fun node hn => h.1 node ?_)
    simpa [or_comm] using hn
  · split
    · trivial
    · exact start_fits h (by omega) hform

end Level

namespace Cursor

/-- Every node that is read is readable, and the cursor then stands before tokens that followed. -/
theorem resume_readable {tokens : List Token} (hform : ∀ t ∈ tokens, t.lexeme.wellFormed = true)
    {levels : List Level} (hlevels : Level.Fits levels) {fault : Option ReadError} {position : Nat}
    {node : Node} {c : Cursor} (h : resume fault position levels tokens = .ok (some node) c) :
    node.Readable ∧ ∃ rest position', c = before fault position' rest ∧ ∀ t ∈ rest, t ∈ tokens := by
  induction tokens generalizing levels position with
  | nil =>
    simp only [resume] at h
    split at h <;> simp at h
  | cons token rest ih =>
    have hmove := Level.move_fits hlevels (hform token (by simp))
    simp only [resume] at h
    split at h
    · next after heq =>
      rw [heq] at hmove
      obtain ⟨hnode, rest', position', hc, hrest⟩ := ih (fun t ht => hform t (by simp [ht])) hmove h
      exact ⟨hnode, rest', position', hc, fun t ht => List.mem_cons_of_mem _ (hrest t ht)⟩
    · next heq =>
      rw [heq] at hmove
      cases h
      exact ⟨hmove, rest, token.stop, rfl, fun t ht => List.mem_cons_of_mem _ ht⟩
    · cases h
    · cases h

theorem readAll_readable {tokens : List Token} (hform : ∀ t ∈ tokens, t.lexeme.wellFormed = true)
    {fault : Option ReadError} {position : Nat} {nodes : List Node} {c : Cursor}
    (h : readAll (before fault position tokens) = .ok nodes c) : ∀ node ∈ nodes, node.Readable := by
  induction nodes generalizing tokens position with
  | nil => simp
  | cons node nodes ih =>
    cases hread : readNode (before fault position tokens) with
    | error error c' => simp [readAll_of_error hread] at h
    | ok result c' =>
      cases result with
      | none => simp [readAll_of_end hread] at h
      | some first =>
        have hresume : resume fault position [] tokens = .ok (some first) c' := by
          rw [← readNode_before, hread]
        obtain ⟨hfirst, rest, position', rfl, hrest⟩ := resume_readable hform Level.fits_nil hresume
        rw [readAll_of_node hread] at h
        cases hall : readAll (before fault position' rest) with
        | error error c'' => simp [hall] at h
        | ok more c'' =>
          simp only [hall, EStateM.Result.ok.injEq, List.cons.injEq] at h
          obtain ⟨⟨rfl, rfl⟩, rfl⟩ := h
          intro other hother
          rcases List.mem_cons.1 hother with rfl | hother
          · exact hfirst
          · exact ih (fun t ht => hform t (hrest t ht)) hall other hother

end Cursor

end FexprLisp
