import FexprLisp.Node.Print
import FexprLisp.Proofs.Source.Lexeme
import FexprLisp.Source.Cursor

/-!
# How nodes are spelled

A node is spelled by a row of lexemes. Atoms may be spelled in several ways, since a number may
have leading zeros and a text may hold a line feed raw or escaped. The source form of a node is one
spelling of it, and the scanner finds it wherever the source form stands.

## Main definitions

- `Node.nesting` — how many lists and quotations stand inside each other
- `Node.isLegible` — names, numbers and lists are such as the reader makes
- `Node.Readable` — legible, and not nested too deeply
- `Spells` — a row of lexemes spells a node

## Main statements

- `scan_source` — the source form of a legible node is scanned as a spelling of it
-/

namespace FexprLisp

namespace Node

mutual

/-- How many lists and quotations stand inside each other. -/
def nesting : Node → Nat
  | .quote node => nesting node + 1
  | .list items => deepest items + 1
  | _ => 0

/-- How many lists and quotations stand inside each other in the deepest of some nodes. -/
def deepest : List Node → Nat
  | [] => 0
  | node :: nodes => max (nesting node) (deepest nodes)

end

mutual

/-- Names, numbers and lists are such as the reader makes, and texts are arbitrary. -/
def isLegible : Node → Bool
  | .ident name => isName name.toList
  | .int value => 0 ≤ value && value ≤ maxInt
  | .str _ => true
  | .quote node => isLegible node
  | .list items => !items.isEmpty && allLegible items
  | .hole => false

/-- All nodes of a row are legible. -/
def allLegible : List Node → Bool
  | [] => true
  | node :: nodes => isLegible node && allLegible nodes

end

theorem allLegible_iff {nodes : List Node} :
    allLegible nodes = true ↔ ∀ node ∈ nodes, isLegible node = true := by
  induction nodes with
  | nil => simp [allLegible]
  | cons node nodes ih => simp [allLegible, ih]

theorem deepest_le_iff {nodes : List Node} {bound : Nat} :
    deepest nodes ≤ bound ↔ ∀ node ∈ nodes, nesting node ≤ bound := by
  induction nodes with
  | nil => simp [deepest]
  | cons node nodes ih => rw [deepest, Nat.max_le, ih, List.forall_mem_cons]

/-- A node that the reader can make: it is legible and not nested too deeply. -/
def Readable (node : Node) : Prop :=
  node.isLegible = true ∧ node.nesting ≤ maxNesting

instance (node : Node) : Decidable node.Readable :=
  inferInstanceAs (Decidable (_ ∧ _))

end Node

/-- A lexeme that is read as a node of its own. -/
def Lexeme.Denotes : Lexeme → Node → Prop
  | .identifier name, node => node = .ident name
  | .integer digits, node => readInteger digits = .ok node
  | .string body, node => readString body = .ok node
  | .lparen, _ | .rparen, _ | .quote, _ => False

mutual

/-- A row of lexemes spells a node. -/
def Spells : Node → List Lexeme → Prop
  | .quote node, lexemes => ∃ inner, lexemes = .quote :: inner ∧ Spells node inner
  | .list items, lexemes =>
    items ≠ [] ∧ ∃ inner, lexemes = .lparen :: (inner ++ [.rparen]) ∧ SpellsEach items inner
  | node, lexemes => ∃ lexeme : Lexeme, lexemes = [lexeme] ∧ lexeme.Denotes node

/-- A row of lexemes spells nodes one after the other. -/
def SpellsEach : List Node → List Lexeme → Prop
  | [], lexemes => lexemes = []
  | node :: nodes, lexemes =>
    ∃ first more, lexemes = first ++ more ∧ Spells node first ∧ SpellsEach nodes more

end

-- ════════════════════════════════════════════════════════════════════════
-- Atoms are spelled by their source forms
-- ════════════════════════════════════════════════════════════════════════

theorem isBody_escape (text : List Char) : isBody (Text.escape text) = true := by
  induction text with
  | nil => rfl
  | cons c text ih =>
    rw [Text.escape_cons]
    have hc : isBody (Text.escapeChar c) = true := by
      unfold Text.escapeChar
      split
      · rfl
      split
      · rfl
      split
      · rfl
      · next hbackslash hquote _ =>
        rw [isBody.eq_3 c [] (by simp)]
        simp [hbackslash, hquote, isBody]
    rw [isBody_append hc, ih]

/-- A number up to the greatest integer is written with few digits, and read back from them. -/
theorem readInteger_toString {n : Nat} (h : (n : Int) ≤ maxInt) :
    readInteger (toString n) = .ok (.int n) := by
  have hlength : (Nat.toDigits 10 n).length ≤ Text.digitLimit := by
    have hn : n < 10 ^ 10 := by
      unfold maxInt at h
      omega
    have := (Nat.length_toDigits_le_iff (by decide) (by decide)).2 hn
    exact Nat.le_trans this (by decide)
  unfold readInteger
  rw [if_neg (by simpa [← String.length_toList, Nat.toString_eq_ofList_toDigits] using hlength)]
  simp only [Nat.toString_eq_ofList_toDigits, String.toList_ofList, Nat.ofDigitChars_ten_toDigits]
  rw [if_neg (by omega)]

theorem isNumeral_toString (n : Nat) : isNumeral (toString n).toList = true := by
  simp only [isNumeral, Nat.toString_eq_ofList_toDigits, String.toList_ofList, Bool.and_eq_true,
    Bool.not_eq_true', List.isEmpty_eq_false_iff, List.all_eq_true]
  exact ⟨Nat.toDigits_ne_nil, fun c hc => Nat.isDigit_of_mem_toDigits (by decide) (by decide) hc⟩

/-- The source form of a legible atom is one lexeme that denotes it. -/
theorem exists_lexeme_of_atom {node : Node} (h : node.isLegible = true)
    (hquote : ∀ inner, node ≠ .quote inner) (hlist : ∀ items, node ≠ .list items) :
    ∃ lexeme : Lexeme, lexeme.text = node.source ∧ lexeme.wellFormed = true ∧
      lexeme.Denotes node := by
  cases node with
  | ident name => exact ⟨.identifier name, rfl, h, rfl⟩
  | int value =>
    simp only [Node.isLegible, Bool.and_eq_true, decide_eq_true_eq] at h
    obtain ⟨n, rfl⟩ := Int.eq_ofNat_of_zero_le h.1
    exact ⟨.integer (toString n), rfl, isNumeral_toString n, readInteger_toString h.2⟩
  | str text =>
    refine ⟨.string (String.ofList (Text.escape text.toList)), rfl, ?_, ?_⟩
    · simp [Lexeme.wellFormed, isBody_escape]
    · simp [Lexeme.Denotes, readString, Text.unescape_escape]
  | quote inner => exact absurd rfl (hquote inner)
  | list items => exact absurd rfl (hlist items)
  | hole => simp [Node.isLegible] at h

theorem spells_atom {node : Node} {lexeme : Lexeme} (h : lexeme.Denotes node)
    (hquote : ∀ inner, node ≠ .quote inner) (hlist : ∀ items, node ≠ .list items) :
    Spells node [lexeme] := by
  cases node with
  | quote inner => exact absurd rfl (hquote inner)
  | list items => exact absurd rfl (hlist items)
  | _ => exact ⟨lexeme, rfl, h⟩

-- ════════════════════════════════════════════════════════════════════════
-- Source forms are scanned as spellings
-- ════════════════════════════════════════════════════════════════════════

/-- The scanner finds tokens that spell nodes where a text stands, and then goes on behind it. -/
def ScansAs (Spelled : List Lexeme → Prop) (text rest : List Char) : Prop :=
  ∀ position, ∃ tokens : List Token, Spelled (tokens.map (·.lexeme)) ∧
    Mode.gap.scan position (text ++ rest) =
      (Mode.gap.scan (position + text.length) rest).prepend tokens

theorem ScansAs.atom {node : Node} (h : node.isLegible = true)
    (hquote : ∀ inner, node ≠ .quote inner) (hlist : ∀ items, node ≠ .list items)
    {rest : List Char} (hrest : startsApart rest = true) :
    ScansAs (Spells node) node.source.toList rest := by
  intro position
  obtain ⟨lexeme, htext, hform, hdenotes⟩ := exists_lexeme_of_atom h hquote hlist
  refine ⟨[⟨lexeme, position + lexeme.text.length⟩], spells_atom hdenotes hquote hlist, ?_⟩
  rw [← htext, scan_lexeme hform (fun _ => hrest), String.length_toList]

theorem ScansAs.cons (lexeme : Lexeme) (hform : lexeme.wellFormed = true)
    (hword : lexeme.isWord = false) {Spelled : List Lexeme → Prop} {text rest : List Char}
    (h : ScansAs Spelled text rest) :
    ScansAs (fun lexemes => ∃ inner, lexemes = lexeme :: inner ∧ Spelled inner)
      (lexeme.text.toList ++ text) rest := by
  intro position
  obtain ⟨tokens, hspelled, hscan⟩ := h (position + lexeme.text.length)
  refine ⟨⟨lexeme, position + lexeme.text.length⟩ :: tokens, ⟨_, rfl, hspelled⟩, ?_⟩
  rw [List.append_assoc, scan_lexeme hform (by simp [hword]), hscan, ← Scanned.prepend_append]
  simp [Nat.add_assoc, String.length_toList]

/-- Two texts with separators between them are scanned one after the other. -/
theorem ScansAs.append {First More : List Lexeme → Prop} {text more rest : List Char}
    (gap : List Char) (h : ScansAs First text (gap ++ (more ++ rest)))
    (hgap : gap.all isSeparator = true) (hmore : ScansAs More more rest) :
    ScansAs (fun lexemes => ∃ first later, lexemes = first ++ later ∧ First first ∧ More later)
      (text ++ (gap ++ more)) rest := by
  intro position
  obtain ⟨tokens, hfirst, hscan⟩ := h position
  obtain ⟨later, hlater, hscan'⟩ := hmore (position + text.length + gap.length)
  refine ⟨tokens ++ later, ⟨_, _, List.map_append, hfirst, hlater⟩, ?_⟩
  simp only [List.append_assoc]
  rw [hscan, Mode.scan_separators hgap, hscan', ← Scanned.prepend_append]
  simp [Nat.add_assoc]

mutual

/-- The source form of a legible node is scanned as a spelling of it. -/
theorem scan_source : ∀ (node : Node), node.isLegible = true → ∀ rest : List Char,
    startsApart rest = true → ScansAs (Spells node) node.source.toList rest
  | .ident name, h, _, hrest => ScansAs.atom h (by simp) (by simp) hrest
  | .int value, h, _, hrest => ScansAs.atom h (by simp) (by simp) hrest
  | .str text, h, _, hrest => ScansAs.atom h (by simp) (by simp) hrest
  | .hole, h, _, hrest => ScansAs.atom h (by simp) (by simp) hrest
  | .quote inner, h, rest, hrest => by
    have hinner := scan_source inner (by simpa [Node.isLegible] using h) rest hrest
    have htext : (Node.quote inner).source.toList =
        Lexeme.quote.text.toList ++ inner.source.toList := by
      simp [Node.source, Lexeme.text]
    rw [htext]
    exact ScansAs.cons .quote rfl rfl hinner
  | .list items, h, rest, hrest => by
    simp only [Node.isLegible, Bool.and_eq_true, Bool.not_eq_true', List.isEmpty_eq_false_iff] at h
    have hitems := scan_sourceEach items h.2 (')' :: rest) rfl
    have hclose : ScansAs (· = [.rparen]) [')'] rest := by
      intro position
      exact ⟨[⟨.rparen, position + 1⟩], rfl, Mode.scan_cons rfl rest⟩
    have hrow := ScansAs.cons .lparen rfl rfl (ScansAs.append [] hitems rfl hclose)
    have htext : (Node.list items).source.toList =
        Lexeme.lparen.text.toList ++
          ((" ".intercalate (Node.sourceEach items)).toList ++ ([] ++ [')'])) := by
      simp [Node.source, Lexeme.text]
    rw [htext]
    intro position
    obtain ⟨tokens, ⟨_, htokens, inner, _, rfl, hinner, rfl⟩, hscan⟩ := hrow position
    exact ⟨tokens, ⟨h.1, inner, htokens, hinner⟩, hscan⟩

/-- The source forms of legible nodes, with a space between every two, are scanned as a spelling of
them. -/
theorem scan_sourceEach : ∀ (nodes : List Node), Node.allLegible nodes = true →
    ∀ rest : List Char, startsApart rest = true →
    ScansAs (SpellsEach nodes) (" ".intercalate (Node.sourceEach nodes)).toList rest
  | [], _, rest, _ => fun position => ⟨[], rfl, by simp [Node.sourceEach]⟩
  | [node], h, rest, hrest => by
    simp only [Node.allLegible, Bool.and_true] at h
    intro position
    obtain ⟨tokens, hspells, hscan⟩ := scan_source node h rest hrest position
    refine ⟨tokens, ⟨_, [], (List.append_nil _).symm, hspells, rfl⟩, ?_⟩
    simpa [Node.sourceEach] using hscan
  | node :: next :: nodes, h, rest, hrest => by
    simp only [Node.allLegible, Bool.and_eq_true] at h
    have hmore := scan_sourceEach (next :: nodes) (by simp [Node.allLegible, h.2]) rest hrest
    have hnode := scan_source node h.1
      ([' '] ++ ((" ".intercalate (Node.sourceEach (next :: nodes))).toList ++ rest)) rfl
    have htext : (" ".intercalate (Node.sourceEach (node :: next :: nodes))).toList =
        node.source.toList ++
          ([' '] ++ (" ".intercalate (Node.sourceEach (next :: nodes))).toList) := by
      simp [Node.sourceEach, String.intercalate_cons_cons]
    rw [htext]
    exact ScansAs.append [' '] hnode rfl hmore

end

end FexprLisp
