import FexprLisp.Proofs.Source.RoundTrip

/-!
# Layouts

Scanning loses nothing and adds nothing. A text is scanned without a fault exactly when it is laid
out: lexemes of their classes with separators between them, where nothing extends a number or a
name. Such a layout is unique, and it places every token.

## Main definitions

- `spread` — lexemes with texts around them
- `Delimited` — only separators stand before the lexemes, and nothing extends them
- `Layout` — a whole text as lexemes and gaps
- `Layout.tokens` — the tokens of a layout, each placed at the end of its lexeme

## Main statements

- `scan_spread` — delimited lexemes are found, whatever stands behind them
- `Layout.unique` — a text has one layout at most
- `Mode.scan_parted` — whatever is found stands in the text as delimited lexemes
- `covered_or_behind` — only separators are passed over
- `scan_lossless` — all of this

## Design notes

What stands behind the last lexeme may be any text as far as `Delimited` is concerned. So a text
with a fault is described as well: its tokens are laid out, and the fault lies in the remainder.
-/

namespace FexprLisp

/-- Lexemes, each behind a text, and a text behind them all. -/
def spread (trail : String) : List (String × Lexeme) → String
  | [] => trail
  | (gap, lexeme) :: pieces => gap ++ lexeme.text ++ spread trail pieces

/-- Only separators stand before each lexeme, which belongs to its class; and what stands right
behind a number or a name does not extend it. -/
inductive Delimited (trail : String) : List (String × Lexeme) → Prop
  | nil : Delimited trail []
  | cons {gap : String} {lexeme : Lexeme} {pieces : List (String × Lexeme)}
      (gapped : isGap gap = true) (formed : lexeme.wellFormed = true)
      (apart : lexeme.isWord = true → startsApart (spread trail pieces).toList = true)
      (later : Delimited trail pieces) : Delimited trail ((gap, lexeme) :: pieces)

/-- A text as lexemes with the gaps before them, and the gap that ends it. -/
@[ext]
structure Layout (text : String) where
  pieces : List (String × Lexeme)
  trail : String
  delimited : Delimited trail pieces
  trailing : isGap trail = true
  covers : spread trail pieces = text

/-- Each lexeme of a layout with the number of characters up to its end. -/
def Layout.tokens {text : String} (layout : Layout text) : List Token :=
  layout.pieces.mapIdx fun i piece =>
    ⟨piece.2, (spread "" (layout.pieces.take (i + 1))).length⟩

/-- The tokens of lexemes that are spread from a position on. -/
def tokensFrom (position : Nat) : List (String × Lexeme) → List Token
  | [] => []
  | (gap, lexeme) :: pieces =>
    let stop := position + gap.length + lexeme.text.length
    ⟨lexeme, stop⟩ :: tokensFrom stop pieces

-- ════════════════════════════════════════════════════════════════════════
-- Lexemes with texts around them
-- ════════════════════════════════════════════════════════════════════════

theorem spread_append (trail : String) (before after : List (String × Lexeme)) :
    spread trail (before ++ after) = spread (spread trail after) before := by
  induction before with
  | nil => rfl
  | cons piece before ih => simp only [List.cons_append, spread, ih]

theorem spread_eq_append (trail : String) (pieces : List (String × Lexeme)) :
    spread trail pieces = spread "" pieces ++ trail := by
  induction pieces with
  | nil => simp [spread]
  | cons piece pieces ih => simp only [spread, ih, String.append_assoc]

theorem toList_spread_cons (trail gap : String) (lexeme : Lexeme)
    (pieces : List (String × Lexeme)) :
    (spread trail ((gap, lexeme) :: pieces)).toList =
      gap.toList ++ (lexeme.text.toList ++ (spread trail pieces).toList) := by
  simp only [spread, String.toList_append, List.append_assoc]

theorem tokensFrom_eq_mapIdx (position : Nat) (pieces : List (String × Lexeme)) :
    tokensFrom position pieces = pieces.mapIdx fun i piece =>
      ⟨piece.2, position + (spread "" (pieces.take (i + 1))).length⟩ := by
  induction pieces generalizing position with
  | nil => rfl
  | cons piece pieces ih =>
    obtain ⟨gap, lexeme⟩ := piece
    rw [tokensFrom, List.mapIdx_cons, ih]
    congr 1
    · simp [spread, String.length_append, Nat.add_assoc]
    · congr 1
      funext i later
      simp [spread, String.length_append, Nat.add_assoc]

theorem Layout.tokens_eq {text : String} (layout : Layout text) :
    layout.tokens = tokensFrom 0 layout.pieces := by
  simp only [tokensFrom_eq_mapIdx, Nat.zero_add, Layout.tokens]

/-- Where the tokens end determines the gaps between their lexemes. -/
theorem eq_of_spread_eq {pieces others : List (String × Lexeme)} {trail other : String}
    {position : Nat} (htokens : tokensFrom position pieces = tokensFrom position others)
    (htext : spread trail pieces = spread other others) : pieces = others ∧ trail = other := by
  induction pieces generalizing others position with
  | nil =>
    cases others with
    | nil => exact ⟨rfl, htext⟩
    | cons piece others => simp [tokensFrom] at htokens
  | cons piece pieces ih =>
    cases others with
    | nil => simp [tokensFrom] at htokens
    | cons piece' others =>
      obtain ⟨gap, lexeme⟩ := piece
      obtain ⟨gap', lexeme'⟩ := piece'
      simp only [tokensFrom, List.cons.injEq, Token.mk.injEq] at htokens
      obtain ⟨⟨rfl, hstop⟩, hlater⟩ := htokens
      have hlength : gap.toList.length = gap'.toList.length := by
        simp only [String.length_toList]
        omega
      have hlists := congrArg String.toList htext
      rw [toList_spread_cons, toList_spread_cons] at hlists
      obtain ⟨hgap, hrest⟩ := List.append_inj hlists hlength
      obtain rfl := String.toList_injective hgap
      obtain ⟨rfl, rfl⟩ := ih hlater (String.toList_injective (List.append_cancel_left hrest))
      exact ⟨rfl, rfl⟩

-- ════════════════════════════════════════════════════════════════════════
-- Delimited lexemes are found
-- ════════════════════════════════════════════════════════════════════════

theorem scan_spread {pieces : List (String × Lexeme)} {trail : String} (h : Delimited trail pieces)
    (position : Nat) :
    Mode.gap.scan position (spread trail pieces).toList =
      (Mode.gap.scan (position + (spread "" pieces).length) trail.toList).prepend
        (tokensFrom position pieces) := by
  induction h generalizing position with
  | nil => simp [spread, tokensFrom]
  | @cons gap lexeme pieces gapped formed apart later ih =>
    rw [toList_spread_cons, Mode.scan_separators gapped, scan_lexeme formed apart, ih]
    simp only [tokensFrom, Scanned.prepend, spread, String.length_append, String.length_toList,
      List.cons_append, List.nil_append, Nat.add_assoc]

theorem Layout.scan_eq {text : String} (layout : Layout text) :
    scan text = ⟨layout.tokens, none⟩ := by
  have hscan := scan_spread layout.delimited 0
  rw [scan_gap_of_isGap layout.trailing, layout.covers, ← layout.tokens_eq, Scanned.prepend,
    List.append_nil] at hscan
  exact hscan

theorem Layout.unique {text : String} (layout other : Layout text) : layout = other := by
  have htokens : layout.tokens = other.tokens := by
    have hscan := layout.scan_eq.symm.trans other.scan_eq
    simpa using hscan
  rw [layout.tokens_eq, other.tokens_eq] at htokens
  obtain ⟨hpieces, htrail⟩ := eq_of_spread_eq htokens (layout.covers.trans other.covers.symm)
  exact Layout.ext hpieces htrail

-- ════════════════════════════════════════════════════════════════════════
-- Nothing else is found
-- ════════════════════════════════════════════════════════════════════════

/-- A text from a position on is made of the lexemes that were found in it. What remains behind them
is a gap, unless there was a fault. -/
def Parted (start : Nat) (text : List Char) (scanned : Scanned) : Prop :=
  ∃ pieces trail, Delimited trail pieces ∧ (spread trail pieces).toList = text ∧
    scanned.tokens = tokensFrom start pieces ∧ (scanned.fault = none → isGap trail = true)

namespace Parted

theorem of_fault (start : Nat) (text : List Char) (fault : ReadError) :
    Parted start text ⟨[], some fault⟩ :=
  ⟨[], String.ofList text, .nil, by simp [spread], rfl, by simp⟩

theorem of_gap (start : Nat) {gap : List Char} (h : gap.all isSeparator = true) :
    Parted start gap ⟨[], none⟩ :=
  ⟨[], String.ofList gap, .nil, by simp [spread], rfl, fun _ => by simpa [isGap] using h⟩

theorem cons {start stop : Nat} {gap rest : List Char} {scanned : Scanned}
    (hrest : Parted stop rest scanned) (hgap : gap.all isSeparator = true) (lexeme : Lexeme)
    (hformed : lexeme.wellFormed = true)
    (hapart : lexeme.isWord = true → startsApart rest = true)
    (hstop : start + gap.length + lexeme.text.length = stop) :
    Parted start (gap ++ lexeme.text.toList ++ rest) (scanned.prepend [⟨lexeme, stop⟩]) := by
  obtain ⟨pieces, trail, hpieces, rfl, htokens, htrail⟩ := hrest
  refine ⟨(String.ofList gap, lexeme) :: pieces, trail, ?_, ?_, ?_, htrail⟩
  · exact .cons (by simpa [isGap] using hgap) hformed hapart hpieces
  · simp [toList_spread_cons]
  · simp [tokensFrom, Scanned.prepend, htokens, hstop]

theorem of_lexeme {start stop : Nat} {gap : List Char} (hgap : gap.all isSeparator = true)
    (lexeme : Lexeme) (hformed : lexeme.wellFormed = true)
    (hstop : start + gap.length + lexeme.text.length = stop) :
    Parted start (gap ++ lexeme.text.toList) ⟨[⟨lexeme, stop⟩], none⟩ := by
  have hend : Parted stop [] ⟨[], none⟩ := of_gap stop rfl
  simpa [Scanned.prepend] using hend.cons hgap lexeme hformed (fun _ => rfl) hstop

end Parted

namespace Mode

/-- The characters of the text that belong to the open lexeme. -/
def opened : Mode → List Char
  | .gap => []
  | .number read | .name read => read.reverse
  | .string _ read _ _ => '"' :: read.reverse

/-- What one character does to a text whose last characters are open: it is passed over, it goes to
the open lexeme, or it closes it. -/
inductive Takes (opened : List Char) (position : Nat) (c : Char) : List Token × Mode → Prop
  | skip (unopened : opened = []) (separates : isSeparator c = true) :
      Takes opened position c ([], .gap)
  | extend {mode : Mode} (extended : mode.opened = opened ++ [c]) :
      Takes opened position c ([], mode)
  | close {lexeme : Lexeme} (formed : lexeme.wellFormed = true) (unword : lexeme.isWord = false)
      (closed : lexeme.text.toList = opened ++ [c]) :
      Takes opened position c ([⟨lexeme, position + 1⟩], .gap)

theorem start_takes {position : Nat} {c : Char} {step : List Token × Mode}
    (h : Mode.start position c = .ok step) : Takes [] position c step := by
  rcases start_cases h with ⟨hc, rfl⟩ | ⟨lexeme, hformed, hword, htext, rfl⟩ | ⟨rfl, rfl⟩ |
    ⟨-, rfl⟩ | ⟨-, rfl⟩
  · exact .skip rfl hc
  · exact .close hformed hword htext
  · exact .extend rfl
  · exact .extend rfl
  · exact .extend rfl

/-- The open word ends before a delimiter, which is then taken as between lexemes. -/
def EndsBefore (mode : Mode) (position : Nat) (c : Char) (step : List Token × Mode) : Prop :=
  ∃ lexeme first, lexeme.wellFormed = true ∧ lexeme.text.toList = mode.opened ∧
    isDelimiter c = true ∧ Mode.start position c = .ok first ∧
    step = (⟨lexeme, position⟩ :: first.1, first.2)

theorem endWord_endsBefore {mode : Mode} {lexeme : Lexeme} {position : Nat} {c : Char}
    {step : List Token × Mode} (hformed : lexeme.wellFormed = true)
    (hopened : lexeme.text.toList = mode.opened) (h : Mode.endWord lexeme position c = .ok step) :
    mode.EndsBefore position c step := by
  obtain ⟨first, hstart, hstep⟩ := exists_start_of_endWord h
  refine ⟨lexeme, first, hformed, hopened, ?_, hstart, hstep⟩
  cases hc : isDelimiter c with
  | true => rfl
  | false => simp [Mode.endWord, hc] at h

theorem next_takes {mode : Mode} (hsound : mode.Sound) {position : Nat} {c : Char}
    {step : List Token × Mode} (h : mode.next position c = .ok step) :
    Takes mode.opened position c step ∨ mode.EndsBefore position c step := by
  cases mode with
  | gap => exact .inl (start_takes h)
  | number read =>
    simp only [Mode.next] at h
    split at h
    · cases h
      exact .inl (.extend (by simp [opened]))
    · exact .inr (endWord_endsBefore (by simpa [Lexeme.wellFormed, Sound] using hsound)
        (by simp [Lexeme.text, opened]) h)
  | name read =>
    simp only [Mode.next] at h
    split at h
    · cases h
      exact .inl (.extend (by simp [opened]))
    · exact .inr (endWord_endsBefore (by simpa [Lexeme.wellFormed, Sound] using hsound)
        (by simp [Lexeme.text, opened]) h)
  | string start read escaping spoiled =>
    left
    cases escaping with
    | true =>
      simp only [Mode.next, Except.ok.injEq] at h
      subst h
      exact .extend (by simp [opened])
    | false =>
      simp only [Mode.next] at h
      split at h
      · cases h
        exact .extend (by simp [opened])
      split at h
      · next hc =>
        split at h
        · cases h
        · next hspoiled =>
          cases h
          simp only [Bool.not_eq_true] at hspoiled
          subst hspoiled
          exact .close (by simpa [Lexeme.wellFormed, Sound] using hsound) rfl
            (by simp [Lexeme.text, opened, hc])
      · cases h
        exact .extend (by simp [opened])

/-- From any mode, the rest of a text is parted together with what is open. The gap before an open
lexeme is not kept in the mode. -/
def PartsRest (rest : List Char) : Prop :=
  ∀ (mode : Mode) (gap : List Char) (start : Nat) {position : Nat}, mode.Sound →
    gap.all isSeparator = true → start + gap.length + mode.opened.length = position →
    Parted start (gap ++ mode.opened ++ rest) (mode.scan position rest)

theorem Takes.parted {opened rest : List Char} {position : Nat} {c : Char}
    {step : List Token × Mode} (h : Takes opened position c step) (hsound : step.2.Sound)
    (hrest : PartsRest rest) {gap : List Char} {start : Nat} (hgap : gap.all isSeparator = true)
    (hplace : start + gap.length + opened.length = position) :
    Parted start (gap ++ opened ++ c :: rest)
      ((step.2.scan (position + 1) rest).prepend step.1) := by
  cases h with
  | skip unopened separates =>
    subst unopened
    have hwider : (gap ++ [c]).all isSeparator = true := by simp [hgap, separates]
    have hplace' : start + (gap ++ [c]).length + Mode.gap.opened.length = position + 1 := by
      rw [← hplace, List.length_append, List.length_singleton]
      rfl
    simpa [Mode.opened] using hrest .gap (gap ++ [c]) start trivial hwider hplace'
  | @extend mode extended =>
    have hplace' : start + gap.length + mode.opened.length = position + 1 := by
      rw [← hplace, extended, List.length_append, List.length_singleton, ← Nat.add_assoc]
    simpa [extended] using hrest mode gap start hsound hgap hplace'
  | @close lexeme formed unword closed =>
    have hlater : Parted (position + 1) rest (Mode.gap.scan (position + 1) rest) :=
      hrest .gap [] (position + 1) trivial rfl rfl
    have hlength : lexeme.text.length = opened.length + 1 := by
      simp [← String.length_toList, closed]
    simpa [closed] using hlater.cons hgap lexeme formed (by simp [unword]) (by omega)

theorem finish_parted {mode : Mode} (hsound : mode.Sound) {gap : List Char}
    (hgap : gap.all isSeparator = true) {start position : Nat}
    (hplace : start + gap.length + mode.opened.length = position) :
    Parted start (gap ++ mode.opened) (mode.finish position) := by
  cases mode with
  | gap =>
    rw [opened, List.append_nil]
    exact .of_gap start hgap
  | number read =>
    have hword := Parted.of_lexeme hgap (.integer (String.ofList read.reverse))
      (by simpa [Lexeme.wellFormed, Sound] using hsound)
      (by simpa [Lexeme.text, opened] using hplace)
    simpa [Lexeme.text, opened, Mode.finish] using hword
  | name read =>
    have hword := Parted.of_lexeme hgap (.identifier (String.ofList read.reverse))
      (by simpa [Lexeme.wellFormed, Sound] using hsound)
      (by simpa [Lexeme.text, opened] using hplace)
    simpa [Lexeme.text, opened, Mode.finish] using hword
  | string begin read escaping spoiled => exact .of_fault start _ .unterminatedString

theorem scan_parted (text : List Char) : PartsRest text := by
  induction text with
  | nil =>
    intro mode gap start position hsound hgap hplace
    rw [List.append_nil]
    exact finish_parted hsound hgap hplace
  | cons c rest ih =>
    intro mode gap start position hsound hgap hplace
    cases hnext : mode.next position c with
    | error fault =>
      simp only [Mode.scan, hnext]
      exact .of_fault start _ fault
    | ok step =>
      rw [scan_cons hnext]
      rcases next_takes hsound hnext with htakes | ⟨lexeme, first, hformed, htext, hc, hfirst, rfl⟩
      · exact htakes.parted (next_sound hsound hnext).2 ih hgap hplace
      · -- the delimiter belongs to what follows the word, where no gap has begun
        have hnone : ([] : List Char).all isSeparator = true := rfl
        have hlater := (start_takes hfirst).parted (start_sound hfirst).2 ih hnone
          (show position + 0 + 0 = position from rfl)
        have hlength : lexeme.text.length = mode.opened.length := by
          rw [← String.length_toList, htext]
        have hword := hlater.cons hgap lexeme hformed (fun _ => hc) (hlength ▸ hplace)
        simpa [htext, Scanned.prepend] using hword

end Mode

/-- The tokens of any text are those of delimited lexemes in it. -/
theorem scan_parts (text : String) : Parted 0 text.toList (scan text) :=
  Mode.scan_parted text.toList .gap [] 0 trivial rfl rfl

theorem exists_layout_of_scan {text : String} {tokens : List Token}
    (h : scan text = ⟨tokens, none⟩) : ∃ layout : Layout text, layout.tokens = tokens := by
  obtain ⟨pieces, trail, hpieces, htext, htokens, htrail⟩ := scan_parts text
  rw [h] at htokens htrail
  let layout : Layout text :=
    ⟨pieces, trail, hpieces, htrail rfl, String.toList_injective htext⟩
  exact ⟨layout, layout.tokens_eq.trans htokens.symm⟩

-- ════════════════════════════════════════════════════════════════════════
-- Places
-- ════════════════════════════════════════════════════════════════════════

theorem Lexeme.text_length_pos {lexeme : Lexeme} (h : lexeme.wellFormed = true) :
    0 < lexeme.text.length := by
  cases lexeme with
  | lparen => decide
  | rparen => decide
  | quote => decide
  | string body =>
    have hquote : "\"".length = 1 := rfl
    simp only [Lexeme.text, String.length_append]
    omega
  | integer digits =>
    simp only [wellFormed, isNumeral, Bool.and_eq_true] at h
    cases htext : digits.toList with
    | nil => simp [htext] at h
    | cons c rest => simp [Lexeme.text, ← String.length_toList, htext]
  | identifier name =>
    cases htext : name.toList with
    | nil => simp [wellFormed, isName, htext] at h
    | cons c rest => simp [Lexeme.text, ← String.length_toList, htext]

theorem lt_stop_of_tokensFrom {pieces : List (String × Lexeme)} {trail : String}
    (h : Delimited trail pieces) {position : Nat} :
    ∀ token ∈ tokensFrom position pieces, position < token.stop := by
  induction h generalizing position with
  | nil => simp [tokensFrom]
  | @cons gap lexeme pieces gapped formed apart later ih =>
    have hpos := Lexeme.text_length_pos formed
    intro token ht
    simp only [tokensFrom, List.mem_cons] at ht
    rcases ht with rfl | ht
    · show position < position + gap.length + lexeme.text.length
      omega
    · have hlater := ih token ht
      omega

theorem pairwise_tokensFrom {pieces : List (String × Lexeme)} {trail : String}
    (h : Delimited trail pieces) (position : Nat) :
    (tokensFrom position pieces).Pairwise fun token later => token.stop < later.stop := by
  induction h generalizing position with
  | nil => exact .nil
  | cons gapped formed apart later ih =>
    exact .cons (lt_stop_of_tokensFrom later) (ih _)

/-- A character that separates nothing belongs to a lexeme, or it stands behind all of them. -/
theorem covered_or_behind {pieces : List (String × Lexeme)} {trail : String}
    (h : Delimited trail pieces) (position : Nat) {i : Nat} {c : Char}
    (hi : (spread trail pieces).toList[i]? = some c) (hc : isSeparator c = false) :
    (∃ token ∈ tokensFrom position pieces,
      position + i < token.stop ∧ token.stop ≤ position + i + token.lexeme.text.length) ∨
    (c ∈ trail.toList ∧ ∀ token ∈ tokensFrom position pieces, token.stop ≤ position + i) := by
  induction h generalizing position i with
  | nil => exact .inr ⟨List.mem_of_getElem? hi, by simp [tokensFrom]⟩
  | @cons gap lexeme pieces gapped formed apart later ih =>
    rw [toList_spread_cons] at hi
    by_cases hgap : i < gap.toList.length
    · rw [List.getElem?_append_left hgap] at hi
      have hsep := List.all_eq_true.1 gapped c (List.mem_of_getElem? hi)
      rw [hc] at hsep
      cases hsep
    rw [List.getElem?_append_right (by omega)] at hi
    simp only [String.length_toList] at hgap hi
    by_cases hlexeme : i < gap.length + lexeme.text.length
    · refine .inl ⟨_, List.mem_cons_self, ?_, ?_⟩
      · show position + i < position + gap.length + lexeme.text.length
        omega
      · show position + gap.length + lexeme.text.length ≤ position + i + lexeme.text.length
        omega
    rw [List.getElem?_append_right (by rw [String.length_toList]; omega)] at hi
    have hplace : position + gap.length + lexeme.text.length +
        (i - gap.length - lexeme.text.toList.length) = position + i := by
      rw [String.length_toList]
      omega
    rcases ih (position + gap.length + lexeme.text.length) hi with ⟨token, ht, hspan⟩ | ⟨ht, hall⟩
    · rw [hplace] at hspan
      exact .inl ⟨token, List.mem_cons_of_mem _ ht, hspan⟩
    · rw [hplace] at hall
      refine .inr ⟨ht, ?_⟩
      intro token hmem
      rcases List.mem_cons.1 hmem with rfl | hmem
      · show position + gap.length + lexeme.text.length ≤ position + i
        omega
      · exact hall token hmem

/-- Scanning is lossless and unambiguous. A text has tokens and no fault exactly when it is laid out
with these tokens; it has one layout at most; a character that is no separator belongs to a token,
unless a fault stands before its end; and every token ends behind the one before it. -/
theorem scan_lossless (text : String) :
    (∀ tokens, scan text = ⟨tokens, none⟩ ↔ ∃ layout : Layout text, layout.tokens = tokens) ∧
    (∀ layout other : Layout text, layout = other) ∧
    (∀ i c, text.toList[i]? = some c → isSeparator c = false →
      (∃ token ∈ (scan text).tokens,
        i < token.stop ∧ token.stop ≤ i + token.lexeme.text.length) ∨
      ((scan text).fault ≠ none ∧ ∀ token ∈ (scan text).tokens, token.stop ≤ i)) ∧
    (scan text).tokens.Pairwise fun token later => token.stop < later.stop := by
  obtain ⟨pieces, trail, hpieces, htext, htokens, htrail⟩ := scan_parts text
  refine ⟨fun tokens => ⟨exists_layout_of_scan, ?_⟩, Layout.unique, ?_, ?_⟩
  · rintro ⟨layout, rfl⟩
    exact layout.scan_eq
  · intro i c hi hc
    rw [← htext] at hi
    have hcovered := covered_or_behind hpieces 0 hi hc
    rw [← htokens, Nat.zero_add] at hcovered
    refine hcovered.imp_right fun ⟨hbehind, hall⟩ => ⟨?_, hall⟩
    intro hfault
    have hsep := List.all_eq_true.1 (htrail hfault) c hbehind
    rw [hc] at hsep
    cases hsep
  · rw [htokens]
    exact pairwise_tokensFrom hpieces 0

/-- Lexemes that touch each other, and one character of the string literal among them. -/
theorem scan_lossless_touching :
    (∃ layout : Layout " f'\"a\\\"\"7\n", layout.tokens =
      [⟨.identifier "f", 2⟩, ⟨.quote, 3⟩, ⟨.string "a\\\"", 8⟩, ⟨.integer "7", 9⟩]) ∧
    ∃ token ∈ (scan " f'\"a\\\"\"7\n").tokens,
      6 < token.stop ∧ token.stop ≤ 6 + token.lexeme.text.length := by
  obtain ⟨hlayout, -, hcovered, -⟩ := scan_lossless " f'\"a\\\"\"7\n"
  refine ⟨(hlayout _).1 (by decide +kernel), ?_⟩
  exact (hcovered 6 '"' (by decide +kernel) rfl).resolve_right (by decide +kernel)

end FexprLisp
