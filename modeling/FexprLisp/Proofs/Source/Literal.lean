import FexprLisp.Proofs.Source.Grammar
import FexprLisp.Source.Start

/-!
# String literals

A text has one written literal, which ends where its own closing quote stands: no remainder makes
the scanner stop earlier or later. Reading the body of a scanned literal gives a text or meets an
unknown escape, and the text is written as that literal again unless the body holds a raw line
feed.

## Main statements

- `scan_quoted` — a written literal is found, whatever stands behind it
- `Text.quoted_append_inj` — no written literal begins another one
- `escape_of_decodes` — a body without raw line feeds is the written body of its text
- `wellFormed_of_scanFrom` — tokens belong to their classes, wherever scanning starts
- `literals_form_prefix_code` — all of this
-/

namespace FexprLisp

theorem scan_quoted (position : Nat) (text : String) (rest : List Char) :
    Mode.gap.scan position ((Text.quoted text).toList ++ rest) =
      (Mode.gap.scan (position + (Text.quoted text).length) rest).prepend
        [⟨.string (String.ofList (Text.escape text.toList)),
          position + (Text.quoted text).length⟩] := by
  have hform : (Lexeme.string (String.ofList (Text.escape text.toList))).wellFormed = true := by
    rw [Lexeme.wellFormed, String.toList_ofList, isBody_escape]
  exact scan_lexeme hform (fun hword => by cases hword) position

/-- Texts that are written alike are the same. -/
theorem Text.escape_injective {text other : List Char} (h : escape text = escape other) :
    text = other := by
  have hread := unescape_escape text
  rw [h, unescape_escape, Except.ok.injEq] at hread
  exact hread.symm

/-- A written literal shows where it ends. -/
theorem Text.quoted_append_inj {text other : String} {rest more : List Char}
    (h : (quoted text).toList ++ rest = (quoted other).toList ++ more) :
    text = other ∧ rest = more := by
  -- both literals are the first token of the same characters
  have hscan := scan_quoted 0 text rest
  rw [h, scan_quoted] at hscan
  have hbody : escape other.toList = escape text.toList := by
    have htokens := congrArg Scanned.tokens hscan
    simp only [Scanned.prepend, List.cons_append, List.cons.injEq, Token.mk.injEq,
      Lexeme.string.injEq] at htokens
    exact String.ofList_injective htokens.1.1
  obtain rfl : other = text := String.toList_injective (escape_injective hbody)
  exact ⟨rfl, List.append_cancel_left h⟩

/-- A body without raw line feeds is the written body of the text that it stands for. -/
theorem escape_of_decodes {body text : List Char} (h : Decodes body text)
    (hbody : isBody body = true) (hline : '\n' ∉ body) : Text.escape text = body := by
  induction h with
  | nil => rfl
  | quote h ih | backslash h ih | feed h ih =>
    simp only [isBody, Bool.and_eq_true] at hbody
    simp only [List.mem_cons, not_or] at hline
    rw [Text.escape_cons, ih hbody.2 hline.2.2]
    rfl
  | @plain c body text hc h ih =>
    rw [isBody.eq_3 c body fun _ _ hbackslash _ => hc hbackslash] at hbody
    simp only [Bool.and_eq_true, bne_iff_ne] at hbody
    simp only [List.mem_cons, not_or] at hline
    have hchar : Text.escapeChar c = [c] := by
      rw [Text.escapeChar, if_neg hc, if_neg hbody.1.2, if_neg (Ne.symm hline.1)]
    rw [Text.escape_cons, hchar, ih hbody.2 hline.2, List.singleton_append]

/-- Every lexeme that is found belongs to its class, wherever scanning starts. -/
theorem wellFormed_of_scanFrom {place : Int} {source : String} {scanned : Scanned}
    (h : scanFrom place source = .ok scanned) :
    ∀ token ∈ scanned.tokens, token.lexeme.wellFormed = true := by
  cases place with
  | ofNat start =>
    cases h
    have hgap : Mode.gap.Sound := trivial
    exact Mode.scan_sound hgap start _
  | negSucc back =>
    simp only [scanFrom, scanBack] at h
    split at h
    · cases h
    split at h
    · cases h
      exact scan_wellFormed source
    split at h
    · cases h
      exact scan_wellFormed source
    · cases h

/-- String literals form a prefix code with an exact decoder. The literal of a text is the first
token of whatever begins with it, and its body reads back as the text. In every literal that is
scanned, from any place of any source, the body stands for a text or holds an unknown escape, which
is reported; and a body that stands for a text and holds no raw line feed is how that text is
written. -/
theorem literals_form_prefix_code :
    (∀ text rest : String, ∃ body later,
      (scan (Text.quoted text ++ rest)).tokens =
        ⟨.string body, (Text.quoted text).length⟩ :: later ∧
      (Lexeme.string body).text = Text.quoted text ∧
      Text.unescape body.toList = .ok text.toList) ∧
    (∀ text other rest more : String, Text.quoted text ++ rest = Text.quoted other ++ more ↔
      text = other ∧ rest = more) ∧
    ∀ (place : Int) (source : String) (scanned : Scanned), scanFrom place source = .ok scanned →
      ∀ token ∈ scanned.tokens, ∀ body, token.lexeme = .string body →
        (∃ text, Text.unescape body.toList = .ok text ∧
          ('\n' ∉ body.toList → Text.quoted (String.ofList text) = token.lexeme.text)) ∨
        ∃ c failure, Text.unescape body.toList = .error (.unknown c) ∧
          (ReadError.badEscape (.unknown c)).failure? = some failure ∧
          failure.kind = .unreadable := by
  refine ⟨fun text rest => ?_, fun text other rest more => ⟨fun h => ?_, ?_⟩, ?_⟩
  · refine ⟨String.ofList (Text.escape text.toList),
      (Mode.gap.scan (Text.quoted text).length rest.toList).tokens, ?_, rfl, ?_⟩
    · rw [scan, scanAfter, List.drop_zero, String.toList_append, scan_quoted, Nat.zero_add]
      rfl
    · rw [String.toList_ofList, Text.unescape_escape]
  · have hlists := congrArg String.toList h
    rw [String.toList_append, String.toList_append] at hlists
    obtain ⟨htext, hrest⟩ := Text.quoted_append_inj hlists
    exact ⟨htext, String.toList_injective hrest⟩
  · rintro ⟨rfl, rfl⟩
    rfl
  · intro place source scanned hscan token htoken body hlexeme
    have hbody : isBody body.toList = true := by
      have hform := wellFormed_of_scanFrom hscan token htoken
      rwa [hlexeme] at hform
    cases hread : Text.unescape body.toList with
    | ok text =>
      refine .inl ⟨text, rfl, fun hline => ?_⟩
      have hwritten := escape_of_decodes (decodes_of_unescape hread) hbody hline
      rw [hlexeme, Text.quoted, String.toList_ofList, hwritten, String.ofList_toList, Lexeme.text]
    | error error =>
      cases error with
      | unknown c => exact .inr ⟨c, _, rfl, rfl, rfl⟩
      | dangling => exact absurd hread (unescape_ne_dangling hbody)

/-- A text of two characters that are escaped, before a digit; and a literal with an unknown escape
behind one that is as its text is written. -/
theorem literals_form_prefix_code_two_literals :
    let source := "'\"\\\\\\n\"\"\\q\""
    (∃ body later, (scan (Text.quoted "\"\n" ++ "7")).tokens = ⟨.string body, 6⟩ :: later ∧
      Text.unescape body.toList = .ok ['"', '\n']) ∧
    scanFrom 0 source = .ok (scan source) ∧
    ⟨.string "\\\\\\n", 7⟩ ∈ (scan source).tokens ∧ ⟨.string "\\q", 11⟩ ∈ (scan source).tokens ∧
    (∃ text, Text.unescape "\\\\\\n".toList = .ok text ∧
      Text.quoted (String.ofList text) = "\"\\\\\\n\"") ∧
    ∃ failure, (ReadError.badEscape (.unknown 'q')).failure? = some failure ∧
      failure.kind = .unreadable := by
  intro source
  obtain ⟨hfirst, -, hconverse⟩ := literals_form_prefix_code
  have hwritten : ⟨.string "\\\\\\n", 7⟩ ∈ (scan source).tokens := by decide +kernel
  have hunknown : ⟨.string "\\q", 11⟩ ∈ (scan source).tokens := by decide +kernel
  refine ⟨?_, rfl, hwritten, hunknown, ?_, ?_⟩
  · obtain ⟨body, later, htokens, -, htext⟩ := hfirst "\"\n" "7"
    exact ⟨body, later, htokens, htext⟩
  · rcases hconverse 0 source _ rfl _ hwritten _ rfl with ⟨text, htext, hback⟩ | ⟨c, -, herror, -⟩
    · exact ⟨text, htext, hback (by decide +kernel)⟩
    · cases herror
  · rcases hconverse 0 source _ rfl _ hunknown _ rfl with
      ⟨text, htext, -⟩ | ⟨c, failure, herror, htold⟩
    · cases htext
    · cases herror
      exact ⟨failure, htold⟩

end FexprLisp
