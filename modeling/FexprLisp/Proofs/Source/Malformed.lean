import FexprLisp.Console.Basic
import FexprLisp.Proofs.Source.Continuation

/-!
# What is malformed stays malformed

A text that is refused is refused whatever follows it. Only the last word of the text may change
when the text goes on: a longer number is no smaller, and a longer name is as good as a shorter one.

## Main definitions

- `Refused` — a text that cannot be read, and not because it ends too early

## Main statements

- `Refused.append` — a text that is refused cannot be mended by what follows it
- `malformed_stays_malformed` — nor can text that the console has dropped
-/

namespace FexprLisp

/-- A text that cannot be read, and not because it ends too early. -/
def Refused (text : String) : Prop :=
  ∃ error, readNodes text = .error error ∧ error.isIncomplete = false

-- ════════════════════════════════════════════════════════════════════════
-- Longer words
-- ════════════════════════════════════════════════════════════════════════

theorem ofDigitChars_le_append (digits more : List Char) :
    Nat.ofDigitChars 10 digits 0 ≤ Nat.ofDigitChars 10 (digits ++ more) 0 := by
  rw [Nat.ofDigitChars_append]
  generalize Nat.ofDigitChars 10 digits 0 = value
  induction more generalizing value with
  | nil => simp
  | cons c more ih =>
    rw [Nat.ofDigitChars_cons]
    exact Nat.le_trans (by omega) (ih _)

/-- A number that has too many digits or is too large stays so when more digits follow. -/
theorem exists_error_of_readInteger {digits : List Char} {error : ReadError}
    (h : readInteger (String.ofList digits) = .error error) (more : List Char) :
    ∃ error', readInteger (String.ofList (digits ++ more)) = .error error' := by
  have hvalue := ofDigitChars_le_append digits more
  simp only [readInteger, String.length_ofList, String.toList_ofList, List.length_append] at h ⊢
  by_cases hmany : Text.digitLimit < digits.length + more.length
  · exact ⟨_, if_pos hmany⟩
  · rw [if_neg (by omega)] at h
    rw [if_neg hmany]
    by_cases hlarge : maxInt < (Nat.ofDigitChars 10 digits 0 : Int)
    · exact ⟨_, if_pos (by omega)⟩
    · rw [if_neg hlarge] at h
      cases h

/-- An open word goes on as long as its characters do. Then it is a longer word, unless something
other than a delimiter follows it. -/
theorem Mode.scan_open_word (opened : List Char → Mode) (word : List Char → Lexeme)
    (continues : Char → Bool)
    (hfinish : ∀ read position, (opened read).finish position = ⟨[⟨word read, position⟩], none⟩)
    (hnext : ∀ read position c, (opened read).next position c =
      if continues c then .ok ([], opened (c :: read)) else Mode.endWord (word read) position c)
    (read : List Char) (position : Nat) (more : List Char) :
    (∃ place c, (opened read).scan position more = ⟨[], some (.unexpectedChar place c)⟩) ∨
      ∃ letters later,
        lexemesOf ((opened read).scan position more).tokens = word (letters ++ read) :: later := by
  induction more generalizing read position with
  | nil =>
    right
    rw [Mode.scan, hfinish]
    exact ⟨[], [], rfl⟩
  | cons c more ih =>
    by_cases hcontinues : continues c = true
    · have hc : (opened read).next position c = .ok ([], opened (c :: read)) := by
        rw [hnext, if_pos hcontinues]
      rw [scan_cons hc, Scanned.prepend_nil]
      rcases ih (c :: read) (position + 1) with hfault | ⟨letters, later, hword⟩
      · exact .inl hfault
      · refine .inr ⟨letters ++ [c], later, ?_⟩
        rw [hword, List.append_assoc, List.singleton_append]
    · have hend : (opened read).next position c = Mode.endWord (word read) position c := by
        rw [hnext, if_neg hcontinues]
      by_cases hdelimiter : isDelimiter c = true
      · obtain ⟨tokens, after, hstart⟩ := Mode.start_of_isDelimiter hdelimiter position
        have hc : (opened read).next position c = .ok (⟨word read, position⟩ :: tokens, after) := by
          rw [hend, Mode.endWord, if_pos hdelimiter, hstart]
          rfl
        right
        rw [scan_cons hc]
        exact ⟨[], _, rfl⟩
      · left
        refine ⟨position, c, ?_⟩
        simp only [Mode.scan, hend, Mode.endWord, if_neg hdelimiter]

namespace Level

theorem error?_move_integer {levels : List Level} {digits : List Char} {error : ReadError}
    (h : (move levels (.integer (String.ofList digits))).error? = some error) (more : List Char) :
    ∃ error', (move levels (.integer (String.ofList (digits ++ more)))).error? = some error' := by
  rw [move_of_ne_rparen (by simp)] at h ⊢
  by_cases hdeep : maxNesting < levels.length
  · rw [if_pos hdeep]
    exact ⟨_, rfl⟩
  · rw [if_neg hdeep, start] at h ⊢
    obtain ⟨error', herror'⟩ :=
      exists_error_of_readInteger ((error?_fillWith levels _ error).1 h) more
    exact ⟨error', (error?_fillWith levels _ error').2 herror'⟩

theorem error?_move_identifier {levels : List Level} {name : String} {error : ReadError}
    (h : (move levels (.identifier name)).error? = some error) (other : String) :
    (move levels (.identifier other)).error? = some error := by
  rw [move_of_ne_rparen (by simp)] at h ⊢
  by_cases hdeep : maxNesting < levels.length
  · rwa [if_pos hdeep] at h ⊢
  · simp [if_neg hdeep, start, error?_fill] at h

/-- Where the last word of a text is refused, the text is refused as well if it goes on. -/
theorem refused_of_finish {levels : List Level} {mode : Mode} {position : Nat} {error : ReadError}
    (h : readOn levels (lexemesOf (mode.finish position).tokens) = .error error)
    (more : List Char) :
    (∃ place c, mode.scan position more = ⟨[], some (.unexpectedChar place c)⟩) ∨
      ∃ error', readOn levels (lexemesOf (mode.scan position more).tokens) = .error error' := by
  cases mode with
  | gap => simp [Mode.finish, lexemesOf, readOn] at h
  | string start read escaping spoiled => simp [Mode.finish, lexemesOf, readOn] at h
  | number read =>
    have hmove := error?_of_readOn_singleton h
    rcases Mode.scan_open_word .number (fun read => .integer (String.ofList read.reverse))
      Char.isDigit (fun _ _ => rfl) (fun _ _ _ => rfl) read position more with
      hfault | ⟨letters, later, hword⟩
    · exact .inl hfault
    · obtain ⟨error', hlonger⟩ := error?_move_integer hmove letters.reverse
      refine .inr ⟨error', ?_⟩
      rw [hword, List.reverse_append]
      exact readOn_cons_of_error hlonger later
  | name read =>
    have hmove := error?_of_readOn_singleton h
    rcases Mode.scan_open_word .name (fun read => .identifier (String.ofList read.reverse))
      continuesName (fun _ _ => rfl) (fun _ _ _ => rfl) read position more with
      hfault | ⟨letters, later, hword⟩
    · exact .inl hfault
    · refine .inr ⟨error, ?_⟩
      rw [hword]
      exact readOn_cons_of_error (error?_move_identifier hmove _) later

end Level

-- ════════════════════════════════════════════════════════════════════════
-- Texts that are refused
-- ════════════════════════════════════════════════════════════════════════

theorem Mode.isIncomplete_of_finish {mode : Mode} {position : Nat} {fault : ReadError}
    (h : (mode.finish position).fault = some fault) : fault.isIncomplete = true := by
  cases mode with
  | string start read escaping spoiled =>
    cases h
    rfl
  | _ => cases h

theorem Level.isIncomplete_of_missing {levels : List Level} {error : ReadError}
    (h : missing levels = some error) : error.isIncomplete = true := by
  cases levels with
  | nil => cases h
  | cons level levels =>
    cases level <;>
    · cases h
      rfl

/-- At the end of a text that is refused, the error is one of the reader. -/
theorem error_of_conclude_finish {mode : Mode} {position : Nat}
    {read : Except ReadError (List Node × List Level)} {error : ReadError}
    (h : conclude (mode.finish position).fault read = .error error)
    (hm : error.isIncomplete = false) : read = .error error := by
  cases read with
  | error error' => simpa [conclude] using h
  | ok result =>
    obtain ⟨nodes, levels⟩ := result
    cases hfault : (mode.finish position).fault with
    | some fault =>
      have herror : fault = error := by simpa [conclude, hfault] using h
      have hincomplete := Mode.isIncomplete_of_finish hfault
      rw [herror, hm] at hincomplete
      cases hincomplete
    | none =>
      cases hmissing : Level.missing levels with
      | none => simp [conclude, hfault, hmissing] at h
      | some error' =>
        have herror : error' = error := by simpa [conclude, hfault, hmissing] using h
        have hincomplete := Level.isIncomplete_of_missing hmissing
        rw [herror, hm] at hincomplete
        cases hincomplete

/-- A text that is refused cannot be mended by what follows it. -/
theorem Refused.append {text : String} (h : Refused text) (more : String) :
    Refused (text ++ more) := by
  obtain ⟨error, hread, hm⟩ := h
  rcases hadvance : Mode.gap.advance 0 text.toList with ⟨tokens, fault | mode⟩
  · -- a fault of the scanner is met again, with the same tokens before it
    exact ⟨error, by rw [readNodes_append_eq_of_fault hadvance, hread], hm⟩
  rw [readNodes_of_mode hadvance] at hread
  have hend := error_of_conclude_finish hread hm
  have hmore := readNodes_append_of_mode hadvance more
  cases hbefore : Level.readOn [] (lexemesOf tokens) with
  | error error' =>
    -- a finished token was refused, and it stands as it is
    rw [Level.readOn_append_of_error hbefore] at hend hmore
    rw [hend, conclude] at hmore
    exact ⟨error, hmore, hm⟩
  | ok result =>
    -- the last word was refused, and only it can change
    obtain ⟨nodes, levels⟩ := result
    rw [Level.readOn_append_of_ok hbefore] at hend hmore
    have hword : Level.readOn levels (lexemesOf (mode.finish text.length).tokens) =
        .error error := by
      cases hlast : Level.readOn levels (lexemesOf (mode.finish text.length).tokens) with
      | ok result => simp [hlast, Except.map] at hend
      | error error' => simpa [hlast, Except.map] using hend
    rcases Level.refused_of_finish hword more.toList with ⟨place, c, hscan⟩ | ⟨error', hlonger⟩
    · rw [hscan] at hmore
      exact ⟨.unexpectedChar place c, hmore, rfl⟩
    · rw [hlonger] at hmore
      exact ⟨error', hmore, Level.isIncomplete_of_readOn hlonger⟩

/-- A text that is refused is refused whatever follows it. So when the console drops text that it
could not read, no further lines could have completed it. -/
theorem malformed_stays_malformed :
    (∀ text : String, Refused text → ∀ more : String, Refused (text ++ more)) ∧
    ∀ (console console' : Console) (line : String),
      (∀ nodes, readNodes (console.buffer ++ line ++ "\n") ≠ .ok nodes) →
      console.feed line = .ok () console' → console'.buffer = "" →
      ∀ more : String, Refused (console.buffer ++ line ++ "\n" ++ more) := by
  refine ⟨fun text h more => h.append more, ?_⟩
  intro console console' line hunread hfeed hdropped more
  refine Refused.append ?_ more
  cases hread : readNodes (console.buffer ++ line ++ "\n") with
  | ok nodes => exact absurd hread (hunread nodes)
  | error error =>
    refine ⟨error, hread, ?_⟩
    cases hincomplete : error.isIncomplete with
    | false => rfl
    | true =>
      -- text that ends too early is kept, and it holds a line feed at least
      rw [Console.feed_of_incomplete hread hincomplete, EStateM.Result.ok.injEq] at hfeed
      rw [← hfeed.2] at hdropped
      simp at hdropped

/-- A number that is too large stays so with another digit, and an open list that holds a word which
is none is dropped for good. -/
theorem malformed_stays_malformed_number_and_word :
    Refused "2147483648" ∧ Refused ("2147483648" ++ "0)") ∧
      ∃ console', Console.feed { machine := .blank 9, buffer := "(a\n" } "12abc" = .ok () console' ∧
        console'.buffer = "" ∧ Refused ("(a\n" ++ "12abc" ++ "\n" ++ "b)") := by
  have hnumber : readNodes "2147483648" = .error (.tooLarge "2147483648") := by
    rw [readNodes_eq_conclude]
    rfl
  have hrefused : Refused "2147483648" := ⟨_, hnumber, rfl⟩
  refine ⟨hrefused, malformed_stays_malformed.1 _ hrefused _, ?_⟩
  have hword : readNodes ("(a\n" ++ "12abc" ++ "\n") = .error (.unexpectedChar 5 'a') := by
    rw [readNodes_eq_conclude]
    rfl
  have hunread : ∀ nodes, readNodes ("(a\n" ++ "12abc" ++ "\n") ≠ .ok nodes := by
    intro nodes hnodes
    rw [hword] at hnodes
    cases hnodes
  let console : Console := { machine := .blank 9, buffer := "(a\n" }
  have hfeed : console.feed "12abc" = _ := Console.feed_of_refused hword rfl rfl
  have hdropped := malformed_stays_malformed.2 console _ "12abc" hunread hfeed rfl
  exact ⟨_, hfeed, rfl, hdropped "b)"⟩

end FexprLisp
