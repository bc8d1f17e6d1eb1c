import FexprLisp.Proofs.Console.Lines
import FexprLisp.Proofs.Eval.Failures
import FexprLisp.Proofs.Machine.Session
import FexprLisp.Proofs.Source.Grammar

/-!
# What a console survives

A console is fed lines and reset, in any order. Between two of these acts its machine has one frame and
no open evaluation, and its text is empty or could not be read completely. Evaluations fail only in ways
that are reported. One thing ends a feeding: a number with too many digits. The text is then kept, so
that every later line stands behind it and ends the feeding too, until the console is reset.

## Main definitions

- `ShortNumbers` — a text without too many digits in a row
- `Console.Act` — what is done to a console
- `Console.after` — a console with some acts behind it
- `Console.Steady` — what holds of a console between two acts

## Main statements

- `Console.feed_cases` — what a line leads to
- `Console.Steady.act` — every act keeps a console steady
- `console_survives_short_numbers` — what can end a feeding, and what cannot
- `console_ended_by_long_number` — a line that does
-/

namespace FexprLisp

-- ════════════════════════════════════════════════════════════════════════
-- Digits in a row
-- ════════════════════════════════════════════════════════════════════════

/-- At most 4300 digits stand in a row. -/
def ShortNumbers (text : String) : Prop :=
  ∀ run, run <:+: text.toList → run.all Char.isDigit = true → run.length ≤ 4300

theorem shortNumbers_of_length {text : String} (h : text.length ≤ 4300) : ShortNumbers text := by
  intro run hrun _
  have hlength := hrun.length_le
  rw [String.length_toList] at hlength
  omega

theorem shortNumbers_empty : ShortNumbers "" :=
  shortNumbers_of_length (by decide)

theorem not_shortNumbers_of_tooManyDigits {text : String}
    (h : readNodes text = .error .tooManyDigits) : ¬ ShortNumbers text := by
  intro hshort
  obtain ⟨failure, hfailure, -⟩ := isTold_of_readNodes hshort h
  cases hfailure

/-- A row without a character does not reach beyond it. -/
theorem prefix_of_prefix_append {α : Type} {run before after : List α} {c : α} (hc : c ∉ run)
    (h : run <+: before ++ c :: after) : run <+: before := by
  rcases List.prefix_or_prefix_of_prefix h (List.prefix_append before (c :: after)) with
    hrun | ⟨rest, rfl⟩
  · exact hrun
  · rw [List.prefix_append_right_inj] at h
    cases rest with
    | nil => simp
    | cons d rest =>
      rw [List.cons_prefix_cons] at h
      exact absurd (by simp [h.1]) hc

/-- A row without a character stands on one side of it. -/
theorem infix_of_infix_append {α : Type} {run before after : List α} {c : α} (hc : c ∉ run)
    (h : run <:+: before ++ c :: after) : run <:+: before ∨ run <:+: after := by
  induction before with
  | nil =>
    rw [List.nil_append, List.infix_cons_iff] at h
    refine h.imp_left fun hprefix => ?_
    exact (prefix_of_prefix_append hc hprefix).isInfix
  | cons d before ih =>
    rw [List.cons_append, List.infix_cons_iff] at h
    rcases h with hprefix | hinfix
    · exact .inl (prefix_of_prefix_append hc hprefix).isInfix
    · exact (ih hinfix).imp_left fun hbefore => hbefore.trans (List.suffix_cons d before).isInfix

/-- A line feed is no digit, so that no row of digits goes on behind it. -/
theorem ShortNumbers.append_line {text line : String} (htext : ShortNumbers text)
    (hline : ShortNumbers line) : ShortNumbers (text ++ "\n" ++ line) := by
  intro run hrun hdigits
  have hfeed : '\n' ∉ run := by
    intro hmem
    have hdigit := List.all_eq_true.1 hdigits '\n' hmem
    cases hdigit
  have hlist : (text ++ "\n" ++ line).toList = text.toList ++ '\n' :: line.toList := by simp
  rw [hlist] at hrun
  rcases infix_of_infix_append hfeed hrun with hbefore | hafter
  · exact htext run hbefore hdigits
  · exact hline run hafter hdigits

theorem ShortNumbers.append_lineFeed {text : String} (h : ShortNumbers text) :
    ShortNumbers (text ++ "\n") := by
  have hline := h.append_line shortNumbers_empty
  rwa [String.append_empty] at hline

-- ════════════════════════════════════════════════════════════════════════
-- Machines under a console
-- ════════════════════════════════════════════════════════════════════════

namespace Machine

variable {read : List Node} {m : Machine}

theorem Settled.of_scopes_eq (h : m.Settled read) {m' : Machine} (hscopes : m'.scopes = m.scopes)
    (hdepth : m'.depth = m.depth) : m'.Settled read := by
  refine ⟨h.legible, ?_, hdepth.trans h.depth, ?_⟩
  · rw [hscopes]
    exact h.frames
  · rw [hscopes]
    exact h.values

/-- A settled machine fails to evaluate what was read in one of four ways. -/
theorem Settled.failure (h : m.Settled read) {node : Node} (hnode : node.isLegible = true)
    {error : EvalError} {m' : Machine} (herror : m.evaluate node = .error error m') :
    ∃ failure, error.failure? = some failure ∧ failure.kind ∈ FailureKind.ofEvaluation := by
  have hmore := h.extend hnode
  obtain ⟨base, hbase, -⟩ := h.frames
  have hends := evaluate_safe (Vocabulary.reading _ hmore.legible)
    (Vocabulary.parts_of_read (List.mem_append_right _ (List.mem_singleton.2 rfl))) m
    (by simp [hbase]) hmore.values
  have hrun : FexprLisp.evaluate node m = .error error m' := herror
  rw [hrun] at hends
  cases hends with
  | error kept holds hallowed => exact hallowed.failure id

/-- A settled machine answers what was read. What is printed and recorded behind the evaluation leaves
it settled. -/
theorem Settled.answer (h : m.Settled read) {node : Node} (hnode : node.isLegible = true) :
    ∃ next, Console.answer m node = .ok () next ∧ next.Settled (read ++ [node]) := by
  have hsettled := (h.evaluate hnode).1
  unfold Console.answer
  cases hrun : m.evaluate node with
  | ok value next =>
    rw [hrun] at hsettled
    exact ⟨_, rfl, hsettled.of_scopes_eq rfl rfl⟩
  | error error next =>
    rw [hrun] at hsettled
    obtain ⟨failure, hfailure, -⟩ := h.failure hnode hrun
    simp only [hfailure]
    exact ⟨_, rfl, hsettled.of_scopes_eq rfl rfl⟩

theorem Settled.answerEach (h : m.Settled read) {nodes : List Node}
    (hnodes : ∀ node ∈ nodes, node.isLegible = true) :
    ∃ next, Console.answerEach m nodes = .ok () next ∧ next.Settled (read ++ nodes) := by
  induction nodes generalizing read m with
  | nil =>
    rw [List.append_nil]
    exact ⟨m, rfl, h⟩
  | cons node nodes ih =>
    obtain ⟨between, hfirst, hbetween⟩ := h.answer (hnodes node List.mem_cons_self)
    obtain ⟨next, hrest, hnext⟩ :=
      ih hbetween fun other hother => hnodes other (List.mem_cons_of_mem _ hother)
    rw [List.append_assoc] at hnext
    refine ⟨next, ?_, hnext⟩
    rw [Console.answerEach, hfirst]
    exact hrest

end Machine

-- ════════════════════════════════════════════════════════════════════════
-- Acts
-- ════════════════════════════════════════════════════════════════════════

namespace Console

/-- What is done to a console. -/
inductive Act where
  | feed (line : String)
  | reset
deriving DecidableEq, Repr

/-- The console behind an act, also if a feeding was ended. -/
def act (console : Console) : Act → Console
  | .reset => console.reset
  | .feed line =>
    match console.feed line with
    | .ok _ next => next
    | .error _ next => next

/-- A console over a machine that has run some texts, with some acts behind it. -/
def after (limit : Int) (texts : List String) (acts : List Act) : Console :=
  acts.foldl act { machine := (Session.after limit texts).machine }

theorem feed_of_tooManyDigits {console : Console} {line : String}
    (h : readNodes (console.buffer ++ line) = .error .tooManyDigits) :
    console.feed line =
      .error (.read .tooManyDigits) { console with buffer := console.buffer ++ line ++ "\n" } := by
  simp only [feed, readNodes_append_lineFeed, h, ReadError.failure?]

/-- A line that is refused is reported, or it ends the feeding. -/
theorem feed_of_refuses {console : Console} {line : String} (h : console.refuses line = true) :
    (∃ failure, console.feed line = .ok () (console.reset.print (errorLine failure))) ∨
    (readNodes (console.buffer ++ line) = .error .tooManyDigits ∧
      console.feed line =
        .error (.read .tooManyDigits)
          { console with buffer := console.buffer ++ line ++ "\n" }) := by
  have htext := readNodes_append_lineFeed (console.buffer ++ line)
  rw [refuses, htext] at h
  cases hread : readNodes (console.buffer ++ line) with
  | ok nodes =>
    rw [hread] at h
    cases h
  | error error =>
    simp only [hread, Bool.not_eq_true'] at h
    rcases isTold_or_long_of_readNodes hread with ⟨failure, hfailure, -⟩ | ⟨rfl, -⟩
    · exact .inl ⟨failure, feed_of_refused (htext.trans hread) hfailure h⟩
    · exact .inr ⟨rfl, feed_of_tooManyDigits hread⟩

/-- A line is evaluated, kept, reported, or it ends the feeding. -/
theorem feed_cases (console : Console) (line : String) :
    (∃ nodes, readNodes (console.buffer ++ line) = .ok nodes ∧
      console.feed line = answered (answerEach console.machine nodes)) ∨
    (∃ error, readNodes (console.buffer ++ line) = .error error ∧ error.isIncomplete = true ∧
      console.feed line = .ok () { console with buffer := console.buffer ++ line ++ "\n" }) ∨
    (∃ failure, console.feed line = .ok () (console.reset.print (errorLine failure))) ∨
    (readNodes (console.buffer ++ line) = .error .tooManyDigits ∧
      console.feed line =
        .error (.read .tooManyDigits)
          { console with buffer := console.buffer ++ line ++ "\n" }) := by
  by_cases hrefuses : console.refuses line = true
  · exact .inr (.inr (feed_of_refuses hrefuses))
  · exact (feed_of_accepted (eq_false_of_ne_true hrefuses)).imp_right .inl

/-- What holds of a console between two acts. -/
structure Steady (console : Console) : Prop where
  settled : ∃ read, console.machine.Settled read
  buffer : console.buffer = "" ∨ ∃ text error, console.buffer = text ++ "\n" ∧
    readNodes text = .error error ∧ (error.isIncomplete = true ∨ error = .tooManyDigits)

/-- A steady console answers all that it can read. -/
theorem Steady.answerEach {console : Console} (h : console.Steady) {text : String}
    {nodes : List Node} (hread : readNodes text = .ok nodes) :
    ∃ next, Console.answerEach console.machine nodes = .ok () next ∧ ∃ read, next.Settled read := by
  obtain ⟨read, hsettled⟩ := h.settled
  have hlegible : ∀ node ∈ nodes, node.isLegible = true :=
    fun node hnode => (readNodes_readable hread node hnode).1
  obtain ⟨next, hanswered, hnext⟩ := hsettled.answerEach hlegible
  exact ⟨next, hanswered, _, hnext⟩

/-- Only a number that is too long ends a feeding, and nothing but the text is changed then. -/
theorem Steady.feed_eq_error_iff {console : Console} (h : console.Steady) {next : Console}
    {line : String} {error : RunError} :
    console.feed line = .error error next ↔
      readNodes (console.buffer ++ line ++ "\n") = .error .tooManyDigits ∧
      error = .read .tooManyDigits ∧
      next = { console with buffer := console.buffer ++ line ++ "\n" } := by
  rw [readNodes_append_lineFeed]
  constructor
  · intro hended
    rcases feed_cases console line with
      ⟨nodes, hread, hfeed⟩ | ⟨cause, -, -, hfeed⟩ | ⟨failure, hfeed⟩ | ⟨hread, hfeed⟩
    · obtain ⟨machine, hanswered, -⟩ := h.answerEach hread
      rw [hfeed, hanswered] at hended
      cases hended
    · rw [hfeed] at hended
      cases hended
    · rw [hfeed] at hended
      cases hended
    · rw [hfeed] at hended
      cases hended
      exact ⟨hread, rfl, rfl⟩
  · rintro ⟨hread, rfl, rfl⟩
    exact feed_of_tooManyDigits hread

theorem Steady.act {console : Console} (h : console.Steady) (act : Act) :
    (console.act act).Steady := by
  cases act with
  | reset => exact ⟨h.settled, .inl rfl⟩
  | feed line =>
    rw [Console.act]
    obtain ⟨read, hsettled⟩ := h.settled
    rcases feed_cases console line with
      ⟨nodes, hread, hfeed⟩ | ⟨error, hread, hincomplete, hfeed⟩ | ⟨failure, hfeed⟩ |
        ⟨hread, hfeed⟩
    · obtain ⟨machine, hanswered, hmachine⟩ := h.answerEach hread
      rw [hfeed, hanswered]
      exact ⟨hmachine, .inl rfl⟩
    · rw [hfeed]
      exact ⟨h.settled, .inr ⟨_, error, rfl, hread, .inl hincomplete⟩⟩
    · rw [hfeed]
      exact ⟨⟨read, hsettled.of_scopes_eq rfl rfl⟩, .inl rfl⟩
    · rw [hfeed]
      exact ⟨h.settled, .inr ⟨_, _, rfl, hread, .inr rfl⟩⟩

theorem Steady.acts {console : Console} (h : console.Steady) (acts : List Act) :
    (acts.foldl Console.act console).Steady := by
  induction acts generalizing console with
  | nil => exact h
  | cons act acts ih => exact ih (h.act act)

theorem steady_after (limit : Int) (texts : List String) (acts : List Act) :
    (after limit texts acts).Steady :=
  Steady.acts ⟨⟨_, (Session.sound_after limit texts).settled⟩, .inl rfl⟩ acts

theorem Steady.exists_error {console : Console} (h : console.Steady) :
    console.buffer = "" ∨ ∃ error, readNodes console.buffer = .error error ∧
      (error.isIncomplete = true ∨ error = .tooManyDigits) := by
  refine h.buffer.imp_right ?_
  rintro ⟨text, error, htext, hread, hcause⟩
  exact ⟨error, by rw [htext, readNodes_append_lineFeed, hread], hcause⟩

/-- Of the nodes that a line completes, each has its turn and is evaluated or fails in one of four
ways. -/
theorem Steady.failure {console : Console} (h : console.Steady) {text : String}
    {before later : List Node} {node : Node}
    (hread : readNodes text = .ok (before ++ node :: later)) :
    ∃ between, Console.answerEach console.machine before = .ok () between ∧
      ∀ error last, between.evaluate node = .error error last →
        ∃ failure, error.failure? = some failure ∧ failure.kind ∈ FailureKind.ofEvaluation := by
  obtain ⟨read, hsettled⟩ := h.settled
  have hlegible : ∀ other ∈ before ++ node :: later, other.isLegible = true :=
    fun other hother => (readNodes_readable hread other hother).1
  have hnode := hlegible node (List.mem_append_right _ List.mem_cons_self)
  obtain ⟨between, hanswered, hbetween⟩ :=
    hsettled.answerEach fun other hother => hlegible other (List.mem_append_left _ hother)
  exact ⟨between, hanswered, fun error last herror => hbetween.failure hnode herror⟩

/-- Behind a number that is too long, every line ends the feeding. -/
theorem feed_behind_long_number {console : Console} {text : String}
    (hbuffer : console.buffer = text ++ "\n") (h : readNodes text = .error .tooManyDigits)
    (line : String) :
    console.feed line =
      .error (.read .tooManyDigits) { console with buffer := console.buffer ++ line ++ "\n" } := by
  apply feed_of_tooManyDigits
  rw [hbuffer]
  exact readNodes_append_of_refused h rfl isSeparator_lineFeed line

/-- Lines without too many digits in a row leave no such row in the text. -/
theorem Steady.shortNumbers_append {console : Console} (h : console.Steady)
    (hbuffer : ShortNumbers console.buffer) {line : String} (hline : ShortNumbers line) :
    ShortNumbers (console.buffer ++ line) := by
  rcases h.buffer with hempty | ⟨text, error, htext, -, -⟩
  · rw [hempty, String.empty_append]
    exact hline
  · rw [htext] at hbuffer ⊢
    refine ShortNumbers.append_line ?_ hline
    intro run hrun
    apply hbuffer run
    rw [String.toList_append]
    exact hrun.trans (List.prefix_append _ _).isInfix

theorem Steady.exists_feed {console : Console} (h : console.Steady)
    (hbuffer : ShortNumbers console.buffer) {line : String} (hline : ShortNumbers line) :
    ∃ next, console.feed line = .ok () next := by
  cases hfeed : console.feed line with
  | ok _ next => exact ⟨next, rfl⟩
  | error error next =>
    have hread := (h.feed_eq_error_iff.1 hfeed).1
    rw [readNodes_append_lineFeed] at hread
    exact absurd (h.shortNumbers_append hbuffer hline) (not_shortNumbers_of_tooManyDigits hread)

theorem Steady.shortNumbers_act {console : Console} (h : console.Steady)
    (hbuffer : ShortNumbers console.buffer) {act : Act}
    (hact : ∀ line, act = .feed line → ShortNumbers line) :
    ShortNumbers (console.act act).buffer := by
  cases act with
  | reset => exact shortNumbers_empty
  | feed line =>
    have hkept := (h.shortNumbers_append hbuffer (hact line rfl)).append_lineFeed
    rw [Console.act]
    rcases feed_cases console line with
      ⟨nodes, hread, hfeed⟩ | ⟨error, -, -, hfeed⟩ | ⟨failure, hfeed⟩ | ⟨-, hfeed⟩
    · obtain ⟨machine, hanswered, -⟩ := h.answerEach hread
      rw [hfeed, hanswered]
      exact shortNumbers_empty
    · rw [hfeed]
      exact hkept
    · rw [hfeed]
      exact shortNumbers_empty
    · rw [hfeed]
      exact hkept

theorem Steady.shortNumbers_acts {console : Console} (h : console.Steady)
    (hbuffer : ShortNumbers console.buffer) {acts : List Act}
    (hacts : ∀ line, .feed line ∈ acts → ShortNumbers line) :
    ShortNumbers (acts.foldl Console.act console).buffer := by
  induction acts generalizing console with
  | nil => exact hbuffer
  | cons act acts ih =>
    have hfirst : ShortNumbers (console.act act).buffer := by
      apply h.shortNumbers_act hbuffer
      rintro line rfl
      exact hacts line List.mem_cons_self
    exact ih (h.act act) hfirst fun line hline => hacts line (List.mem_cons_of_mem _ hline)

end Console

-- ════════════════════════════════════════════════════════════════════════
-- A number that is too long
-- ════════════════════════════════════════════════════════════════════════

/-- A number with too many digits is refused without a failure. -/
theorem readNodes_of_long_numeral {digits : String} (h : isNumeral digits.toList = true)
    (hlong : Text.digitLimit < digits.length) : readNodes digits = .error .tooManyDigits := by
  have hform : (Lexeme.integer digits).wellFormed = true := h
  have hscan : lexemesOf (scan digits).tokens = [.integer digits] := by
    have hlexeme := scan_lexeme hform (fun _ => show startsApart [] = true from rfl) 0
    rw [List.append_nil] at hlexeme
    exact congrArg (fun scanned => lexemesOf scanned.tokens) hlexeme
  have hmove : (Level.move [] (.integer digits)).error? = some .tooManyDigits := by
    show (Level.fillWith [] (readInteger digits)).error? = some .tooManyDigits
    rw [Level.error?_fillWith, readInteger, if_pos hlong]
  rw [readNodes_eq_conclude, hscan, Level.readOn_cons_of_error hmove]
  rfl

/-- A number with one digit more than a number may have. -/
def longNumeral : String :=
  String.ofList (List.replicate (Text.digitLimit + 1) '9')

theorem readNodes_longNumeral : readNodes longNumeral = .error .tooManyDigits := by
  apply readNodes_of_long_numeral
  · rw [longNumeral, String.toList_ofList, isNumeral, List.all_replicate]
    rfl
  · rw [longNumeral, String.length_ofList, List.length_replicate]
    exact Nat.lt_succ_self _

theorem Console.feed_longNumeral {console : Console} (h : console.buffer = "") :
    console.feed longNumeral =
      .error (.read .tooManyDigits) { console with buffer := longNumeral ++ "\n" } := by
  have hread : readNodes (console.buffer ++ longNumeral) = .error .tooManyDigits := by
    rw [h, String.empty_append, readNodes_longNumeral]
  rw [feed_of_tooManyDigits hread, h, String.empty_append]

theorem Console.buffer_after_longNumeral (limit : Int) (texts : List String) :
    (Console.after limit texts [.feed longNumeral]).buffer = longNumeral ++ "\n" := by
  rw [Console.after, List.foldl_cons, Console.act, feed_longNumeral rfl]
  rfl

-- ════════════════════════════════════════════════════════════════════════
-- What ends a feeding
-- ════════════════════════════════════════════════════════════════════════

/-- Whatever a console has been fed, and however often it was reset, its machine has one frame and no
open evaluation, and its text is empty, or ends too early, or holds a number that is too long. Feeding
is ended by such a number alone, which changes nothing but the text; every later line then ends the
feeding too. An evaluation fails in one of the four ways that are reported. So, if no line has more
than 4300 digits in a row, no feeding is ever ended, and the text is empty or ends too early. -/
theorem console_survives_short_numbers (limit : Int) (texts : List String)
    (acts : List Console.Act) :
    let console := Console.after limit texts acts
    (∃ base, console.machine.scopes.frames = [base]) ∧ console.machine.depth = 0 ∧
    (console.buffer = "" ∨ ∃ error, readNodes console.buffer = .error error ∧
      (error.isIncomplete = true ∨ error = .tooManyDigits)) ∧
    (∀ line error next, console.feed line = .error error next ↔
      readNodes (console.buffer ++ line ++ "\n") = .error .tooManyDigits ∧
      error = .read .tooManyDigits ∧
      next = { console with buffer := console.buffer ++ line ++ "\n" }) ∧
    (readNodes console.buffer = .error .tooManyDigits →
      ∀ line, ∃ next, console.feed line = .error (.read .tooManyDigits) next) ∧
    (∀ line nodes before node later,
      readNodes (console.buffer ++ line ++ "\n") = .ok nodes → nodes = before ++ node :: later →
      ∃ between, Console.answerEach console.machine before = .ok () between ∧
        ∀ error last, between.evaluate node = .error error last →
          ∃ failure, error.failure? = some failure ∧
            failure.kind ∈ [.mistyped, .malformed, .unbound, .runtime]) ∧
    ((∀ line, .feed line ∈ acts → ShortNumbers line) →
      (console.buffer = "" ∨ ∃ error, readNodes console.buffer = .error error ∧
        error.isIncomplete = true) ∧
      ∀ line, ShortNumbers line → ∃ next, console.feed line = .ok () next) := by
  intro console
  have hsteady := Console.steady_after limit texts acts
  obtain ⟨read, hsettled⟩ := hsteady.settled
  obtain ⟨base, hbase, -⟩ := hsettled.frames
  refine ⟨⟨base, hbase⟩, hsettled.depth, hsteady.exists_error,
    fun line error next => hsteady.feed_eq_error_iff, ?_, ?_, ?_⟩
  · intro hlong line
    rcases hsteady.buffer with hempty | ⟨text, error, htext, -, -⟩
    · rw [hempty, readNodes_empty] at hlong
      cases hlong
    · rw [htext, readNodes_append_lineFeed] at hlong
      exact ⟨_, Console.feed_behind_long_number htext hlong line⟩
  · rintro line nodes before node later hread rfl
    exact hsteady.failure hread
  · intro hacts
    have hshort : ShortNumbers console.buffer :=
      (Console.steady_after limit texts []).shortNumbers_acts shortNumbers_empty hacts
    refine ⟨hsteady.exists_error.imp_right ?_, fun line => hsteady.exists_feed hshort⟩
    rintro ⟨error, hread, hincomplete | rfl⟩
    · exact ⟨error, hread, hincomplete⟩
    · exact absurd hshort (not_shortNumbers_of_tooManyDigits hread)

/-- A name is bound, a list over two lines has a value, a name behind it is missing, and a literal is
left open, behind which the same name is missing again; and a number that is too long. -/
theorem console_survives_short_numbers_open_literal :
    let acts : List Console.Act :=
      [.feed "(let x 1)", .feed "(+ x", .feed " 2) y", .reset, .feed "x \"a"]
    let console := Console.after 100 [] acts
    console.machine.output.toList = ["Empty", "Int(3)", "Error: Variable y is not in scope."] ∧
    (∃ base, console.machine.scopes.frames = [base]) ∧ console.machine.depth = 0 ∧
    (∃ error, readNodes console.buffer = .error error ∧ error.isIncomplete = true) ∧
    (∃ next, console.feed "b\" y" = .ok () next) ∧
    (∃ between, Console.answerEach console.machine [.ident "x", .str "a\nb"] = .ok () between ∧
      ∃ error last failure, between.evaluate (.ident "y") = .error error last ∧
        error.failure? = some failure ∧
        failure.kind ∈ [.mistyped, .malformed, .unbound, .runtime]) ∧
    readNodes (Console.after 100 [] [.feed longNumeral]).buffer = .error .tooManyDigits ∧
    ∃ next, (Console.after 100 [] [.feed longNumeral]).feed "x" =
      .error (.read .tooManyDigits) next := by
  intro acts console
  have houtput : console.machine.output.toList =
      ["Empty", "Int(3)", "Error: Variable y is not in scope."] := by decide +kernel
  have hbuffer : console.buffer = "x \"a\n" := by decide +kernel
  have hshort : ∀ line, .feed line ∈ acts → ShortNumbers line := by
    intro line hline
    simp only [acts, List.mem_cons, Console.Act.feed.injEq, List.not_mem_nil, reduceCtorEq,
      or_false, false_or] at hline
    rcases hline with rfl | rfl | rfl | rfl
    all_goals exact shortNumbers_of_length (by decide)
  have hread : readNodes (console.buffer ++ "b\" y" ++ "\n") =
      .ok [.ident "x", .str "a\nb", .ident "y"] := by
    rw [hbuffer, readNodes_eq_conclude]
    rfl
  have hlong : readNodes (Console.after 100 [] [.feed longNumeral]).buffer =
      .error .tooManyDigits := by
    rw [Console.buffer_after_longNumeral, readNodes_append_lineFeed, readNodes_longNumeral]
  obtain ⟨hframes, hdepth, -, -, -, hfails, hsurvives⟩ :=
    console_survives_short_numbers 100 [] acts
  obtain ⟨-, -, -, -, hlater, -, -⟩ := console_survives_short_numbers 100 [] [.feed longNumeral]
  obtain ⟨hincomplete, hfeeds⟩ := hsurvives hshort
  obtain ⟨between, hbetween, hkind⟩ := hfails _ _ [.ident "x", .str "a\nb"] (.ident "y") [] hread rfl
  have hmissing : ((Console.answerEach console.machine [.ident "x", .str "a\nb"]).machine.evaluate
      (.ident "y")).error? = some (.scope (.unbound "y")) := by decide +kernel
  rw [hbetween, Machine.Outcome.machine_ok] at hmissing
  refine ⟨houtput, hframes, hdepth, ?_, hfeeds _ (shortNumbers_of_length (by decide)), ?_, hlong,
    hlater hlong "x"⟩
  · rw [hbuffer] at hincomplete ⊢
    exact hincomplete.resolve_left (by decide)
  · have hrun := Machine.Outcome.eq_error_of_error? hmissing
    obtain ⟨failure, hfailure, hfour⟩ := hkind _ _ hrun
    exact ⟨between, hbetween, _, _, failure, hrun, hfailure, hfour⟩

/-- A line of 4301 digits ends the feeding of a new console. The line is kept, and not because it ends
too early, so that every later line ends the feeding too. -/
theorem console_ended_by_long_number :
    let console : Console := { machine := Machine.boot 1000 }
    ∃ next, console.feed longNumeral = .error (.read .tooManyDigits) next ∧
      next.buffer ≠ "" ∧ readNodes next.buffer = .error .tooManyDigits ∧
      ReadError.tooManyDigits.isIncomplete = false ∧
      ∀ line, ∃ later, next.feed line = .error (.read .tooManyDigits) later := by
  intro console
  refine ⟨_, Console.feed_longNumeral rfl, ?_, ?_, rfl, ?_⟩
  · intro hempty
    have hread := readNodes_append_lineFeed longNumeral
    have hbuffer : longNumeral ++ "\n" = "" := hempty
    rw [hbuffer, readNodes_empty, readNodes_longNumeral] at hread
    cases hread
  · rw [readNodes_append_lineFeed, readNodes_longNumeral]
  · intro line
    exact ⟨_, Console.feed_behind_long_number rfl readNodes_longNumeral line⟩

end FexprLisp
