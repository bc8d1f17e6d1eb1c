import FexprLisp.Console.Basic
import FexprLisp.Proofs.Source.Separation

/-!
# Lines and what they hold

A console may be given a text line by line or as a whole. As long as no line is refused, it evaluates
the same nodes in the same order.

## Main definitions

- `Console.refuses` — a line that the reader does not accept
- `Console.feedEach?` — lines one after the other

## Main statements

- `Console.exists_readNodes_of_feed` — what is read behind a line that was accepted
- `Console.feed_intercalate` — lines one by one and all at once
-/

namespace FexprLisp

theorem isSeparator_lineFeed : isSeparator '\n' = true := by decide

theorem readNodes_append_lineFeed (text : String) : readNodes (text ++ "\n") = readNodes text := by
  have hchar : "\n" = '\n'.toString := by decide
  rw [hchar]
  exact readNodes_append_separator text isSeparator_lineFeed

theorem readNodes_empty : readNodes "" = .ok [] := by
  rw [readNodes_eq_conclude]
  rfl

namespace Console

/-- Whether a line, behind the text kept so far, cannot be read and cannot be completed either. -/
def refuses (console : Console) (line : String) : Bool :=
  match readNodes (console.buffer ++ line ++ "\n") with
  | .ok _ => false
  | .error error => !error.isIncomplete

/-- The console after lines that are fed one by one. There is none if a line is refused when its turn
comes, or ends the feeding. -/
def feedEach? (console : Console) : List String → Option Console
  | [] => some console
  | line :: lines =>
    if console.refuses line then none
    else
      match console.feed line with
      | .ok _ next => next.feedEach? lines
      | .error _ _ => none

theorem exists_feed_of_feedEach? {console last : Console} {line : String} {lines : List String}
    (h : console.feedEach? (line :: lines) = some last) :
    console.refuses line = false ∧
      ∃ next, console.feed line = .ok () next ∧ next.feedEach? lines = some last := by
  rw [feedEach?] at h
  by_cases hrefuses : console.refuses line = true
  · rw [if_pos hrefuses] at h
    cases h
  · rw [if_neg hrefuses] at h
    refine ⟨eq_false_of_ne_true hrefuses, ?_⟩
    cases hnext : console.feed line with
    | ok _ next =>
      rw [hnext] at h
      exact ⟨next, rfl, h⟩
    | error error stopped =>
      rw [hnext] at h
      cases h

/-- A line that is not refused is evaluated or kept. -/
theorem feed_of_accepted {console : Console} {line : String} (h : console.refuses line = false) :
    (∃ nodes, readNodes (console.buffer ++ line) = .ok nodes ∧
      console.feed line = answered (answerEach console.machine nodes)) ∨
    ∃ error, readNodes (console.buffer ++ line) = .error error ∧ error.isIncomplete = true ∧
      console.feed line = .ok () { console with buffer := console.buffer ++ line ++ "\n" } := by
  have htext := readNodes_append_lineFeed (console.buffer ++ line)
  rw [refuses, htext] at h
  cases hread : readNodes (console.buffer ++ line) with
  | ok nodes => exact .inl ⟨nodes, rfl, feed_of_ok (htext.trans hread)⟩
  | error error =>
    simp only [hread, Bool.not_eq_false'] at h
    exact .inr ⟨error, rfl, h, feed_of_incomplete (htext.trans hread) h⟩

/-- Nodes that are answered one after the other are answered in two parts. -/
theorem answerEach_append_of_ok {m between : Machine} {before : List Node}
    (h : answerEach m before = .ok () between) (after : List Node) :
    answerEach m (before ++ after) = answerEach between after := by
  induction before generalizing m with
  | nil =>
    cases h
    rfl
  | cons node before ih =>
    rw [List.cons_append, answerEach]
    rw [answerEach] at h
    cases hanswer : answer m node with
    | error error m' => simp [hanswer] at h
    | ok _ m' =>
      rw [hanswer] at h
      exact ih h

theorem eq_ok_of_answered {result : Machine.Outcome EvalError Unit} {next : Console}
    (h : answered result = .ok () next) :
    ∃ machine, result = .ok () machine ∧ next = { machine } := by
  cases result with
  | error error machine => cases h
  | ok _ machine =>
    cases h
    exact ⟨machine, rfl, rfl⟩

/-- What is read behind a line that was accepted is read behind the text before that line as well, and
with the nodes of the line, if there are any, the same is evaluated. -/
theorem exists_readNodes_of_feed {console next : Console} {line more : String} {nodes : List Node}
    (haccept : console.refuses line = false) (hfeed : console.feed line = .ok () next)
    (hmore : readNodes (next.buffer ++ more) = .ok nodes) :
    ∃ all, readNodes (console.buffer ++ line ++ "\n" ++ more) = .ok all ∧
      answerEach console.machine all = answerEach next.machine nodes := by
  rcases feed_of_accepted haccept with ⟨first, hfirst, hnext⟩ | ⟨-, -, -, hnext⟩
  · -- The line was evaluated: what stands behind it is read as if it stood alone.
    rw [hfeed] at hnext
    obtain ⟨machine, hanswered, rfl⟩ := eq_ok_of_answered hnext.symm
    rw [String.empty_append] at hmore
    refine ⟨first ++ nodes, ?_, answerEach_append_of_ok hanswered nodes⟩
    have happend := readNodes_append_separated hfirst isSeparator_lineFeed more
    rw [hmore] at happend
    exact happend
  · rw [hfeed] at hnext
    cases hnext
    exact ⟨nodes, hmore, rfl⟩

/-- The line feed behind the last of several lines may be missing. -/
theorem readNodes_intercalate_cons (text line : String) (lines : List String) :
    readNodes (text ++ "\n".intercalate (line :: lines) ++ "\n") =
      readNodes (text ++ line ++ "\n" ++ ("\n".intercalate lines ++ "\n")) := by
  cases lines with
  | nil =>
    rw [String.intercalate_singleton, String.intercalate_nil, String.empty_append,
      readNodes_append_lineFeed (text ++ line ++ "\n")]
  | cons second lines =>
    rw [String.intercalate_cons_cons]
    simp only [String.append_assoc]

/-- Lines that were fed one by one, and behind which no text is left, hold together what the console
has evaluated. -/
theorem exists_readNodes_of_feedEach? {console last : Console} {lines : List String}
    (h : console.feedEach? lines = some last) (hlast : last.buffer = "") :
    ∃ nodes, readNodes (console.buffer ++ "\n".intercalate lines ++ "\n") = .ok nodes ∧
      answerEach console.machine nodes = .ok () last.machine := by
  induction lines generalizing console with
  | nil =>
    cases h
    refine ⟨[], ?_, rfl⟩
    rw [hlast, String.intercalate_nil, String.append_empty, readNodes_append_lineFeed,
      readNodes_empty]
  | cons line lines ih =>
    obtain ⟨haccept, next, hnext, hlines⟩ := exists_feed_of_feedEach? h
    obtain ⟨rest, hrest, hanswered⟩ := ih hlines
    rw [String.append_assoc] at hrest
    obtain ⟨nodes, hnodes, hsame⟩ := exists_readNodes_of_feed haccept hnext hrest
    refine ⟨nodes, ?_, hsame.trans hanswered⟩
    rw [readNodes_intercalate_cons, hnodes]

end Console

/-- However a text is cut into lines: if no line is refused when its turn comes and no text is left at
the end, then the lines one by one lead to the same console as all of them at once, with the same
bindings, the same printed lines and the same journal. -/
theorem Console.feed_intercalate {console last : Console} {lines : List String}
    (h : console.feedEach? lines = some last) (hlast : last.buffer = "") :
    console.feed ("\n".intercalate lines) = .ok () last := by
  obtain ⟨nodes, hnodes, hanswered⟩ := exists_readNodes_of_feedEach? h hlast
  rw [feed_of_ok hnodes, hanswered, answered, ← hlast]

/-- A list over two lines, a name that is not bound, and a literal over two lines. -/
theorem Console.feed_intercalate_list_and_literal :
    let m : Machine := { scopes := ⟨[⟨[("x", .int 1)]⟩]⟩, limit := 9 }
    let last : Machine :=
      { m with
        output := #["Quote(List([Identifier(\"x\")]))", "Error: Variable y is not in scope.",
          "Str(\"a\\nb\")", "Int(1)"]
        journal := #[.failed (.missing "y")] }
    let lines := ["'(x", ") y \"a", "b\"", "x"]
    Console.feedEach? { machine := m } lines = some { machine := last } ∧
      Console.feed { machine := m } ("\n".intercalate lines) = .ok () { machine := last } := by
  intro m last lines
  have h : Console.feedEach? { machine := m } lines = some { machine := last } := by
    decide +kernel
  exact ⟨h, feed_intercalate h rfl⟩

end FexprLisp
