import FexprLisp.Console.Basic
import FexprLisp.Proofs.Eval.Logic
import FexprLisp.Proofs.Eval.Run
import FexprLisp.Proofs.Value.Inspection

/-!
# Printed lines

An evaluation prints debug forms of values and nothing else. Each of them stands on a line of its
own, so the lines that were printed can be told apart again.

## Main definitions

- `linesOf` — the lines of a text
- `EvalM.PrintsValues` — computations that print debug forms of values only

## Main statements

- `evaluateWithin_printsValues`, `evaluate_printsValues` — evaluations are such computations
- `Machine.linesOf_printedSince` — what was printed, line by line
- `debug_forms_faithful` — debug forms tell values and nodes apart, each on a single line
-/

namespace FexprLisp

/-- The lines of a text. A text that ends in a line feed has an empty line behind it. -/
def linesOf (text : String) : List String :=
  (text.toList.splitOn '\n').map String.ofList

theorem linesOf_join {lines : List String} (h : ∀ line ∈ lines, '\n' ∉ line.toList) :
    linesOf (String.join (lines.map (· ++ "\n"))) = lines ++ [""] := by
  induction lines with
  | nil => rfl
  | cons line lines ih =>
    rw [List.forall_mem_cons] at h
    have htext : (String.join ((line :: lines).map (· ++ "\n"))).toList =
        line.toList ++ '\n' :: (String.join (lines.map (· ++ "\n"))).toList := by
      simp
    rw [linesOf, htext, List.splitOn_append_cons_self_of_not_mem h.1, List.map_cons,
      String.ofList_toList, List.cons_append]
    exact congrArg (line :: ·) (ih h.2)

-- ════════════════════════════════════════════════════════════════════════
-- What a computation prints
-- ════════════════════════════════════════════════════════════════════════

/-- The second state has the lines of the first one and behind them the debug forms of these
values. -/
def Printed (values : List Value) (s t : State) : Prop :=
  t.output.toList = s.output.toList ++ values.map Value.inspect

namespace Printed

variable {s t u : State} {values more : List Value}

theorem of_output_eq (h : t.output = s.output) : Printed [] s t := by
  rw [Printed, h, List.map_nil, List.append_nil]

theorem trans (h : Printed values s t) (h' : Printed more t u) : Printed (values ++ more) s u := by
  rw [Printed, h', h, List.map_append, List.append_assoc]

end Printed

namespace EvalM

theorem printed_print (value : Value) (s : State) :
    Printed [value] s (final (print value.inspect) s) := by
  rw [Printed, final_print, Array.toList_push]
  rfl

/-- Prints debug forms of values only. -/
def PrintsValues {α : Type} (x : EvalM α) : Prop :=
  ∀ s : State, ∃ values, Printed values s (final x s)

theorem printsValues_of_output_eq {α : Type} {x : EvalM α}
    (h : ∀ s, (final x s).output = s.output) : x.PrintsValues :=
  fun s => ⟨[], .of_output_eq (h s)⟩

theorem printsValues_seq {α β : Type} {x : EvalM α} {f : α → EvalM β} (hx : x.PrintsValues)
    (hf : ∀ a s t, x s = .ok a t → (f a).PrintsValues) : (x >>= f).PrintsValues := by
  intro s
  obtain ⟨values, hvalues⟩ := hx s
  rw [final_seq]
  cases hrun : x s with
  | ok a t =>
    rw [final_of_ok hrun] at hvalues
    obtain ⟨more, hmore⟩ := hf a s t hrun t
    exact ⟨values ++ more, hvalues.trans hmore⟩
  | error e t =>
    rw [final_of_error hrun] at hvalues
    exact ⟨values, hvalues⟩

theorem output_bindName (name : String) (value : Value) (s : State) :
    (final (EvalM.bind name value) s).output = s.output := by
  cases hs : s.scopes.frames with
  | nil => rw [final_of_error (bind_of_no_frames hs name value)]
  | cons top outer => rw [final_of_ok (bind_of_frames hs name value)]

theorem output_inScope {α : Type} (x : EvalM α) (s : State) :
    (final (inScope x) s).output = (final x s.entered).output := by
  rw [final_inScope]
  cases (final x s.entered).scopes.leave with
  | ok scopes => rfl
  | error e => rfl

theorem printsValues_inScope {α : Type} {x : EvalM α} (hx : x.PrintsValues) :
    (inScope x).PrintsValues := by
  intro s
  obtain ⟨values, hvalues⟩ := hx s.entered
  refine ⟨values, ?_⟩
  rw [Printed, output_inScope]
  exact hvalues

theorem printsValues_counted {α : Type} {x : EvalM α} (hx : x.PrintsValues) :
    (counted x).PrintsValues := by
  intro s
  rw [final_counted]
  by_cases hroom : s.room = 0
  · rw [if_pos hroom]
    exact ⟨[], .of_output_eq rfl⟩
  · rw [if_neg hroom]
    exact hx s.opened

end EvalM

/-- Computations that print debug forms of values only; the second of the two does not matter. -/
def printingValues : PlainLogic where
  rel x _ := x.PrintsValues
  rel_pure _ := EvalM.printsValues_of_output_eq fun _ => rfl
  rel_bind hx hf := EvalM.printsValues_seq hx fun a s t h => hf a s t (.inl h)
  rel_throw _ _ := EvalM.printsValues_of_output_eq fun _ => rfl
  rel_lookup n := EvalM.printsValues_of_output_eq fun s => by rw [EvalM.final_lookup]
  rel_bindName n v := EvalM.printsValues_of_output_eq (EvalM.output_bindName n v)
  rel_print v s := ⟨[v], EvalM.printed_print v s⟩
  rel_applied _ _ := EvalM.printsValues_of_output_eq fun _ => rfl
  rel_inScope h := EvalM.printsValues_inScope h

theorem evaluateWithin_printsValues (rounds : Nat) (node : Node) :
    (evaluateWithin rounds node).PrintsValues := by
  induction rounds generalizing node with
  | zero => exact EvalM.printsValues_of_output_eq fun _ => rfl
  | succ rounds ih =>
    have hnested : ∀ other : Node,
        printingValues.rel (evaluateWithin rounds other) (evaluateWithin rounds other) := ih
    rw [evaluateWithin_succ]
    exact EvalM.printsValues_counted (PlainLogic.rel_evalNode hnested node)

/-- Evaluation prints debug forms of values only. -/
theorem evaluate_printsValues (node : Node) : (evaluate node).PrintsValues :=
  fun s => evaluateWithin_printsValues s.room node s

-- ════════════════════════════════════════════════════════════════════════
-- Lines on the screen
-- ════════════════════════════════════════════════════════════════════════

/-- What was printed, line by line. -/
theorem Machine.linesOf_printedSince {m m' : Machine} {values : List Value}
    (h : Printed values m m') :
    linesOf (m'.printedSince m.output.size) = values.map Value.inspect ++ [""] := by
  have hdrop : m'.output.toList.drop m.output.size = values.map Value.inspect := by
    rw [h, ← Array.length_toList, List.drop_left]
  rw [printedSince, hdrop]
  refine linesOf_join fun line hline => ?_
  obtain ⟨value, -, rfl⟩ := List.mem_map.1 hline
  exact value.lineFeed_not_mem_inspect

/-- The console prints the value of a node behind what its evaluation prints. -/
theorem Console.printed_answer {m m' : Machine} {node : Node} {value : Value}
    (h : m.evaluate node = .ok value m') :
    ∃ values after, answer m node = .ok () after ∧ Printed (values ++ [value]) m after := by
  obtain ⟨values, hvalues⟩ := evaluate_printsValues node m
  rw [EvalM.final_of_ok h] at hvalues
  have hanswer : answer m node = .ok () (EvalM.final (EvalM.print value.inspect) m') := by
    rw [answer, h]
    rfl
  exact ⟨values, _, hanswer, hvalues.trans (EvalM.printed_print value m')⟩

/-- Debug forms are faithful. Values have the same one exactly when the language takes them for the
same, which are native operations of one name and otherwise equal values; nodes have the same one
only if they are equal. No debug form has a line feed. So the lines that an evaluation prints are
debug forms, and the lines that a console prints for a node with a value are those and the value's
own. -/
theorem debug_forms_faithful :
    (∀ v w : Value, v.inspect = w.inspect ↔ v.same w = true) ∧
    (∀ v w : Value, v.same w = true ↔
      v = w ∨ ∃ name operation operation', v = .intrinsic name operation ∧
        w = .intrinsic name operation') ∧
    (∀ a b : Node, a.inspect = b.inspect ↔ a = b) ∧
    (∀ v : Value, '\n' ∉ v.inspect.toList) ∧
    (∀ a : Node, '\n' ∉ a.inspect.toList) ∧
    (∀ (m : Machine) (node : Node), ∃ values : List Value,
      linesOf ((m.evaluate node).machine.printedSince m.output.size) =
        values.map Value.inspect ++ [""]) ∧
    ∀ (m m' : Machine) (node : Node) (value : Value), m.evaluate node = .ok value m' →
      ∃ (values : List Value) (after : Machine), Console.answer m node = .ok () after ∧
        linesOf (after.printedSince m.output.size) =
          values.map Value.inspect ++ [value.inspect, ""] := by
  refine ⟨fun v w => Value.inspect_eq_iff, fun v w => Value.same_iff, fun a b => ?_,
    Value.lineFeed_not_mem_inspect, Node.lineFeed_not_mem_inspect, fun m node => ?_,
    fun m m' node value h => ?_⟩
  · exact ⟨Node.inspect_injective, congrArg Node.inspect⟩
  · obtain ⟨values, hvalues⟩ := evaluate_printsValues node m
    exact ⟨values, Machine.linesOf_printedSince hvalues⟩
  · obtain ⟨values, after, hanswer, hvalues⟩ := Console.printed_answer h
    refine ⟨values, after, hanswer, ?_⟩
    rw [Machine.linesOf_printedSince hvalues, List.map_append, List.append_assoc]
    rfl

/-- A text with a line feed in it, printed on the line before the value of the node. -/
theorem debug_forms_faithful_two_lines :
    let m : Machine :=
      { scopes := ⟨[⟨[("debug", .intrinsic "debug" .trace)]⟩]⟩, limit := 10 }
    let node : Node := .list [.ident "debug", .str "one\ntwo"]
    m.evaluate node = .ok .empty (m.evaluate node).machine ∧
      ∃ (values : List Value) (after : Machine), Console.answer m node = .ok () after ∧
        linesOf (after.printedSince m.output.size) =
          values.map Value.inspect ++ [Value.inspect .empty, ""] := by
  intro m node
  have hrun : m.evaluate node = .ok .empty (m.evaluate node).machine := rfl
  obtain ⟨-, -, -, -, -, -, hconsole⟩ := debug_forms_faithful
  exact ⟨hrun, hconsole m _ node .empty hrun⟩

end FexprLisp
