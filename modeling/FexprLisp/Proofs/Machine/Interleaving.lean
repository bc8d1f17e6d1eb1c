import FexprLisp.Machine.Basic
import FexprLisp.Proofs.Source.Continuation

/-!
# Reading and evaluating in turn

A run evaluates each node as soon as it has been read, before it looks at the text behind. It leads
to the same as reading first and evaluating then, if that takes an error of the reader for the last
thing that happens.

## Main definitions

- `Cursor.supply` — the nodes that are read before the text ends or an error is met, and that error
- `Machine.consume` — evaluates such nodes in order, and then meets the error

## Main statements

- `Cursor.outcome_readAll_eq_supply` — reading all at once meets the same nodes and the same error
- `Machine.runFrom_eq_consume` — reading and evaluating in turn does, too
- `run_reads_then_evaluates` — a run, told from what its text supplies
-/

namespace FexprLisp

/-- Nodes that were read one after the other, and the error that was met behind them. -/
structure Supply where
  nodes : List Node := []
  error : Option ReadError := none

/-- All nodes, unless an error was met. -/
def Supply.result (supply : Supply) : Except ReadError (List Node) :=
  match supply.error with
  | none => .ok supply.nodes
  | some error => .error error

theorem Supply.result_eq_ok_iff {supply : Supply} {nodes : List Node} :
    supply.result = .ok nodes ↔ supply = { nodes } := by
  obtain ⟨read, error⟩ := supply
  cases error <;> simp [result]

theorem Supply.result_eq_error_iff {supply : Supply} {error : ReadError} :
    supply.result = .error error ↔ supply.error = some error := by
  obtain ⟨read, error'⟩ := supply
  cases error' <;> simp [result]

namespace Cursor

/-- Reads one node after the other, until the text ends or an error is met. -/
def supply (c : Cursor) : Supply :=
  match _ : c.readNode with
  | .ok none _ => {}
  | .error error _ => { error := some error }
  | .ok (some node) c' =>
    let later := supply c'
    { later with nodes := node :: later.nodes }
termination_by c.pending.length
decreasing_by exact pending_readNode_lt (by assumption)

theorem supply_of_end {c c' : Cursor} (h : c.readNode = .ok none c') : c.supply = {} := by
  rw [supply]
  split <;> simp_all

theorem supply_of_error {c c' : Cursor} {error : ReadError} (h : c.readNode = .error error c') :
    c.supply = { error := some error } := by
  rw [supply]
  split <;> simp_all

theorem supply_of_node {c c' : Cursor} {node : Node} (h : c.readNode = .ok (some node) c') :
    c.supply = { c'.supply with nodes := node :: c'.supply.nodes } := by
  rw [supply]
  split
  · simp_all
  · simp_all
  · next heq =>
    simp only [h, EStateM.Result.ok.injEq, Option.some.injEq] at heq
    obtain ⟨rfl, rfl⟩ := heq
    rfl

theorem outcome_readAll_eq_supply (c : Cursor) : outcome (readAll c) = c.supply.result := by
  fun_induction Cursor.supply c with
  | case1 c c' hread => rw [outcome_readAll, hread, andThenAll, Supply.result]
  | case2 c error c' hread => rw [outcome_readAll, hread, andThenAll, Supply.result]
  | case3 c node c' hread later ih =>
    rw [outcome_readAll, hread, andThenAll, ih]
    show Except.map (node :: ·) later.result = Supply.result { later with nodes := node :: later.nodes }
    simp only [Supply.result]
    cases later.error <;> rfl

end Cursor

/-- What a text supplies, node by node. -/
def supplied (text : String) : Supply :=
  (Cursor.ofText text).supply

theorem readNodes_eq_supplied (text : String) : readNodes text = (supplied text).result := by
  rw [supplied, ← Cursor.outcome_readAll_eq_supply, readNodes]
  cases (Cursor.ofText text).readAll <;> rfl

namespace Machine

/-- Evaluates nodes in order, and then meets the error behind them. -/
def consume (m : Machine) (last : Value) (supply : Supply) : Outcome RunError Value :=
  match m.evaluateEach last supply.nodes, supply.error with
  | .error error m, _ => .error (.eval error) m
  | .ok _ m, some error => .error (.read error) m
  | .ok value m, none => .ok value m

theorem runFrom_eq_consume (m : Machine) (last : Value) (c : Cursor) :
    m.runFrom last c = m.consume last c.supply := by
  fun_induction Machine.runFrom m last c with
  | case1 m last c c' hread =>
    rw [Cursor.supply_of_end hread]
    rfl
  | case2 m last c error c' hread =>
    rw [Cursor.supply_of_error hread]
    rfl
  | case3 m last c node c' hread value m' heval ih =>
    rw [Cursor.supply_of_node hread, ih]
    simp only [consume, evaluateEach, heval]
  | case4 m last c node c' hread error m' heval =>
    rw [Cursor.supply_of_node hread]
    simp only [consume, evaluateEach, heval]

theorem run_eq_consume (m : Machine) (text : String) :
    m.run text = m.consume .empty (supplied text) :=
  m.runFrom_eq_consume .empty (Cursor.ofText text)

theorem evaluateEach_append_of_ok {m between : Machine} {last value : Value} {before : List Node}
    (h : m.evaluateEach last before = .ok value between) (after : List Node) :
    m.evaluateEach last (before ++ after) = between.evaluateEach value after := by
  induction before generalizing m last with
  | nil =>
    simp only [evaluateEach, EStateM.Result.ok.injEq] at h
    obtain ⟨rfl, rfl⟩ := h
    rfl
  | cons node before ih =>
    rw [List.cons_append, evaluateEach]
    rw [evaluateEach] at h
    cases heval : m.evaluate node with
    | error error m' => simp [heval] at h
    | ok first m' =>
      rw [heval] at h
      exact ih h

/-- Nothing is evaluated behind a node whose evaluation fails. -/
theorem evaluateEach_of_error {m between last : Machine} {start value : Value} {before after : List Node}
    {node : Node} {error : EvalError} (hbefore : m.evaluateEach start before = .ok value between)
    (hnode : between.evaluate node = .error error last) :
    m.evaluateEach start (before ++ node :: after) = .error error last := by
  rw [evaluateEach_append_of_ok hbefore, evaluateEach, hnode]

theorem consume_of_ok {m last : Machine} {start value : Value} {supply : Supply} {error : ReadError}
    (h : m.evaluateEach start supply.nodes = .ok value last) (herror : supply.error = some error) :
    m.consume start supply = .error (.read error) last := by
  simp only [consume, h, herror]

theorem consume_of_error {m last : Machine} {start : Value} {supply : Supply} {error : EvalError}
    (h : m.evaluateEach start supply.nodes = .error error last) :
    m.consume start supply = .error (.eval error) last := by
  simp only [consume, h]

/-- Where a text can be read completely, it makes no difference that it is read first. -/
theorem run_eq_runAfterReading {text : String} {nodes : List Node} (h : readNodes text = .ok nodes)
    (m : Machine) : m.run text = m.runAfterReading text := by
  have hsupplied : supplied text = { nodes } := by
    rwa [readNodes_eq_supplied, Supply.result_eq_ok_iff] at h
  rw [run_eq_consume, hsupplied]
  simp only [consume, runAfterReading, h]
  cases m.evaluateEach .empty nodes <;> rfl

end Machine

/-- A run evaluates the nodes that its text supplies, in order. If one of them fails, this is how the
run fails, whatever stands behind it in the text; if none does and the reader has met an error behind
them, the run fails with that error; otherwise the last value is the result. So a text that can be
read completely might be read first, and if it cannot, and all that was read before can be evaluated,
the run fails as reading fails. -/
theorem run_reads_then_evaluates (m : Machine) (text : String) :
    readNodes text = (supplied text).result ∧
    m.run text = m.consume .empty (supplied text) ∧
    (∀ before node after value between error last,
      (supplied text).nodes = before ++ node :: after →
      m.evaluateEach .empty before = .ok value between →
      between.evaluate node = .error error last →
      m.run text = .error (.eval error) last) ∧
    (∀ nodes, readNodes text = .ok nodes → m.run text = m.runAfterReading text) ∧
    ∀ error value last, readNodes text = .error error →
      m.evaluateEach .empty (supplied text).nodes = .ok value last →
      m.run text = .error (.read error) last := by
  refine ⟨readNodes_eq_supplied text, m.run_eq_consume text, ?_, ?_, ?_⟩
  · intro before node after value between error last hnodes hbefore hnode
    rw [m.run_eq_consume]
    apply Machine.consume_of_error
    rw [hnodes]
    exact Machine.evaluateEach_of_error hbefore hnode
  · intro nodes h
    exact Machine.run_eq_runAfterReading h m
  · intro error value last h hall
    rw [readNodes_eq_supplied, Supply.result_eq_error_iff] at h
    rw [m.run_eq_consume]
    exact Machine.consume_of_ok hall h

/-- A name that is not bound hides the open list behind it; where the names are bound, the open list is
what fails. -/
theorem run_reads_then_evaluates_open_list :
    let m : Machine := { scopes := ⟨[⟨[("x", .int 1)]⟩]⟩, limit := 9 }
    m.run "x y (" = .error (.eval (.scope (.unbound "y"))) m ∧
      m.run "x (" = .error (.read .unmatchedOpen) m ∧
      m.run "x 2" = m.runAfterReading "x 2" := by
  intro m
  obtain ⟨-, -, hstop, -, -⟩ := run_reads_then_evaluates m "x y ("
  obtain ⟨-, -, -, -, herror⟩ := run_reads_then_evaluates m "x ("
  obtain ⟨-, -, -, hread, -⟩ := run_reads_then_evaluates m "x 2"
  have hnodes : (supplied "x y (").nodes = [.ident "x"] ++ .ident "y" :: [] := by decide +kernel
  have hopen : (supplied "x (").nodes = [.ident "x"] := by decide +kernel
  refine ⟨hstop _ _ _ (.int 1) m _ _ hnodes rfl rfl, ?_, ?_⟩
  · apply herror .unmatchedOpen (.int 1) m
    · rw [readNodes_eq_conclude]
      rfl
    · rw [hopen]
      rfl
  · apply hread [.ident "x", .int 2]
    rw [readNodes_eq_conclude]
    rfl

end FexprLisp
