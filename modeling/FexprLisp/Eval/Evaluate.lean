import FexprLisp.Eval.Form

/-!
# Evaluation

Evaluates a node. Every evaluation is counted while it is open, those nested in it are counted on
top of it, and one that would exceed the limit is refused. So the room that a state has left bounds
how deep the recursion goes, and evaluation always ends.

## Main definitions

- `evalNode` — one node, given how to evaluate the nodes nested in its evaluation
- `evaluateWithin` — a node, with so many evaluations nested in each other
- `evaluate` — a node, with as many as the state has room for
-/

namespace FexprLisp

/-- Evaluates one node, given how to evaluate the nodes nested in its evaluation. -/
def evalNode (ev : Evaluator) : Evaluator
  | .ident name => EvalM.lookup name
  | .int value => pure (.int value)
  | .str text => pure (.str text)
  | .quote node => pure (.quote node)
  | .list [] => throw .emptyApplication
  | .list (head :: args) => do
    let callee ← ev head
    callValue ev callee args
  | .hole => throw (.notCode .hole)

/-- Evaluates a node with at most so many evaluations nested in each other, itself included. -/
def evaluateWithin : (rounds : Nat) → Evaluator
  | 0, _ => EvalM.refuse
  | rounds + 1, node => EvalM.counted (evalNode (evaluateWithin rounds) node)

/-- Evaluates a node. -/
def evaluate : Evaluator := fun node s =>
  evaluateWithin s.room node s

end FexprLisp
