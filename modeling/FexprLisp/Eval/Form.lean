import FexprLisp.Eval.Arithmetic
import FexprLisp.Eval.State

/-!
# Forms

What each native operation does with its raw arguments. The operations are given the evaluator
to use, so each is described without saying how deep an evaluation may nest.

## Main definitions

- `Evaluator` — how to evaluate a node
- `Primitive.call` — calls a native operation
- `callFunction` — calls a function
- `callValue` — calls any value
-/

namespace FexprLisp

/-- How to evaluate a node. -/
abbrev Evaluator := Node → EvalM Value

/-- Evaluates nodes from left to right. -/
def evalEach (ev : Evaluator) : List Node → EvalM (List Value)
  | [] => pure []
  | node :: nodes => do
    let value ← ev node
    let values ← evalEach ev nodes
    pure (value :: values)

/-- Evaluates nodes from left to right and keeps the last value. -/
def evalLast (ev : Evaluator) (last : Value) : List Node → EvalM Value
  | [] => pure last
  | node :: nodes => do
    let value ← ev node
    evalLast ev value nodes

/-- A computation that only succeeds or fails. -/
def EvalM.ofExcept {α : Type} : Except EvalError α → EvalM α
  | .ok a => pure a
  | .error error => throw error

namespace Form

/-- Binds names to values in the innermost frame; later pairs see earlier ones. -/
def defineEach (ev : Evaluator) : List Node → EvalM Value
  | .ident name :: node :: rest => do
    let value ← ev node
    EvalM.bind name value
    defineEach ev rest
  | key :: _ :: _ => throw (.notIdentifier key)
  | _ => pure .empty

/-- Binds names to values, which must come in pairs. -/
def define (ev : Evaluator) (args : List Node) : EvalM Value :=
  if args.length % 2 = 0 then defineEach ev args else throw .unpairedName

/-- Captures the first argument. -/
def quote : List Node → EvalM Value
  | [] => throw .quoteNothing
  | node :: _ => pure (.quote node)

/-- Evaluates the code that the first argument evaluates to. -/
def unquote (ev : Evaluator) : List Node → EvalM Value
  | [] => throw .unquoteNothing
  | node :: _ => do
    match ← ev node with
    | .quote code => ev code
    | value => throw (.notQuote value)

/-- Evaluates the arguments one after the other. -/
def sequence (ev : Evaluator) : List Node → EvalM Value
  | [] => throw .emptySequence
  | nodes => evalLast ev .empty nodes

/-- Evaluates a condition and then one of two arms. -/
def branch (ev : Evaluator) : List Node → EvalM Value
  | [condition, whenTrue, whenFalse] => do
    let value ← ev condition
    match value.truth? with
    | some true => ev whenTrue
    | some false => ev whenFalse
    | none => throw (.noTruth value)
  | _ => throw .branchCount

/-- The names of parameters. -/
def paramNames : List Node → Except EvalError (List String)
  | [] => .ok []
  | .ident name :: params => (paramNames params).map (name :: ·)
  | _ :: _ => .error .paramNotName

/-- Makes a function. A name may be repeated among its parameters. -/
def lambda : List Node → Except EvalError Value
  | [] => .error .functionNothing
  | .list params :: rest =>
    match paramNames params, rest with
    | .error error, _ => .error error
    | .ok _, [] => .error .bodyMissing
    | .ok names, body :: _ => .ok (.function names body)
  | _ :: _ => .error .paramsNotList

/-- Prints the value of each argument. -/
def trace (ev : Evaluator) : List Node → EvalM Value
  | [] => pure .empty
  | node :: nodes => do
    let value ← ev node
    EvalM.print value.inspect
    trace ev nodes

/-- The values of exactly two arguments. -/
def operands (ev : Evaluator) (operation : String) : List Node → EvalM (Value × Value)
  | [left, right] => do
    let a ← ev left
    let b ← ev right
    pure (a, b)
  | _ => throw (.operandCount operation)

/-- Computes with two integers. -/
def arith (ev : Evaluator) (op : Arith) (args : List Node) : EvalM Value := do
  match ← operands ev op.name args with
  | (.int a, .int b) => EvalM.ofExcept (op.apply a b)
  | (left, right) => throw (.notIntegers op.name left right)

/-- Truth as a number. -/
def truth (b : Bool) : Value :=
  .int (if b then 1 else 0)

/-- Whether two values are the same. -/
def equal (ev : Evaluator) (args : List Node) : EvalM Value := do
  let (left, right) ← operands ev Primitive.equal.name args
  pure (truth (left.same right))

/-- Whether two values differ. -/
def differ (ev : Evaluator) (args : List Node) : EvalM Value := do
  let (left, right) ← operands ev Primitive.differ.name args
  pure (truth (!left.same right))

end Form

/-- Calls a native operation with raw arguments. -/
def Primitive.call (ev : Evaluator) : Primitive → List Node → EvalM Value
  | define, args => Form.define ev args
  | quote, args => Form.quote args
  | unquote, args => Form.unquote ev args
  | sequence, args => Form.sequence ev args
  | branch, args => Form.branch ev args
  | lambda, args => EvalM.ofExcept (Form.lambda args)
  | trace, args => Form.trace ev args
  | arith op, args => Form.arith ev op args
  | equal, args => Form.equal ev args
  | differ, args => Form.differ ev args
  | capture, args => pure (.quote (.list args))

/-- Calls a function. The arguments are evaluated in the scope of the caller, and the body in a
scope of its own where the parameters are bound. -/
def callFunction (ev : Evaluator) (params : List String) (body : Node) (args : List Node) :
    EvalM Value :=
  if args.length = params.length then do
    let values ← evalEach ev args
    EvalM.note (.applied params values)
    EvalM.inScope do
      EvalM.bindEach params values
      ev body
  else throw (.argumentCount params.length args.length)

/-- Calls a value with raw arguments. -/
def callValue (ev : Evaluator) : Value → List Node → EvalM Value
  | .intrinsic _ operation, args => operation.call ev args
  | .function params body, args => callFunction ev params body args
  | value, _ => throw (.notCallable value)

end FexprLisp
