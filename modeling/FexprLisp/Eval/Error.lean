import FexprLisp.Scope.Stack
import FexprLisp.Value.Print

/-!
# Evaluation errors

Why an evaluation fails, one constructor for each cause.

## Main definitions

- `EvalError` — the causes
- `EvalError.failure?` — what a user is told; one cause is no failure of the language
-/

namespace FexprLisp

/-- Why an evaluation fails. -/
inductive EvalError where
  /-- The head of an application is no native operation and no function. -/
  | notCallable (value : Value)
  /-- A binding whose left side is no name. -/
  | notIdentifier (node : Node)
  /-- Captured code was asked for. -/
  | notQuote (value : Value)
  /-- Arithmetic on something other than two integers. -/
  | notIntegers (operation : String) (left right : Value)
  /-- An application without a head. -/
  | emptyApplication
  /-- Something that is no code. -/
  | notCode (node : Node)
  /-- A function called with the wrong number of arguments. -/
  | argumentCount (expected got : Nat)
  /-- A binding form whose last name has no value. -/
  | unpairedName
  /-- A sequence without steps. -/
  | emptySequence
  /-- A branch without exactly a condition and two arms. -/
  | branchCount
  /-- A condition that is neither true nor false. -/
  | noTruth (value : Value)
  /-- A quotation of nothing. -/
  | quoteNothing
  /-- Captured code was asked for and nothing given. -/
  | unquoteNothing
  /-- A function without parameters and body. -/
  | functionNothing
  /-- A function whose parameters are not given in a list. -/
  | paramsNotList
  /-- A function with a parameter that is no name. -/
  | paramNotName
  /-- A function without a body. -/
  | bodyMissing
  /-- A binary operation without exactly two arguments. -/
  | operandCount (operation : String)
  /-- A variable is missing, or a frame is. -/
  | scope (error : ScopeError)
  | divisionByZero
  | moduloByZero
  /-- A result that is no integer of the language. -/
  | overflow (operation : String)
  /-- Evaluation nested deeper than the limit. -/
  | tooDeep (limit : Int)
deriving DecidableEq, Repr

namespace EvalError

/-- What a user is told, if anything. -/
def failure? : EvalError → Option Failure
  | notCallable value => mistyped (value.inspect ++ " is not callable.")
  | notIdentifier node => mistyped (node.inspect ++ " is not an identifier.")
  | notQuote value => mistyped (value.inspect ++ " is not a quote.")
  | notIntegers operation left right =>
    mistyped (operation ++ " only works on integers, got " ++ left.inspect ++ " and " ++
      right.inspect ++ ".")
  | emptyApplication => malformed "List expression with zero arguments."
  | notCode node => malformed (node.inspect ++ " is not a syntax node.")
  | argumentCount expected got =>
    malformed ("Wrong function argument count: expected " ++ toString expected ++ ", got " ++
      toString got ++ ".")
  | unpairedName => malformed "Variable declaration mismatch."
  | emptySequence => malformed "Empty do block"
  | branchCount => malformed "If statement should have 3 arguments."
  | noTruth _ => none
  | quoteNothing => malformed "Quote received zero arguments."
  | unquoteNothing => malformed "Unquote received zero arguments."
  | functionNothing => malformed "Function declaration should get a list of arguments and a body!"
  | paramsNotList => malformed "Function arguments should be given in a list."
  | paramNotName => malformed "When declaring function, all arguments should be identifiers."
  | bodyMissing => malformed "Function declaration doesn't have a body!"
  | operandCount operation => malformed (operation ++ " only takes 2 arguments")
  | scope error => some error.failure
  | divisionByZero => runtime "Division by zero."
  | moduloByZero => runtime "Modulo by zero."
  | overflow operation => runtime ("Integer overflow in " ++ operation ++ ".")
  | tooDeep limit => runtime ("Maximum evaluation depth " ++ toString limit ++ " exceeded.")
where
  /-- A value of the wrong sort. -/
  mistyped (text : String) : Option Failure := some { kind := .mistyped, text }
  /-- A form of the wrong shape. -/
  malformed (text : String) : Option Failure := some { kind := .malformed, text }
  /-- Any other failure of an evaluation. -/
  runtime (text : String) : Option Failure := some { kind := .runtime, text }

end EvalError

end FexprLisp
