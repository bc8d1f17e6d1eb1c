import FexprLisp.Eval.Journal

/-!
# State of an evaluation

Evaluation reads and writes scopes, counts the evaluations that are open, prints lines and keeps a
journal. It may fail at any point, and then the state is the one reached at that point.

## Main definitions

- `State` — scopes, the count of open evaluations and its limit, printed lines and journal
- `EvalM` — computations on a state that may fail
- `EvalM.lookup`, `EvalM.bind`, `EvalM.register`, `EvalM.print`, `EvalM.note` — single actions
- `EvalM.inScope` — runs a computation in a scope of its own
- `EvalM.counted` — runs a computation as one more open evaluation

## Design notes

A scope opened by `EvalM.inScope` is left on every path. If it cannot be left, because the stack
had no frame before it, that failure takes the place of the computation's own outcome. An evaluation
opened by `EvalM.counted` is closed on every path too, also when it was refused.
-/

namespace FexprLisp

/-- What evaluation reads and writes. -/
structure State where
  scopes : Scopes Value
  /-- How many evaluations are open. -/
  depth : Int := 0
  /-- How many evaluations may be open at once. -/
  limit : Int
  /-- The lines printed so far. -/
  output : Array String := #[]
  /-- What was recorded so far. -/
  journal : Array Entry := #[]
deriving DecidableEq, Repr, Inhabited

/-- For how many more nested evaluations there is room. -/
def State.room (s : State) : Nat :=
  (s.limit - s.depth).toNat

/-- Computations on a state that may fail. -/
abbrev EvalM := EStateM EvalError State

namespace EvalM

/-- The value of a variable. -/
def lookup (name : String) : EvalM Value := fun s =>
  match s.scopes.lookup? name with
  | some value => .ok value s
  | none => .error (.scope (.unbound name)) s

/-- Changes the scopes, if that is possible. -/
def onScopes (change : Scopes Value → Except ScopeError (Scopes Value)) : EvalM Unit := fun s =>
  match change s.scopes with
  | .ok scopes => .ok () { s with scopes }
  | .error error => .error (.scope error) s

/-- Binds a name in the innermost frame. -/
def bind (name : String) (value : Value) : EvalM Unit :=
  onScopes (·.bind name value)

/-- Adds an entry to the journal. -/
def note (entry : Entry) : EvalM Unit := fun s =>
  .ok () { s with journal := s.journal.push entry }

/-- Prints a line. -/
def print (line : String) : EvalM Unit := fun s =>
  .ok () { s with output := s.output.push line }

/-- Binds a native operation in the base frame. -/
def register (name : String) (operation : Primitive) : EvalM Unit := do
  onScopes (·.install name (.intrinsic name operation))
  note (.registered name)

/-- Pushes a frame. -/
def enter : EvalM Unit := fun s =>
  let scopes := s.scopes.enter
  note (.entered scopes.depth) { s with scopes }

/-- Pops a frame. -/
def leave : EvalM Unit := fun s =>
  match s.scopes.leave with
  | .ok scopes => note (.left scopes.depth) { s with scopes }
  | .error error => .error (.scope error) s

/-- Runs a computation in a scope of its own, which is left on every path. -/
def inScope {α : Type} (body : EvalM α) : EvalM α := do
  enter
  fun s =>
    match body s with
    | .ok a s => (do leave; pure a : EvalM α) s
    | .error error s => (do leave; throw error : EvalM α) s

/-- Refuses an evaluation for which there is no room. -/
def refuse {α : Type} : EvalM α := fun s =>
  .error (.tooDeep s.limit) s

/-- Runs a computation as one more open evaluation. Above the limit it is refused, and it is closed
on every path. -/
def counted {α : Type} (body : EvalM α) : EvalM α := fun s =>
  let opened := { s with depth := s.depth + 1 }
  match (if opened.limit < opened.depth then refuse else body) opened with
  | .ok a s => .ok a { s with depth := s.depth - 1 }
  | .error error s => .error error { s with depth := s.depth - 1 }

/-- Binds names to values in the innermost frame, in order. -/
def bindEach : List String → List Value → EvalM Unit
  | name :: names, value :: values => do
    bind name value
    bindEach names values
  | _, _ => pure ()

end EvalM

end FexprLisp
