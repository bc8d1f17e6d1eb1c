import FexprLisp.Failure
import FexprLisp.Scope.Frame

/-!
# Scopes

A stack of frames. The base frame is the outermost one; a frame is pushed when a scope is entered
and popped when it is left. Names are looked up from the innermost frame outwards.

## Main definitions

- `Scopes` — the frames, innermost first
- `Scopes.lookup?`, `Scopes.owner?` — what a name is bound to, and in which frame
- `Scopes.enter`, `Scopes.leave` — push and pop a frame
- `Scopes.bind`, `Scopes.install`, `Scopes.assign` — bind a name in the innermost frame, in the
  base frame, and in the frame that binds it already
- `ScopeError` — why an operation is impossible

## Design notes

The base frame cannot be popped. Only `Scopes.bare` has no frame at all: it is what is left once
every frame has been dropped at once, and most operations refuse it.
-/

namespace FexprLisp

/-- Why an operation on scopes is impossible. -/
inductive ScopeError where
  /-- There is no frame to work on, or only the base frame to pop. -/
  | underflow
  /-- No frame binds the name. -/
  | unbound (name : String)
deriving DecidableEq, Repr

/-- What a user is told. -/
def ScopeError.failure : ScopeError → Failure
  | underflow => .underflow
  | unbound name => .missing name

/-- A stack of frames, innermost first. -/
structure Scopes (α : Type) where
  frames : List (Frame α)
deriving DecidableEq, Repr, Inhabited

namespace Scopes

variable {α : Type}

/-- An empty base frame and nothing else. -/
def initial : Scopes α := ⟨[.empty]⟩

/-- No frame at all. -/
def bare : Scopes α := ⟨[]⟩

/-- How many frames there are. -/
def depth (scopes : Scopes α) : Nat :=
  scopes.frames.length

/-- What the innermost frame that binds a name binds it to. -/
def lookupIn (name : String) : List (Frame α) → Option α
  | [] => none
  | frame :: outer =>
    match frame.get? name with
    | some value => some value
    | none => lookupIn name outer

/-- What a name is bound to. -/
def lookup? (scopes : Scopes α) (name : String) : Option α :=
  lookupIn name scopes.frames

/-- How many frames stand outside the innermost one that binds a name. -/
def ownerIn (name : String) : List (Frame α) → Option Nat
  | [] => none
  | frame :: outer => if frame.binds name then some outer.length else ownerIn name outer

/-- The frame that binds a name, counted from the base frame, which is 0. -/
def owner? (scopes : Scopes α) (name : String) : Option Nat :=
  ownerIn name scopes.frames

/-- Binds a name anew in the innermost frame that binds it. -/
def assignIn (name : String) (value : α) : List (Frame α) → Option (List (Frame α))
  | [] => none
  | frame :: outer =>
    if frame.binds name then some (frame.bind name value :: outer)
    else (assignIn name value outer).map (frame :: ·)

/-- Binds a name anew in the frame that binds it. -/
def assign (scopes : Scopes α) (name : String) (value : α) : Except ScopeError (Scopes α) :=
  match assignIn name value scopes.frames with
  | some frames => .ok ⟨frames⟩
  | none => .error (.unbound name)

/-- Pushes an empty frame. -/
def enter (scopes : Scopes α) : Scopes α :=
  ⟨.empty :: scopes.frames⟩

/-- Pops the innermost frame, which must not be the base frame. -/
def leave (scopes : Scopes α) : Except ScopeError (Scopes α) :=
  match scopes.frames with
  | _ :: outer :: frames => .ok ⟨outer :: frames⟩
  | _ => .error .underflow

/-- The innermost frame. -/
def innermost (scopes : Scopes α) : Except ScopeError (Frame α) :=
  match scopes.frames with
  | frame :: _ => .ok frame
  | [] => .error .underflow

/-- Binds a name in the innermost frame. -/
def bind (scopes : Scopes α) (name : String) (value : α) : Except ScopeError (Scopes α) :=
  match scopes.frames with
  | frame :: outer => .ok ⟨frame.bind name value :: outer⟩
  | [] => .error .underflow

/-- Binds a name in the outermost frame. -/
def installIn (name : String) (value : α) : List (Frame α) → List (Frame α)
  | [] => []
  | [base] => [base.bind name value]
  | frame :: outer => frame :: installIn name value outer

/-- Binds a name in the base frame. -/
def install (scopes : Scopes α) (name : String) (value : α) : Except ScopeError (Scopes α) :=
  match scopes.frames with
  | [] => .error .underflow
  | frames => .ok ⟨installIn name value frames⟩

/-- The frame with the given number, counted from the base frame, which is 0. -/
def frame? (scopes : Scopes α) (index : Nat) : Option (Frame α) :=
  scopes.frames.reverse[index]?

/-- Entering a scope adds one frame. -/
@[simp]
theorem depth_enter (scopes : Scopes α) : scopes.enter.depth = scopes.depth + 1 := rfl

/-- Leaving a scope that was just entered undoes it. -/
@[simp]
theorem leave_enter {scopes : Scopes α} (h : scopes.frames ≠ []) :
    scopes.enter.leave = .ok scopes := by
  obtain ⟨frames⟩ := scopes
  cases frames with
  | nil => exact absurd rfl h
  | cons frame frames => rfl

/-- A scope can be left exactly when the base frame remains. -/
theorem leave_eq_error_iff {scopes : Scopes α} :
    scopes.leave = .error .underflow ↔ scopes.depth ≤ 1 := by
  obtain ⟨frames⟩ := scopes
  match frames with
  | [] => simp [leave, depth]
  | [_] => simp [leave, depth]
  | _ :: _ :: _ => simp [leave, depth]

/-- Binding a name in the innermost frame makes it visible. -/
theorem lookup?_bind_self {scopes scopes' : Scopes α} {name : String} {value : α}
    (h : scopes.bind name value = .ok scopes') : scopes'.lookup? name = some value := by
  obtain ⟨frames⟩ := scopes
  cases frames with
  | nil => simp [bind] at h
  | cons frame frames =>
    simp only [bind, Except.ok.injEq] at h
    subst h
    simp [lookup?, lookupIn]

/-- Binding a name in the innermost frame changes what no other name is bound to. -/
theorem lookup?_bind_of_ne {scopes scopes' : Scopes α} {name other : String} {value : α}
    (h : scopes.bind name value = .ok scopes') (hne : other ≠ name) :
    scopes'.lookup? other = scopes.lookup? other := by
  obtain ⟨frames⟩ := scopes
  cases frames with
  | nil => simp [bind] at h
  | cons frame frames =>
    simp only [bind, Except.ok.injEq] at h
    subst h
    simp [lookup?, lookupIn, Frame.get?_bind_of_ne _ hne]

end Scopes

end FexprLisp
