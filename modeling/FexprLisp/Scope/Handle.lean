import FexprLisp.Scope.Stack

/-!
# Handles on frames

A handle stays with one frame of a stack while scopes are entered and left around it. While the
frame is on the stack the handle shows its present contents; once the frame is popped the handle
keeps what it held last. A frame pushed later at the same height is another frame.

## Main definitions

- `Handle` — a frame on the stack, or what a popped one held
- `Handle.contents` — what the handle shows
- `Handle.follow` — the handle after one operation on the stack
-/

namespace FexprLisp

/-- A handle on one frame. -/
inductive Handle (α : Type) where
  /-- The frame with this number on the stack, counted from the base frame. -/
  | live (index : Nat)
  /-- A frame that has left the stack, with what it held last. -/
  | gone (frame : Frame α)
deriving DecidableEq, Repr

namespace Handle

variable {α : Type}

/-- A handle on the innermost frame. -/
def ofInnermost (scopes : Scopes α) : Handle α :=
  .live (scopes.depth - 1)

/-- What the frame holds now, or held last. -/
def contents (scopes : Scopes α) : Handle α → Frame α
  | live index => (scopes.frame? index).getD .empty
  | gone frame => frame

/-- The handle after an operation that either pops frames or pushes them, and not both. -/
def follow (before after : Scopes α) : Handle α → Handle α
  | live index => if index < after.depth then live index else gone ((live index).contents before)
  | gone frame => gone frame

end Handle

end FexprLisp
