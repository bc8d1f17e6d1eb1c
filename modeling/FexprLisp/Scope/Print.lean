import FexprLisp.Scope.Stack
import FexprLisp.Value.Print

/-!
# Printed scopes

The debug form of a scope stack shows its frames from the base frame inwards, each with its
bindings in order.

## Main definitions

- `Frame.inspect` — one frame
- `Scopes.inspect` — a stack of frames
-/

namespace FexprLisp

/-- The debug form of a frame. -/
def Frame.inspect (frame : Frame Value) : String :=
  let shown := frame.entries.map fun (name, value) => name ++ ": " ++ value.inspect
  "\x7b" ++ ", ".intercalate shown ++ "\x7d"

/-- The debug form of a stack of frames, the base frame first. -/
def Scopes.inspect (scopes : Scopes Value) : String :=
  "<NSStack " ++ " -> ".intercalate (scopes.frames.reverse.map Frame.inspect) ++ ">"

end FexprLisp
