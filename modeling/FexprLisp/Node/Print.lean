import FexprLisp.Node.Basic
import FexprLisp.Text.Escape

/-!
# Printed nodes

Two printed forms of a node: a debug form, which names every constructor, and a source form,
which a user would type in.

## Main definitions

- `Node.inspect` — the debug form
- `Node.source` — the source form
- `Node.source?` — the source form of a node without holes

## Main statements

- `Node.inspectEach_eq_map`, `Node.sourceEach_eq_map` — a row is printed item by item
-/

namespace FexprLisp.Node

mutual

/-- The debug form of a node. -/
def inspect : Node → String
  | .ident name => "Identifier(" ++ Text.quoted name ++ ")"
  | .int value => "IntegerLiteral(" ++ toString value ++ ")"
  | .str text => "StringLiteral(" ++ Text.quoted text ++ ")"
  | .quote node => "Quote(" ++ inspect node ++ ")"
  | .list items => "List([" ++ ", ".intercalate (inspectEach items) ++ "])"
  | .hole => "None"

/-- The debug forms of a row of nodes. -/
def inspectEach : List Node → List String
  | [] => []
  | node :: nodes => inspect node :: inspectEach nodes

end

mutual

/-- The source form of a node. -/
def source : Node → String
  | .ident name => name
  | .int value => toString value
  | .str text => Text.quoted text
  | .quote node => "'" ++ source node
  | .list items => "(" ++ " ".intercalate (sourceEach items) ++ ")"
  | .hole => "None"

/-- The source forms of a row of nodes. -/
def sourceEach : List Node → List String
  | [] => []
  | node :: nodes => source node :: sourceEach nodes

end

/-- The source form of a node; a node with a hole has none. -/
def source? (node : Node) : Option String :=
  if node.isComplete then some node.source else none

/-- What is said when the source form of a node with a hole is asked for. -/
def holeMessage : String :=
  "Not a syntax node: " ++ Node.hole.inspect

/-- Debug forms are made node by node. -/
theorem inspectEach_eq_map (nodes : List Node) : inspectEach nodes = nodes.map inspect := by
  induction nodes with
  | nil => rfl
  | cons node nodes ih => simp [inspectEach, ih]

/-- Source forms are made node by node. -/
theorem sourceEach_eq_map (nodes : List Node) : sourceEach nodes = nodes.map source := by
  induction nodes with
  | nil => rfl
  | cons node nodes ih => simp [sourceEach, ih]

instance : Hashable Node := ⟨fun node => hash node.inspect⟩

end FexprLisp.Node
