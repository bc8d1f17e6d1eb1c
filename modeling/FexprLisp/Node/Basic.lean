/-!
# Syntax trees

A node is a piece of code: what the reader makes of a text, what the evaluator walks over, and
what a quotation captures. Nodes are plain data and compare structurally.

## Main definitions

- `Node` — the syntax tree
- `Node.same` — structural comparison, which decides equality
- `Node.isComplete` — no hole stands anywhere in the tree

## Main statements

- `Node.same_iff` — `same` decides equality
-/

namespace FexprLisp

/-- A piece of code. -/
inductive Node where
  /-- A name, to be looked up when evaluated. -/
  | ident (name : String)
  /-- An integer literal. The reader makes only those from 0 to 2³¹ - 1. -/
  | int (value : Int)
  /-- A string literal, by the text that it stands for. -/
  | str (text : String)
  /-- A quotation, which captures a node without evaluating it. -/
  | quote (node : Node)
  /-- An application: a head followed by its raw arguments. The reader makes no empty one. -/
  | list (items : List Node)
  /-- A place where no code stands. The reader never makes one and it cannot be evaluated. -/
  | hole
deriving Inhabited, Repr

namespace Node

mutual

/-- Structural comparison of two nodes. -/
def same : Node → Node → Bool
  | .ident a, .ident b => a == b
  | .int a, .int b => a == b
  | .str a, .str b => a == b
  | .quote a, .quote b => same a b
  | .list as, .list bs => sameAll as bs
  | .hole, .hole => true
  | _, _ => false

/-- Structural comparison of two rows of nodes. -/
def sameAll : List Node → List Node → Bool
  | [], [] => true
  | a :: as, b :: bs => same a b && sameAll as bs
  | _, _ => false

end

mutual

/-- Nodes that compare as the same are equal. -/
theorem eq_of_same : ∀ {a b : Node}, same a b = true → a = b
  | .ident _, b, h => by cases b <;> simp_all [same]
  | .int _, b, h => by cases b <;> simp_all [same]
  | .str _, b, h => by cases b <;> simp_all [same]
  | .quote a, b, h => by
    cases b with
    | quote b => exact congrArg _ (eq_of_same (by simpa [same] using h))
    | _ => simp [same] at h
  | .list as, b, h => by
    cases b with
    | list bs => exact congrArg _ (eq_of_sameAll (by simpa [same] using h))
    | _ => simp [same] at h
  | .hole, b, h => by cases b <;> simp_all [same]

/-- Rows of nodes that compare as the same are equal. -/
theorem eq_of_sameAll : ∀ {as bs : List Node}, sameAll as bs = true → as = bs
  | [], [], _ => rfl
  | [], _ :: _, h => by simp [sameAll] at h
  | _ :: _, [], h => by simp [sameAll] at h
  | a :: as, b :: bs, h => by
    simp only [sameAll, Bool.and_eq_true] at h
    rw [eq_of_same h.1, eq_of_sameAll h.2]

end

mutual

/-- A node compares as the same as itself. -/
theorem same_refl : ∀ a : Node, same a a = true
  | .ident _ => by simp [same]
  | .int _ => by simp [same]
  | .str _ => by simp [same]
  | .quote a => by simpa [same] using same_refl a
  | .list as => by simpa [same] using sameAll_refl as
  | .hole => by simp [same]

/-- A row of nodes compares as the same as itself. -/
theorem sameAll_refl : ∀ as : List Node, sameAll as as = true
  | [] => by simp [sameAll]
  | a :: as => by simp [sameAll, same_refl a, sameAll_refl as]

end

/-- Two nodes compare as the same exactly when they are equal. -/
theorem same_iff {a b : Node} : same a b = true ↔ a = b :=
  ⟨eq_of_same, fun h => h ▸ same_refl a⟩

instance : DecidableEq Node := fun a b => decidable_of_iff (same a b = true) same_iff

mutual

/-- No hole stands anywhere in the tree. -/
def isComplete : Node → Bool
  | .quote node => isComplete node
  | .list items => allComplete items
  | .hole => false
  | _ => true

/-- No hole stands anywhere in a row of trees. -/
def allComplete : List Node → Bool
  | [] => true
  | node :: nodes => isComplete node && allComplete nodes

end

/-- A row has no hole when none of its nodes has one. -/
theorem allComplete_eq_all (nodes : List Node) : allComplete nodes = nodes.all isComplete := by
  induction nodes with
  | nil => simp [allComplete]
  | cons node nodes ih => simp [allComplete, ih]

end Node

end FexprLisp
