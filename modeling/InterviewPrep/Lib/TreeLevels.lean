import Mathlib.Data.Tree.Basic

/-!
# The levels of a binary tree

The nodes of a binary tree at a depth, from left to right: the children of those one
level above (`nodesAt_succ`). There are nodes exactly at the depths below the height
(`nodesAt_eq_nil_iff`).
-/

namespace InterviewPrep

namespace TreeLevels

variable {α : Type*}

/-- A node with its subtrees. -/
structure Node (α : Type*) where
  value : α
  left : BinaryTree α
  right : BinaryTree α

/-- The root, unless the tree is empty. -/
def root? : BinaryTree α → Option (Node α)
  | .nil => none
  | .node value left right => some ⟨value, left, right⟩

/-- The nodes at a depth, from left to right. -/
def nodesAt : ℕ → BinaryTree α → List (Node α)
  | _, .nil => []
  | 0, .node value left right => [⟨value, left, right⟩]
  | depth + 1, .node _ left right => nodesAt depth left ++ nodesAt depth right

def Node.children (node : Node α) : List (Node α) :=
  (root? node.left).toList ++ (root? node.right).toList

@[simp] theorem nodesAt_nil (depth : ℕ) : nodesAt depth (.nil : BinaryTree α) = [] := by
  cases depth <;> rfl

theorem nodesAt_zero (t : BinaryTree α) : nodesAt 0 t = (root? t).toList := by
  cases t <;> rfl

/-- The nodes of a level are the children of the level above. -/
theorem nodesAt_succ (depth : ℕ) (t : BinaryTree α) :
    nodesAt (depth + 1) t = (nodesAt depth t).flatMap Node.children := by
  induction t generalizing depth with
  | nil => simp
  | node value left right ihl ihr =>
    cases depth with
    | zero =>
      change nodesAt 0 left ++ nodesAt 0 right = [⟨value, left, right⟩].flatMap Node.children
      rw [nodesAt_zero, nodesAt_zero, List.flatMap_singleton, Node.children]
    | succ depth => rw [nodesAt, ihl depth, ihr depth, nodesAt, List.flatMap_append]

/-- There are nodes at the depths below the height. -/
theorem nodesAt_eq_nil_iff {depth : ℕ} {t : BinaryTree α} :
    nodesAt depth t = [] ↔ t.height ≤ depth := by
  induction t generalizing depth with
  | nil => simp
  | node value left right ihl ihr =>
    cases depth with
    | zero => simp [nodesAt]
    | succ depth =>
      rw [nodesAt, List.append_eq_nil_iff, ihl, ihr, BinaryTree.height]
      omega

end TreeLevels

end InterviewPrep
