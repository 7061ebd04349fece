import Mathlib.Order.Bounds.Defs
import InterviewPrep.Lib.TreeLevels
import InterviewPrep.Lib.WhileLoop

/-!
# Maximum depth

`dsa/binary_tree_maximum_depth/answer.py` and `answer.ts` compute the depth of a binary
tree twice: by recursion (`maximumDepth`) and with a queue that is emptied level by
level (`maximumQueueAlt` and `maximumDepthAlt`). At the start of a round the queue has
the nodes of one level (`AtLevel`), so both agree, and they are the length of a
longest path from the root to a leaf (`depths_agree`).
-/

namespace InterviewPrep.MaximumDepth

open TreeLevels

variable {α : Type}

/-! ## The program -/

/-- `maximumDepth`, in both languages. -/
def maximumDepth : BinaryTree α → ℕ
  | .nil => 0
  | .node _ left right => max (maximumDepth left) (maximumDepth right) + 1

inductive Error where
  | indexError
  | typeError
deriving DecidableEq

/-- Append a child that is there. -/
def push (queue : List (Node α)) (child : BinaryTree α) : List (Node α) :=
  match root? child with
  | none => queue
  | some node => queue ++ [node]

/-- The inner loop: take so many nodes from the queue, with the error of an empty one. -/
def takeNodes (empty : Error) : ℕ → List (Node α) → Except Error (List (Node α))
  | 0, queue => .ok queue
  | _ + 1, [] => .error empty
  | n + 1, node :: queue => takeNodes empty n (push (push queue node.left) node.right)

/-- The variables of the outer loop. -/
structure Round (α : Type) where
  queue : List (Node α)
  depth : ℕ

/-- The outer loop. -/
def rounds (empty : Error) : WhileLoop (Round α) Error where
  guard s := !s.queue.isEmpty
  body s := do
    let queue ← takeNodes empty s.queue.length s.queue
    return ⟨queue, s.depth + 1⟩

/-- The function with the queue, or nothing where the bound is too small for its loop. -/
def queueDepth (empty : Error) (root : BinaryTree α) (bound : ℕ) : Option (Except Error ℕ) :=
  match root? root with
  | none => some (.ok 0)
  | some node => ((rounds empty).run bound ⟨[node], 0⟩).map fun r => r.map Round.depth

/-- The Python version. -/
def maximumQueueAlt (root : BinaryTree α) : ℕ → Option (Except Error ℕ) :=
  queueDepth .indexError root

/-- The TypeScript version. -/
def maximumDepthAlt (root : BinaryTree α) : ℕ → Option (Except Error ℕ) :=
  queueDepth .typeError root

/-! ## The queue -/

theorem push_eq (queue : List (Node α)) (child : BinaryTree α) :
    push queue child = queue ++ (root? child).toList := by
  unfold push
  cases root? child with
  | none => simp
  | some node => simp

/-- The inner loop replaces the nodes that it takes by their children. -/
theorem takeNodes_append (empty : Error) (level behind : List (Node α)) :
    takeNodes empty level.length (level ++ behind) = .ok (behind ++ level.flatMap Node.children) := by
  induction level generalizing behind with
  | nil => simp [takeNodes]
  | cons node level ih =>
    rw [List.length_cons, List.cons_append, takeNodes, push_eq, push_eq, List.append_assoc,
      List.append_assoc, ih, List.flatMap_cons]
    simp [Node.children]

/-- At the start of a round, the queue has the nodes of the level that is next. -/
structure AtLevel (t : BinaryTree α) (s : Round α) : Prop where
  queue : s.queue = nodesAt s.depth t
  depth : s.depth ≤ t.height

theorem AtLevel.round {empty : Error} {t : BinaryTree α} {s : Round α} (h : AtLevel t s)
    (hguard : (rounds empty).guard s = true) :
    ∃ s', (rounds empty).body s = .ok s' ∧ AtLevel t s' ∧
      t.height - s'.depth < t.height - s.depth := by
  have hnodes : nodesAt s.depth t ≠ [] := by
    intro hnil
    simp [rounds, h.queue, hnil] at hguard
  have hbelow : s.depth < t.height := by
    rw [ne_eq, nodesAt_eq_nil_iff] at hnodes
    omega
  -- the inner loop takes the whole queue, and leaves the children
  have htake := takeNodes_append empty s.queue []
  rw [List.append_nil, List.nil_append, h.queue, ← nodesAt_succ] at htake
  refine ⟨⟨nodesAt (s.depth + 1) t, s.depth + 1⟩, ?_, ⟨rfl, hbelow⟩, ?_⟩
  · simp [rounds, h.queue, htake, bind, Except.bind, pure, Except.pure]
  · show t.height - (s.depth + 1) < t.height - s.depth
    omega

/-- The loop ends, after as many rounds as the tree has levels. -/
theorem queueDepth_eq (empty : Error) (t : BinaryTree α) {bound : ℕ} (hbound : t.height < bound) :
    queueDepth empty t bound = some (.ok t.height) := by
  cases t with
  | nil => rfl
  | node value left right =>
    have hstart : AtLevel (.node value left right) ⟨[⟨value, left, right⟩], 0⟩ :=
      ⟨rfl, Nat.zero_le _⟩
    rcases WhileLoop.returns_of_variant (L := rounds empty) (fun s h hguard => h.round hguard)
      hstart (lt_of_le_of_lt (Nat.sub_le _ _) hbound) with ⟨s, hrun, hlevel, hdone⟩
    have hempty : nodesAt s.depth (.node value left right) = [] := by
      rw [← hlevel.queue]
      simpa [rounds] using hdone
    have hdepth := le_antisymm hlevel.depth (nodesAt_eq_nil_iff.mp hempty)
    simp only [queueDepth, root?, hrun, Option.map_some, Except.map, hdepth]

/-! ## Paths -/

/-- The values on a path from the root to a leaf. -/
inductive RootToLeaf : BinaryTree α → List α → Prop where
  | leaf (value : α) : RootToLeaf (.node value .nil .nil) [value]
  | left {value : α} {left right : BinaryTree α} {path : List α} (h : RootToLeaf left path) :
      RootToLeaf (.node value left right) (value :: path)
  | right {value : α} {left right : BinaryTree α} {path : List α} (h : RootToLeaf right path) :
      RootToLeaf (.node value left right) (value :: path)

theorem RootToLeaf.length_le {t : BinaryTree α} {path : List α} (h : RootToLeaf t path) :
    path.length ≤ maximumDepth t := by
  induction h with
  | leaf value => simp [maximumDepth]
  | left _ ih =>
    rw [List.length_cons, maximumDepth]
    omega
  | right _ ih =>
    rw [List.length_cons, maximumDepth]
    omega

theorem maximumDepth_eq_zero_iff {t : BinaryTree α} : maximumDepth t = 0 ↔ t = .nil := by
  cases t with
  | nil => simp [maximumDepth]
  | node value left right => simp [maximumDepth]

/-- Some path is as long as the tree is deep: it goes to a deeper child. -/
theorem exists_rootToLeaf {t : BinaryTree α} (ht : t ≠ .nil) :
    ∃ path, RootToLeaf t path ∧ path.length = maximumDepth t := by
  induction t with
  | nil => exact absurd rfl ht
  | node value left right ihl ihr =>
    rcases Nat.lt_or_ge (maximumDepth left) (maximumDepth right) with hlt | hge
    · have hright : right ≠ .nil := by
        rw [ne_eq, ← maximumDepth_eq_zero_iff]
        omega
      rcases ihr hright with ⟨path, hpath, hlength⟩
      refine ⟨value :: path, .right hpath, ?_⟩
      rw [List.length_cons, hlength, maximumDepth, max_eq_right (le_of_lt hlt)]
    · by_cases hleft : left = .nil
      · have hright : right = .nil := by
          rw [hleft] at hge
          exact maximumDepth_eq_zero_iff.mp (Nat.le_zero.mp hge)
        rw [hleft, hright]
        exact ⟨[value], .leaf value, rfl⟩
      · rcases ihl hleft with ⟨path, hpath, hlength⟩
        refine ⟨value :: path, .left hpath, ?_⟩
        rw [List.length_cons, hlength, maximumDepth, max_eq_left hge]

theorem maximumDepth_eq_height (t : BinaryTree α) : maximumDepth t = t.height := by
  induction t with
  | nil => rfl
  | node value left right ihl ihr => rw [maximumDepth, BinaryTree.height, ihl, ihr]

/-- The loops with the queue end and return what the recursion returns: 0 for the empty
tree, and otherwise the length of a longest path from the root to a leaf. -/
theorem depths_agree (t : BinaryTree α) :
    (∀ bound, maximumDepth t < bound →
      maximumQueueAlt t bound = some (.ok (maximumDepth t)) ∧
      maximumDepthAlt t bound = some (.ok (maximumDepth t))) ∧
    (t = .nil → maximumDepth t = 0) ∧
    (t ≠ .nil → IsGreatest {n | ∃ path, RootToLeaf t path ∧ path.length = n} (maximumDepth t)) := by
  refine ⟨?_, maximumDepth_eq_zero_iff.mpr, ?_⟩
  · intro bound hbound
    rw [maximumDepth_eq_height] at hbound ⊢
    exact ⟨queueDepth_eq .indexError t hbound, queueDepth_eq .typeError t hbound⟩
  · intro ht
    refine ⟨exists_rootToLeaf ht, ?_⟩
    rintro n ⟨path, hpath, rfl⟩
    exact hpath.length_le

/-- A root whose left child has a child, and whose right child has none. -/
def crooked : BinaryTree ℕ := .node 1 (.node 2 (.node 4 .nil .nil) .nil) (.node 3 .nil .nil)

theorem depths_agree_crooked :
    maximumQueueAlt crooked 4 = some (.ok 3) ∧ maximumDepthAlt crooked 4 = some (.ok 3) ∧
      IsGreatest {n | ∃ path, RootToLeaf crooked path ∧ path.length = n} 3 := by
  rcases depths_agree crooked with ⟨hqueue, -, hpaths⟩
  exact ⟨(hqueue 4 (by decide)).1, (hqueue 4 (by decide)).2, hpaths nofun⟩

end InterviewPrep.MaximumDepth
