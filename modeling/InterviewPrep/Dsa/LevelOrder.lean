import InterviewPrep.Lib.TreeLevels

/-!
# Level order

`levelOrder` of `dsa/binary_tree_level_order/answer.py` and `answer.ts`: a traversal in
depth-first order that appends the value of each node to the list of its level, and
adds a list when a level is new. A traversal appends the levels of its subtree to the
lists from its own level on (`Appends`), so that the whole tree gives its levels
(`levelOrder_eq_levels`).

The recursion of `traverse` has no depth limit here.
-/

namespace InterviewPrep.LevelOrder

open TreeLevels

variable {α : Type}

/-! ## The program -/

inductive Error where
  | indexError
  | typeError
deriving DecidableEq

/-- Append a value to `result[level]`, with the error of a missing list. -/
def appendValue (missing : Error) (result : List (List α)) (level : ℕ) (value : α) :
    Except Error (List (List α)) :=
  match result[level]? with
  | none => .error missing
  | some values => .ok (result.set level (values ++ [value]))

/-- `traverse`. The languages differ in the test for a new level and in the error. -/
def traverse (isNew : ℕ → ℕ → Bool) (missing : Error) :
    BinaryTree α → ℕ → List (List α) → Except Error (List (List α))
  | .nil, _, result => .ok result
  | .node value left right, level, result => do
    let result := if isNew result.length level then result ++ [[]] else result
    let result ← appendValue missing result level value
    let result ← traverse isNew missing left (level + 1) result
    traverse isNew missing right (level + 1) result

namespace Python

/-- `len(result) == level` -/
def isNew (length level : ℕ) : Bool := length == level

def levelOrder : BinaryTree α → Except Error (List (List α))
  | .nil => .ok []
  | .node value left right => traverse isNew .indexError (.node value left right) 0 []

end Python

namespace TypeScript

/-- `result.length <= level` -/
def isNew (length level : ℕ) : Bool := length ≤ level

def levelOrder (root : BinaryTree α) : Except Error (List (List α)) :=
  traverse isNew .typeError root 0 []

end TypeScript

/-! ## Levels -/

/-- The values at a depth, from left to right. -/
def valuesAt (depth : ℕ) (t : BinaryTree α) : List α := (nodesAt depth t).map Node.value

/-- The values of all levels, from top to bottom. -/
def levels (t : BinaryTree α) : List (List α) :=
  (List.range t.height).map fun depth => valuesAt depth t

theorem valuesAt_node_succ (depth : ℕ) (value : α) (left right : BinaryTree α) :
    valuesAt (depth + 1) (.node value left right) = valuesAt depth left ++ valuesAt depth right := by
  rw [valuesAt, nodesAt, List.map_append]
  rfl

/-- No level is empty. -/
theorem ne_nil_of_mem_levels {t : BinaryTree α} {values : List α} (h : values ∈ levels t) :
    values ≠ [] := by
  rcases List.mem_map.mp h with ⟨depth, hdepth, rfl⟩
  intro hnil
  have hle := nodesAt_eq_nil_iff.mp (List.map_eq_nil_iff.mp hnil)
  exact absurd (List.mem_range.mp hdepth) (Nat.not_lt.mpr hle)

/-! ## The traversal -/

/-- The list of a level, which is empty where there is none yet. -/
def entry (result : List (List α)) (level : ℕ) : List α := result[level]?.getD []

/-- `new` is `old` with the levels of a tree appended from `level` on. -/
structure Appends (t : BinaryTree α) (level : ℕ) (old new : List (List α)) : Prop where
  length : new.length = max old.length (level + t.height)
  above : ∀ k < level, entry new k = entry old k
  below : ∀ k, entry new (level + k) = entry old (level + k) ++ valuesAt k t

theorem appends_nil {level : ℕ} {result : List (List α)} (h : level ≤ result.length) :
    Appends .nil level result result where
  length := by
    rw [BinaryTree.height]
    omega
  above := fun _ _ => rfl
  below := by
    intro k
    simp [valuesAt]

/-- `new` is `old` with a value appended to the list of a level, which may be new. -/
structure AppendsValue (value : α) (level : ℕ) (old new : List (List α)) : Prop where
  length : new.length = max old.length (level + 1)
  here : entry new level = entry old level ++ [value]
  elsewhere : ∀ k, k ≠ level → entry new k = entry old k

/-- The list of a new level changes no entry. -/
theorem entry_concat_nil (result : List (List α)) (k : ℕ) :
    entry (result ++ [[]]) k = entry result k := by
  unfold entry
  rcases Nat.lt_or_ge k result.length with hlt | hge
  · rw [List.getElem?_append_left hlt]
  · rw [List.getElem?_append_right hge, List.getElem?_eq_none hge]
    cases k - result.length with
    | zero => rfl
    | succ j => rfl

theorem entry_set (result : List (List α)) {level : ℕ} (h : level < result.length)
    (values : List α) (k : ℕ) :
    entry (result.set level values) k = if k = level then values else entry result k := by
  unfold entry
  split
  · rename_i heq
    rw [heq, List.getElem?_set_self h]
    rfl
  · rename_i hne
    rw [List.getElem?_set_ne (Ne.symm hne)]

theorem appendValue_of_lt {result : List (List α)} {level : ℕ} (h : level < result.length)
    (missing : Error) (value : α) :
    appendValue missing result level value =
      .ok (result.set level (entry result level ++ [value])) := by
  rw [appendValue, entry, List.getElem?_eq_getElem h]
  rfl

/-- A level is new when all levels above have lists and it has none. -/
def NewLevel (isNew : ℕ → ℕ → Bool) : Prop :=
  ∀ length level, level ≤ length → (isNew length level = true ↔ length = level)

/-- A node appends its value to its level. -/
theorem appendValue_appends {isNew : ℕ → ℕ → Bool} (hnew : NewLevel isNew) (missing : Error)
    {result : List (List α)} {level : ℕ} (h : level ≤ result.length) (value : α) :
    ∃ new, appendValue missing (if isNew result.length level then result ++ [[]] else result) level
      value = .ok new ∧ AppendsValue value level result new := by
  have hgrown : level < (if isNew result.length level then result ++ [[]] else result).length ∧
      (if isNew result.length level then result ++ [[]] else result).length =
        max result.length (level + 1) ∧
      ∀ k, entry (if isNew result.length level then result ++ [[]] else result) k =
        entry result k := by
    split
    · rename_i htrue
      have hlength := (hnew _ _ h).mp htrue
      rw [List.length_append, List.length_singleton]
      exact ⟨by omega, by omega, entry_concat_nil result⟩
    · rename_i hfalse
      have hlength := mt (hnew _ _ h).mpr hfalse
      exact ⟨by omega, by omega, fun _ => rfl⟩
  -- from here on it does not matter whether the level was new
  generalize (if isNew result.length level then result ++ [[]] else result) = grown at hgrown
  rcases hgrown with ⟨hlt, hlength, hentry⟩
  refine ⟨_, appendValue_of_lt hlt missing value, ?_, ?_, ?_⟩
  · rw [List.length_set, hlength]
  · rw [entry_set grown hlt, if_pos rfl, hentry]
  · intro k hk
    rw [entry_set grown hlt, if_neg hk, hentry]

/-- A node, then its subtrees on the next level. -/
theorem Appends.node {value : α} {left right : BinaryTree α} {level : ℕ}
    {old marked mid new : List (List α)} (hvalue : AppendsValue value level old marked)
    (hleft : Appends left (level + 1) marked mid) (hright : Appends right (level + 1) mid new) :
    Appends (.node value left right) level old new where
  length := by
    rw [hright.length, hleft.length, hvalue.length, BinaryTree.height]
    omega
  above := by
    intro k hk
    rw [hright.above k (by omega), hleft.above k (by omega), hvalue.elsewhere k (by omega)]
  below := by
    intro k
    cases k with
    | zero =>
      rw [Nat.add_zero, hright.above level (by omega), hleft.above level (by omega), hvalue.here]
      rfl
    | succ k =>
      have hlevel : level + (k + 1) = level + 1 + k := by omega
      rw [hlevel, hright.below, hleft.below, hvalue.elsewhere _ (by omega), valuesAt_node_succ,
        List.append_assoc]

/-- A traversal whose level is not too deep appends the levels of its tree. -/
theorem traverse_appends {isNew : ℕ → ℕ → Bool} (hnew : NewLevel isNew) (missing : Error)
    (t : BinaryTree α) {level : ℕ} {result : List (List α)} (h : level ≤ result.length) :
    ∃ new, traverse isNew missing t level result = .ok new ∧ Appends t level result new := by
  induction t generalizing level result with
  | nil => exact ⟨result, rfl, appends_nil h⟩
  | node value left right ihl ihr =>
    -- every step keeps the level of the node in the lists, so the next one is not too deep
    rcases appendValue_appends hnew missing h value with ⟨marked, hmarked, hvalue⟩
    have hdeep : level + 1 ≤ marked.length := by
      rw [hvalue.length]
      omega
    rcases ihl hdeep with ⟨mid, hmid, hleft⟩
    have hdeep' : level + 1 ≤ mid.length := by
      rw [hleft.length]
      omega
    rcases ihr hdeep' with ⟨new, hlast, hright⟩
    refine ⟨new, ?_, Appends.node hvalue hleft hright⟩
    simp only [traverse, hmarked, bind, Except.bind, hmid, hlast]

/-- Appended to no lists, the levels are the result. -/
theorem Appends.eq_levels {t : BinaryTree α} {result : List (List α)} (h : Appends t 0 [] result) :
    result = levels t := by
  have hlength : result.length = t.height := by
    rw [h.length, List.length_nil]
    omega
  apply List.ext_getElem
  · rw [hlength, levels, List.length_map, List.length_range]
  · intro k hk hk'
    have hentry := h.below k
    rw [Nat.zero_add, entry, List.getElem?_eq_getElem hk] at hentry
    simpa [levels, entry] using hentry

theorem traverse_eq_levels {isNew : ℕ → ℕ → Bool} (hnew : NewLevel isNew) (missing : Error)
    (t : BinaryTree α) : traverse isNew missing t 0 [] = .ok (levels t) := by
  rcases traverse_appends hnew missing t (Nat.zero_le _) with ⟨result, hrun, happends⟩
  rw [hrun, happends.eq_levels]

theorem Python.newLevel : NewLevel Python.isNew := fun _ _ _ => beq_iff_eq

theorem TypeScript.newLevel : NewLevel TypeScript.isNew := by
  intro length level h
  rw [TypeScript.isNew, decide_eq_true_iff]
  omega

/-- Both versions return the values level by level, without an access to a list that is
missing: one list for each level of the tree, and none of them empty. -/
theorem levelOrder_eq_levels (t : BinaryTree α) :
    Python.levelOrder t = .ok (levels t) ∧ TypeScript.levelOrder t = .ok (levels t) ∧
      (∀ k, (levels t)[k]? = if k < t.height then some (valuesAt k t) else none) ∧
      [] ∉ levels t := by
  refine ⟨?_, traverse_eq_levels TypeScript.newLevel .typeError t, ?_, fun h => ?_⟩
  · cases t with
    | nil => rfl
    | node value left right => exact traverse_eq_levels Python.newLevel .indexError _
  · intro k
    rw [levels, List.getElem?_map]
    split
    · rename_i hk
      rw [List.getElem?_range hk]
      rfl
    · rename_i hk
      rw [List.getElem?_eq_none (by rw [List.length_range]; omega)]
      rfl
  · exact ne_nil_of_mem_levels h rfl

example : Python.levelOrder
    (.node 3 (.node 9 .nil .nil) (.node 20 (.node 15 .nil .nil) (.node 7 .nil .nil))) =
      .ok [[3], [9, 20], [15, 7]] := rfl

end InterviewPrep.LevelOrder
