import Mathlib.Data.Finset.Dedup
import Mathlib.Data.Finset.Insert
import Mathlib.Data.List.Perm.Basic

/-!
# Insertion-ordered sets

The sets of JavaScript (`Set`), which are iterated in the order of insertion: a
list without duplicates, to which adding a new element appends it. Python's sets
are filled in the same way but iterated in an order of their own, an
`IterationOrder` of the list.
-/

namespace InterviewPrep

/-- The elements, oldest first. -/
structure OrderedSet (α : Type*) where
  elems : List α
  nodup : elems.Nodup

namespace OrderedSet

variable {α : Type*}

/-- `new Set()` / `set()` -/
def empty : OrderedSet α := ⟨[], List.nodup_nil⟩

@[simp] theorem elems_empty : (empty : OrderedSet α).elems = [] := rfl

variable [DecidableEq α]

/-- `s.add(a)` -/
def add (s : OrderedSet α) (a : α) : OrderedSet α :=
  if h : a ∈ s.elems then s
  else
    { elems := s.elems ++ [a]
      nodup := by
        rw [List.nodup_append]
        refine ⟨s.nodup, List.nodup_singleton a, ?_⟩
        intro b hb c hc hbc
        rw [List.mem_singleton] at hc
        exact h (hc ▸ hbc ▸ hb) }

@[simp] theorem add_of_mem {s : OrderedSet α} {a : α} (h : a ∈ s.elems) : s.add a = s := by
  simp [add, h]

@[simp] theorem elems_add_of_notMem {s : OrderedSet α} {a : α} (h : a ∉ s.elems) :
    (s.add a).elems = s.elems ++ [a] := by
  simp [add, h]

@[simp] theorem mem_add {s : OrderedSet α} {a b : α} :
    b ∈ (s.add a).elems ↔ b ∈ s.elems ∨ b = a := by
  by_cases h : a ∈ s.elems
  · rw [add_of_mem h]
    exact ⟨Or.inl, fun hb => hb.elim id fun he => he ▸ h⟩
  · rw [elems_add_of_notMem h, List.mem_append, List.mem_singleton]

/-- The set without the order. -/
def toFinset (s : OrderedSet α) : Finset α := s.elems.toFinset

@[simp] theorem mem_toFinset {s : OrderedSet α} {a : α} : a ∈ s.toFinset ↔ a ∈ s.elems :=
  List.mem_toFinset

theorem toFinset_add (s : OrderedSet α) (a : α) : (s.add a).toFinset = insert a s.toFinset := by
  ext b
  rw [mem_toFinset, mem_add, Finset.mem_insert, mem_toFinset]
  exact or_comm

end OrderedSet

/-- The order in which a set is iterated that was filled with the elements of a
list: some order of the elements. -/
structure IterationOrder (α : Type*) where
  order : List α → List α
  perm (l : List α) : (order l).Perm l

namespace IterationOrder

variable {α : Type*}

/-- The order of insertion. -/
def inserted : IterationOrder α := ⟨id, fun l => List.Perm.refl l⟩

@[simp] theorem mem_order (o : IterationOrder α) {l : List α} {a : α} : a ∈ o.order l ↔ a ∈ l :=
  (o.perm l).mem_iff

end IterationOrder

end InterviewPrep
