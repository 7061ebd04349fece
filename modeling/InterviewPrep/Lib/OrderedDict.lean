import Mathlib.Data.List.Nodup
import Mathlib.Data.List.Basic
import Mathlib.Logic.Function.Basic

/-!
# Insertion-ordered dictionaries

The dictionaries of Python (`dict`) and JavaScript (`Map`): finite maps that
remember the order in which their keys were inserted. Assigning to a present
key keeps its place, assigning to an absent key appends it, and removing a key
closes the gap.

The keys are distinct by construction, so a lookup is membership of the entry
(`get?_eq_some_iff`), and every other fact about lookups follows from that.
-/

namespace InterviewPrep

/-- A list of entries with distinct keys, oldest key first. -/
structure OrderedDict (κ α : Type*) where
  entries : List (κ × α)
  nodup : (entries.map Prod.fst).Nodup

namespace OrderedDict

variable {κ α : Type*}

/-- `{}` / `new Map()` -/
def empty : OrderedDict κ α := ⟨[], List.nodup_nil⟩

/-- The keys, oldest first. -/
def keys (d : OrderedDict κ α) : List κ := d.entries.map Prod.fst

/-- `len(d)` / `d.size` -/
def length (d : OrderedDict κ α) : ℕ := d.entries.length

/-- `next(iter(d))`, if there is a key. -/
def firstKey? (d : OrderedDict κ α) : Option κ := d.keys.head?

theorem length_keys (d : OrderedDict κ α) : d.keys.length = d.length := List.length_map _

@[simp] theorem length_empty : (empty : OrderedDict κ α).length = 0 := rfl

/-- The first key of a non-empty dictionary. -/
theorem firstKey?_eq_none_iff {d : OrderedDict κ α} : d.firstKey? = none ↔ d.length = 0 := by
  simp [firstKey?, keys, length]

theorem mem_keys_of_firstKey? {d : OrderedDict κ α} {k : κ} (h : d.firstKey? = some k) :
    k ∈ d.keys :=
  List.mem_of_head? h

variable [DecidableEq κ]

/-- `d.get(k)` -/
def get? (d : OrderedDict κ α) (k : κ) : Option α := d.entries.lookup k

/-- `k in d` / `d.has(k)` -/
def contains (d : OrderedDict κ α) (k : κ) : Bool := decide (k ∈ d.keys)

/-- `d.pop(k, None)` / `d.delete(k)` -/
def pop (d : OrderedDict κ α) (k : κ) : OrderedDict κ α where
  entries := d.entries.filter (fun p => p.1 ≠ k)
  nodup := d.nodup.sublist (List.filter_sublist.map Prod.fst)

/-- The entries after an assignment to a key that is present. -/
def replaceEntry (k : κ) (v : α) (entries : List (κ × α)) : List (κ × α) :=
  entries.map (fun p => if p.1 = k then (k, v) else p)

theorem replaceEntry_keys (k : κ) (v : α) (entries : List (κ × α)) :
    (replaceEntry k v entries).map Prod.fst = entries.map Prod.fst := by
  rw [replaceEntry, List.map_map]
  apply List.map_congr_left
  intro p _
  by_cases hp : p.1 = k
  · simp [hp]
  · simp [hp]

/-- `d[k] = v` / `d.set(k, v)` -/
def setItem (d : OrderedDict κ α) (k : κ) (v : α) : OrderedDict κ α :=
  if h : k ∈ d.keys then
    { entries := replaceEntry k v d.entries
      nodup := by rw [replaceEntry_keys]; exact d.nodup }
  else
    { entries := d.entries ++ [(k, v)]
      nodup := by
        rw [List.map_append, List.nodup_append]
        refine ⟨d.nodup, List.nodup_singleton k, ?_⟩
        intro a ha b hb hab
        rw [List.map_singleton, List.mem_singleton] at hb
        rw [hab, hb] at ha
        exact h ha }

/-! ## Lookups -/

/-- Lookup in a list of entries with distinct keys. -/
theorem lookup_eq_some_iff_mem {entries : List (κ × α)}
    (hnd : (entries.map Prod.fst).Nodup) (k : κ) (v : α) :
    entries.lookup k = some v ↔ (k, v) ∈ entries := by
  induction entries with
  | nil => simp
  | cons p entries ih =>
    obtain ⟨j, w⟩ := p
    rw [List.map_cons, List.nodup_cons] at hnd
    by_cases hj : k = j
    · subst hj
      rw [List.lookup_cons_self, List.mem_cons]
      constructor
      · intro h
        left
        rw [Option.some.inj h]
      · rintro (h | h)
        · rw [(Prod.mk.inj h).2]
        · -- the key would occur twice
          exact absurd (List.mem_map_of_mem (f := Prod.fst) h) hnd.1
    · have hbeq : (k == j) = false := by simpa using hj
      rw [List.lookup_cons, hbeq, List.mem_cons]
      constructor
      · intro h
        exact Or.inr ((ih hnd.2).mp h)
      · rintro (h | h)
        · exact absurd (Prod.mk.inj h).1 hj
        · exact (ih hnd.2).mpr h

theorem get?_eq_some_iff {d : OrderedDict κ α} {k : κ} {v : α} :
    d.get? k = some v ↔ (k, v) ∈ d.entries :=
  lookup_eq_some_iff_mem d.nodup k v

theorem mem_keys_iff {d : OrderedDict κ α} {k : κ} :
    k ∈ d.keys ↔ ∃ v, d.get? k = some v := by
  simp [keys, get?_eq_some_iff]

theorem get?_eq_none_iff {d : OrderedDict κ α} {k : κ} :
    d.get? k = none ↔ k ∉ d.keys := by
  rw [mem_keys_iff, Option.eq_none_iff_forall_ne_some, not_exists]

@[simp] theorem contains_eq_isSome (d : OrderedDict κ α) (k : κ) :
    d.contains k = (d.get? k).isSome := by
  rw [contains, Bool.eq_iff_iff, decide_eq_true_eq, mem_keys_iff, Option.isSome_iff_exists]

@[simp] theorem get?_empty (k : κ) : (empty : OrderedDict κ α).get? k = none := rfl

theorem mem_entries_pop {d : OrderedDict κ α} {k : κ} {p : κ × α} :
    p ∈ (d.pop k).entries ↔ p ∈ d.entries ∧ p.1 ≠ k := by
  simp [pop]

@[simp] theorem get?_pop_self (d : OrderedDict κ α) (k : κ) : (d.pop k).get? k = none := by
  rw [Option.eq_none_iff_forall_ne_some]
  intro v hv
  rw [get?_eq_some_iff, mem_entries_pop] at hv
  exact hv.2 rfl

theorem get?_pop_of_ne (d : OrderedDict κ α) {j k : κ} (h : j ≠ k) :
    (d.pop k).get? j = d.get? j := by
  apply Option.ext
  intro v
  rw [get?_eq_some_iff, get?_eq_some_iff, mem_entries_pop]
  exact ⟨fun hv => hv.1, fun hv => ⟨hv, h⟩⟩

/-- Popping keeps what it does not remove. -/
theorem get?_of_get?_pop {d : OrderedDict κ α} {j k : κ} {v : α}
    (h : (d.pop k).get? j = some v) : d.get? j = some v ∧ j ≠ k := by
  rw [get?_eq_some_iff, mem_entries_pop] at h
  exact ⟨get?_eq_some_iff.mpr h.1, h.2⟩

theorem mem_replaceEntry {k : κ} {v : α} {entries : List (κ × α)} {p : κ × α} :
    p ∈ replaceEntry k v entries ↔
      (p ∈ entries ∧ p.1 ≠ k) ∨ (p = (k, v) ∧ k ∈ entries.map Prod.fst) := by
  simp only [replaceEntry, List.mem_map]
  constructor
  · rintro ⟨q, hq, rfl⟩
    by_cases hqk : q.1 = k
    · right
      simp only [hqk, if_true, true_and]
      exact ⟨q, hq, hqk⟩
    · left
      simp only [hqk, if_false]
      exact ⟨hq, hqk⟩
  · rintro (⟨hp, hpk⟩ | ⟨rfl, q, hq, hqk⟩)
    · exact ⟨p, hp, by simp [hpk]⟩
    · exact ⟨q, hq, by simp [hqk]⟩

@[simp] theorem get?_setItem_self (d : OrderedDict κ α) (k : κ) (v : α) :
    (d.setItem k v).get? k = some v := by
  rw [get?_eq_some_iff, setItem]
  split
  · rename_i hk
    exact mem_replaceEntry.mpr (Or.inr ⟨rfl, hk⟩)
  · simp

theorem get?_setItem_of_ne (d : OrderedDict κ α) {j k : κ} (v : α) (h : j ≠ k) :
    (d.setItem k v).get? j = d.get? j := by
  apply Option.ext
  intro w
  rw [get?_eq_some_iff, get?_eq_some_iff, setItem]
  split
  · simp [mem_replaceEntry, h]
  · simp [h]

/-! ## As a function -/

/-- Assigning updates the function that a dictionary stands for. -/
theorem get?_setItem (d : OrderedDict κ α) (k : κ) (v : α) :
    (d.setItem k v).get? = Function.update d.get? k (some v) := by
  funext j
  by_cases hj : j = k
  · subst hj
    rw [Function.update_self, get?_setItem_self]
  · rw [Function.update_of_ne hj, get?_setItem_of_ne d v hj]

theorem get?_pop (d : OrderedDict κ α) (k : κ) :
    (d.pop k).get? = Function.update d.get? k none := by
  funext j
  by_cases hj : j = k
  · subst hj
    rw [Function.update_self, get?_pop_self]
  · rw [Function.update_of_ne hj, get?_pop_of_ne d hj]

/-! ## Order and size -/

/-- Assigning to an absent key appends it. -/
theorem entries_setItem_of_get?_eq_none {d : OrderedDict κ α} {k : κ} (v : α)
    (h : d.get? k = none) : (d.setItem k v).entries = d.entries ++ [(k, v)] := by
  rw [get?_eq_none_iff] at h
  simp [setItem, h]

theorem length_setItem_of_get?_eq_none {d : OrderedDict κ α} {k : κ} (v : α)
    (h : d.get? k = none) : (d.setItem k v).length = d.length + 1 := by
  simp [length, entries_setItem_of_get?_eq_none v h]

theorem length_pop_le (d : OrderedDict κ α) (k : κ) : (d.pop k).length ≤ d.length :=
  List.length_filter_le _ _

theorem keys_pop (d : OrderedDict κ α) (k : κ) :
    (d.pop k).keys = d.keys.filter (fun j => j ≠ k) := by
  rw [keys, pop, keys, List.filter_map]
  rfl

theorem mem_keys_pop {d : OrderedDict κ α} {j k : κ} :
    j ∈ (d.pop k).keys ↔ j ∈ d.keys ∧ j ≠ k := by
  simp [keys_pop]

theorem keys_setItem_of_get?_eq_none {d : OrderedDict κ α} {k : κ} (v : α)
    (h : d.get? k = none) : (d.setItem k v).keys = d.keys ++ [k] := by
  simp [keys, entries_setItem_of_get?_eq_none v h]

/-- Assigning to a present key keeps the order. -/
theorem keys_setItem_of_mem {d : OrderedDict κ α} {k : κ} (v : α) (h : k ∈ d.keys) :
    (d.setItem k v).keys = d.keys := by
  rw [setItem, dif_pos h]
  exact replaceEntry_keys k v d.entries

/-- Assigning adds its key and no other. -/
theorem mem_keys_setItem {d : OrderedDict κ α} {j k : κ} {v : α} :
    j ∈ (d.setItem k v).keys ↔ j = k ∨ j ∈ d.keys := by
  by_cases hjk : j = k
  · subst hjk
    simp [mem_keys_iff]
  · simp [mem_keys_iff, get?_setItem_of_ne d v hjk, hjk]

/-- Popping a present key makes room for one. -/
theorem length_pop_lt {d : OrderedDict κ α} {k : κ} (h : k ∈ d.keys) :
    (d.pop k).length < d.length := by
  obtain ⟨v, hv⟩ := mem_keys_iff.mp h
  rw [get?_eq_some_iff] at hv
  exact List.length_filter_lt_length_iff_exists.mpr ⟨(k, v), hv, by simp⟩

end OrderedDict

end InterviewPrep
