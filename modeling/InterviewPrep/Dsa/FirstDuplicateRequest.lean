import Mathlib.Data.List.Nodup
import InterviewPrep.Lib.OrderedSet

/-!
# The first duplicate request

`firstDuplicateRequest` of `dsa/duplicate_request_detector/answer.py` and `answer.ts`:
one pass over the ids, with a set of those that were seen. It stops at the first position
whose id appeared earlier (`firstDuplicateRequest_eq_some_iff`), and ends without a
result exactly if there is none (`firstDuplicateRequest_eq_none_iff`). Of the ids nothing
but equality is used.
-/

namespace InterviewPrep.FirstDuplicateRequest

variable {S : Type} [DecidableEq S]

/-! ## The program -/

/-- The loop, from the ids that were seen. -/
def scan : OrderedSet S → List S → Option S
  | _, [] => none
  | seen, id :: ids => if id ∈ seen.elems then some id else scan (seen.add id) ids

def Python.firstDuplicateRequest (request_ids : List S) : Option S :=
  scan OrderedSet.empty request_ids

def TypeScript.firstDuplicateRequest (requestIds : List S) : Option S :=
  scan OrderedSet.empty requestIds

/-! ## What the loop finds -/

/-- The id at the first position that was seen or appeared earlier. -/
def FirstRepeated (seen ids : List S) (id : S) : Prop :=
  ∃ before after, ids = before ++ id :: after ∧ (seen ++ before).Nodup ∧ id ∈ seen ++ before

omit [DecidableEq S] in
theorem firstRepeated_cons_of_mem {seen ids : List S} {first id : S} (hseen : first ∈ seen)
    (hnodup : seen.Nodup) : FirstRepeated seen (first :: ids) id ↔ id = first := by
  constructor
  · rintro ⟨before, after, heq, hbefore, -⟩
    cases before with
    | nil => exact (List.cons.inj heq).1.symm
    | cons b before =>
      -- the position behind a repetition is not the first
      have hb : first = b := (List.cons.inj heq).1
      have hdisjoint := List.disjoint_of_nodup_append hbefore
      exact (hdisjoint hseen (hb ▸ List.mem_cons_self)).elim
  · rintro rfl
    exact ⟨[], ids, rfl, by simpa using hnodup, by simpa using hseen⟩

omit [DecidableEq S] in
theorem firstRepeated_cons_of_notMem {seen ids : List S} {first id : S} (hseen : first ∉ seen) :
    FirstRepeated seen (first :: ids) id ↔ FirstRepeated (seen ++ [first]) ids id := by
  constructor
  · rintro ⟨before, after, heq, hbefore, hmem⟩
    cases before with
    | nil =>
      have hid : first = id := (List.cons.inj heq).1
      exact absurd (by simpa using hmem) (hid ▸ hseen)
    | cons b before =>
      obtain ⟨rfl, rfl⟩ := List.cons.inj heq
      exact ⟨before, after, rfl, by simpa using hbefore, by simpa using hmem⟩
  · rintro ⟨before, after, rfl, hbefore, hmem⟩
    exact ⟨first :: before, after, rfl, by simpa using hbefore, by simpa using hmem⟩

theorem scan_eq_some_iff {seen : OrderedSet S} {ids : List S} {id : S} :
    scan seen ids = some id ↔ FirstRepeated seen.elems ids id := by
  induction ids generalizing seen with
  | nil => simp [scan, FirstRepeated]
  | cons first ids ih =>
    rw [scan]
    split
    · rename_i hseen
      rw [firstRepeated_cons_of_mem hseen seen.nodup, Option.some.injEq, eq_comm]
    · rename_i hseen
      rw [ih, OrderedSet.elems_add_of_notMem hseen, firstRepeated_cons_of_notMem hseen]

/-- The loop runs to the end if no position is a repetition. -/
theorem scan_eq_none_iff {seen : OrderedSet S} {ids : List S} :
    scan seen ids = none ↔ (seen.elems ++ ids).Nodup := by
  induction ids generalizing seen with
  | nil => simp [scan, seen.nodup]
  | cons first ids ih =>
    rw [scan]
    split
    · rename_i hseen
      simp only [reduceCtorEq, false_iff]
      intro hnodup
      exact List.disjoint_of_nodup_append hnodup hseen List.mem_cons_self
    · rename_i hseen
      rw [ih, OrderedSet.elems_add_of_notMem hseen, List.append_assoc, List.singleton_append]

/-! ## Both versions -/

/-- Both return the id at the first position whose id appeared earlier. -/
theorem firstDuplicateRequest_eq_some_iff {ids : List S} {id : S} :
    (Python.firstDuplicateRequest ids = some id ↔
      ∃ before after, ids = before ++ id :: after ∧ before.Nodup ∧ id ∈ before) ∧
    (TypeScript.firstDuplicateRequest ids = some id ↔
      ∃ before after, ids = before ++ id :: after ∧ before.Nodup ∧ id ∈ before) :=
  ⟨scan_eq_some_iff, scan_eq_some_iff⟩

/-- Both return nothing exactly if the ids are distinct. -/
theorem firstDuplicateRequest_eq_none_iff {ids : List S} :
    (Python.firstDuplicateRequest ids = none ↔ ids.Nodup) ∧
    (TypeScript.firstDuplicateRequest ids = none ↔ ids.Nodup) :=
  ⟨scan_eq_none_iff, scan_eq_none_iff⟩

example : Python.firstDuplicateRequest ["A", "a", "A"] = some "A" := by decide

end InterviewPrep.FirstDuplicateRequest
