import Mathlib.Data.List.Sort

/-!
# Stable sorting

`List.insertionSort` is a stable sort by a relation that decides every pair of
elements. Here are the facts about it for a relation that is a total preorder on
the elements of the list only, and a second sort, `sorted`, whose comparisons can
fail: a failed comparison ends it.

`head_insertionSort_eq_iff` says which element comes first, equal ones by where
they stand. So a sort by a key, `sortBy`, depends on the order of the list exactly
if two elements have the same key (`pairwise_ne_of_sortBy_reverse`).

A sort whose comparisons all succeed returns (`sorted_ok`). If the elements are
of several kinds and comparing different kinds fails, then it returns on one
kind only (`kind_eq_of_sorted`).
-/

namespace InterviewPrep

namespace StableSort

/-! ## Comparisons that decide -/

section Relation

variable {α : Type*} {r : α → α → Prop} [DecidableRel r] {l : List α}

theorem insertionSort_ne_nil (r : α → α → Prop) [DecidableRel r] (h : l ≠ []) :
    l.insertionSort r ≠ [] := by
  intro hnil
  have hperm := List.perm_insertionSort r l
  rw [hnil] at hperm
  exact h hperm.nil_eq.symm

/-- The sorted list is ordered when the relation is total and transitive on its
elements. -/
theorem pairwise_insertionSort (htotal : ∀ a ∈ l, ∀ b ∈ l, r a b ∨ r b a)
    (htrans : ∀ a ∈ l, ∀ b ∈ l, ∀ c ∈ l, r a b → r b c → r a c) :
    (l.insertionSort r).Pairwise r := by
  -- sort the elements of the subtype, where the relation is total
  let s : {a // a ∈ l} → {a // a ∈ l} → Prop := fun a b => r a b
  have : DecidableRel s := fun a b => inferInstanceAs (Decidable (r a b))
  have : Std.Total s := ⟨fun a b => htotal a a.2 b b.2⟩
  have : IsTrans {a // a ∈ l} s := ⟨fun a b c => htrans a a.2 b b.2 c c.2⟩
  have hmap := List.map_insertionSort s r Subtype.val l.attach (fun _ _ _ _ => Iff.rfl)
  rw [List.attach_map_subtype_val] at hmap
  rw [← hmap, List.pairwise_map]
  exact List.pairwise_insertionSort s l.attach

/-- Reordering the list does not change what it is sorted to, when the relation
is antisymmetric on its elements too. -/
theorem insertionSort_eq_of_perm {l' : List α} (hperm : l.Perm l')
    (htotal : ∀ a ∈ l, ∀ b ∈ l, r a b ∨ r b a)
    (htrans : ∀ a ∈ l, ∀ b ∈ l, ∀ c ∈ l, r a b → r b c → r a c)
    (hanti : ∀ a ∈ l, ∀ b ∈ l, r a b → r b a → a = b) :
    l.insertionSort r = l'.insertionSort r := by
  have hsame : (l.insertionSort r).Perm (l'.insertionSort r) :=
    (List.perm_insertionSort r l).trans (hperm.trans (List.perm_insertionSort r l').symm)
  refine hsame.eq_of_pairwise ?_ (pairwise_insertionSort htotal htrans) ?_
  · intro a b ha hb
    rw [List.mem_insertionSort] at ha
    rw [List.mem_insertionSort, ← hperm.mem_iff] at hb
    exact hanti a ha b hb
  · apply pairwise_insertionSort
    · intro a ha b hb
      exact htotal a (hperm.mem_iff.mpr ha) b (hperm.mem_iff.mpr hb)
    · intro a ha b hb c hc
      exact htrans a (hperm.mem_iff.mpr ha) b (hperm.mem_iff.mpr hb) c (hperm.mem_iff.mpr hc)

/-- Of two elements one stands before the other. -/
theorem pair_sublist_or {a b : α} (ha : a ∈ l) (hb : b ∈ l) (hne : a ≠ b) :
    [a, b].Sublist l ∨ [b, a].Sublist l := by
  rcases List.append_of_mem ha with ⟨before, after, rfl⟩
  rcases List.mem_append.mp hb with hb | hb
  · right
    exact (List.singleton_sublist.mpr hb).append (List.singleton_sublist.mpr (by simp))
  · left
    have hb : b ∈ after := (List.mem_cons.mp hb).resolve_left hne.symm
    exact ((List.singleton_sublist.mpr hb).cons_cons a).trans (List.sublist_append_right _ _)

/-- Without repetitions nothing stands before the head. -/
theorem not_pair_sublist_head {a b : α} (hnodup : (a :: l).Nodup) :
    ¬ [b, a].Sublist (a :: l) := by
  intro h
  have hnot := (List.nodup_cons.mp hnodup).1
  cases h with
  | cons _ h => exact hnot (h.subset (by simp))
  | cons_cons _ h => exact hnot (h.subset (by simp))

/-- The head of the sorted list: the element that is at least as small as every
other, and stands before those that are as small. -/
theorem head_insertionSort_eq_iff (hnodup : l.Nodup)
    (htotal : ∀ a ∈ l, ∀ b ∈ l, r a b ∨ r b a)
    (htrans : ∀ a ∈ l, ∀ b ∈ l, ∀ c ∈ l, r a b → r b c → r a c)
    (hne : l.insertionSort r ≠ []) {m : α} (hm : m ∈ l) :
    (l.insertionSort r).head hne = m ↔
      ∀ x ∈ l, x ≠ m → r m x ∧ (r x m → [m, x].Sublist l) := by
  have hsorted := pairwise_insertionSort htotal htrans
  have hperm := List.perm_insertionSort r l
  have hstable : ∀ a b, r a b → [a, b].Sublist l → [a, b].Sublist (l.insertionSort r) :=
    fun a b hab h => List.pair_sublist_insertionSort hab h
  generalize l.insertionSort r = l' at hne hsorted hperm hstable
  cases l' with
  | nil => exact absurd rfl hne
  | cons first rest =>
    have hnodup' : (first :: rest).Nodup := hperm.nodup_iff.mpr hnodup
    have hfirst : first ∈ l := hperm.mem_iff.mp (by simp)
    have hle : ∀ x ∈ l, x ≠ first → r first x := by
      intro x hx hxne
      have hrest : x ∈ rest := (List.mem_cons.mp (hperm.mem_iff.mpr hx)).resolve_left hxne
      exact (List.pairwise_cons.mp hsorted).1 x hrest
    rw [List.head_cons]
    constructor
    · rintro rfl
      intro x hx hxne
      refine ⟨hle x hx hxne, ?_⟩
      intro hback
      refine (pair_sublist_or hfirst hx hxne.symm).resolve_right ?_
      exact fun h => not_pair_sublist_head hnodup' (hstable x first hback h)
    · intro h
      by_contra hne'
      -- `m` is as small as the head and stands before it
      have hbefore := h first hfirst hne'
      have hpair := hbefore.2 (hle m hm (fun heq => hne' heq.symm))
      exact not_pair_sublist_head hnodup' (hstable m first hbefore.1 hpair)

/-- Without repetitions two elements stand in one order only. -/
theorem not_pair_sublist_swap {a b : α} (hnodup : l.Nodup) (h : [a, b].Sublist l) :
    ¬ [b, a].Sublist l := by
  induction l with
  | nil => simp at h
  | cons c l ih =>
    rcases List.nodup_cons.mp hnodup with ⟨hc, hnodup⟩
    intro h'
    cases h with
    | cons _ h =>
      cases h' with
      | cons _ h' => exact ih hnodup h h'
      | cons_cons _ _ => exact hc (h.subset (by simp))
    | cons_cons _ h =>
      have hb : b ∈ l := List.singleton_sublist.mp h
      cases h' with
      | cons _ h' => exact hc (h'.subset (by simp))
      | cons_cons _ _ => exact hc hb

end Relation

/-! ## Sorting by a key -/

section Key

variable {α κ : Type*} [LinearOrder κ] {key : α → κ} {l l' : List α}

/-- The stable sort by a key. -/
def sortBy (key : α → κ) (l : List α) : List α := l.insertionSort (fun a b => key a ≤ key b)

theorem sortBy_perm (key : α → κ) (l : List α) : (sortBy key l).Perm l :=
  List.perm_insertionSort _ l

theorem sortBy_pairwise (key : α → κ) (l : List α) :
    (sortBy key l).Pairwise (fun a b => key a ≤ key b) :=
  pairwise_insertionSort (fun a _ b _ => le_total (key a) (key b))
    (fun _ _ _ _ _ _ hab hbc => le_trans hab hbc)

/-- Elements whose keys allow it keep their order. -/
theorem pair_sublist_sortBy {a b : α} (hkey : key a ≤ key b) (h : [a, b].Sublist l) :
    [a, b].Sublist (sortBy key l) :=
  List.pair_sublist_insertionSort hkey h

/-- Elements of one key had this order before. -/
theorem pair_sublist_of_sortBy {a b : α} (hnodup : l.Nodup) (hkey : key a = key b)
    (h : [a, b].Sublist (sortBy key l)) : [a, b].Sublist l := by
  have hnodup' : (sortBy key l).Nodup := (sortBy_perm key l).nodup_iff.mpr hnodup
  have ha : a ∈ l := (sortBy_perm key l).mem_iff.mp (h.subset (by simp))
  have hb : b ∈ l := (sortBy_perm key l).mem_iff.mp (h.subset (by simp))
  have hne : a ≠ b := by
    rintro rfl
    exact absurd (h.nodup hnodup') (by simp)
  rcases pair_sublist_or ha hb hne with hab | hba
  · exact hab
  · exact absurd (pair_sublist_sortBy hkey.ge hba) (not_pair_sublist_swap hnodup' h)

/-- With distinct keys the order of the list does not matter. -/
theorem sortBy_eq_of_perm (hperm : l.Perm l') (hkeys : l.Pairwise (fun a b => key a ≠ key b)) :
    sortBy key l = sortBy key l' := by
  refine insertionSort_eq_of_perm hperm (fun a _ b _ => le_total (key a) (key b))
    (fun _ _ _ _ _ _ hab hbc => le_trans hab hbc) ?_
  intro a ha b hb hab hba
  by_contra hne
  rcases pair_sublist_or ha hb hne with h | h
  · exact hkeys.forall_sublist h (le_antisymm hab hba)
  · exact hkeys.forall_sublist h (le_antisymm hba hab)

/-- If turning the list around does not matter, the keys are distinct. -/
theorem pairwise_ne_of_sortBy_reverse (hnodup : l.Nodup)
    (h : sortBy key l = sortBy key l.reverse) : l.Pairwise (fun a b => key a ≠ key b) := by
  rw [List.pairwise_iff_forall_sublist]
  intro a b hab hkey
  have hba : [b, a].Sublist l.reverse := by simpa using hab.reverse
  have hsorted := pair_sublist_sortBy hkey.le hab
  rw [h] at hsorted
  refine not_pair_sublist_swap ?_ hsorted (pair_sublist_sortBy hkey.ge hba)
  exact (sortBy_perm key l.reverse).nodup_iff.mpr (List.nodup_reverse.mpr hnodup)

end Key

/-! ## Comparisons that fail -/

section Fallible

variable {α ε : Type*}

/-- An element goes before the first one that is not less than it. -/
def insertSorted (lt : α → α → Except ε Bool) (a : α) : List α → Except ε (List α)
  | [] => .ok [a]
  | b :: l =>
    match lt b a with
    | .error e => .error e
    | .ok false => .ok (a :: b :: l)
    | .ok true => (insertSorted lt a l).map (b :: ·)

/-- The stable sort by `lt`, from the back of the list. -/
def sorted (lt : α → α → Except ε Bool) : List α → Except ε (List α)
  | [] => .ok []
  | a :: l => sorted lt l >>= insertSorted lt a

variable {lt : α → α → Except ε Bool}

theorem insertSorted_perm {a : α} {l l' : List α} (h : insertSorted lt a l = .ok l') :
    l'.Perm (a :: l) := by
  induction l generalizing l' with
  | nil =>
    simp only [insertSorted, Except.ok.injEq] at h
    rw [← h]
  | cons b l ih =>
    unfold insertSorted at h
    split at h
    · simp at h
    · rw [← Except.ok.inj h]
    · cases hrest : insertSorted lt a l with
      | error e => simp [hrest, Except.map] at h
      | ok rest =>
        simp only [hrest, Except.map, Except.ok.injEq] at h
        rw [← h]
        exact ((ih hrest).cons b).trans (List.Perm.swap a b l)

theorem sorted_perm {l l' : List α} (h : sorted lt l = .ok l') : l'.Perm l := by
  induction l generalizing l' with
  | nil =>
    simp only [sorted, Except.ok.injEq] at h
    rw [← h]
  | cons a l ih =>
    unfold sorted at h
    cases hrest : sorted lt l with
    | error e => simp [hrest, bind, Except.bind] at h
    | ok rest =>
      rw [hrest] at h
      exact (insertSorted_perm h).trans ((ih hrest).cons a)

theorem insertSorted_ok {a : α} {l : List α} (h : ∀ b ∈ l, ∃ r, lt b a = .ok r) :
    ∃ l', insertSorted lt a l = .ok l' := by
  induction l with
  | nil => exact ⟨[a], rfl⟩
  | cons b l ih =>
    rcases h b List.mem_cons_self with ⟨r, hr⟩
    rcases ih fun c hc => h c (List.mem_cons_of_mem b hc) with ⟨rest, hrest⟩
    unfold insertSorted
    rw [hr]
    cases r with
    | false => exact ⟨a :: b :: l, rfl⟩
    | true => exact ⟨b :: rest, by simp [hrest, Except.map]⟩

/-- The sort returns when every comparison of two elements does. -/
theorem sorted_ok {l : List α} (h : ∀ a ∈ l, ∀ b ∈ l, ∃ r, lt a b = .ok r) :
    ∃ l', sorted lt l = .ok l' := by
  induction l with
  | nil => exact ⟨[], rfl⟩
  | cons a l ih =>
    rcases ih fun b hb c hc =>
      h b (List.mem_cons_of_mem a hb) c (List.mem_cons_of_mem a hc) with ⟨rest, hrest⟩
    unfold sorted
    rw [hrest]
    apply insertSorted_ok
    intro b hb
    rw [(sorted_perm hrest).mem_iff] at hb
    exact h b (List.mem_cons_of_mem a hb) a List.mem_cons_self

theorem insertSorted_eq_orderedInsert {r : α → α → Prop} [DecidableRel r] {a : α} {l : List α}
    (h : ∀ b ∈ l, lt b a = .ok (decide (¬ r a b))) :
    insertSorted lt a l = .ok (l.orderedInsert r a) := by
  induction l with
  | nil => rfl
  | cons b l ih =>
    rw [insertSorted, h b List.mem_cons_self, List.orderedInsert_cons]
    by_cases hab : r a b
    · simp [hab]
    · simp [hab, ih fun c hc => h c (List.mem_cons_of_mem b hc), Except.map]

/-- A sort whose comparisons decide a relation is the sort by the relation. -/
theorem sorted_eq_insertionSort {r : α → α → Prop} [DecidableRel r] {l : List α}
    (h : ∀ a ∈ l, ∀ b ∈ l, lt b a = .ok (decide (¬ r a b))) :
    sorted lt l = .ok (l.insertionSort r) := by
  induction l with
  | nil => rfl
  | cons a l ih =>
    have hrest := ih fun b hb c hc =>
      h b (List.mem_cons_of_mem a hb) c (List.mem_cons_of_mem a hc)
    rw [sorted, hrest, List.insertionSort_cons]
    apply insertSorted_eq_orderedInsert
    intro b hb
    rw [List.mem_insertionSort] at hb
    exact h a List.mem_cons_self b (List.mem_cons_of_mem a hb)

theorem exists_of_insertSorted_error {a : α} {l : List α} {e : ε}
    (h : insertSorted lt a l = .error e) : ∃ b c, lt b c = .error e := by
  induction l with
  | nil => simp [insertSorted] at h
  | cons b l ih =>
    unfold insertSorted at h
    split at h
    · rename_i e' he
      exact ⟨b, a, by rw [he, Except.error.inj h]⟩
    · simp at h
    · cases hrest : insertSorted lt a l with
      | error e' =>
        simp only [hrest, Except.map, Except.error.injEq] at h
        exact ih (h ▸ hrest)
      | ok rest => simp [hrest, Except.map] at h

/-- A sort that fails does so with the error of a comparison. -/
theorem exists_of_sorted_error {l : List α} {e : ε} (h : sorted lt l = .error e) :
    ∃ a b, lt a b = .error e := by
  induction l with
  | nil => simp [sorted] at h
  | cons a l ih =>
    unfold sorted at h
    cases hrest : sorted lt l with
    | error e' =>
      simp only [hrest, bind, Except.bind, Except.error.injEq] at h
      exact ih (h ▸ hrest)
    | ok rest =>
      rw [hrest] at h
      exact exists_of_insertSorted_error h

/-- The sort returns on one kind only. -/
theorem kind_eq_of_sorted {κ : Type*} (kind : α → κ)
    (hkind : ∀ a b, kind a ≠ kind b → ∃ e, lt a b = .error e) {l l' : List α}
    (h : sorted lt l = .ok l') : ∀ a ∈ l, ∀ b ∈ l, kind a = kind b := by
  induction l generalizing l' with
  | nil => simp
  | cons a l ih =>
    unfold sorted at h
    cases hrest : sorted lt l with
    | error e => simp [hrest, bind, Except.bind] at h
    | ok rest =>
      rw [hrest] at h
      have hperm := sorted_perm hrest
      -- the first comparison is with an element of the rest, if there is one
      have hhead : ∀ b ∈ l, kind a = kind b := by
        intro b hb
        cases rest with
        | nil => simp [hperm.nil_eq.symm] at hb
        | cons c rest =>
          have hc : c ∈ l := hperm.mem_iff.mp List.mem_cons_self
          rw [ih hrest b hb c hc]
          by_contra hne
          rcases hkind c a (Ne.symm hne) with ⟨e, he⟩
          simp [bind, Except.bind, insertSorted, he] at h
      intro b hb c hc
      rcases List.mem_cons.mp hb with hba | hbl
      · rcases List.mem_cons.mp hc with hca | hcl
        · rw [hba, hca]
        · rw [hba]
          exact hhead c hcl
      · rcases List.mem_cons.mp hc with hca | hcl
        · rw [hca]
          exact (hhead b hbl).symm
        · exact ih hrest b hbl c hcl

end Fallible

end StableSort

end InterviewPrep
