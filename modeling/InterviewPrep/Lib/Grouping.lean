import Mathlib.Data.List.Forall2
import Mathlib.Data.List.Induction
import Mathlib.Data.List.Perm.Basic
import InterviewPrep.Lib.OrderedDict

/-!
# Grouping by key

A loop that puts every element of a list into the group of its key, where a
group is started by its first element. A key has a group iff some element has
the key, and the group is built from the elements with the key, in their order
(`get?_groupWith`). The keys stand in the order of their first elements
(`pairwise_keys_groupWith`). The groups of all keys are the list again, reordered
(`flatMap_withKey_perm`).

Other loops keep the first element of each key only (`get?_firstByKey`), or the
last one (`get?_lastByKey`).
-/

namespace InterviewPrep

/-! ## First occurrences -/

section FirstOccurrences

variable {κ δ : Type*} [BEq κ] [LawfulBEq κ] [BEq δ] [LawfulBEq δ]

/-- Of equal elements the first one is kept. -/
theorem eraseDups_concat (l : List κ) (k : κ) :
    (l ++ [k]).eraseDups = if k ∈ l then l.eraseDups else l.eraseDups ++ [k] := by
  rw [List.eraseDups_append, List.cons_removeAll, List.removeAll, List.filter_nil]
  by_cases hk : k ∈ l
  · simp [hk]
  · simp [hk, List.eraseDups_cons]

/-- A renaming that tells the elements apart renames them where they stand. -/
theorem eraseDups_map {f : κ → δ} {l : List κ} (hf : ∀ j ∈ l, ∀ k ∈ l, f j = f k → j = k) :
    (l.map f).eraseDups = l.eraseDups.map f := by
  induction l using List.reverseRecOn with
  | nil => rfl
  | append_singleton l k ih =>
    have hold := ih fun i hi j hj =>
      hf i (List.mem_append_left _ hi) j (List.mem_append_left _ hj)
    have hmem : f k ∈ l.map f ↔ k ∈ l := by
      rw [List.mem_map]
      constructor
      · rintro ⟨j, hj, heq⟩
        rw [← hf j (List.mem_append_left _ hj) k (by simp) heq]
        exact hj
      · exact fun hk => ⟨k, hk, rfl⟩
    rw [List.map_append, List.map_singleton, eraseDups_concat, eraseDups_concat, hold]
    by_cases hk : k ∈ l
    · rw [if_pos (hmem.mpr hk), if_pos hk]
    · rw [if_neg (mt hmem.mp hk), if_neg hk, List.map_append, List.map_singleton]

end FirstOccurrences

/-! ## Groups -/

variable {α κ γ : Type*} [DecidableEq κ]

/-- One element goes to the group of its key. -/
def addToGroup (key : α → κ) (start : α → γ) (push : γ → α → γ) (groups : OrderedDict κ γ)
    (a : α) : OrderedDict κ γ :=
  groups.setItem (key a) (push ((groups.get? (key a)).getD (start a)) a)

/-- The groups, in the order of their first elements. -/
def groupWith (key : α → κ) (start : α → γ) (push : γ → α → γ) (l : List α) :
    OrderedDict κ γ :=
  l.foldl (addToGroup key start push) OrderedDict.empty

/-- The elements with a key. -/
def withKey (key : α → κ) (k : κ) (l : List α) : List α := l.filter (fun a => key a = k)

theorem mem_withKey {key : α → κ} {k : κ} {l : List α} {a : α} :
    a ∈ withKey key k l ↔ a ∈ l ∧ key a = k := by
  simp [withKey]

section Groups

variable {key : α → κ} {start : α → γ} {push : γ → α → γ}

/-- The group of a key. -/
def groupOf (start : α → γ) (push : γ → α → γ) : List α → Option γ
  | [] => none
  | a :: l => some ((a :: l).foldl push (start a))

theorem groupOf_concat (l : List α) (a : α) :
    groupOf start push (l ++ [a]) = some (push ((groupOf start push l).getD (start a)) a) := by
  cases l with
  | nil => rfl
  | cons b l => simp [groupOf, List.foldl_append]

/-- The group of elements that all start alike. -/
theorem groupOf_const_eq_some_iff {init g : γ} {l : List α} :
    groupOf (fun _ => init) push l = some g ↔ g = l.foldl push init ∧ l ≠ [] := by
  cases l with
  | nil => simp [groupOf]
  | cons a l =>
    rw [groupOf, Option.some.injEq, eq_comm]
    simp

/-- Groups that are lists hold the elements with their key. -/
theorem groupOf_lists_eq_some_iff {l g : List α} :
    groupOf (fun _ => []) (fun group a => group ++ [a]) l = some g ↔ g = l ∧ l ≠ [] := by
  have hfold : ∀ init : List α, l.foldl (fun group a => group ++ [a]) init = init ++ l := by
    induction l with
    | nil => simp
    | cons a l ih =>
      intro init
      rw [List.foldl_cons, ih, List.append_assoc]
      rfl
  rw [groupOf_const_eq_some_iff, hfold, List.nil_append]

/-- Groups that are numbers count the elements with their key. -/
theorem groupOf_counts_eq_some_iff {l : List α} {n : ℕ} :
    groupOf (fun _ => 0) (fun count _ => count + 1) l = some n ↔ n = l.length ∧ l ≠ [] := by
  have hfold : ∀ init : ℕ, l.foldl (fun count _ => count + 1) init = init + l.length := by
    induction l with
    | nil => simp
    | cons a l ih =>
      intro init
      rw [List.foldl_cons, ih, List.length_cons, Nat.add_assoc, Nat.add_comm 1]
  rw [groupOf_const_eq_some_iff, hfold, Nat.zero_add]

/-- The group of a key is built from the elements with the key. -/
theorem get?_groupWith (l : List α) (k : κ) :
    (groupWith key start push l).get? k = groupOf start push (withKey key k l) := by
  induction l using List.reverseRecOn with
  | nil => rfl
  | append_singleton l a ih =>
    have hstep : groupWith key start push (l ++ [a]) =
        addToGroup key start push (groupWith key start push l) a := by
      simp [groupWith]
    rw [hstep, addToGroup]
    by_cases hk : k = key a
    · subst hk
      have hfilter : withKey key (key a) (l ++ [a]) = withKey key (key a) l ++ [a] := by
        simp [withKey]
      rw [OrderedDict.get?_setItem_self, hfilter, groupOf_concat, ih]
    · have hfilter : withKey key k (l ++ [a]) = withKey key k l := by
        simp [withKey, Ne.symm hk]
      rw [OrderedDict.get?_setItem_of_ne _ _ hk, hfilter, ih]

/-- The keys with a group are the keys of the elements. -/
theorem mem_keys_groupWith {l : List α} {k : κ} :
    k ∈ (groupWith key start push l).keys ↔ ∃ a ∈ l, key a = k := by
  rw [OrderedDict.mem_keys_iff, get?_groupWith]
  cases hl : withKey key k l with
  | nil =>
    have hnone : ∀ a ∈ l, key a ≠ k := by
      intro a ha hk
      have hmem := mem_withKey.mpr ⟨ha, hk⟩
      rw [hl] at hmem
      simp at hmem
    simp only [groupOf, reduceCtorEq, exists_false, false_iff, not_exists, not_and]
    exact hnone
  | cons a rest =>
    have hmem : a ∈ withKey key k l := by simp [hl]
    rw [mem_withKey] at hmem
    simp only [groupOf, Option.some.injEq, exists_eq', true_iff]
    exact ⟨a, hmem.1, hmem.2⟩

/-- The keys stand in the order of the first elements that have them. -/
theorem pairwise_keys_groupWith (l : List α) :
    (groupWith key start push l).keys.Pairwise
      fun j k => (l.map key).idxOf j < (l.map key).idxOf k := by
  induction l using List.reverseRecOn with
  | nil => exact List.Pairwise.nil
  | append_singleton l a ih =>
    have hstep : groupWith key start push (l ++ [a]) =
        addToGroup key start push (groupWith key start push l) a := by
      simp [groupWith]
    have hmem : ∀ {k}, k ∈ (groupWith key start push l).keys → k ∈ l.map key :=
      fun hk => List.mem_map.mpr (mem_keys_groupWith.mp hk)
    -- the keys so far have been seen in front of the new element
    have hold : (groupWith key start push l).keys.Pairwise
        fun j k => ((l ++ [a]).map key).idxOf j < ((l ++ [a]).map key).idxOf k := by
      refine ih.imp_of_mem fun hj hk hlt => ?_
      rw [List.map_append, List.idxOf_append_of_mem (hmem hj), List.idxOf_append_of_mem (hmem hk)]
      exact hlt
    rw [hstep, addToGroup]
    by_cases ha : key a ∈ (groupWith key start push l).keys
    · rw [OrderedDict.keys_setItem_of_mem _ ha]
      exact hold
    · have hnew : key a ∉ l.map key := fun h => ha (mem_keys_groupWith.mpr (List.mem_map.mp h))
      rw [OrderedDict.keys_setItem_of_get?_eq_none _ (OrderedDict.get?_eq_none_iff.mpr ha),
        List.pairwise_append]
      refine ⟨hold, List.pairwise_singleton _ _, fun j hj k hk => ?_⟩
      rw [List.mem_singleton.mp hk, List.map_append, List.idxOf_append_of_mem (hmem hj),
        List.idxOf_append_of_notMem hnew]
      exact Nat.lt_add_right _ (List.idxOf_lt_length_of_mem (hmem hj))

/-- The keys are those of the elements, each where it stands first. -/
theorem keys_groupWith (l : List α) :
    (groupWith key start push l).keys = (l.map key).eraseDups := by
  induction l using List.reverseRecOn with
  | nil => rfl
  | append_singleton l a ih =>
    have hstep : groupWith key start push (l ++ [a]) =
        addToGroup key start push (groupWith key start push l) a := by
      simp [groupWith]
    have hmem : key a ∈ (groupWith key start push l).keys ↔ key a ∈ l.map key := by
      rw [ih, List.mem_eraseDups]
    rw [hstep, addToGroup, List.map_append, List.map_singleton, eraseDups_concat, ← ih]
    split
    · exact OrderedDict.keys_setItem_of_mem _ (hmem.mpr ‹_›)
    · exact OrderedDict.keys_setItem_of_get?_eq_none _
        (OrderedDict.get?_eq_none_iff.mpr (mt hmem.mp ‹_›))

theorem mem_entries_groupWith {l : List α} {k : κ} {g : γ} :
    (k, g) ∈ (groupWith key start push l).entries ↔
      groupOf start push (withKey key k l) = some g := by
  rw [← OrderedDict.get?_eq_some_iff, get?_groupWith]

end Groups

/-- In a list whose elements are related in order, the element in front is related to the
other. -/
theorem rel_of_idxOf_le {α : Type*} [DecidableEq α] {R : α → α → Prop} {l : List α} {a b : α}
    (h : l.Pairwise R) (hb : b ∈ l) (hne : a ≠ b) (hle : l.idxOf a ≤ l.idxOf b) : R a b := by
  have hlt : l.idxOf a < l.idxOf b :=
    Nat.lt_of_le_of_ne hle fun heq => hne ((List.idxOf_inj hb).mp heq.symm).symm
  have hb' := List.idxOf_lt_length_of_mem hb
  have hrel := List.pairwise_iff_getElem.mp h _ _ (Nat.lt_trans hlt hb') hb' hlt
  rwa [List.getElem_idxOf, List.getElem_idxOf] at hrel

/-- The groups of distinct keys that cover the list are the list, reordered. -/
theorem flatMap_withKey_perm {key : α → κ} {keys : List κ} {l : List α} (hnd : keys.Nodup)
    (hcover : ∀ a ∈ l, key a ∈ keys) : (keys.flatMap (fun k => withKey key k l)).Perm l := by
  induction keys generalizing l with
  | nil =>
    have hl : l = [] := List.eq_nil_iff_forall_not_mem.mpr fun a ha => by
      simpa using hcover a ha
    simp [hl]
  | cons k keys ih =>
    rw [List.nodup_cons] at hnd
    -- the other keys group what does not have the first one
    have hrest := ih (l := l.filter (fun a => ¬ key a = k)) hnd.2 (by
      intro a ha
      rw [List.mem_filter] at ha
      exact (List.mem_cons.mp (hcover a ha.1)).resolve_left (by simpa using ha.2))
    have hsame : keys.flatMap (fun j => withKey key j l) =
        keys.flatMap (fun j => withKey key j (l.filter (fun a => ¬ key a = k))) := by
      apply List.flatMap_congr
      intro j hj
      have hne : j ≠ k := fun he => hnd.1 (he ▸ hj)
      rw [withKey, withKey, List.filter_filter]
      apply List.filter_congr
      intro a _
      by_cases ha : key a = j
      · simp [ha, hne]
      · simp [ha]
    rw [List.flatMap_cons, hsame]
    refine (hrest.append_left _).trans ?_
    simpa [withKey] using List.filter_append_perm (fun a => decide (key a = k)) l

/-! ## First elements -/

/-- One element is entered under its key, unless there is one already. -/
def enterFirst (key : α → κ) (firsts : OrderedDict κ α) (a : α) : OrderedDict κ α :=
  if firsts.contains (key a) then firsts else firsts.setItem (key a) a

/-- The first element of each key. -/
def firstByKey (key : α → κ) (l : List α) : OrderedDict κ α :=
  l.foldl (enterFirst key) OrderedDict.empty

theorem get?_firstByKey (key : α → κ) (l : List α) (k : κ) :
    (firstByKey key l).get? k = l.find? (fun a => decide (key a = k)) := by
  induction l using List.reverseRecOn with
  | nil => rfl
  | append_singleton l a ih =>
    have hstep : firstByKey key (l ++ [a]) = enterFirst key (firstByKey key l) a := by
      simp [firstByKey]
    rw [hstep, List.find?_append, ← ih, enterFirst, OrderedDict.contains_eq_isSome]
    by_cases hk : key a = k
    · -- an earlier element with the key keeps its place
      subst hk
      cases hfirst : (firstByKey key l).get? (key a) with
      | none => simp
      | some first => simp [hfirst]
    · -- the element changes nothing for another key
      have hnot : [a].find? (fun a => decide (key a = k)) = none := by simp [hk]
      rw [hnot, Option.or_none]
      split
      · rfl
      · exact OrderedDict.get?_setItem_of_ne _ _ (Ne.symm hk)

/-! ## Last elements -/

/-- The last element of each key: `new Map(l.map(a => [key(a), a]))` -/
def lastByKey (key : α → κ) (l : List α) : OrderedDict κ α :=
  l.foldl (fun lasts a => lasts.setItem (key a) a) OrderedDict.empty

theorem get?_lastByKey (key : α → κ) (l : List α) (k : κ) :
    (lastByKey key l).get? k = l.reverse.find? (fun a => decide (key a = k)) := by
  induction l using List.reverseRecOn with
  | nil => rfl
  | append_singleton l a ih =>
    have hstep : lastByKey key (l ++ [a]) = (lastByKey key l).setItem (key a) a := by
      simp [lastByKey]
    rw [hstep, List.reverse_append, List.reverse_singleton, List.singleton_append,
      List.find?_cons]
    by_cases hk : key a = k
    · subst hk
      simp
    · rw [OrderedDict.get?_setItem_of_ne _ _ (Ne.symm hk), ih]
      simp [hk]

/-- The last element with a key has none of that key behind it. -/
theorem get?_lastByKey_eq_some_iff {key : α → κ} {l : List α} {k : κ} {a : α} :
    (lastByKey key l).get? k = some a ↔
      key a = k ∧ ∃ before after, l = before ++ a :: after ∧ ∀ b ∈ after, key b ≠ k := by
  rw [get?_lastByKey, List.find?_eq_some_iff_append, decide_eq_true_eq]
  apply and_congr_right
  rintro -
  constructor
  · rintro ⟨after, before, hl, hafter⟩
    refine ⟨before.reverse, after.reverse, ?_, fun b hb => ?_⟩
    · simpa using congrArg List.reverse hl
    · simpa using hafter b (List.mem_reverse.mp hb)
  · rintro ⟨before, after, rfl, hafter⟩
    refine ⟨after.reverse, before.reverse, by simp, fun b hb => ?_⟩
    simpa using hafter b (List.mem_reverse.mp hb)

theorem get?_lastByKey_eq_none_iff {key : α → κ} {l : List α} {k : κ} :
    (lastByKey key l).get? k = none ↔ ∀ a ∈ l, key a ≠ k := by
  simp [get?_lastByKey, List.find?_eq_none]

/-! ## Processing the groups -/

/-- A step that may fail succeeds for a whole list exactly if it does for each
element. -/
theorem mapM_eq_ok_iff {β δ ε : Type*} {f : β → Except ε δ} {l : List β} {r : List δ} :
    l.mapM f = .ok r ↔ List.Forall₂ (fun b d => f b = .ok d) l r := by
  induction l generalizing r with
  | nil =>
    rw [List.mapM_nil, List.forall₂_nil_left_iff]
    exact ⟨fun h => (Except.ok.inj h).symm, fun h => by rw [h]; rfl⟩
  | cons b l ih =>
    rw [List.mapM_cons, List.forall₂_cons_left_iff]
    constructor
    · intro h
      cases hb : f b with
      | error e => simp [hb, bind, Except.bind] at h
      | ok d =>
        cases hl : l.mapM f with
        | error e => simp [hb, hl, bind, Except.bind] at h
        | ok rest =>
          simp only [hb, hl, bind, Except.bind, pure, Except.pure, Except.ok.injEq] at h
          exact ⟨d, rest, rfl, ih.mp hl, h.symm⟩
    · rintro ⟨d, rest, hb, hrest, rfl⟩
      rw [hb, ih.mpr hrest]
      rfl

theorem exists_mapM_eq_ok_iff {β δ ε : Type*} {f : β → Except ε δ} {l : List β} :
    (∃ r, l.mapM f = .ok r) ↔ ∀ b ∈ l, ∃ d, f b = .ok d := by
  simp only [mapM_eq_ok_iff]
  induction l with
  | nil => simp
  | cons b l ih =>
    rw [List.forall_mem_cons, ← ih]
    constructor
    · rintro ⟨r, h⟩
      rcases List.forall₂_cons_left_iff.mp h with ⟨d, rest, hb, hrest, -⟩
      exact ⟨⟨d, hb⟩, rest, hrest⟩
    · rintro ⟨⟨d, hb⟩, rest, hrest⟩
      exact ⟨d :: rest, List.Forall₂.cons hb hrest⟩

theorem exists_of_mapM_eq_error {β δ ε : Type*} {f : β → Except ε δ} {l : List β} {e : ε}
    (h : l.mapM f = .error e) : ∃ b ∈ l, f b = .error e := by
  induction l with
  | nil => cases h
  | cons b l ih =>
    rw [List.mapM_cons] at h
    cases hb : f b with
    | error e' =>
      simp only [hb, bind, Except.bind, Except.error.injEq] at h
      exact ⟨b, List.mem_cons_self, by rw [hb, h]⟩
    | ok d =>
      cases hl : l.mapM f with
      | error e' =>
        simp only [hb, hl, bind, Except.bind, Except.error.injEq] at h
        rcases ih (h ▸ hl) with ⟨b', hb', he⟩
        exact ⟨b', List.mem_cons_of_mem b hb', he⟩
      | ok rest => simp [hb, hl, bind, Except.bind, pure, Except.pure] at h

theorem exists_left_of_forall₂ {β δ : Type*} {R : β → δ → Prop} {l : List β} {r : List δ}
    (h : List.Forall₂ R l r) {d : δ} (hd : d ∈ r) : ∃ b ∈ l, R b d := by
  induction h with
  | nil => simp at hd
  | @cons b c _ _ hhead _ ih =>
    rcases List.mem_cons.mp hd with rfl | hd
    · exact ⟨b, List.mem_cons_self, hhead⟩
    · rcases ih hd with ⟨b', hb', hR⟩
      exact ⟨b', List.mem_cons_of_mem b hb', hR⟩

/-- Two lists that correspond to one list correspond to each other. -/
theorem forall₂_of_common {α β δ : Type*} {R : α → β → Prop} {S : α → δ → Prop}
    {Q : β → δ → Prop} (hQ : ∀ a b d, R a b → S a d → Q b d) {l : List α} {r : List β}
    {r' : List δ} (h : List.Forall₂ R l r) (h' : List.Forall₂ S l r') : List.Forall₂ Q r r' := by
  induction h generalizing r' with
  | nil =>
    cases h'
    exact .nil
  | cons hhead _ ih =>
    cases h' with
    | cons hhead' htail' => exact .cons (hQ _ _ _ hhead hhead') (ih htail')

theorem exists_right_of_forall₂ {β δ : Type*} {R : β → δ → Prop} {l : List β} {r : List δ}
    (h : List.Forall₂ R l r) {b : β} (hb : b ∈ l) : ∃ d ∈ r, R b d :=
  exists_left_of_forall₂ h.flip hb

end InterviewPrep
