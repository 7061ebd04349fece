import Mathlib.Data.List.ReduceOption
import Mathlib.NumberTheory.Multiplicity
import InterviewPrep.Lib.OrderedSet
import InterviewPrep.Lib.Slots

/-!
# The hash tables of Python's sets

The order in which CPython iterates a set of natural numbers to which elements were
only added. A number is its own hash (below `2 ^ 61 - 1`; all smaller numbers in one
set are more than a memory holds). Its home is the slot of its remainder; if that is
taken, probes look for a free slot, and they reach every slot (`mem_probes`). When
about two fifths of a table or less are free, its elements are moved to a larger one.
The iteration goes through the slots.

Elements with different homes are in order of their homes (`Holds.atHome`). In
particular the first `n` numbers are always iterated in ascending order
(`cpython_range`).
-/

namespace InterviewPrep

namespace HashTable

/-- The slots, each with an element or free. -/
abbrev Slots := List (Option ℕ)

/-! ## The program -/

/-- `LINEAR_PROBES` -/
def linearProbes : ℕ := 9

/-- The slots that are probed from slot `i` on: the next ones too, if they are all in
the table. -/
def row (size i : ℕ) : List ℕ :=
  if i + linearProbes < size then List.range' i (linearProbes + 1) else [i]

/-- The slots that are probed in some rounds. -/
def probes (size : ℕ) : ℕ → ℕ → ℕ → List ℕ
  | 0, _, _ => []
  | rounds + 1, perturb, i =>
    row size i ++ probes size rounds (perturb / 32) ((i * 5 + 1 + perturb / 32) % size)

/-- The first free slot. There are rounds enough to reach all slots. -/
def freeSlot (slots : Slots) (x : ℕ) : ℕ :=
  ((probes slots.length (x + slots.length) x (x % slots.length)).find?
    fun i => slots[i]? == some none).getD 0

/-- `set_insert_clean` -/
def insert (slots : Slots) (x : ℕ) : Slots := slots.set (freeSlot slots x) (some x)

/-- `set_table_resize`: the least power of two above `minused`, and at least 8. -/
def resize (slots : Slots) (minused : ℕ) : Slots :=
  slots.reduceOption.foldl insert (List.replicate (2 ^ max 3 (Nat.log2 minused + 1)) none)

/-- `set_add_entry` of an element that is not in the table. -/
def add (slots : Slots) (x : ℕ) : Slots :=
  let slots := insert slots x
  let used := slots.reduceOption.length
  if used * 5 < (slots.length - 1) * 3 then slots
  else resize slots (if 50000 < used then used * 2 else used * 4)

/-- The table after the elements of a list were added to the empty set. -/
def table (l : List ℕ) : Slots := l.foldl add (List.replicate 8 none)

/-! ## The probes -/

/-- A jump without perturbation. -/
def jump (i : ℕ) : ℕ := i * 5 + 1

theorem iterate_jump (i n : ℕ) : 4 * jump^[n] i + 1 = 5 ^ n * (4 * i + 1) := by
  induction n with
  | zero => simp
  | succ n ih =>
    rw [Function.iterate_succ_apply', pow_succ, mul_right_comm, ← ih, jump]
    ring

/-- Powers of 5 return to 1 as late as they can. -/
theorem dvd_of_dvd_pow_sub_one {b d : ℕ} (h : (2 : ℤ) ^ (b + 2) ∣ 5 ^ d - 1) : 2 ^ b ∣ d := by
  have hmult := Int.two_pow_sub_pow' (x := 5) (y := 1) d (by norm_num) (by norm_num)
  have hfour : emultiplicity (2 : ℤ) (5 - 1) = 2 := emultiplicity_pow_self_of_prime Int.prime_two 2
  rw [one_pow, hfour] at hmult
  rw [pow_dvd_iff_le_emultiplicity, hmult, Nat.cast_add, add_comm] at h
  have hle : (b : ℕ∞) ≤ emultiplicity (2 : ℤ) d := (ENat.add_le_add_iff_left (by decide)).mp h
  exact_mod_cast pow_dvd_of_le_emultiplicity hle

theorem coprime_of_odd {a : ℕ} (ha : Odd a) (k : ℕ) : (2 ^ k).gcd a = 1 :=
  Nat.Coprime.pow_left k (Nat.coprime_two_left.mpr ha)

/-- The jumps in a table of `2 ^ b` slots repeat none before they have reached all. -/
theorem iterate_jump_ne {b i m d : ℕ} (hpos : 0 < d) (hlt : d < 2 ^ b) :
    jump^[m] i % 2 ^ b ≠ jump^[m + d] i % 2 ^ b := by
  intro heq
  have hscaled : 4 * jump^[m] i + 1 ≡ 4 * jump^[m + d] i + 1 [MOD 4 * 2 ^ b] :=
    (Nat.ModEq.mul_left' 4 heq).add_right 1
  have hpow : 4 * 2 ^ b = 2 ^ (b + 2) := by ring
  have hstart : Odd (4 * i + 1) := ⟨2 * i, by ring⟩
  have hfive : Odd (5 ^ m) := Odd.pow (by decide)
  rw [iterate_jump, iterate_jump, hpow, pow_add 5] at hscaled
  have hpowers := Nat.ModEq.cancel_right_of_coprime (coprime_of_odd hstart _) hscaled
  have hone : 1 ≡ 5 ^ d [MOD 2 ^ (b + 2)] := by
    apply Nat.ModEq.cancel_left_of_coprime (coprime_of_odd hfive _)
    rwa [mul_one]
  have hdvd := dvd_of_dvd_pow_sub_one (by exact_mod_cast (Nat.modEq_iff_dvd.mp hone))
  exact absurd (Nat.le_of_dvd hpos hdvd) (Nat.not_le.mpr hlt)

/-- The jumps reach every slot. -/
theorem exists_iterate_jump {b j : ℕ} (hj : j < 2 ^ b) (i : ℕ) :
    ∃ n < 2 ^ b, jump^[n] i % 2 ^ b = j := by
  -- as many different slots as there are slots
  have hinj : Set.InjOn (fun n => jump^[n] i % 2 ^ b) (Finset.range (2 ^ b)) := by
    intro m hm n hn heq
    rw [Finset.mem_coe, Finset.mem_range] at hm hn
    by_contra hne
    rcases Nat.lt_or_gt_of_ne hne with hlt | hlt
    · rcases Nat.exists_eq_add_of_lt hlt with ⟨d, rfl⟩
      exact iterate_jump_ne (Nat.succ_pos d) (by omega) heq
    · rcases Nat.exists_eq_add_of_lt hlt with ⟨d, rfl⟩
      exact iterate_jump_ne (Nat.succ_pos d) (by omega) heq.symm
  have hmaps : Set.MapsTo (fun n => jump^[n] i % 2 ^ b) (Finset.range (2 ^ b))
      (Finset.range (2 ^ b)) := by
    intro n _
    rw [Finset.mem_coe, Finset.mem_range]
    exact Nat.mod_lt _ (Nat.two_pow_pos b)
  have hsurj := Finset.surjOn_of_injOn_of_card_le _ hmaps hinj (le_refl _)
  rcases hsurj (Finset.mem_coe.mpr (Finset.mem_range.mpr hj)) with ⟨n, hn, hnj⟩
  exact ⟨n, Finset.mem_range.mp hn, hnj⟩

theorem mem_row (size i : ℕ) : i ∈ row size i := by
  unfold row
  split
  · simp
  · simp

/-- Without perturbation, the probes make one jump a round. -/
theorem iterate_jump_mem_probes {size rounds n : ℕ} (hn : n < rounds) (i : ℕ) :
    jump^[n] i % size ∈ probes size rounds 0 (i % size) := by
  induction rounds generalizing n i with
  | zero => omega
  | succ rounds ih =>
    rw [probes, List.mem_append]
    cases n with
    | zero => exact Or.inl (mem_row size _)
    | succ n =>
      right
      have hnext : ((i % size) * 5 + 1 + 0 / 32) % size = jump i % size := by
        simp [jump, Nat.add_mod, Nat.mul_mod]
      rw [hnext]
      exact ih (by omega) (jump i)

/-- The probes reach every slot, in as many rounds as `freeSlot` has. -/
theorem mem_probes {b j : ℕ} (hj : j < 2 ^ b) {rounds perturb : ℕ}
    (hrounds : perturb + 2 ^ b ≤ rounds) (i : ℕ) :
    j ∈ probes (2 ^ b) rounds perturb (i % 2 ^ b) := by
  induction rounds generalizing perturb i with
  | zero =>
    have hpos := Nat.two_pow_pos b
    omega
  | succ rounds ih =>
    -- the perturbation shrinks until it is gone
    rcases Nat.eq_zero_or_pos perturb with rfl | hpos
    · rcases exists_iterate_jump hj i with ⟨n, hn, rfl⟩
      exact iterate_jump_mem_probes (by omega) i
    · rw [probes, List.mem_append]
      exact Or.inr (ih (by omega) _)

/-! ## One insertion -/

section Insert

variable {slots : Slots} {l l' : List ℕ} {x : ℕ}

theorem freeSlot_free {b : ℕ} (hsize : slots.length = 2 ^ b) (hroom : none ∈ slots) (x : ℕ) :
    slots[freeSlot slots x]? = some none := by
  rcases List.mem_iff_getElem?.mp hroom with ⟨j, hj⟩
  have hlt : j < 2 ^ b := by
    rw [← hsize]
    exact (List.getElem?_eq_some_iff.mp hj).1
  have hprobed : j ∈ probes slots.length (x + slots.length) x (x % slots.length) := by
    rw [hsize]
    exact mem_probes hlt (le_refl _) x
  unfold freeSlot
  cases hfind : (probes slots.length (x + slots.length) x (x % slots.length)).find?
      fun i => slots[i]? == some none with
  | none =>
    have hnot := List.find?_eq_none.mp hfind j hprobed
    simp [hj] at hnot
  | some i => simpa using List.find?_some hfind

/-- The home of an element is probed first. -/
theorem freeSlot_of_home (h : slots[x % slots.length]? = some none) :
    freeSlot slots x = x % slots.length := by
  have hpos : 0 < slots.length := by
    have hlt := (List.getElem?_eq_some_iff.mp h).1
    omega
  have hrow : ∃ rest, row slots.length (x % slots.length) = x % slots.length :: rest := by
    unfold row
    split
    · exact ⟨_, List.range'_succ⟩
    · exact ⟨[], rfl⟩
  rcases hrow with ⟨rest, hrow⟩
  rcases Nat.exists_eq_succ_of_ne_zero (by omega : x + slots.length ≠ 0) with ⟨rounds, hrounds⟩
  rw [freeSlot, hrounds, probes, hrow, List.cons_append, List.find?_cons_of_pos (by simp [h])]
  rfl

theorem reduceOption_set_perm {i : ℕ} (h : slots[i]? = some none) :
    (slots.set i (some x)).reduceOption.Perm (x :: slots.reduceOption) := by
  induction slots generalizing i with
  | nil => simp at h
  | cons slot slots ih =>
    cases i with
    | zero =>
      rw [List.getElem?_cons_zero, Option.some.injEq] at h
      rw [h, List.set_cons_zero, List.reduceOption_cons_of_some, List.reduceOption_cons_of_none]
    | succ i =>
      rw [List.getElem?_cons_succ] at h
      rw [List.set_cons_succ]
      cases slot with
      | none =>
        rw [List.reduceOption_cons_of_none, List.reduceOption_cons_of_none]
        exact ih h
      | some y =>
        rw [List.reduceOption_cons_of_some, List.reduceOption_cons_of_some]
        exact ((ih h).cons y).trans (List.Perm.swap x y _)

/-- The table has the elements of a list, and each at home if their homes differ. -/
structure Holds (slots : Slots) (l : List ℕ) : Prop where
  size : ∃ b, slots.length = 2 ^ b
  perm : slots.reduceOption.Perm l
  atHome : (l.map (· % slots.length)).Nodup →
    ∀ i y, slots[i]? = some (some y) → y % slots.length = i

theorem holds_replicate (b : ℕ) : Holds (List.replicate (2 ^ b) none) [] where
  size := ⟨b, List.length_replicate⟩
  perm := by rw [List.reduceOption_replicate_none]
  atHome := by
    intro _ i y hi
    simp [List.getElem?_replicate] at hi

theorem Holds.of_perm (h : Holds slots l) (hl : l.Perm l') : Holds slots l' where
  size := h.size
  perm := h.perm.trans hl
  atHome := fun hnodup => h.atHome ((hl.map _).nodup_iff.mpr hnodup)

@[simp] theorem length_insert : (insert slots x).length = slots.length := List.length_set

theorem Holds.insert (h : Holds slots l) (hroom : l.length < slots.length) (x : ℕ) :
    Holds (insert slots x) (x :: l) := by
  rcases h.size with ⟨b, hsize⟩
  have hnone : none ∈ slots := by
    rw [← List.reduceOption_length_lt_iff, h.perm.length_eq]
    exact hroom
  refine ⟨⟨b, length_insert.trans hsize⟩, ?_, ?_⟩
  · exact (reduceOption_set_perm (freeSlot_free hsize hnone x)).trans (h.perm.cons x)
  · intro hnodup i y hi
    rw [length_insert] at hnodup ⊢
    rw [List.map_cons, List.nodup_cons] at hnodup
    have hold := h.atHome hnodup.2
    -- whoever were in the home of `x` would have the same home
    have hhome : slots[x % slots.length]? = some none := by
      have hlt : x % slots.length < slots.length := Nat.mod_lt _ (by omega)
      cases hslot : slots[x % slots.length] with
      | none => rw [List.getElem?_eq_getElem hlt, hslot]
      | some z =>
        have hz : slots[x % slots.length]? = some (some z) := by
          rw [List.getElem?_eq_getElem hlt, hslot]
        have hmem : z ∈ l := by
          rw [← h.perm.mem_iff, List.reduceOption_mem_iff]
          exact List.mem_of_getElem? hz
        exact absurd (List.mem_map.mpr ⟨z, hmem, hold _ z hz⟩) hnodup.1
    rw [HashTable.insert, freeSlot_of_home hhome] at hi
    rcases getElem?_set_cases hi with ⟨rfl, heq⟩ | ⟨-, hi⟩
    · rw [Option.some.inj heq]
    · exact hold i y hi

theorem Holds.foldl_insert {xs : List ℕ} (h : Holds slots l)
    (hroom : xs.length + l.length ≤ slots.length) :
    Holds (xs.foldl HashTable.insert slots) (xs ++ l) := by
  induction xs generalizing slots l with
  | nil => exact h
  | cons x xs ih =>
    rw [List.length_cons] at hroom
    have hrest := ih (h.insert (by omega) x) (by rw [length_insert, List.length_cons]; omega)
    exact hrest.of_perm List.perm_middle

/-! ## Growing -/

theorem length_foldl_insert (xs : List ℕ) :
    (xs.foldl HashTable.insert slots).length = slots.length := by
  induction xs generalizing slots with
  | nil => rfl
  | cons x xs ih => exact ih.trans length_insert

theorem Holds.resize (h : Holds slots l) {minused : ℕ} (hroom : l.length ≤ minused) :
    Holds (resize slots minused) l ∧ minused < (resize slots minused).length := by
  have hlt : minused < 2 ^ max 3 (Nat.log2 minused + 1) :=
    lt_of_lt_of_le Nat.lt_log2_self (Nat.pow_le_pow_right (by norm_num) (le_max_right _ _))
  have hlength : slots.reduceOption.length = l.length := h.perm.length_eq
  constructor
  · have hblank : slots.reduceOption.length + ([] : List ℕ).length ≤
        (List.replicate (2 ^ max 3 (Nat.log2 minused + 1)) (none : Option ℕ)).length := by
      rw [List.length_replicate, List.length_nil]
      omega
    have hfill := (holds_replicate _).foldl_insert hblank
    rw [List.append_nil] at hfill
    exact hfill.of_perm h.perm
  · rw [HashTable.resize, length_foldl_insert, List.length_replicate]
    exact hlt

/-- There is room in a table, and it stays so when it grows in time. -/
theorem Holds.add (h : Holds slots l) (hroom : l.length * 5 < (slots.length - 1) * 3) (x : ℕ) :
    Holds (add slots x) (x :: l) ∧ (x :: l).length * 5 < ((add slots x).length - 1) * 3 := by
  have hinsert := h.insert (by omega) x
  have hused : (HashTable.insert slots x).reduceOption.length = l.length + 1 :=
    hinsert.perm.length_eq
  simp only [HashTable.add, hused, List.length_cons]
  split
  · rename_i hfits
    exact ⟨hinsert, hfits⟩
  · have hminused : (l.length + 1) * 2 ≤
        if 50000 < l.length + 1 then (l.length + 1) * 2 else (l.length + 1) * 4 := by
      split <;> omega
    have hfits : (x :: l).length ≤ _ := le_trans (by rw [List.length_cons]; omega) hminused
    rcases hinsert.resize hfits with ⟨hresize, hlt⟩
    refine ⟨hresize, ?_⟩
    omega

/-- The table of a set has its elements, and more slots than elements. -/
theorem table_holds (l : List ℕ) :
    Holds (table l) l ∧ l.length * 5 < ((table l).length - 1) * 3 := by
  induction l using List.reverseRecOn with
  | nil => exact ⟨holds_replicate 3, by decide⟩
  | append_singleton l x ih =>
    have hstep : table (l ++ [x]) = HashTable.add (table l) x := by simp [table]
    rcases ih.1.add ih.2 x with ⟨hholds, hroom⟩
    rw [hstep]
    refine ⟨hholds.of_perm (List.perm_append_singleton x l).symm, ?_⟩
    simpa using hroom

/-! ## The order -/

/-- Slots whose elements follow a key are in the order of the key. -/
theorem pairwise_reduceOption {key : ℕ → ℕ} {start : ℕ}
    (h : ∀ i y, slots[i]? = some (some y) → key y = start + i) :
    slots.reduceOption.Pairwise fun y z => key y < key z := by
  induction slots generalizing start with
  | nil => exact List.Pairwise.nil
  | cons slot slots ih =>
    have hrest : ∀ i y, slots[i]? = some (some y) → key y = start + 1 + i := by
      intro i y hi
      rw [h (i + 1) y hi]
      omega
    cases slot with
    | none => exact ih hrest
    | some y =>
      rw [List.reduceOption_cons_of_some, List.pairwise_cons]
      refine ⟨?_, ih hrest⟩
      intro z hz
      rcases List.mem_iff_getElem?.mp (List.reduceOption_mem_iff.mp hz) with ⟨i, hi⟩
      have hy : key y = start + 0 := h 0 y rfl
      rw [hy, hrest i z hi]
      omega

end Insert

end HashTable

namespace IterationOrder

open HashTable

/-- The order of CPython's sets of natural numbers. -/
def cpython : IterationOrder ℕ := ⟨fun l => (table l).reduceOption, fun l => (table_holds l).1.perm⟩

/-- A set of the first numbers is iterated in ascending order, however it was filled. -/
theorem cpython_range {l : List ℕ} {n : ℕ} (h : l.Perm (List.range n)) :
    cpython.order l = List.range n := by
  rcases table_holds l with ⟨hholds, hroom⟩
  have hlength : l.length = n := by rw [h.length_eq, List.length_range]
  have hhome : ∀ x ∈ l, x % (table l).length = x := by
    intro x hx
    have hlt : x < n := List.mem_range.mp (h.mem_iff.mp hx)
    exact Nat.mod_eq_of_lt (by omega)
  have hnodup : (l.map (· % (table l).length)).Nodup := by
    rw [List.map_congr_left hhome, List.map_id']
    exact h.nodup_iff.mpr List.nodup_range
  have hsorted : (cpython.order l).Pairwise
      fun y z => y % (table l).length < z % (table l).length := by
    have hhomes : ∀ i y, (table l)[i]? = some (some y) → y % (table l).length = 0 + i := by
      intro i y hi
      rw [hholds.atHome hnodup i y hi, Nat.zero_add]
    exact pairwise_reduceOption hhomes
  have hascending : (cpython.order l).Pairwise (· < ·) := by
    refine hsorted.imp_of_mem ?_
    intro y z hy hz hlt
    rwa [hhome y (cpython.mem_order.mp hy), hhome z (cpython.mem_order.mp hz)] at hlt
  exact ((cpython.perm l).trans h).eq_of_pairwise' hascending List.pairwise_lt_range

end IterationOrder

end InterviewPrep
