import Mathlib.Data.List.Pairwise
import InterviewPrep.Lib.WhileLoop

/-!
# First and last match

`firstAndLastMatch` of `dsa/first_and_last_match/answer.ts` and `answer.py`: two
binary searches that go on after a match. In a sorted list the elements below the
target come first, and then the matches, so each round compares the probe with
two numbers, `below` and `upTo` (`body_cases`). TypeScript probes the middle of
the interval, and its loops end with the first and the last match
(`first_and_last_correct`). Python forgets to add `left`.
-/

namespace InterviewPrep.FirstAndLastMatch

/-! ## The program -/

/-- The variables of a search. -/
structure Search where
  left : ℤ
  right : ℤ
  result : ℤ
deriving DecidableEq

/-- The variables before the loop. -/
def Search.start (values : List ℤ) : Search := ⟨0, values.length - 1, -1⟩

/-- `right = mid - 1` -/
def Search.goLeft (s : Search) (mid : ℤ) : Search := { s with right := mid - 1 }

/-- `left = mid + 1` -/
def Search.goRight (s : Search) (mid : ℤ) : Search := { s with left := mid + 1 }

/-- `result = mid` -/
def Search.found (s : Search) (mid : ℤ) : Search := { s with result := mid }

inductive Error where
  | indexError
deriving DecidableEq

/-- The element at an index, if there is one. -/
def at? (values : List ℤ) (i : ℤ) : Option ℤ := if 0 ≤ i then values[i.toNat]? else none

/-- The loop of a search. Languages and searches differ in the probe, in how an element
is read, and in what is done on a match. -/
def searchLoop (midpoint : Search → ℤ) (read : ℤ → Except Error (Option ℤ))
    (onMatch : Search → ℤ → Search) (target : ℤ) : WhileLoop Search Error where
  guard s := s.left ≤ s.right
  body s := do
    let mid := midpoint s
    let value ← read mid
    return if value = some target then onMatch s mid
      else if value.any (fun v => v < target) then s.goRight mid
      else s.goLeft mid

/-- The first search keeps searching left of a match. -/
def keepLeft (s : Search) (mid : ℤ) : Search := (s.found mid).goLeft mid

/-- The last search keeps searching right of a match. -/
def keepRight (s : Search) (mid : ℤ) : Search := (s.found mid).goRight mid

/-- The results of two searches, or nothing where the bound is too small for one. -/
def both (first last : WhileLoop Search Error) (values : List ℤ) (bound : ℕ) :
    Option (Except Error (ℤ × ℤ)) :=
  match first.run bound (Search.start values) with
  | none => none
  | some (.error e) => some (.error e)
  | some (.ok s) =>
    match last.run bound (Search.start values) with
    | none => none
    | some (.error e) => some (.error e)
    | some (.ok t) => some (.ok (s.result, t.result))

namespace TypeScript

/-- `left + Math.floor((right - left) / 2)` -/
def midpoint (s : Search) : ℤ := s.left + (s.right - s.left) / 2

/-- `values[i]`, which is `undefined` outside the array. -/
def read (values : List ℤ) (i : ℤ) : Except Error (Option ℤ) := .ok (at? values i)

def firstSearch (values : List ℤ) (target : ℤ) : WhileLoop Search Error :=
  searchLoop midpoint (read values) keepLeft target

def lastSearch (values : List ℤ) (target : ℤ) : WhileLoop Search Error :=
  searchLoop midpoint (read values) keepRight target

def firstAndLastMatch (values : List ℤ) (target : ℤ) : ℕ → Option (Except Error (ℤ × ℤ)) :=
  both (firstSearch values target) (lastSearch values target) values

end TypeScript

namespace Python

/-- `(right - left) // 2` -/
def midpoint (s : Search) : ℤ := (s.right - s.left) / 2

/-- `values[i]`, which counts negative indices from the end. -/
def read (values : List ℤ) (i : ℤ) : Except Error (Option ℤ) :=
  match at? values (if i < 0 then i + values.length else i) with
  | none => .error .indexError
  | some v => .ok (some v)

def first_search (values : List ℤ) (target : ℤ) : WhileLoop Search Error :=
  searchLoop midpoint (read values) keepLeft target

def last_search (values : List ℤ) (target : ℤ) : WhileLoop Search Error :=
  searchLoop midpoint (read values) keepRight target

def firstAndLastMatch (values : List ℤ) (target : ℤ) : ℕ → Option (Except Error (ℤ × ℤ)) :=
  both (first_search values target) (last_search values target) values

end Python

/-! ## Sorted lists -/

/-- How many elements are below the target. -/
def below (values : List ℤ) (target : ℤ) : ℕ := values.countP (fun v => v < target)

/-- How many elements are at most the target. -/
def upTo (values : List ℤ) (target : ℤ) : ℕ := values.countP (fun v => v ≤ target)

/-- In a sorted list the elements of a downward closed kind come first. -/
theorem getElem?_lt_countP {p : ℤ → Bool} (hp : ∀ a b, a ≤ b → p b = true → p a = true)
    {values : List ℤ} (hsorted : values.Pairwise (· ≤ ·)) {k : ℕ} {v : ℤ}
    (hv : values[k]? = some v) : p v = true ↔ k < values.countP p := by
  induction values generalizing k with
  | nil => simp at hv
  | cons a values ih =>
    rcases List.pairwise_cons.mp hsorted with ⟨ha, hsorted⟩
    by_cases hpa : p a = true
    · rw [List.countP_cons_of_pos hpa]
      cases k with
      | zero =>
        obtain rfl : a = v := by simpa using hv
        simp [hpa]
      | succ k =>
        rw [ih hsorted (by simpa using hv)]
        omega
    · -- nothing behind `a` is of the kind
      have hnone : ∀ b ∈ a :: values, ¬ p b = true := by
        intro b hb hpb
        rcases List.mem_cons.mp hb with rfl | hb
        · exact hpa hpb
        · exact hpa (hp a b (ha b hb) hpb)
      rw [List.countP_eq_zero.mpr hnone]
      exact iff_of_false (hnone v (List.mem_of_getElem? hv)) (Nat.not_lt_zero k)

section Sorted

variable {values : List ℤ} (hsorted : values.Pairwise (· ≤ ·)) (target : ℤ)

theorem below_le_upTo (values : List ℤ) (target : ℤ) : below values target ≤ upTo values target :=
  List.countP_mono_left fun v _ hv => by
    rw [decide_eq_true_eq] at hv ⊢
    omega

theorem upTo_le_length (values : List ℤ) (target : ℤ) : upTo values target ≤ values.length :=
  List.countP_le_length

include hsorted

theorem lt_target_iff {k : ℕ} {v : ℤ} (hv : values[k]? = some v) :
    v < target ↔ k < below values target := by
  rw [below, ← getElem?_lt_countP _ hsorted hv, decide_eq_true_eq]
  intro a b hab hb
  rw [decide_eq_true_eq] at hb ⊢
  omega

theorem le_target_iff {k : ℕ} {v : ℤ} (hv : values[k]? = some v) :
    v ≤ target ↔ k < upTo values target := by
  rw [upTo, ← getElem?_lt_countP _ hsorted hv, decide_eq_true_eq]
  intro a b hab hb
  rw [decide_eq_true_eq] at hb ⊢
  omega

/-- The target is between the two numbers. -/
theorem getElem?_eq_target_iff {k : ℕ} :
    values[k]? = some target ↔ below values target ≤ k ∧ k < upTo values target := by
  constructor
  · intro hv
    have hlt := lt_target_iff hsorted target hv
    have hle := le_target_iff hsorted target hv
    exact ⟨by simpa using hlt, by simpa using hle⟩
  · rintro ⟨hbelow, hupTo⟩
    have hk : k < values.length := lt_of_lt_of_le hupTo (upTo_le_length values target)
    have hv : values[k]? = some values[k] := List.getElem?_eq_getElem hk
    have hlt := lt_target_iff hsorted target hv
    have hle := le_target_iff hsorted target hv
    rw [hv, Option.some.injEq]
    omega

theorem mem_iff_below_lt_upTo : target ∈ values ↔ below values target < upTo values target := by
  rw [List.mem_iff_getElem?]
  simp only [getElem?_eq_target_iff hsorted]
  exact ⟨fun ⟨k, h⟩ => by omega, fun h => ⟨below values target, le_refl _, h⟩⟩

end Sorted

/-! ## One round -/

/-- Within the list, an element is read. -/
def Reads (values : List ℤ) (read : ℤ → Except Error (Option ℤ)) : Prop :=
  ∀ i : ℤ, 0 ≤ i → i < values.length → read i = .ok values[i.toNat]?

theorem TypeScript.reads (values : List ℤ) : Reads values (TypeScript.read values) := by
  intro i h0 _
  rw [TypeScript.read, at?, if_pos h0]

theorem Python.reads (values : List ℤ) : Reads values (Python.read values) := by
  intro i h0 hn
  have hi : i.toNat < values.length := by omega
  rw [Python.read, if_neg (by omega), at?, if_pos h0, List.getElem?_eq_getElem hi]

/-- What a round does whose probe is in the list. -/
theorem body_cases {values : List ℤ} (hsorted : values.Pairwise (· ≤ ·)) (target : ℤ)
    {read : ℤ → Except Error (Option ℤ)} (hread : Reads values read) (midpoint : Search → ℤ)
    (onMatch : Search → ℤ → Search) (s : Search) (h0 : 0 ≤ midpoint s)
    (hn : midpoint s < values.length) :
    ∃ t, (searchLoop midpoint read onMatch target).body s = .ok t ∧
      (below values target ≤ midpoint s ∧ midpoint s < upTo values target ∧
          t = onMatch s (midpoint s) ∨
        midpoint s < below values target ∧ t = s.goRight (midpoint s) ∨
        upTo values target ≤ midpoint s ∧ t = s.goLeft (midpoint s)) := by
  have hi : (midpoint s).toNat < values.length := by omega
  obtain ⟨v, hv⟩ : ∃ v, values[(midpoint s).toNat]? = some v :=
    ⟨_, List.getElem?_eq_getElem hi⟩
  have hlt := lt_target_iff hsorted target hv
  have hle := le_target_iff hsorted target hv
  have hbody : (searchLoop midpoint read onMatch target).body s =
      .ok (if v = target then onMatch s (midpoint s)
        else if v < target then s.goRight (midpoint s) else s.goLeft (midpoint s)) := by
    simp [searchLoop, hread _ h0 hn, hv, bind, Except.bind, pure, Except.pure]
  rw [hbody]
  refine ⟨_, rfl, ?_⟩
  split
  · exact Or.inl ⟨by omega, by omega, rfl⟩
  · split
    · exact Or.inr (Or.inl ⟨by omega, rfl⟩)
    · exact Or.inr (Or.inr ⟨by omega, rfl⟩)

/-! ## The searches in TypeScript -/

namespace TypeScript

variable {values : List ℤ} {target : ℤ} {s : Search}

/-- The rounds that are left: the length of the interval. -/
def interval (s : Search) : ℕ := (s.right - s.left + 1).toNat

/-- The first search knows that the matches start in the interval or right behind it,
and that what it remembers is right behind it. -/
structure FirstInv (values : List ℤ) (target : ℤ) (s : Search) : Prop where
  left : 0 ≤ s.left ∧ s.left ≤ below values target
  right : below values target ≤ s.right + 1 ∧ s.right < values.length
  result : s.result = -1 ∧ upTo values target ≤ s.right + 1 ∨
    s.result = s.right + 1 ∧ below values target ≤ s.result ∧ s.result < upTo values target

/-- The last search knows the same of where the matches end. -/
structure LastInv (values : List ℤ) (target : ℤ) (s : Search) : Prop where
  left : 0 ≤ s.left ∧ s.left ≤ upTo values target
  right : upTo values target ≤ s.right + 1 ∧ s.right < values.length
  result : s.result = -1 ∧ s.left ≤ below values target ∨
    s.result = s.left - 1 ∧ below values target ≤ s.result ∧ s.result < upTo values target

theorem firstInv_start (values : List ℤ) (target : ℤ) :
    FirstInv values target (Search.start values) := by
  have hle := below_le_upTo values target
  have hlen := upTo_le_length values target
  refine ⟨⟨Int.le_refl 0, ?_⟩, ⟨?_, ?_⟩, Or.inl ⟨rfl, ?_⟩⟩ <;> simp only [Search.start] <;> omega

theorem lastInv_start (values : List ℤ) (target : ℤ) :
    LastInv values target (Search.start values) := by
  have hlen := upTo_le_length values target
  refine ⟨⟨Int.le_refl 0, ?_⟩, ⟨?_, ?_⟩, Or.inl ⟨rfl, ?_⟩⟩ <;> simp only [Search.start] <;> omega

/-- The probe is in the interval. -/
theorem midpoint_mem (h : s.left ≤ s.right) : s.left ≤ midpoint s ∧ midpoint s ≤ s.right := by
  unfold midpoint
  omega

/-- What a round of a search does that has an interval left within the list. -/
theorem round_cases (hsorted : values.Pairwise (· ≤ ·)) (onMatch : Search → ℤ → Search)
    (hguard : s.left ≤ s.right) (hleft : 0 ≤ s.left) (hright : s.right < values.length) :
    ∃ t mid, (searchLoop midpoint (read values) onMatch target).body s = .ok t ∧
      s.left ≤ mid ∧ mid ≤ s.right ∧
      (below values target ≤ mid ∧ mid < upTo values target ∧ t = onMatch s mid ∨
        mid < below values target ∧ t = s.goRight mid ∨
        upTo values target ≤ mid ∧ t = s.goLeft mid) := by
  rcases midpoint_mem hguard with ⟨hlow, hhigh⟩
  rcases body_cases hsorted target (reads values) midpoint onMatch s
    (by omega) (by omega) with ⟨t, hbody, hcases⟩
  exact ⟨t, midpoint s, hbody, hlow, hhigh, hcases⟩

theorem FirstInv.round (hsorted : values.Pairwise (· ≤ ·)) (h : FirstInv values target s)
    (hguard : (firstSearch values target).guard s = true) :
    ∃ t, (firstSearch values target).body s = .ok t ∧ FirstInv values target t ∧
      interval t < interval s := by
  rcases h with ⟨⟨hleft0, hleft⟩, ⟨hright, hlen⟩, hresult⟩
  have hle := below_le_upTo values target
  rcases round_cases hsorted keepLeft (of_decide_eq_true hguard) hleft0 hlen with
    ⟨t, mid, hbody, hlow, hhigh, hcases⟩
  refine ⟨t, hbody, ?_⟩
  rcases hcases with ⟨hb, hu, rfl⟩ | ⟨hb, rfl⟩ | ⟨hu, rfl⟩
  · -- a match
    refine ⟨⟨?_, ?_, ?_⟩, ?_⟩ <;>
      simp only [keepLeft, Search.found, Search.goLeft, interval] <;> omega
  · refine ⟨⟨?_, ?_, ?_⟩, ?_⟩ <;> simp only [Search.goRight, interval] <;> omega
  · refine ⟨⟨?_, ?_, ?_⟩, ?_⟩ <;> simp only [Search.goLeft, interval] <;> omega

theorem LastInv.round (hsorted : values.Pairwise (· ≤ ·)) (h : LastInv values target s)
    (hguard : (lastSearch values target).guard s = true) :
    ∃ t, (lastSearch values target).body s = .ok t ∧ LastInv values target t ∧
      interval t < interval s := by
  rcases h with ⟨⟨hleft0, hleft⟩, ⟨hright, hlen⟩, hresult⟩
  have hle := below_le_upTo values target
  rcases round_cases hsorted keepRight (of_decide_eq_true hguard) hleft0 hlen with
    ⟨t, mid, hbody, hlow, hhigh, hcases⟩
  refine ⟨t, hbody, ?_⟩
  rcases hcases with ⟨hb, hu, rfl⟩ | ⟨hb, rfl⟩ | ⟨hu, rfl⟩
  · -- a match
    refine ⟨⟨?_, ?_, ?_⟩, ?_⟩ <;>
      simp only [keepRight, Search.found, Search.goRight, interval] <;> omega
  · refine ⟨⟨?_, ?_, ?_⟩, ?_⟩ <;> simp only [Search.goRight, interval] <;> omega
  · refine ⟨⟨?_, ?_, ?_⟩, ?_⟩ <;> simp only [Search.goLeft, interval] <;> omega

/-- At the end the first search remembers the first match. -/
theorem FirstInv.done (h : FirstInv values target s)
    (hguard : (firstSearch values target).guard s = false) :
    s.result = if below values target < upTo values target then (below values target : ℤ)
      else -1 := by
  rcases h with ⟨⟨-, hleft⟩, ⟨hright, -⟩, hresult⟩
  have hempty : ¬ s.left ≤ s.right := of_decide_eq_false hguard
  split <;> omega

/-- At the end the last search remembers the last match. -/
theorem LastInv.done (h : LastInv values target s)
    (hguard : (lastSearch values target).guard s = false) :
    s.result = if below values target < upTo values target then (upTo values target : ℤ) - 1
      else -1 := by
  rcases h with ⟨⟨-, hleft⟩, ⟨hright, -⟩, hresult⟩
  have hempty : ¬ s.left ≤ s.right := of_decide_eq_false hguard
  split <;> omega

end TypeScript

/-- The answer: no match and `(-1, -1)`, or the least and the greatest index of a
match. -/
def FirstAndLast (values : List ℤ) (target : ℤ) (answer : ℤ × ℤ) : Prop :=
  target ∉ values ∧ answer = (-1, -1) ∨
    ∃ i j : ℕ, answer = (↑i, ↑j) ∧ values[i]? = some target ∧ values[j]? = some target ∧
      ∀ k, values[k]? = some target → i ≤ k ∧ k ≤ j

theorem firstAndLast_of_counts {values : List ℤ} (hsorted : values.Pairwise (· ≤ ·)) {target : ℤ}
    {i j : ℤ}
    (hi : i = if below values target < upTo values target then (below values target : ℤ) else -1)
    (hj : j = if below values target < upTo values target then (upTo values target : ℤ) - 1
      else -1) : FirstAndLast values target (i, j) := by
  have hmatch : ∀ k, values[k]? = some target ↔ below values target ≤ k ∧ k < upTo values target :=
    fun k => getElem?_eq_target_iff hsorted target
  by_cases h : below values target < upTo values target
  · rw [if_pos h] at hi hj
    refine Or.inr ⟨below values target, upTo values target - 1, ?_, ?_, ?_, fun k hk => ?_⟩
    · rw [hi, hj]
      apply congrArg (Prod.mk _)
      omega
    · exact (hmatch _).mpr ⟨le_refl _, h⟩
    · exact (hmatch _).mpr (by omega)
    · have hbounds := (hmatch k).mp hk
      omega
  · rw [if_neg h] at hi hj
    exact Or.inl ⟨mt (mem_iff_below_lt_upTo hsorted target).mp h, by rw [hi, hj]⟩

/-- On a sorted list the loops of the TypeScript version end, with a number of rounds
that is at most the length; every index that they read is in range; and the answer is
the first and the last match. -/
theorem first_and_last_correct {values : List ℤ} (hsorted : values.Pairwise (· ≤ ·))
    (target : ℤ) :
    (∀ bound, values.length < bound → ∃ answer,
      TypeScript.firstAndLastMatch values target bound = some (.ok answer) ∧
        FirstAndLast values target answer) ∧
    ∀ loop ∈ [TypeScript.firstSearch values target, TypeScript.lastSearch values target],
      ∀ s, loop.Visits (Search.start values) s → loop.guard s = true →
        0 ≤ TypeScript.midpoint s ∧ TypeScript.midpoint s < values.length := by
  have hfirst := TypeScript.firstInv_start values target
  have hlast := TypeScript.lastInv_start values target
  constructor
  · intro bound hbound
    have hstart : TypeScript.interval (Search.start values) < bound := by
      simp only [TypeScript.interval, Search.start]
      omega
    rcases WhileLoop.returns_of_variant
      (fun s h hguard => TypeScript.FirstInv.round hsorted h hguard) hfirst hstart with
      ⟨s, hs, hsinv, hsdone⟩
    rcases WhileLoop.returns_of_variant
      (fun s h hguard => TypeScript.LastInv.round hsorted h hguard) hlast hstart with
      ⟨t, ht, htinv, htdone⟩
    refine ⟨(s.result, t.result), ?_, firstAndLast_of_counts hsorted (hsinv.done hsdone)
      (htinv.done htdone)⟩
    rw [TypeScript.firstAndLastMatch, both, hs]
    simp only [ht]
  · intro loop hloop s hvisits hguard
    have hprobe : 0 ≤ s.left → s.right < values.length → s.left ≤ s.right →
        0 ≤ TypeScript.midpoint s ∧ TypeScript.midpoint s < values.length := by
      intro h0 hn hle
      rcases TypeScript.midpoint_mem hle with ⟨hlow, hhigh⟩
      omega
    rcases List.mem_cons.mp hloop with rfl | hloop
    · have hinv := WhileLoop.invariant_of_visits (fun s h hguard =>
        (TypeScript.FirstInv.round hsorted h hguard).imp fun t ht => ⟨ht.1, ht.2.1⟩) hfirst hvisits
      exact hprobe hinv.left.1 hinv.right.2 (of_decide_eq_true hguard)
    · rcases List.mem_singleton.mp hloop with rfl
      have hinv := WhileLoop.invariant_of_visits (fun s h hguard =>
        (TypeScript.LastInv.round hsorted h hguard).imp fun t ht => ⟨ht.1, ht.2.1⟩) hlast hvisits
      exact hprobe hinv.left.1 hinv.right.2 (of_decide_eq_true hguard)

/-- The first example of the question. -/
theorem first_and_last_correct_duplicates :
    (∀ bound, [1, 2, 2, 2, 4].length < bound → ∃ answer,
      TypeScript.firstAndLastMatch [1, 2, 2, 2, 4] 2 bound = some (.ok answer) ∧
        FirstAndLast [1, 2, 2, 2, 4] 2 answer) ∧
    ∀ loop ∈ [TypeScript.firstSearch [1, 2, 2, 2, 4] 2, TypeScript.lastSearch [1, 2, 2, 2, 4] 2],
      ∀ s, loop.Visits (Search.start [1, 2, 2, 2, 4]) s → loop.guard s = true →
        0 ≤ TypeScript.midpoint s ∧
          TypeScript.midpoint s < (([1, 2, 2, 2, 4] : List ℤ).length : ℤ) :=
  first_and_last_correct (by decide : List.Pairwise (· ≤ ·) [(1 : ℤ), 2, 2, 2, 4]) 2

end InterviewPrep.FirstAndLastMatch
