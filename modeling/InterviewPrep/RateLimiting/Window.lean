import Mathlib.Algebra.Order.Group.Basic
import Mathlib.Algebra.Order.Group.Int
import Mathlib.Data.List.Basic
import InterviewPrep.Lib.Trace
import InterviewPrep.RateLimiting.Model

/-!
# The limiter counts a window

The deque only loses readings from its head, but the readings come in order, so
that after any run it holds exactly the admissions that a later window can still
contain (`Inv`). A call is then admitted by a count over the earlier admissions
(`Inv.answer`), and conversely every list of answers that keeps to that count is
a run (`run_of_counted`). The bound on every interval and the deletion of
rejected calls follow from the count alone.
-/

namespace InterviewPrep.RateLimiting

variable {T : Type*}

/-- The readings of the admitted calls. -/
def admissions (tr : List (T × Bool)) : List T := (tr.filter Prod.snd).map Prod.fst

theorem admissions_append (tr out : List (T × Bool)) :
    admissions (tr ++ out) = admissions tr ++ admissions out := by
  simp [admissions, List.filter_append]

theorem mem_of_mem_admissions {tr : List (T × Bool)} {t : T} (h : t ∈ admissions tr) :
    t ∈ tr.map Prod.fst := by
  simp only [admissions, List.mem_map, List.mem_filter] at h
  rcases h with ⟨x, ⟨hx, -⟩, rfl⟩
  exact List.mem_map_of_mem hx

variable [LinearOrder T]

/-- On readings in order, evicting from the head removes all that is old. -/
theorem evict_eq_filter {cutoff : T} {l : List T} (h : l.Pairwise (· ≤ ·)) :
    evict cutoff l = l.filter (fun t => cutoff < t) := by
  induction l with
  | nil => rfl
  | cons t l ih =>
    rw [List.pairwise_cons] at h
    unfold evict
    split
    · rename_i hold
      rw [ih h.2, List.filter_cons_of_neg (by simpa using hold)]
    · rename_i hnew
      -- what follows the first one that stays is not older
      rw [not_le] at hnew
      have hall : ∀ s ∈ t :: l, cutoff < s := by
        intro s hs
        rcases List.mem_cons.mp hs with rfl | hs
        · exact hnew
        · exact lt_of_lt_of_le hnew (h.1 s hs)
      rw [List.filter_eq_self.mpr (by simpa using hall)]

variable [AddCommGroup T]

/-- How many earlier admissions a call at `t` counts: those in the window that
ends with it. -/
def windowCount (w t : T) (tr : List (T × Bool)) : ℕ :=
  (admissions tr).countP (fun s => t - w < s ∧ s ≤ t)

/-! ## The deque -/

/-- The deque is in order, and agrees with the admissions on every window that
ends at the last reading or later. -/
structure Inv (w : T) (tr : List (T × Bool)) (s : RateLimiter T) : Prop where
  sorted : s.timestamps.Pairwise (· ≤ ·)
  bounded : ∀ t ∈ s.timestamps, t ∈ tr.map Prod.fst
  window : ∀ t, (∀ r ∈ tr.map Prod.fst, r ≤ t) →
    s.timestamps.filter (fun r => t - w < r) = (admissions tr).filter (fun r => t - w < r)

theorem inv_init (w : T) : Inv w [] (⟨[]⟩ : RateLimiter T) := by
  constructor <;> simp [admissions]

section Steps

variable {o : Options T} {tr : List (T × Bool)} {s : RateLimiter T}
  {now : T}

/-- What a call finds in the deque, after the eviction. -/
theorem Inv.evict_eq (h : Inv o.window_seconds tr s) (hnow : ∀ r ∈ tr.map Prod.fst, r ≤ now) :
    evict (now - o.window_seconds) s.timestamps =
      (admissions tr).filter (fun r => now - o.window_seconds < r) := by
  rw [evict_eq_filter h.sorted, h.window now hnow]

theorem Inv.length_evict (h : Inv o.window_seconds tr s)
    (hnow : ∀ r ∈ tr.map Prod.fst, r ≤ now) :
    (evict (now - o.window_seconds) s.timestamps).length =
      windowCount o.window_seconds now tr := by
  rw [h.evict_eq hnow, windowCount, ← List.countP_eq_length_filter]
  apply List.countP_congr
  intro r hr
  have hle := hnow r (mem_of_mem_admissions hr)
  simp [hle]

/-- A call is admitted when fewer than `max_requests` are counted. -/
theorem Inv.answer (h : Inv o.window_seconds tr s)
    (hnow : ∀ r ∈ tr.map Prod.fst, r ≤ now) :
    (allow_request o s now).2 =
      decide ((windowCount o.window_seconds now tr : ℤ) < o.max_requests) := by
  simp only [allow_request, h.length_evict hnow]
  split
  · rename_i hlt
    simp [hlt]
  · rename_i hlt
    simp [hlt]

variable [IsOrderedAddMonoid T]

/-- A later window starts later. -/
theorem filter_window {l : List T} {w t : T} (hle : now ≤ t) :
    (l.filter (fun r => now - w < r)).filter (fun r => t - w < r) =
      l.filter (fun r => t - w < r) := by
  rw [List.filter_filter]
  apply List.filter_congr
  intro r _
  have himp : t - w < r → now - w < r := fun hlt =>
    lt_of_le_of_lt (sub_le_sub_right hle w) hlt
  by_cases hr : t - w < r
  · simp [hr, himp hr]
  · simp [hr]

theorem inv_step (h : Inv o.window_seconds tr s) (hnow : ∀ r ∈ tr.map Prod.fst, r ≤ now) :
    Inv o.window_seconds (tr ++ [(now, (allow_request o s now).2)])
      (allow_request o s now).1 := by
  have hevict := h.evict_eq hnow
  have hkept : ∀ r ∈ evict (now - o.window_seconds) s.timestamps, r ∈ tr.map Prod.fst := by
    intro r hr
    rw [hevict, List.mem_filter] at hr
    exact mem_of_mem_admissions hr.1
  have hsorted : (evict (now - o.window_seconds) s.timestamps).Pairwise (· ≤ ·) := by
    rw [evict_eq_filter h.sorted]
    exact h.sorted.sublist List.filter_sublist
  have hlast : ∀ b t, (∀ r ∈ (tr ++ [(now, b)]).map Prod.fst, r ≤ t) → now ≤ t := by
    intro b t ht
    exact ht now (by simp)
  simp only [allow_request]
  split
  · -- the reading goes to the end
    refine ⟨?_, ?_, ?_⟩
    · refine List.pairwise_append.mpr ⟨hsorted, List.pairwise_singleton _ _, ?_⟩
      intro r hr t ht
      rw [List.mem_singleton.mp ht]
      exact hnow r (hkept r hr)
    · intro t ht
      rw [List.map_append, List.mem_append]
      rcases List.mem_append.mp ht with ht | ht
      · exact Or.inl (hkept t ht)
      · exact Or.inr (by simpa using ht)
    · intro t ht
      have hle := hlast _ t ht
      rw [admissions_append, List.filter_append, List.filter_append, hevict, filter_window hle]
      rfl
  · refine ⟨hsorted, ?_, ?_⟩
    · intro t ht
      rw [List.map_append, List.mem_append]
      exact Or.inl (hkept t ht)
    · intro t ht
      have hle := hlast _ t ht
      rw [admissions_append, List.filter_append, hevict, filter_window hle]
      exact (List.append_nil _).symm

end Steps

/-! ## The count decides -/

/-- The answer to a call, from the calls before it. -/
def Counted (o : Options T) (tr : List (T × Bool)) (call : T × Bool) : Prop :=
  call.2 = true ↔ (windowCount o.window_seconds call.1 tr : ℤ) < o.max_requests

section Runs

variable {o : Options T} {es : List T} {tr tr' : List (T × Bool)}
  {s : RateLimiter T}

theorem machine_step {now : T} {s' : RateLimiter T} {out : List (T × Bool)}
    (h : (machine o).step s now = some (s', out)) :
    s' = (allow_request o s now).1 ∧ out = [(now, (allow_request o s now).2)] := by
  simp only [machine, Option.some.injEq, Prod.mk.injEq] at h
  exact ⟨h.1.symm, h.2.symm⟩

section Ordered

variable [IsOrderedAddMonoid T]

/-- A run over readings in order shows them, keeps the deque, and answers by the
count. -/
theorem inv_run (h : (machine o).Run es tr s) (hmono : es.Pairwise (· ≤ ·)) :
    tr.map Prod.fst = es ∧ Inv o.window_seconds tr s ∧ Along (Counted o) tr := by
  refine h.history_invariant (fun es tr s => es.Pairwise (· ≤ ·) →
    tr.map Prod.fst = es ∧ Inv o.window_seconds tr s ∧ Along (Counted o) tr)
    (fun _ => ⟨rfl, inv_init _, along_nil _⟩) ?_ hmono
  intro es tr s now s' out _ hinv hs hmono
  obtain ⟨hes, -, hlast⟩ := List.pairwise_append.mp hmono
  obtain ⟨hmap, hinv, hcounted⟩ := hinv hes
  obtain ⟨rfl, rfl⟩ := machine_step hs
  have hnow : ∀ r ∈ tr.map Prod.fst, r ≤ now := by
    intro r hr
    rw [hmap] at hr
    exact hlast r hr now (by simp)
  refine ⟨by simp [hmap], inv_step hinv hnow, along_concat.mpr ⟨hcounted, ?_⟩⟩
  rw [Counted, hinv.answer hnow, decide_eq_true_eq]

/-- Answers that keep to the count are those of the run over their readings. -/
theorem run_of_counted (hmono : (tr.map Prod.fst).Pairwise (· ≤ ·))
    (h : Along (Counted o) tr) : ∃ s, (machine o).Run (tr.map Prod.fst) tr s := by
  induction tr using List.reverseRecOn with
  | nil => exact ⟨_, Machine.Run.init⟩
  | append_singleton tr call ih =>
    obtain ⟨now, allowed⟩ := call
    rw [List.map_append] at hmono
    obtain ⟨htr, -, hlast⟩ := List.pairwise_append.mp hmono
    obtain ⟨hcounted, hcall⟩ := along_concat.mp h
    obtain ⟨s, hrun⟩ := ih htr hcounted
    have hnow : ∀ r ∈ tr.map Prod.fst, r ≤ now := fun r hr => hlast r hr now (by simp)
    have hanswer := (inv_run hrun htr).2.1.answer hnow
    have hallowed : (allow_request o s now).2 = allowed := by
      rw [hanswer, Bool.eq_iff_iff, decide_eq_true_eq]
      exact hcall.symm
    have hstep : (machine o).step s now =
        some ((allow_request o s now).1, [(now, allowed)]) := by
      rw [← hallowed]
      rfl
    rw [List.map_append]
    exact ⟨_, hrun.step hstep⟩

end Ordered

/-! ## What follows from the count -/

/-- No set of readings that are less than a window apart holds more than
`max_requests` admissions. -/
theorem countP_admissions_le (hmono : (tr.map Prod.fst).Pairwise (· ≤ ·))
    (h : Along (Counted o) tr) (hmax : 0 ≤ o.max_requests) (p : T → Bool)
    (hp : ∀ r t, p r = true → p t = true → t - o.window_seconds < r) :
    ((admissions tr).countP p : ℤ) ≤ o.max_requests := by
  induction tr using List.reverseRecOn with
  | nil => simpa [admissions] using hmax
  | append_singleton tr call ih =>
    obtain ⟨now, allowed⟩ := call
    rw [List.map_append] at hmono
    obtain ⟨htr, -, hlast⟩ := List.pairwise_append.mp hmono
    obtain ⟨hcounted, hcall⟩ := along_concat.mp h
    have hold := ih htr hcounted
    rw [admissions_append, List.countP_append]
    by_cases hnew : allowed = true ∧ p now = true
    · -- the last admission in the set counted all earlier ones
      have hle : (admissions tr).countP p ≤ windowCount o.window_seconds now tr := by
        apply List.countP_mono_left
        intro r hr hpr
        have hrnow := hlast r (mem_of_mem_admissions hr) now (by simp)
        simp [hp r now hpr hnew.2, hrnow]
      have hlt := hcall.mp hnew.1
      have hone : (admissions [(now, allowed)]).countP p ≤ 1 := by
        simp [admissions, hnew.1, hnew.2]
      simp only at hlt
      omega
    · have hzero : (admissions [(now, allowed)]).countP p = 0 := by
        cases allowed with
        | false => simp [admissions]
        | true =>
          have hpnow : p now = false := by simpa using hnew
          simp [admissions, hpnow]
      omega

omit [AddCommGroup T] [LinearOrder T] in
/-- What is left before a call after rejected calls were deleted has the same
admissions. -/
theorem split_of_sublist (hsub : tr'.Sublist tr)
    (hkept : tr'.filter Prod.snd = tr.filter Prod.snd) {pre' post' : List (T × Bool)}
    {call : T × Bool} (hsplit : tr' = pre' ++ call :: post') :
    ∃ pre post, tr = pre ++ call :: post ∧ admissions pre' = admissions pre := by
  have hsub' := hsub
  rw [hsplit, List.append_sublist_iff] at hsub'
  obtain ⟨left, right, rfl, hleft, hright⟩ := hsub'
  rw [List.cons_sublist_iff] at hright
  obtain ⟨mid, rest, rfl, hmem, hrest⟩ := hright
  obtain ⟨u, v, rfl⟩ := List.append_of_mem hmem
  refine ⟨left ++ u, v ++ rest, by simp, ?_⟩
  have hpre : (pre'.filter Prod.snd).Sublist ((left ++ u).filter Prod.snd) :=
    (hleft.trans (List.sublist_append_left left u)).filter _
  have hpost : ((call :: post').filter Prod.snd).Sublist
      ((call :: v ++ rest).filter Prod.snd) :=
    ((hrest.trans (List.sublist_append_right v rest)).cons_cons call).filter _
  have hall : pre'.filter Prod.snd ++ (call :: post').filter Prod.snd =
      (left ++ u).filter Prod.snd ++ (call :: v ++ rest).filter Prod.snd := by
    rw [← List.filter_append, ← List.filter_append, ← hsplit, hkept]
    simp
  have hlength := congrArg List.length hall
  rw [List.length_append, List.length_append] at hlength
  have hle := hpre.length_le
  have hle' := hpost.length_le
  have heq : pre'.filter Prod.snd = (left ++ u).filter Prod.snd :=
    hpre.eq_of_length (by omega)
  rw [admissions, admissions, heq]

/-- **The sliding window.** For every limit and window and every run of calls
whose readings do not decrease: a call at `t` is admitted exactly when fewer
than `max_requests` earlier calls were admitted in `(t - window_seconds, t]`; no
half-open interval of the length of the window holds more than `max_requests`
admissions; and without any of the rejected calls the other calls are answered
as they were. -/
theorem sliding_window [IsOrderedAddMonoid T] (hmax : 1 ≤ o.max_requests)
    (hrun : (machine o).Run es tr s) (hmono : es.Pairwise (· ≤ ·)) :
    (∀ pre t allowed post, tr = pre ++ (t, allowed) :: post →
      (allowed = true ↔ ((admissions pre).countP
        (fun r => t - o.window_seconds < r ∧ r ≤ t) : ℤ) < o.max_requests)) ∧
    (∀ a, ((admissions tr).countP (fun r => a < r ∧ r ≤ a + o.window_seconds) : ℤ) ≤
        o.max_requests ∧
      ((admissions tr).countP (fun r => a ≤ r ∧ r < a + o.window_seconds) : ℤ) ≤
        o.max_requests) ∧
    (∀ tr', tr'.Sublist tr → tr'.filter Prod.snd = tr.filter Prod.snd →
      ∃ s', (machine o).Run (tr'.map Prod.fst) tr' s') := by
  obtain ⟨rfl, -, hcounted⟩ := inv_run hrun hmono
  refine ⟨?_, ?_, ?_⟩
  · intro pre t allowed post htr
    exact hcounted pre (t, allowed) post htr
  · intro a
    have hbound := countP_admissions_le hmono hcounted (by omega)
    refine ⟨hbound _ ?_, hbound _ ?_⟩
    · intro r t hr ht
      simp only [decide_eq_true_eq] at hr ht
      exact lt_of_le_of_lt (sub_le_iff_le_add.mpr ht.2) hr.1
    · intro r t hr ht
      simp only [decide_eq_true_eq] at hr ht
      exact lt_of_lt_of_le (sub_lt_iff_lt_add.mpr ht.2) hr.1
  · intro tr' hsub hkept
    refine run_of_counted (hmono.sublist (hsub.map Prod.fst)) ?_
    intro pre' call post' hsplit
    obtain ⟨pre, post, htr, hadmissions⟩ := split_of_sublist hsub hkept hsplit
    have hcall := hcounted pre call post htr
    rwa [Counted, windowCount, ← hadmissions] at hcall

end Runs

/-- The example of the question: the call at 30 is limited, the one at 60 is not. -/
theorem sliding_window_question :
    ∃ s, (machine defaults).Run [0, 10, 20, 30, 60]
      [(0, true), (10, true), (20, true), (30, false), (60, true)] s ∧
      ∃ s', (machine defaults).Run [0, 10, 20, 60]
        [(0, true), (10, true), (20, true), (60, true)] s' := by
  have hexec : ((machine defaults).exec [0, 10, 20, 30, 60]).map Prod.snd =
      some [(0, true), (10, true), (20, true), (30, false), (60, true)] := by decide
  obtain ⟨s, tr, hrun, rfl⟩ := Machine.Run.of_exec_map hexec
  have hwindow := sliding_window (by decide) hrun (by decide)
  refine ⟨s, hrun, ?_⟩
  exact hwindow.2.2 [(0, true), (10, true), (20, true), (60, true)] (by decide) (by decide)

end InterviewPrep.RateLimiting
