import InterviewPrep.DocumentBatch.TypeScript

/-!
# Document batch in Python

`extract_batch` of `technical/concurrent_document_batch/question.md`. `gather` makes
one task for each document, in order; all of them pass through one `asyncio.Semaphore`.

The semaphore is that of CPython: `acquire` waits behind everybody who waits
already, `release` wakes the first one that sleeps and takes the value back for it,
and who was woken wakes the next one, if there is still something left. A batch that
its caller cancels, and with it the tasks, is left out.
-/

namespace InterviewPrep.DocumentBatch.Python

/-- What `await extract(..)` comes to. -/
inductive Extraction (V : Type) where
  | value (v : V)
  /-- it raises an `Exception` -/
  | exception
  /-- it raises `CancelledError`, which is no `Exception` -/
  | cancelled
deriving DecidableEq

variable {V : Type}

/-- What `run_one` returns, unless it raises. -/
def outcome (doc : Doc) : Extraction V → Option (Outcome V)
  | .value v => some (.succeeded doc.id v)
  | .exception => some (.failed doc.id "extraction failed")
  | .cancelled => none

/-- The value of the semaphore, if `limit` is accepted. -/
def permits (limit : ℤ) : Option ℕ := if limit < 1 then none else some limit.toNat

theorem permits_pos {limit : ℤ} {n : ℕ} (h : permits limit = some n) : 0 < n := by
  rw [permits] at h
  split at h
  · cases h
  · cases h
    omega

/-- A task of `run_one`. -/
inductive Task (V : Type) where
  | created
  /-- in `acquire` -/
  | waiting
  /-- `await extract(doc["text"])` -/
  | extracting
  | settled (r : Extraction V)
  | done (r : Extraction V)

structure Batch (V : Type) where
  /-- the number of tasks that have made their first step -/
  started : ℕ
  /-- `semaphore._value` -/
  value : ℕ
  /-- `semaphore._waiters`: those whose future is done, and those who sleep -/
  woken : List ℕ
  sleeping : List ℕ
  tasks : List (Task V)

inductive Event (V : Type) where
  /-- the next task makes its first step; `sync` is what the extraction comes to, if
  it does not have to wait -/
  | startTask (sync : Option (Extraction V))
  /-- the first task that was woken resumes -/
  | wake (sync : Option (Extraction V))
  | settle (i : ℕ) (r : Extraction V)
  /-- a task resumes behind its extraction, and ends -/
  | resume (i : ℕ)

abbrev Obs (V : Type) := BoundedBatch.Obs (Extraction V)

namespace Batch

/-- `semaphore._wake_up_next()` -/
def wakeNext (s : Batch V) : Batch V :=
  match s.sleeping with
  | [] => s
  | i :: rest => { s with value := s.value - 1, woken := s.woken ++ [i], sleeping := rest }

/-- The end of `acquire` for a task that was woken. -/
def passOn (s : Batch V) : Batch V := if 0 < s.value then s.wakeNext else s

/-- `semaphore.release()` -/
def release (s : Batch V) : Batch V := { s with value := s.value + 1 }.wakeNext

def setTask (s : Batch V) (i : ℕ) (x : Task V) : Batch V := { s with tasks := s.tasks.set i x }

/-- The body of `async with semaphore`. -/
def enter (s : Batch V) (i : ℕ) : Option (Extraction V) → Batch V × List (Obs V)
  | none => (s.setTask i .extracting, [.started i])
  | some r => ((s.setTask i (.done r)).release, [.started i, .settled i r])

end Batch

def step (s : Batch V) : Event V → Option (Batch V × List (Obs V))
  | .startTask sync =>
    if s.started < s.tasks.length then
      -- `semaphore.locked()`
      if s.value = 0 ∨ s.woken ≠ [] ∨ s.sleeping ≠ [] then
        some
          ({ s with
              started := s.started + 1
              sleeping := s.sleeping ++ [s.started]
              tasks := s.tasks.set s.started .waiting },
            [])
      else
        some ({ s with started := s.started + 1, value := s.value - 1 }.enter s.started sync)
    else none
  | .wake sync =>
    match s.woken with
    | [] => none
    | i :: rest => some ({ s with woken := rest }.passOn.enter i sync)
  | .settle i r =>
    match s.tasks[i]? with
    | some .extracting => some (s.setTask i (.settled r), [.settled i r])
    | _ => none
  | .resume i =>
    match s.tasks[i]? with
    | some (.settled r) => some ((s.setTask i (.done r)).release, [])
    | _ => none

/-- A call with a semaphore of `limit`. -/
def machine (docs : List Doc) (V : Type) (limit : ℕ) : Machine (Batch V) (Event V) (Obs V) where
  init := ⟨0, limit, [], [], List.replicate docs.length .created⟩
  step := step

/-- What a task contributes to the list that `gather` returns. -/
def Task.result? (doc : Doc) : Task V → Option (Outcome V)
  | done r => outcome doc r
  | _ => none

/-- `gather` returns once every task has returned. -/
def Batch.gathered (docs : List Doc) (s : Batch V) : Option (List (Outcome V)) :=
  (docs.zipWith (fun doc x => x.result? doc) s.tasks).mapM id

/-- `gather` raises once a task has raised. -/
def Batch.raised (s : Batch V) : Prop := .done .cancelled ∈ s.tasks

/-! ## What a step does -/

/-- The changes of one step. -/
inductive Step (s : Batch V) : Event V → Batch V → List (Obs V) → Prop where
  | queue {sync : Option (Extraction V)} : s.started < s.tasks.length →
      s.value = 0 ∨ s.woken ≠ [] ∨ s.sleeping ≠ [] →
      Step s (.startTask sync)
        { s with
          started := s.started + 1
          sleeping := s.sleeping ++ [s.started]
          tasks := s.tasks.set s.started .waiting }
        []
  | acquire {sync : Option (Extraction V)} : s.started < s.tasks.length → 0 < s.value →
      s.woken = [] → s.sleeping = [] →
      Step s (.startTask sync)
        ({ s with started := s.started + 1, value := s.value - 1 }.enter s.started sync).1
        ({ s with started := s.started + 1, value := s.value - 1 }.enter s.started sync).2
  | wake {sync : Option (Extraction V)} {i : ℕ} {rest : List ℕ} : s.woken = i :: rest →
      Step s (.wake sync) ({ s with woken := rest }.passOn.enter i sync).1
        ({ s with woken := rest }.passOn.enter i sync).2
  | settle {i : ℕ} {r : Extraction V} : s.tasks[i]? = some .extracting →
      Step s (.settle i r) (s.setTask i (.settled r)) [.settled i r]
  | resume {i : ℕ} {r : Extraction V} : s.tasks[i]? = some (.settled r) →
      Step s (.resume i) (s.setTask i (.done r)).release []

theorem step_cases {s s' : Batch V} {e : Event V} {out : List (Obs V)}
    (h : step s e = some (s', out)) : Step s e s' out := by
  cases e with
  | startTask sync =>
    simp only [step] at h
    split at h
    · rename_i hstarted
      split at h
      · rename_i hlocked
        cases h
        exact .queue hstarted hlocked
      · rename_i hfree
        simp only [not_or, not_not] at hfree
        have hstep : Step s (.startTask sync) _ _ :=
          .acquire hstarted (Nat.pos_of_ne_zero hfree.1) hfree.2.1 hfree.2.2
        rw [Option.some.inj h] at hstep
        exact hstep
    · cases h
  | wake sync =>
    simp only [step] at h
    split at h
    · cases h
    · rename_i i rest hwoken
      have hstep : Step s (.wake sync) _ _ := .wake hwoken
      rw [Option.some.inj h] at hstep
      exact hstep
  | settle i r =>
    simp only [step] at h
    split at h
    · rename_i hi
      cases h
      exact .settle hi
    · cases h
  | resume i =>
    simp only [step] at h
    split at h
    · rename_i r hi
      cases h
      exact .resume hi
    · cases h

theorem Step.eq {docs : List Doc} {limit : ℕ} {s s' : Batch V} {e : Event V} {out : List (Obs V)}
    (h : Step s e s' out) : (machine docs V limit).step s e = some (s', out) := by
  cases h with
  | queue hstarted hlocked => simp [machine, step, hstarted, hlocked]
  | acquire hstarted hvalue hwoken hsleeping =>
    simp [machine, step, hstarted, hvalue.ne', hwoken, hsleeping]
  | wake hwoken => simp only [machine, step, hwoken]
  | settle hi => simp [machine, step, hi]
  | resume hi => simp [machine, step, hi]

/-! ## The bounded batch -/

def Task.status : Task V → BoundedBatch.Status (Extraction V)
  | created => .idle
  | waiting => .idle
  | extracting => .running
  | settled r => .settled r
  | done r => .stored r

/-- The tasks process a bounded batch; `d` permits are about to be given back. -/
structure Rel (limit d : ℕ) (s : Batch V) (t : BoundedBatch.State (Extraction V)) : Prop where
  slots : t.slots = s.tasks.map Task.status
  started : s.started ≤ s.tasks.length
  next : t.next ≤ s.started
  /-- those who wait are the next ones, in order -/
  queue : s.woken ++ s.sleeping = List.range' t.next (s.started - t.next)
  /-- every permit is free, or promised to somebody, or in use -/
  permits : s.value + s.woken.length + t.held + d = limit
  created : ∀ i : ℕ, s.started ≤ i → i < s.tasks.length → s.tasks[i]? = some .created
  waiting : ∀ i : ℕ, t.next ≤ i → i < s.started → s.tasks[i]? = some .waiting

/-- Nobody sleeps while a permit is free, unless somebody is about to wake him. -/
def Batch.Awake (s : Batch V) : Prop := s.sleeping ≠ [] → s.value = 0 ∨ s.woken ≠ []

section Refinement

variable {limit d n : ℕ} {s s' : Batch V} {t : BoundedBatch.State (Extraction V)} {i : ℕ}
  {r : Extraction V}

/-! ### The semaphore -/

theorem awake_wakeNext (s : Batch V) : s.wakeNext.Awake := by
  intro hsleeping
  rw [Batch.wakeNext] at hsleeping ⊢
  split
  · -- nobody sleeps
    rename_i hnil
    rw [hnil] at hsleeping
    exact absurd hnil hsleeping
  · exact Or.inr (by simp)

theorem awake_release (s : Batch V) : s.release.Awake := awake_wakeNext _

theorem Rel.wakeNext (h : Rel limit d s t) (hvalue : 0 < s.value) :
    Rel limit d s.wakeNext t := by
  rw [Batch.wakeNext]
  split
  · exact h
  · rename_i i rest hsleeping
    refine ⟨h.slots, h.started, h.next, ?_, ?_, h.created, h.waiting⟩
    · rw [← h.queue, hsleeping]
      simp
    · -- the permit that was free is promised now
      have hpermits := h.permits
      rw [List.length_append, List.length_singleton]
      dsimp only
      omega

theorem Rel.release (h : Rel limit (d + 1) s t) : Rel limit d s.release t := by
  have hfree : Rel limit d { s with value := s.value + 1 } t := by
    refine ⟨h.slots, h.started, h.next, h.queue, ?_, h.created, h.waiting⟩
    have hpermits := h.permits
    dsimp only
    omega
  exact hfree.wakeNext (Nat.succ_pos _)

theorem setTask_wakeNext (s : Batch V) (i : ℕ) (x : Task V) :
    s.wakeNext.setTask i x = (s.setTask i x).wakeNext := by
  cases hsleeping : s.sleeping <;> simp [Batch.wakeNext, Batch.setTask, hsleeping]

/-! ### The tasks -/

theorem Rel.status (h : Rel limit d s t) {x : Task V} (hi : s.tasks[i]? = some x) :
    t.slots[i]? = some x.status := by
  rw [h.slots, List.getElem?_map, hi]
  rfl

/-- A task that is past `acquire` goes on. -/
theorem Rel.setTask (h : Rel limit d s t) {x : Task V} (x' : Task V) (d' : ℕ)
    (hi : s.tasks[i]? = some x) (hcreated : x ≠ .created) (hwaiting : x ≠ .waiting)
    (hheld : (if x.status.held then 1 else 0) + d = (if x'.status.held then 1 else 0) + d') :
    Rel limit d' (s.setTask i x') ⟨t.next, t.slots.set i x'.status⟩ := by
  refine ⟨?_, ?_, h.next, h.queue, ?_, ?_, ?_⟩
  · rw [h.slots, Batch.setTask, List.map_set]
  · rw [Batch.setTask, List.length_set]
    exact h.started
  · -- `d'` makes up for what the task holds more or less
    have hpermits := h.permits
    have hcount := countP_set_add (a := x'.status) BoundedBatch.Status.held (h.status hi)
    rw [BoundedBatch.State.held] at hpermits ⊢
    simp only [Batch.setTask]
    omega
  · intro j hj hlt
    rw [Batch.setTask, List.length_set] at hlt
    have hget := h.created j hj hlt
    have hne : i ≠ j := by
      rintro rfl
      rw [hi] at hget
      exact hcreated (Option.some.inj hget)
    rw [Batch.setTask, List.getElem?_set_ne hne]
    exact hget
  · intro j hj hlt
    have hget := h.waiting j hj hlt
    have hne : i ≠ j := by
      rintro rfl
      rw [hi] at hget
      exact hwaiting (Option.some.inj hget)
    rw [Batch.setTask, List.getElem?_set_ne hne]
    exact hget

/-- The next task gets past `acquire`, with a permit that was taken for it. -/
theorem Rel.extract (hslots : t.slots = s.tasks.map Task.status)
    (hlt : i < s.started) (hstarted : s.started ≤ s.tasks.length)
    (hidle : t.slots[i]? = some .idle)
    (hqueue : s.woken ++ s.sleeping = List.range' (i + 1) (s.started - (i + 1)))
    (hpermits : s.value + s.woken.length + t.held + 1 = limit)
    (hcreated : ∀ j : ℕ, s.started ≤ j → j < s.tasks.length → s.tasks[j]? = some .created)
    (hwaiting : ∀ j : ℕ, i < j → j < s.started → s.tasks[j]? = some .waiting) :
    Rel limit 0 (s.setTask i .extracting) ⟨i + 1, t.slots.set i .running⟩ := by
  refine ⟨?_, ?_, hlt, hqueue, ?_, ?_, ?_⟩
  · rw [hslots, Batch.setTask, List.map_set]
    rfl
  · rw [Batch.setTask, List.length_set]
    exact hstarted
  · have hcount := countP_set_add (a := .running) BoundedBatch.Status.held hidle
    simp only [BoundedBatch.Status.held, if_true, Bool.false_eq_true, if_false,
      Nat.add_zero] at hcount
    rw [BoundedBatch.State.held] at hpermits ⊢
    simp only [Batch.setTask]
    omega
  · intro j hj hlen
    rw [Batch.setTask, List.length_set] at hlen
    rw [Batch.setTask, List.getElem?_set_ne (hlt.trans_le hj).ne]
    exact hcreated j hj hlen
  · intro j hj hlen
    rw [Batch.setTask, List.getElem?_set_ne (Nat.lt_of_succ_le hj).ne]
    exact hwaiting j hj hlen

/-- The body of `async with semaphore`: the extraction starts, and if it does not have
to wait, it settles and gives the permit back. -/
theorem Rel.enter (h : Rel limit 0 (s.setTask i .extracting) ⟨i + 1, t.slots.set i .running⟩)
    (hawake : s.Awake) (hlt : i < s.tasks.length)
    (hstart : BoundedBatch.Step limit t .start ⟨i + 1, t.slots.set i .running⟩ [.started i])
    (sync : Option (Extraction V)) :
    ∃ fs t', (BoundedBatch.machine (Extraction V) n limit).execFrom t fs =
        some (t', (s.enter i sync).2) ∧
      Rel limit 0 (s.enter i sync).1 t' ∧ (s.enter i sync).1.Awake := by
  cases sync with
  | none => exact ⟨[.start], _, Machine.execFrom_singleton hstart.eq, h, hawake⟩
  | some r =>
    have hextracting : (s.setTask i .extracting).tasks[i]? = some .extracting :=
      List.getElem?_set_self hlt
    have hsettle : BoundedBatch.Step limit ⟨i + 1, t.slots.set i .running⟩ (.settle i r) _ _ :=
      .settle (h.status hextracting)
    -- the extraction settles in the same step, and the task ends in it
    have hsettled := h.setTask (.settled r) 0 hextracting (by simp) (by simp) rfl
    have hsettledTask : ((s.setTask i .extracting).setTask i (.settled r)).tasks[i]? =
        some (.settled r) := getElem?_set_of_some hextracting
    have hstore : BoundedBatch.Step limit
        ⟨i + 1, (t.slots.set i .running).set i (.settled r)⟩ (.store i) _ _ :=
      .store (hsettled.status hsettledTask)
    have hdone := hsettled.setTask (.done r) 1 hsettledTask (by simp) (by simp) rfl
    have hset : ((s.setTask i .extracting).setTask i (.settled r)).setTask i (.done r) =
        s.setTask i (.done r) := by
      simp [Batch.setTask, List.set_set]
    rw [hset] at hdone
    exact ⟨[.start, .settle i r, .store i], _,
      Machine.execFrom_cons hstart.eq
        (Machine.execFrom_cons hsettle.eq (Machine.execFrom_singleton hstore.eq)),
      hdone.release, awake_release _⟩

theorem Rel.waits (h : Rel limit d s t) (hstarted : s.started < s.tasks.length) :
    Rel limit d
      { s with
        started := s.started + 1
        sleeping := s.sleeping ++ [s.started]
        tasks := s.tasks.set s.started .waiting }
      t := by
  have hcreated := h.created s.started (Nat.le_refl _) hstarted
  have hnext := h.next
  refine ⟨?_, ?_, Nat.le_succ_of_le hnext, ?_, h.permits, ?_, ?_⟩
  · -- a task that waits is idle in the abstract batch, as before
    have hidle := h.status hcreated
    rw [h.slots] at hidle ⊢
    rw [List.map_set]
    exact (set_eq_self hidle).symm
  · rw [List.length_set]
    exact hstarted
  · rw [← List.append_assoc, h.queue, Nat.succ_sub hnext, List.range'_1_concat]
    congr
    omega
  · intro i hi hlt
    rw [List.length_set] at hlt
    rw [List.getElem?_set_ne (Nat.lt_of_succ_le hi).ne]
    exact h.created i (Nat.le_of_succ_le hi) hlt
  · intro i hi hlt
    -- it waits at the end of the queue
    by_cases heq : i = s.started
    · subst heq
      exact List.getElem?_set_self hstarted
    · rw [List.getElem?_set_ne (Ne.symm heq)]
      exact h.waiting i hi (by dsimp only at hlt; omega)

theorem rel_step (h : Rel limit 0 s t) (hawake : s.Awake) {e : Event V} {out : List (Obs V)}
    (hs : step s e = some (s', out)) :
    ∃ fs t', (BoundedBatch.machine (Extraction V) n limit).execFrom t fs = some (t', out) ∧
      Rel limit 0 s' t' ∧ s'.Awake := by
  cases step_cases hs with
  | queue hstarted hlocked =>
    -- the queue was locked, so that the new sleeper is no exception
    refine ⟨[], t, rfl, h.waits hstarted, fun _ => ?_⟩
    rcases hlocked with hvalue | hwoken | hsleeping
    · exact Or.inl hvalue
    · exact Or.inr hwoken
    · exact hawake hsleeping
  | @acquire sync hstarted hvalue hwoken hsleeping =>
    have hcreated := h.created s.started (Nat.le_refl _) hstarted
    have hidle := h.status hcreated
    -- nobody waits, so that every task that made its first step is past `acquire`
    have hnext : t.next = s.started := by
      have hqueue := h.queue
      rw [hwoken, hsleeping, List.nil_append, eq_comm, List.range'_eq_nil_iff] at hqueue
      have hle := h.next
      omega
    have hpermits := h.permits
    rw [hwoken, List.length_nil] at hpermits
    have hextract : Rel limit 0
        (Batch.setTask { s with started := s.started + 1, value := s.value - 1 } s.started
          .extracting) ⟨s.started + 1, t.slots.set s.started .running⟩ := by
      refine Rel.extract h.slots (Nat.lt_succ_self _) hstarted hidle ?_ ?_ ?_ ?_
      · simp [hwoken, hsleeping]
      · simp only [hwoken, List.length_nil]
        omega
      · intro j hj hlt
        exact h.created j (Nat.le_of_succ_le hj) hlt
      · intro j hj hlt
        dsimp only at hlt
        omega
    have hstart : BoundedBatch.Step limit t .start _ _ :=
      .start (hnext ▸ (List.getElem?_eq_some_iff.mp hidle).1) (by omega)
    rw [hnext] at hstart
    exact hextract.enter (by simp [Batch.Awake, hsleeping]) hstarted hstart sync
  | @wake sync i rest hwoken =>
    have hqueue := h.queue
    rw [hwoken, List.cons_append] at hqueue
    -- the one who was woken is the next of the queue
    have hlt : t.next < s.started := by
      by_contra hle
      rw [Nat.sub_eq_zero_of_le (Nat.not_lt.mp hle)] at hqueue
      cases hqueue
    rw [← Nat.succ_pred_eq_of_pos (Nat.sub_pos_of_lt hlt), List.range'_succ,
      List.cons.injEq] at hqueue
    rcases hqueue with ⟨rfl, hqueue⟩
    have hwaiting := h.waiting t.next (Nat.le_refl _) hlt
    have hidle := h.status hwaiting
    have hpermits := h.permits
    rw [hwoken, List.length_cons] at hpermits
    have hextract : Rel limit 0 (Batch.setTask { s with woken := rest } t.next .extracting)
        ⟨t.next + 1, t.slots.set t.next .running⟩ := by
      refine Rel.extract h.slots hlt h.started hidle ?_ ?_ h.created ?_
      · rw [hqueue]
        congr 1
      · dsimp only
        omega
      · intro j hj hlen
        exact h.waiting j hj.le hlen
    have hstart : BoundedBatch.Step limit t .start _ _ :=
      .start (List.getElem?_eq_some_iff.mp hidle).1 (by omega)
    rw [Batch.passOn]
    split
    · rename_i hvalue
      -- a permit is left, and goes to the next sleeper
      have hpassed := hextract.wakeNext hvalue
      rw [← setTask_wakeNext] at hpassed
      have hlength : (Batch.wakeNext { s with woken := rest }).tasks = s.tasks := by
        rw [Batch.wakeNext]
        split <;> rfl
      refine hpassed.enter (awake_wakeNext _) ?_ hstart sync
      rw [hlength]
      exact (List.getElem?_eq_some_iff.mp hwaiting).1
    · rename_i hvalue
      exact hextract.enter (fun _ => Or.inl (Nat.eq_zero_of_not_pos hvalue))
        (List.getElem?_eq_some_iff.mp hwaiting).1 hstart sync
  | @settle i r hi =>
    -- the permit is given back when the task resumes, not here
    have hsettle : BoundedBatch.Step limit t (.settle i r) _ _ := .settle (h.status hi)
    exact ⟨[.settle i r], _, Machine.execFrom_singleton hsettle.eq,
      h.setTask (.settled r) 0 hi (by simp) (by simp) rfl, hawake⟩
  | @resume i r hi =>
    have hstore : BoundedBatch.Step limit t (.store i) _ _ := .store (h.status hi)
    exact ⟨[.store i], _, Machine.execFrom_singleton hstore.eq,
      (h.setTask (.done r) 1 hi (by simp) (by simp) rfl).release, awake_release _⟩

variable {docs : List Doc} {es : List (Event V)} {tr : List (Obs V)}

/-- The tasks of a batch and a bounded batch for them. -/
structure Simulated (docs : List Doc) (limit : ℕ) (tr : List (Obs V)) (s : Batch V)
    (t : BoundedBatch.State (Extraction V)) : Prop where
  rel : Rel limit 0 s t
  awake : s.Awake
  length : s.tasks.length = docs.length
  inv : BoundedBatch.Inv docs.length limit tr t

theorem simulated_run (hrun : (machine docs V limit).Run es tr s) :
    ∃ fs t, (BoundedBatch.machine (Extraction V) docs.length limit).Run fs tr t ∧
      Simulated docs limit tr s t := by
  have hsim : ∃ fs t, (BoundedBatch.machine (Extraction V) docs.length limit).Run fs tr t ∧
      Rel limit 0 s t ∧ s.Awake := by
    refine hrun.relate (fun s t => Rel limit 0 s t ∧ s.Awake) ⟨?_, ?_⟩ ?_
    · refine ⟨?_, Nat.zero_le _, Nat.le_refl _, rfl, ?_, ?_, ?_⟩
      · simp [machine, BoundedBatch.machine, Task.status]
      · simp [machine, BoundedBatch.machine, BoundedBatch.State.held, List.countP_replicate,
          BoundedBatch.Status.held]
      · intro i _ hlt
        rw [machine, List.length_replicate] at hlt
        exact List.getElem?_replicate_of_lt hlt
      · rintro i - ⟨⟩
    · rintro hsleeping
      exact absurd rfl hsleeping
    · rintro gs tr s t e s' out - ⟨hrel, hawake⟩ hs
      exact rel_step hrel hawake hs
  rcases hsim with ⟨fs, t, ht, hrel, hawake⟩
  have hinv := BoundedBatch.inv_run ht
  refine ⟨fs, t, ht, hrel, hawake, ?_, hinv⟩
  rw [← hinv.length, hrel.slots, List.length_map]

/-! ## What a batch returns -/

theorem mapM_id_eq_some {α : Type} {xs : List (Option α)} {l : List α} :
    xs.mapM id = some l ↔ xs = l.map some := by
  induction xs generalizing l with
  | nil => cases l <;> simp
  | cons x xs ih =>
    cases l with
    | nil => simp [List.mapM_cons, Option.bind_eq_some_iff]
    | cons y l => simp [List.mapM_cons, Option.bind_eq_some_iff, ih]

theorem Simulated.results (h : Simulated docs limit tr s t) {l : List (Outcome V)}
    (hgathered : s.gathered docs = some l) :
    BoundedBatch.Results tr docs outcome (l.map some) := by
  rw [Batch.gathered, mapM_id_eq_some] at hgathered
  refine ⟨?_, ?_⟩
  · rw [← hgathered, List.length_zipWith, h.length, Nat.min_self]
  · intro i doc hdoc
    have hlt := (List.getElem?_eq_some_iff.mp hdoc).1
    have hexists : ∃ x, s.tasks[i]? = some x :=
      ⟨_, List.getElem?_eq_getElem (h.length.symm ▸ hlt)⟩
    rcases hexists with ⟨x, hi⟩
    have hget : (l.map some)[i]? = some (x.result? doc) := by
      rw [← hgathered, List.getElem?_zipWith, hdoc, hi]
    -- the task has returned, so that its extraction has settled
    cases x with
    | done r => exact ⟨r, (h.inv.outcome i _ (h.rel.status hi) r).mp rfl, hget⟩
    | _ =>
      rw [List.getElem?_map, Option.map_eq_some_iff] at hget
      rcases hget with ⟨o, -, ho⟩
      cases ho

/-- **Batches.** In every run of `extract_batch` each document is extracted at most
once, in input order and never more than `limit` at a time, and the list that
`gather` returns holds one outcome for each document, in input order. -/
theorem extract_batch_contract (hrun : (machine docs V limit).Run es tr s) :
    (∃ slots, BoundedBatch.Contract docs.length limit tr slots) ∧
      ∀ l, s.gathered docs = some l → BoundedBatch.Results tr docs outcome (l.map some) := by
  rcases simulated_run hrun with ⟨fs, t, ht, h⟩
  exact ⟨⟨_, BoundedBatch.contract_run ht⟩, fun _ => h.results⟩

/-! ## Every batch ends -/

/-- The steps that a task will make. -/
def Task.work : Task V → ℕ
  | created => 4
  | waiting => 3
  | extracting => 2
  | settled _ => 1
  | done _ => 0

def Batch.work (s : Batch V) : ℕ := (s.tasks.map Task.work).sum

@[simp] theorem wakeNext_tasks (s : Batch V) : s.wakeNext.tasks = s.tasks := by
  rw [Batch.wakeNext]
  split <;> rfl

@[simp] theorem release_tasks (s : Batch V) : s.release.tasks = s.tasks := wakeNext_tasks _

@[simp] theorem passOn_tasks (s : Batch V) : s.passOn.tasks = s.tasks := by
  rw [Batch.passOn]
  split
  · exact wakeNext_tasks s
  · rfl

theorem setTask_work {x x' : Task V} (hi : s.tasks[i]? = some x) (hlt : x'.work < x.work) :
    ((s.tasks.set i x').map Task.work).sum < s.work := by
  have hsum := sum_map_set (a := x') Task.work hi
  rw [Batch.work]
  omega

theorem enter_work {x : Task V} (hi : s.tasks[i]? = some x) (hx : 2 < x.work)
    (sync : Option (Extraction V)) : (s.enter i sync).1.work < s.work := by
  cases sync with
  | none => exact setTask_work hi hx
  | some r =>
    rw [Batch.work, Batch.enter, release_tasks]
    exact setTask_work hi (Nat.zero_lt_of_lt hx)

theorem Rel.waiting_of_woken (h : Rel limit d s t) {rest : List ℕ} (hwoken : s.woken = i :: rest) :
    s.tasks[i]? = some .waiting := by
  have hmem : i ∈ List.range' t.next (s.started - t.next) := by
    rw [← h.queue, hwoken]
    simp
  rw [List.mem_range'_1] at hmem
  have hnext := h.next
  exact h.waiting i hmem.1 (by omega)

theorem work_step (h : Rel limit 0 s t) {e : Event V} {out : List (Obs V)}
    (hs : step s e = some (s', out)) : s'.work < s.work := by
  cases step_cases hs with
  | queue hstarted hlocked =>
    exact setTask_work (h.created s.started (Nat.le_refl _) hstarted) (Nat.lt_succ_self 3)
  | @acquire sync hstarted =>
    have hcreated := h.created s.started (Nat.le_refl _) hstarted
    exact enter_work (s := { s with started := s.started + 1, value := s.value - 1 }) hcreated
      (Nat.lt_of_sub_eq_succ rfl) sync
  | @wake sync i rest hwoken =>
    have hwaiting := h.waiting_of_woken hwoken
    have htasks : (Batch.passOn { s with woken := rest }).tasks = s.tasks := passOn_tasks _
    -- `passOn` touches no task
    have hlt := enter_work (x := .waiting) (htasks.symm ▸ hwaiting) (Nat.lt_of_sub_eq_succ rfl) sync
    have hwork : (Batch.passOn { s with woken := rest }).work = s.work := by
      rw [Batch.work, htasks, Batch.work]
    exact hlt.trans_eq hwork
  | settle hi => exact setTask_work hi (Nat.lt_succ_self 1)
  | resume hi =>
    rw [Batch.work, release_tasks]
    exact setTask_work hi Nat.zero_lt_one

/-- Some task is not done, and something can happen. -/
theorem exists_step (h : Simulated docs limit tr s t) (hlimit : 0 < limit) {x : Task V}
    (hi : s.tasks[i]? = some x) (hx : ∀ r, x ≠ .done r) :
    ∃ (e : Event V) (s' : Batch V) (out : List (Obs V)), Step s e s' out := by
  -- a task that holds a permit can go on
  have hbusy : ∀ (j : ℕ) y, s.tasks[j]? = some y → y.status.held = true →
      ∃ (e : Event V) (s' : Batch V) (out : List (Obs V)), Step s e s' out := by
    intro j y hy hheld
    cases y with
    | extracting => exact ⟨.settle j .exception, _, _, .settle hy⟩
    | settled r => exact ⟨_, _, _, .resume hy⟩
    | _ => cases hheld
  by_cases hstarted : s.started < s.tasks.length
  · -- the next task makes its first step
    by_cases hfree : 0 < s.value ∧ s.woken = [] ∧ s.sleeping = []
    · exact ⟨.startTask none, _, _, .acquire hstarted hfree.1 hfree.2.1 hfree.2.2⟩
    · refine ⟨.startTask none, _, _, .queue hstarted ?_⟩
      by_contra hlocked
      simp only [not_or, not_not] at hlocked
      exact hfree ⟨Nat.pos_of_ne_zero hlocked.1, hlocked.2⟩
  · by_cases hidle : x.status = .idle
    · -- the task waits; somebody is awake, or all permits are in use
      have hnext := (h.inv.idle i _ (h.rel.status hi)).mp hidle
      have hlt := (List.getElem?_eq_some_iff.mp hi).1
      cases hwoken : s.woken with
      | cons j rest => exact ⟨.wake none, _, _, .wake hwoken⟩
      | nil =>
        have hqueue := h.rel.queue
        rw [hwoken, List.nil_append] at hqueue
        have hsleeping : s.sleeping ≠ [] := by
          rw [hqueue, Ne, List.range'_eq_nil_iff]
          omega
        have hvalue : s.value = 0 := by
          rcases h.awake hsleeping with hvalue | hne
          · exact hvalue
          · exact absurd hwoken hne
        -- then all permits are held, and there is at least one
        have hpermits := h.rel.permits
        rw [hvalue, hwoken, List.length_nil, BoundedBatch.State.held] at hpermits
        have hpos : 0 < t.slots.countP BoundedBatch.Status.held := by omega
        rcases List.countP_pos_iff.mp hpos with ⟨y, hy, hheld⟩
        rw [h.rel.slots, List.mem_map] at hy
        rcases hy with ⟨y, hy, rfl⟩
        rcases List.getElem?_of_mem hy with ⟨j, hj⟩
        exact hbusy j y hj hheld
    · refine hbusy i x hi ?_
      cases x with
      | created => exact absurd rfl hidle
      | waiting => exact absurd rfl hidle
      | extracting => rfl
      | settled r => rfl
      | done r => exact absurd rfl (hx r)

/-- Once all tasks are done, `gather` returns or raises. -/
theorem gathered_or_raised (docs : List Doc) (hdone : ∀ x ∈ s.tasks, ∃ r, x = .done r) :
    (∃ l, s.gathered docs = some l) ∨ s.raised := by
  by_cases hraised : s.raised
  · exact Or.inr hraised
  · left
    have hall : docs.zipWith (fun doc x => Task.result? doc x) s.tasks ∈
        Set.range (List.map some) := by
      rw [Set.range_list_map]
      intro o ho
      rcases List.getElem?_of_mem ho with ⟨i, hi⟩
      rw [List.getElem?_zipWith_eq_some] at hi
      rcases hi with ⟨doc, x, -, hx, rfl⟩
      rcases hdone x (List.mem_of_getElem? hx) with ⟨r, rfl⟩
      cases r with
      | value v => exact ⟨_, rfl⟩
      | exception => exact ⟨_, rfl⟩
      | cancelled => exact absurd (List.mem_of_getElem? hx) hraised
    rcases hall with ⟨l, hl⟩
    exact ⟨l, mapM_id_eq_some.mpr hl.symm⟩

/-- **Every batch ends.** Whatever the order of the steps, the tasks of a batch whose
extractions settle are all done after a bounded number of them, and the batch returns or
raises. -/
theorem extract_batch_ends (V : Type) (docs : List Doc) {limit : ℤ} {n : ℕ}
    (hlimit : permits limit = some n) :
    (machine docs V n).Ends (fun _ _ => True)
      (fun s => (∀ x ∈ s.tasks, ∃ r, x = .done r) ∧
        ((∃ l, s.gathered docs = some l) ∨ s.raised)) := by
  refine ⟨⟨(machine docs V n).init.work, ?_⟩, ?_⟩
  · intro es tr s hrun
    have hle := hrun.length_add_le Batch.work ?_
    · omega
    · intro es tr s e s' out hrun _ hs
      rcases simulated_run hrun.run with ⟨fs, t, -, h⟩
      exact work_step h.rel hs
  · intro es tr s hrun hnot
    rcases simulated_run hrun.run with ⟨fs, t, -, h⟩
    -- a batch that has not ended has a task that is not done
    have hexists : ∃ x ∈ s.tasks, ∀ r, x ≠ .done r := by
      by_contra hnone
      have hdone : ∀ x ∈ s.tasks, ∃ r, x = .done r := by
        intro x hx
        by_contra hdone
        exact hnone ⟨x, hx, fun r hr => hdone ⟨r, hr⟩⟩
      exact hnot ⟨hdone, gathered_or_raised docs hdone⟩
    rcases hexists with ⟨x, hx, hx'⟩
    rcases List.getElem?_of_mem hx with ⟨i, hi⟩
    rcases exists_step h (permits_pos hlimit) hi hx' with ⟨e, s', out, hs⟩
    exact ⟨e, s', out, trivial, hs.eq⟩

end Refinement

/-! ## A batch -/

/-- One permit: the second and the third task wait for it, and the second one fails
without waiting. -/
def threeDocsRun : List (Event ℕ) :=
  [.startTask none, .startTask none, .startTask none, .settle 0 (.value 1), .resume 0,
    .wake (some .exception), .wake none, .settle 2 (.value 3), .resume 2]

theorem extract_batch_contract_threeDocs :
    ∃ tr s, (machine TypeScript.threeDocs ℕ 1).Run threeDocsRun tr s ∧
      (∃ slots, BoundedBatch.Contract 3 1 tr slots) ∧
      s.gathered TypeScript.threeDocs =
        some [.succeeded "a" 1, .failed "b" "extraction failed", .succeeded "c" 3] ∧
      BoundedBatch.Results tr TypeScript.threeDocs outcome
        [some (.succeeded "a" 1), some (.failed "b" "extraction failed"),
          some (.succeeded "c" 3)] := by
  have hexec : ((machine TypeScript.threeDocs ℕ 1).exec threeDocsRun).map
      (fun r => r.1.gathered TypeScript.threeDocs) =
        some (some [.succeeded "a" 1, .failed "b" "extraction failed", .succeeded "c" 3]) := by
    decide +kernel
  rcases Machine.Run.of_exec_map hexec with ⟨s, tr, hrun, hgathered⟩
  rcases extract_batch_contract hrun with ⟨hcontract, hresults⟩
  exact ⟨tr, s, hrun, hcontract, hgathered, hresults _ hgathered⟩

theorem extract_batch_ends_threeDocs :
    (machine TypeScript.threeDocs ℕ 5).Ends (fun _ _ => True)
      (fun s => (∀ x ∈ s.tasks, ∃ r, x = .done r) ∧
        ((∃ l, s.gathered TypeScript.threeDocs = some l) ∨ s.raised)) := by
  have hlimit : permits 5 = some 5 := by decide
  exact extract_batch_ends ℕ TypeScript.threeDocs hlimit

end InterviewPrep.DocumentBatch.Python
