import InterviewPrep.Jobs.Invariant

/-!
# The contract of the job manager

The runs of both sources keep the invariant, so in every state between blocks
the queue, the statuses, the calls in flight and the idempotency keys agree
(`state_invariant`), and a job that is COMPLETED or FAILED stays as it is for
the rest of the run.
-/

namespace InterviewPrep.Jobs

variable {L : Type*} [RetryLimit L]

/-! ## Runs -/

theorem python_inv_run {es : List (Event L)} {tr : List Obs} {s : System L}
    (h : (Python.machine L).Run es tr s) : Inv tr s := by
  refine h.history_invariant (fun _ tr s => Inv tr s) inv_init ?_
  intro es tr s e s' out _ hinv hs
  exact inv_step hinv (python_step hinv.known hs)

/-- The TypeScript source makes no job under the empty id. -/
theorem typescript_created {s s' : System L} {e : Event L} {out : List Obs}
    (h : (TypeScript.machine L).step s e = some (s', out)) : "" ∉ created out := by
  simp only [TypeScript.machine, stepWith] at h
  cases e with
  | enqueue r uuid now =>
    simp only at h
    split at h
    · simp at h
    · rename_i hvalid
      simp only [Option.some.injEq, Prod.mk.injEq] at h
      obtain ⟨-, rfl⟩ := h
      have hne : "" ≠ uuid := by
        rintro rfl
        simp at hvalid
      split
      · simpa [created] using hne
      · simp [created]
  | get_status job_id =>
    simp only [Option.some.injEq, Prod.mk.injEq] at h
    obtain ⟨-, rfl⟩ := h
    simp [created]
  | process_next =>
    simp only at h
    split at h <;> simp only [Option.some.injEq, Prod.mk.injEq] at h <;>
      obtain ⟨-, rfl⟩ := h <;> simp [created]
  | finish call outcome =>
    simp only at h
    split at h
    · simp only [Option.some.injEq, Prod.mk.injEq] at h
      obtain ⟨-, rfl⟩ := h
      simp [created]
    · simp at h

omit [RetryLimit L] in
theorem Inv.nonEmpty {tr : List Obs} {s : System L} (h : Inv tr s) (hne : "" ∉ created tr) :
    NonEmpty s.manager := by
  rw [h.made] at hne
  constructor
  · intro hmem
    exact hne (OrderedDict.mem_keys_iff.mpr (h.known.queue "" hmem))
  · intro key hkey
    exact hne (h.mapped key "" hkey)

theorem typescript_inv_run {es : List (Event L)} {tr : List Obs} {s : System L}
    (h : (TypeScript.machine L).Run es tr s) : Inv tr s ∧ "" ∉ created tr := by
  refine h.history_invariant (fun _ tr s => Inv tr s ∧ "" ∉ created tr)
    ⟨inv_init, by simp [created]⟩ ?_
  rintro es tr s e s' out - ⟨hinv, hne⟩ hs
  have hpython := typescript_step_python (hinv.nonEmpty hne) hs
  refine ⟨inv_step hinv (python_step hinv.known hpython), ?_⟩
  rw [created_append, List.mem_append, not_or]
  exact ⟨hne, typescript_created hs⟩

/-- A block of either source in a state of a run is one of the transitions. -/
theorem run_step {M : Machine (System L) (Event L) Obs}
    (hM : M = Python.machine L ∨ M = TypeScript.machine L) {es : List (Event L)}
    {tr : List Obs} {s : System L} (hrun : M.Run es tr s) :
    Inv tr s ∧ ∀ e out s', M.step s e = some (s', out) → Step s out s' := by
  rcases hM with rfl | rfl
  · have hinv := python_inv_run hrun
    exact ⟨hinv, fun e out s' hs => python_step hinv.known hs⟩
  · obtain ⟨hinv, hne⟩ := typescript_inv_run hrun
    refine ⟨hinv, fun e out s' hs => ?_⟩
    exact python_step hinv.known (typescript_step_python (hinv.nonEmpty hne) hs)

/-! ## Settled jobs -/

/-- COMPLETED or FAILED. -/
def Job.Settled (job : Job L) : Prop := job.status = .completed ∨ job.status = .failed

/-- A block leaves a settled job as it is: it is neither queued nor held. -/
theorem Step.settled {tr : List Obs} {s s' : System L} {out : List Obs} (hinv : Inv tr s)
    (hstep : Step s out s') {job_id : String} {job : Job L}
    (hjob : s.manager.jobs.get? job_id = some job) (hsettled : job.Settled) :
    s'.manager.jobs.get? job_id = some job := by
  have hstatus := _get_status_of_get? hjob
  cases hstep with
  | create hfresh _ =>
    have hne : job_id ≠ _ := fun he => by rw [he, hfresh] at hjob; simp at hjob
    rw [← hjob]
    exact OrderedDict.get?_setItem_of_ne _ _ hne
  | reuse _ _ => exact hjob
  | read => exact hjob
  | idle _ => exact hjob
  | @start head queue _ hqueue _ =>
    have hhead := (hinv.mem_queue_iff head).mp (by simp [hqueue])
    have hne : job_id ≠ head := by
      rintro rfl
      rw [hhead, Option.some.injEq] at hstatus
      rcases hsettled with h | h <;> rw [h] at hstatus <;> simp at hstatus
    rw [← hjob]
    exact OrderedDict.get?_setItem_of_ne _ _ hne
  | @finish call held _ outcome hcall _ =>
    have hheld := (hinv.mem_calls_iff held).mp (List.mem_of_getElem? hcall)
    have hne : job_id ≠ held := by
      rintro rfl
      rw [hheld, Option.some.injEq] at hstatus
      rcases hsettled with h | h <;> rw [h] at hstatus <;> simp at hstatus
    rw [← hjob]
    exact OrderedDict.get?_setItem_of_ne _ _ hne

theorem settled_run {M : Machine (System L) (Event L) Obs}
    (hM : M = Python.machine L ∨ M = TypeScript.machine L) {es fs : List (Event L)}
    {tr tr' : List Obs} {s s' : System L} (hrun : M.Run es tr s)
    (hrest : M.execFrom s fs = some (s', tr')) {job_id : String} {job : Job L}
    (hjob : s.manager.jobs.get? job_id = some job) (hsettled : job.Settled) :
    s'.manager.jobs.get? job_id = some job := by
  induction fs generalizing es tr tr' s with
  | nil =>
    simp only [Machine.execFrom, Option.some.injEq, Prod.mk.injEq] at hrest
    rw [← hrest.1]
    exact hjob
  | cons e fs ih =>
    rcases Machine.execFrom_cons_cases hrest with ⟨s₁, out, tr₁, hs, hrest₁, -⟩
    rcases run_step hM hrun with ⟨hinv, hsteps⟩
    exact ih (hrun.step hs) hrest₁ ((hsteps e out s₁ hs).settled hinv hjob hsettled)

/-! ## The contract -/

/-- What holds between blocks. -/
structure Consistent (tr : List Obs) (s : System L) : Prop where
  /-- No id is queued twice. -/
  queue_nodup : s.manager.queue.Nodup
  /-- The queue holds the ids of the QUEUED jobs. -/
  queue_queued : ∀ job_id,
    job_id ∈ s.manager.queue ↔ s.manager._get_status job_id = some .queued
  /-- What a call in flight holds is PROCESSING. -/
  held_processing : ∀ (call : ℕ) job_id, s.calls[call]? = some (.processing job_id) →
    s.manager._get_status job_id = some .processing
  /-- A PROCESSING job is held by exactly one call. -/
  processing_held : ∀ job_id, s.manager._get_status job_id = some .processing →
    ∃! call : ℕ, s.calls[call]? = some (.processing job_id)
  /-- A key that was used maps to one job, the one every submission with it got. -/
  one_job : ∀ key job_id, key ≠ "" → .enqueued (some key) job_id ∈ tr →
    s.manager.idempotency_map.get? key = some job_id ∧ job_id ∈ s.manager.jobs.keys
  /-- First attempts start in the order in which the jobs were made. -/
  first_attempts : attempted tr <+: created tr

omit [RetryLimit L] in
theorem Inv.consistent {tr : List Obs} {s : System L} (h : Inv tr s) : Consistent tr s := by
  constructor
  · refine List.nodup_iff_count_le_one.mpr fun job_id => ?_
    rw [h.queued]
    split <;> omega
  · exact h.mem_queue_iff
  · intro call job_id hcall
    exact (h.mem_calls_iff job_id).mp (List.mem_of_getElem? hcall)
  · intro job_id hstatus
    obtain ⟨call, hcall⟩ := List.mem_iff_getElem?.mp ((h.mem_calls_iff job_id).mpr hstatus)
    refine ⟨call, hcall, fun call' hcall' => ?_⟩
    refine getElem?_unique_of_count_le_one ?_ hcall' hcall
    rw [h.held, if_pos hstatus]
  · intro key job_id hne hmem
    have hmap := h.submitted key job_id hne hmem
    exact ⟨hmap, h.mapped key job_id hmap⟩
  · rw [h.made, h.fifo]
    exact List.prefix_append _ _

/-- **The state invariant.** For both sources, every interleaving of the blocks
of any number of calls and every outcome of every attempt: in every state
between blocks the queue holds exactly the QUEUED jobs, once each; every
PROCESSING job is held by exactly one call in flight, and no other job is; every
key maps to the one job all its submissions were answered with; first attempts
start in the order of creation; and what is COMPLETED or FAILED never changes
again. -/
theorem state_invariant {M : Machine (System L) (Event L) Obs}
    (hM : M = Python.machine L ∨ M = TypeScript.machine L) {es : List (Event L)}
    {tr : List Obs} {s : System L} (hrun : M.Run es tr s) :
    Consistent tr s ∧
    ∀ fs tr' s', M.execFrom s fs = some (s', tr') → ∀ job_id job,
      s.manager.jobs.get? job_id = some job → job.Settled →
      s'.manager.jobs.get? job_id = some job := by
  refine ⟨(run_step hM hrun).1.consistent, ?_⟩
  intro fs tr' s' hrest job_id job hjob hsettled
  exact settled_run hM hrun hrest hjob hsettled

/-- Two jobs, a duplicate submission, two workers; the first attempt on the
first job fails and the job is queued again behind the second. -/
def uploadRun : List (Event ℤ) :=
  [.enqueue ⟨"doc-17", "...", some "upload-42", some 2⟩ "job-a" 0,
    .enqueue ⟨"doc-17", "...", some "upload-42", some 2⟩ "job-x" 1,
    .enqueue ⟨"doc-18", "...", none, none⟩ "job-b" 2,
    .process_next, .finish 0 (.raised "timeout"), .process_next, .process_next,
    .finish 1 .success, .get_status "job-b"]

theorem state_invariant_uploadRun :
    ∃ s tr, (Python.machine ℤ).Run uploadRun tr s ∧
      (s.manager.queue, s.calls, created tr, attempted tr) =
        ([], [.returned (some "job-a"), .returned (some "job-b"), .processing "job-a"],
          ["job-a", "job-b"], ["job-a", "job-b"]) ∧
      Consistent tr s ∧
      (∀ fs tr' s', (Python.machine ℤ).execFrom s fs = some (s', tr') → ∀ job_id job,
        s.manager.jobs.get? job_id = some job → job.Settled →
        s'.manager.jobs.get? job_id = some job) := by
  have hexec : ((Python.machine ℤ).exec uploadRun).map
      (fun r => (r.1.manager.queue, r.1.calls, created r.2, attempted r.2)) =
      some ([], [.returned (some "job-a"), .returned (some "job-b"), .processing "job-a"],
        ["job-a", "job-b"], ["job-a", "job-b"]) := by decide +kernel
  obtain ⟨s, tr, hrun, hs⟩ := Machine.Run.of_exec_map hexec
  exact ⟨s, tr, hrun, hs, state_invariant (Or.inl rfl) hrun⟩

end InterviewPrep.Jobs
