import Mathlib.Tactic.Common
import InterviewPrep.Lib.Slots
import InterviewPrep.Jobs.Model

/-!
# The blocks of the job manager as transitions

One relation `Step` says what a block under the lock can do: a submission makes
a job or is answered with the job of its key, a status is read, an attempt
starts at the head of the queue, a call finds the queue empty, an attempt ends.
Both sources refine it (`python_step`, `typescript_step`) in the states in which
the queued and the held ids name jobs; the falsiness tests of the TypeScript
source make no difference, because no generated id is empty.
-/

namespace InterviewPrep.Jobs

variable {L : Type*} [RetryLimit L]

/-- The job after an attempt. -/
def Job.after (job : Job L) : Outcome → Job L
  | .success => { job with status := .completed, error := none }
  | .raised error_msg =>
    if RetryLimit.below job.retry_count job.max_retries then
      { job with error := some error_msg, retry_count := job.retry_count + 1,
                 status := .queued }
    else
      { job with error := some error_msg, status := .failed }

@[simp] theorem Job.after_job_id (job : Job L) (o : Outcome) :
    (job.after o).job_id = job.job_id := by
  unfold Job.after
  cases o with
  | success => rfl
  | raised error_msg =>
    simp only
    split <;> rfl

theorem Job.after_not_processing (job : Job L) (o : Outcome) :
    (job.after o).status ≠ .processing := by
  unfold Job.after
  cases o with
  | success => simp
  | raised error_msg =>
    simp only
    split <;> simp

/-- The manager with the job under `job_id` overwritten, and the queue. -/
def JobManager.setJob (m : JobManager L) (job_id : String) (job : Job L)
    (queue : List String) : JobManager L where
  jobs := m.jobs.setItem job_id job
  queue := queue
  idempotency_map := m.idempotency_map

/-- What a block can do. -/
inductive Step : System L → List Obs → System L → Prop where
  | create {s : System L} {r : Submission L} {uuid : String} {now : ℚ} :
      s.manager.jobs.get? uuid = none →
      (∀ key, truthy r.idempotency_key = some key →
        s.manager.idempotency_map.get? key = none) →
      Step s [.created uuid, .enqueued r.idempotency_key uuid]
        { s with manager := s.manager.create r uuid now }
  | reuse {s : System L} {r : Submission L} {key job_id : String} :
      truthy r.idempotency_key = some key →
      s.manager.idempotency_map.get? key = some job_id →
      Step s [.enqueued r.idempotency_key job_id] s
  | read {s : System L} {job_id : String} :
      Step s [.status job_id (s.manager._get_status job_id)] s
  | start {s : System L} {job_id : String} {queue : List String} {job : Job L} :
      s.manager.queue = job_id :: queue → s.manager.jobs.get? job_id = some job →
      Step s [.started s.calls.length job_id]
        ⟨s.manager.setJob job_id { job with status := .processing } queue,
          s.calls ++ [.processing job_id]⟩
  | idle {s : System L} :
      s.manager.queue = [] →
      Step s [.idle s.calls.length] { s with calls := s.calls ++ [.returned none] }
  | finish {s : System L} {call : ℕ} {job_id : String} {job : Job L} {outcome : Outcome} :
      s.calls[call]? = some (.processing job_id) → s.manager.jobs.get? job_id = some job →
      Step s [.finished call job_id outcome]
        ⟨s.manager.setJob job_id (job.after outcome) (s.manager.queue ++
            (if (job.after outcome).status = .queued then [job.job_id] else [])),
          s.calls.set call (.returned (some job_id))⟩

/-- The ids in the queue and in the hands of calls name jobs. -/
structure Known (s : System L) : Prop where
  queue : ∀ job_id ∈ s.manager.queue, ∃ job, s.manager.jobs.get? job_id = some job
  held : ∀ (call : ℕ) job_id, s.calls[call]? = some (.processing job_id) →
    ∃ job, s.manager.jobs.get? job_id = some job

omit [RetryLimit L] in
theorem update_of_get? {m : JobManager L} {job_id : String} {job : Job L}
    (h : m.jobs.get? job_id = some job) (f : Job L → Job L) :
    m.update job_id f = m.setJob job_id (f job) m.queue := by
  simp [JobManager.update, JobManager.setJob, h]

/-- Step 3 overwrites the job with what the attempt makes of it. -/
theorem finish_of_get? {m : JobManager L} {job_id : String} {job : Job L}
    (h : m.jobs.get? job_id = some job) (outcome : Outcome) :
    m.finish job_id outcome = m.setJob job_id (job.after outcome) (m.queue ++
      (if (job.after outcome).status = .queued then [job.job_id] else [])) := by
  unfold JobManager.finish Job.after
  cases outcome with
  | success => simp [update_of_get? h, JobManager.setJob]
  | raised error_msg =>
    simp only [h, update_of_get? h]
    split
    · simp [JobManager.setJob]
    · simp [JobManager.setJob]

theorem contains_create (m : JobManager L) (r : Submission L) (uuid : String) (now : ℚ) :
    (m.create r uuid now).jobs.contains uuid = true := by
  simp [JobManager.create]

omit [RetryLimit L] in
theorem contains_eq_false {d : OrderedDict String (Job L)} {job_id : String} :
    d.contains job_id = false ↔ d.get? job_id = none := by
  rw [OrderedDict.contains_eq_isSome, Option.isSome_eq_false_iff, Option.isNone_iff_eq_none]

/-! ## The Python source -/

/-- A submission makes a job or finds the one of its key. -/
theorem _enqueue_cases (m : JobManager L) (r : Submission L) (uuid : String) (now : ℚ) :
    ((∀ key, truthy r.idempotency_key = some key → m.idempotency_map.get? key = none) ∧
      Python._enqueue m r uuid now = (m.create r uuid now, uuid)) ∨
    (∃ key job_id, truthy r.idempotency_key = some key ∧
      m.idempotency_map.get? key = some job_id ∧
      Python._enqueue m r uuid now = (m, job_id)) := by
  unfold Python._enqueue
  cases hkey : truthy r.idempotency_key with
  | none => exact Or.inl ⟨by simp, rfl⟩
  | some key =>
    cases hmap : m.idempotency_map.get? key with
    | none =>
      left
      refine ⟨?_, by simp [hmap]⟩
      intro key' hkey'
      rw [← Option.some.inj hkey', hmap]
    | some job_id => exact Or.inr ⟨key, job_id, rfl, hmap, by simp [hmap]⟩

omit [RetryLimit L] in
/-- Step 1 finds the queue empty or takes out its head. -/
theorem dequeue_cases {m : JobManager L}
    (hknown : ∀ job_id ∈ m.queue, ∃ job, m.jobs.get? job_id = some job) :
    (m.queue = [] ∧ Python.dequeue m = (m, .ok none)) ∨
    (∃ job_id queue job, m.queue = job_id :: queue ∧ m.jobs.get? job_id = some job ∧
      Python.dequeue m =
        (m.setJob job_id { job with status := .processing } queue, .ok (some job_id))) := by
  unfold Python.dequeue
  cases hqueue : m.queue with
  | nil => exact Or.inl ⟨rfl, rfl⟩
  | cons job_id queue =>
    obtain ⟨job, hjob⟩ := hknown job_id (by simp [hqueue])
    refine Or.inr ⟨job_id, queue, job, rfl, hjob, ?_⟩
    simp [hjob, JobManager.update, JobManager.setJob]

theorem python_step {s s' : System L} {e : Event L} {out : List Obs} (hknown : Known s)
    (h : (Python.machine L).step s e = some (s', out)) : Step s out s' := by
  simp only [Python.machine, stepWith] at h
  cases e with
  | enqueue r uuid now =>
    simp only [Bool.not_true, Bool.or_false] at h
    cases hfresh : s.manager.jobs.contains uuid with
    | true =>
      rw [hfresh] at h
      simp at h
    | false =>
      rw [hfresh] at h
      rcases _enqueue_cases s.manager r uuid now with ⟨hnew, he⟩ | ⟨key, job_id, hkey, hmap, he⟩
      · simp only [he, contains_create, Bool.false_eq_true, if_false, if_true,
          Option.some.injEq, Prod.mk.injEq] at h
        obtain ⟨rfl, rfl⟩ := h
        exact .create (contains_eq_false.mp hfresh) hnew
      · simp only [he, hfresh, Bool.false_eq_true, if_false, Option.some.injEq,
          Prod.mk.injEq] at h
        obtain ⟨rfl, rfl⟩ := h
        exact .reuse hkey hmap
  | get_status job_id =>
    simp only [Option.some.injEq, Prod.mk.injEq] at h
    obtain ⟨rfl, rfl⟩ := h
    exact .read
  | process_next =>
    rcases dequeue_cases hknown.queue with ⟨hempty, he⟩ | ⟨job_id, queue, job, hqueue, hjob, he⟩
    · simp only [he, Option.some.injEq, Prod.mk.injEq] at h
      obtain ⟨rfl, rfl⟩ := h
      exact .idle hempty
    · simp only [he, Option.some.injEq, Prod.mk.injEq] at h
      obtain ⟨rfl, rfl⟩ := h
      exact .start hqueue hjob
  | finish call outcome =>
    simp only at h
    split at h
    · rename_i job_id hcall
      obtain ⟨job, hjob⟩ := hknown.held call job_id hcall
      simp only [finish_of_get? hjob, Option.some.injEq, Prod.mk.injEq] at h
      obtain ⟨rfl, rfl⟩ := h
      exact .finish hcall hjob
    · simp at h

/-! ## The TypeScript source -/

/-- No job has the empty id. -/
structure NonEmpty (m : JobManager L) : Prop where
  queue : "" ∉ m.queue
  keyed : ∀ key, m.idempotency_map.get? key ≠ some ""

theorem truthy_of_ne {text : Option String} (h : text ≠ some "") : truthy text = text := by
  cases text with
  | none => rfl
  | some text =>
    have hne : text ≠ "" := fun htext => h (by rw [htext])
    simp [truthy, hne]

theorem typescript_enqueue {m : JobManager L} (h : NonEmpty m) (r : Submission L)
    (uuid : String) (now : ℚ) :
    TypeScript._enqueue m r uuid now = Python._enqueue m r uuid now := by
  have hkeyed : (fun key => truthy (m.idempotency_map.get? key)) = m.idempotency_map.get? := by
    funext key
    exact truthy_of_ne (h.keyed key)
  rw [TypeScript._enqueue, Python._enqueue, hkeyed]

omit [RetryLimit L] in
theorem typescript_dequeue {m : JobManager L} (h : NonEmpty m) :
    TypeScript.dequeue m = Python.dequeue m := by
  have hhead : m.queue.head? ≠ some "" := fun he => h.queue (List.mem_of_head? he)
  rw [TypeScript.dequeue, Python.dequeue, truthy_of_ne hhead]
  obtain ⟨jobs, queue, keys⟩ := m
  cases queue with
  | nil => rfl
  | cons job_id queue => rfl

/-- The two sources make the same steps. -/
theorem typescript_step_python {s s' : System L} {e : Event L} {out : List Obs}
    (hne : NonEmpty s.manager) (h : (TypeScript.machine L).step s e = some (s', out)) :
    (Python.machine L).step s e = some (s', out) := by
  simp only [TypeScript.machine, Python.machine, stepWith] at h ⊢
  cases e with
  | enqueue r uuid now =>
    simp only [typescript_enqueue hne] at h
    split at h
    · simp at h
    · rename_i hvalid
      rw [Bool.or_eq_true, not_or] at hvalid
      simp only [hvalid.1, Bool.not_true, Bool.or_false]
      exact h
  | get_status job_id => exact h
  | process_next =>
    rw [typescript_dequeue hne] at h
    exact h
  | finish call outcome => exact h

end InterviewPrep.Jobs
