import Mathlib.Data.Int.Notation
import Mathlib.Data.Rat.Defs
import InterviewPrep.Lib.Machine
import InterviewPrep.Lib.OrderedDict

/-!
# Document ingestion job manager

The class `JobManager` of `technical/job_manager/answer.py` and of `answer.ts`.
Every block under the lock is one step: `enqueue`, `get_status`, and the two
blocks of `process_next`, between which the job is processed without the lock.
A run interleaves the blocks of any number of calls.

The processing function is the environment's: an attempt ends with an `Outcome`.
A call holds the job it took out by its id; the source holds a reference to the
object under that id in `jobs`, which is never replaced.
-/

namespace InterviewPrep.Jobs

/-- The status strings. -/
inductive JobStatus where
  | queued
  | processing
  | completed
  | failed
deriving DecidableEq

/-- The numbers a retry limit may be: Python's `int`, JavaScript's `number`. -/
class RetryLimit (L : Type*) where
  /-- `retry_count < max_retries` -/
  below : ℕ → L → Bool
  DEFAULT_MAX_RETRIES : L

instance : RetryLimit ℤ where
  below retry_count max_retries := decide ((retry_count : ℤ) < max_retries)
  DEFAULT_MAX_RETRIES := 3

/-- `Job` -/
structure Job (L : Type*) where
  job_id : String
  document_id : String
  content : String
  status : JobStatus
  created_at : ℚ
  retry_count : ℕ
  max_retries : L
  error : Option String
deriving DecidableEq

/-- The fields of `JobManager` besides the lock. -/
structure JobManager (L : Type*) where
  jobs : OrderedDict String (Job L)
  queue : List String
  idempotency_map : OrderedDict String String

/-- What `self.jobs[job_id]` raises (a `TypeError` in TypeScript). -/
inductive LookupFailure where
  | missing (job_id : String)
deriving DecidableEq

/-- How an attempt ends: normally, or with an exception whose message is given. An
exception whose text raises itself, and one that is no `Exception`, are left out. -/
inductive Outcome where
  | success
  | raised (error_msg : String)
deriving DecidableEq

variable {L : Type*} [RetryLimit L]

/-- The arguments of `enqueue`. -/
structure Submission (L : Type*) where
  document_id : String
  content : String
  idempotency_key : Option String
  max_retries : Option L
deriving DecidableEq

/-- The job a submission makes, under the generated id. -/
def newJob (r : Submission L) (job_id : String) (created_at : ℚ) : Job L where
  job_id := job_id
  document_id := r.document_id
  content := r.content
  status := .queued
  created_at := created_at
  retry_count := 0
  max_retries := r.max_retries.getD RetryLimit.DEFAULT_MAX_RETRIES
  error := none

/-- `if idempotency_key:`, and in TypeScript the same test of an id. -/
def truthy : Option String → Option String
  | none => none
  | some text => if text = "" then none else some text

namespace JobManager

def new : JobManager L := ⟨OrderedDict.empty, [], OrderedDict.empty⟩

/-- The second half of `_enqueue`: the job is recorded and queued. -/
def create (m : JobManager L) (r : Submission L) (job_id : String) (created_at : ℚ) :
    JobManager L where
  jobs := m.jobs.setItem job_id (newJob r job_id created_at)
  queue := m.queue ++ [job_id]
  idempotency_map :=
    match truthy r.idempotency_key with
    | none => m.idempotency_map
    | some key => m.idempotency_map.setItem key job_id

/-- `_get_status` -/
def _get_status (m : JobManager L) (job_id : String) : Option JobStatus :=
  (m.jobs.get? job_id).map Job.status

/-- `job["status"] = "PROCESSING"` and the like, on the object under `job_id`. -/
def update (m : JobManager L) (job_id : String) (f : Job L → Job L) : JobManager L :=
  match m.jobs.get? job_id with
  | none => m
  | some job => { m with jobs := m.jobs.setItem job_id (f job) }

/-- Step 3 of `process_next`, with the job taken out in step 1 and the outcome
of step 2. -/
def finish (m : JobManager L) (job_id : String) : Outcome → JobManager L
  | .success => m.update job_id (fun job => { job with status := .completed, error := none })
  | .raised error_msg =>
    match m.jobs.get? job_id with
    | none => m
    | some job =>
      if RetryLimit.below job.retry_count job.max_retries then
        let m := m.update job_id (fun job =>
          { job with error := some error_msg, retry_count := job.retry_count + 1,
                     status := .queued })
        -- requeued for the next attempt
        { m with queue := m.queue ++ [job.job_id] }
      else
        m.update job_id (fun job => { job with error := some error_msg, status := .failed })

end JobManager

/-! ## The two sources -/

namespace Python

/-- `_enqueue`, with what `uuid.uuid4` and `time.time` answer. -/
def _enqueue (m : JobManager L) (r : Submission L) (uuid : String) (now : ℚ) :
    JobManager L × String :=
  match (truthy r.idempotency_key).bind m.idempotency_map.get? with
  | some job_id => (m, job_id)
  | none => (m.create r uuid now, uuid)

/-- Step 1 of `process_next`. -/
def dequeue (m : JobManager L) : JobManager L × Except LookupFailure (Option String) :=
  match m.queue with
  | [] => (m, .ok none)
  | job_id :: queue =>
    let m := { m with queue := queue }
    match m.jobs.get? job_id with
    | none => (m, .error (.missing job_id))
    | some _ => (m.update job_id (fun job => { job with status := .processing }),
        .ok (some job_id))

end Python

namespace TypeScript

/-- `_enqueue`; an id found in the map is used only when it is truthy. -/
def _enqueue (m : JobManager L) (r : Submission L) (randomUUID : String) (now : ℚ) :
    JobManager L × String :=
  match (truthy r.idempotency_key).bind
      (fun key => truthy (m.idempotency_map.get? key)) with
  | some existingJobId => (m, existingJobId)
  | none => (m.create r randomUUID now, randomUUID)

/-- Step 1 of `processNext`; `shift` answers `undefined` on an empty queue, and
`!jobId` is true of the empty string too. -/
def dequeue (m : JobManager L) : JobManager L × Except LookupFailure (Option String) :=
  let rest := { m with queue := m.queue.tail }
  match truthy m.queue.head? with
  | none => (rest, .ok none)
  | some jobId =>
    match rest.jobs.get? jobId with
    | none => (rest, .error (.missing jobId))
    | some _ => (rest.update jobId (fun job => { job with status := .processing }),
        .ok (some jobId))

end TypeScript

/-! ## Interleavings -/

/-- A call of `process_next`: in step 2 with a job, or over. -/
inductive Call where
  | processing (job_id : String)
  | returned (job_id : Option String)
  | raised (e : LookupFailure)
deriving DecidableEq

/-- The manager and the calls of `process_next` made so far, each at its index. -/
structure System (L : Type*) where
  manager : JobManager L
  calls : List Call

/-- The blocks under the lock. `enqueue` comes with the id that would be
generated and the reading of the clock. -/
inductive Event (L : Type*) where
  | enqueue (r : Submission L) (uuid : String) (now : ℚ)
  | get_status (job_id : String)
  | process_next
  | finish (call : ℕ) (outcome : Outcome)
deriving DecidableEq

/-- What a block does: a job is created, a submission is answered, a status is
read, an attempt starts or ends, a call finds no work or raises. -/
inductive Obs where
  | created (job_id : String)
  | enqueued (idempotency_key : Option String) (job_id : String)
  | status (job_id : String) (status : Option JobStatus)
  | started (call : ℕ) (job_id : String)
  | finished (call : ℕ) (job_id : String) (outcome : Outcome)
  | idle (call : ℕ)
  | raised (call : ℕ) (e : LookupFailure)
deriving DecidableEq

/-- One block under the lock, for the `enqueue` and the step 1 of a source. The
generated ids are `valid` and fresh, whether or not the submission uses them. -/
def stepWith (enqueue : JobManager L → Submission L → String → ℚ → JobManager L × String)
    (dequeue : JobManager L → JobManager L × Except LookupFailure (Option String))
    (valid : String → Bool) (s : System L) : Event L → Option (System L × List Obs)
  | .enqueue r uuid now =>
    if s.manager.jobs.contains uuid || !valid uuid then none
    else
      let res := enqueue s.manager r uuid now
      some ({ s with manager := res.1 },
        (if res.1.jobs.contains uuid then [.created uuid] else []) ++
          [.enqueued r.idempotency_key res.2])
  | .get_status job_id => some (s, [.status job_id (s.manager._get_status job_id)])
  | .process_next =>
    match dequeue s.manager with
    | (m, .ok (some job_id)) =>
      some (⟨m, s.calls ++ [.processing job_id]⟩, [.started s.calls.length job_id])
    | (m, .ok none) => some (⟨m, s.calls ++ [.returned none]⟩, [.idle s.calls.length])
    | (m, .error e) => some (⟨m, s.calls ++ [.raised e]⟩, [.raised s.calls.length e])
  | .finish call outcome =>
    match s.calls[call]? with
    | some (.processing job_id) =>
      some (⟨s.manager.finish job_id outcome, s.calls.set call (.returned (some job_id))⟩,
        [.finished call job_id outcome])
    | _ => none

namespace Python

/-- All interleavings of the Python manager's blocks. -/
def machine (L : Type*) [RetryLimit L] : Machine (System L) (Event L) Obs where
  init := ⟨JobManager.new, []⟩
  step := stepWith _enqueue dequeue (fun _ => true)

end Python

namespace TypeScript

/-- All interleavings of the TypeScript manager's blocks; a generated id is not
empty. -/
def machine (L : Type*) [RetryLimit L] : Machine (System L) (Event L) Obs where
  init := ⟨JobManager.new, []⟩
  step := stepWith _enqueue dequeue (fun uuid => uuid ≠ "")

end TypeScript

end InterviewPrep.Jobs
