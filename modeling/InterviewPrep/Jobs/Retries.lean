import InterviewPrep.Jobs.Contract

/-!
# Retry accounting

Between blocks a job stands at a stage that its past attempts determine
(`Stage`): while it waits or is processed it has failed as often as it was
retried, a FAILED job has used up its retries, and a COMPLETED one succeeded in
its last attempt. Attempts that start are counted too, so that the bound also
covers the one in flight (`retry_accounting`).
-/

namespace InterviewPrep.Jobs

/-! ## The attempts of a job -/

/-- An attempt on the job starts. -/
def Obs.starts (job_id : String) : Obs → Bool
  | .started _ id => id = job_id
  | _ => false

/-- How an attempt on the job ended. -/
def Obs.outcome? (job_id : String) : Obs → Option Outcome
  | .finished _ id outcome => if id = job_id then some outcome else none
  | _ => none

/-- The number of attempts that were started on a job. -/
def attempts (job_id : String) (tr : List Obs) : ℕ := tr.countP (Obs.starts job_id)

/-- How the attempts on a job ended, in their order. -/
def outcomes (job_id : String) (tr : List Obs) : List Outcome :=
  tr.filterMap (Obs.outcome? job_id)

/-- `max(0, max_retries)` -/
def Job.retries (job : Job ℤ) : ℕ := job.max_retries.toNat

theorem attempts_append (job_id : String) (tr out : List Obs) :
    attempts job_id (tr ++ out) = attempts job_id tr + attempts job_id out :=
  List.countP_append

theorem outcomes_append (job_id : String) (tr out : List Obs) :
    outcomes job_id (tr ++ out) = outcomes job_id tr ++ outcomes job_id out :=
  List.filterMap_append

/-- None of the attempts succeeded. -/
def AllFailed (ended : List Outcome) : Prop := ∀ o ∈ ended, o ≠ .success

/-- Where a job stands after attempts that ended like this. -/
def Stage (ended : List Outcome) (job : Job ℤ) : Prop :=
  match job.status with
  | .queued | .processing =>
    AllFailed ended ∧ job.retry_count = ended.length ∧ ended.length ≤ job.retries
  | .failed => AllFailed ended ∧ ended.length = job.retries + 1 ∧
    ∃ before error_msg, ended = before ++ [.raised error_msg] ∧ job.error = some error_msg
  | .completed => job.error = none ∧
    ∃ before, ended = before ++ [.success] ∧ AllFailed before ∧ before.length ≤ job.retries

theorem AllFailed.concat {ended : List Outcome} (h : AllFailed ended) (error_msg : String) :
    AllFailed (ended ++ [.raised error_msg]) := by
  intro o ho
  rcases List.mem_append.mp ho with hold | hnew
  · exact h o hold
  · rw [List.mem_singleton.mp hnew]
    simp

/-- A job in processing, after its attempt. -/
theorem Stage.after {ended : List Outcome} {job : Job ℤ} (h : Stage ended job)
    (hstatus : job.status = .processing) (outcome : Outcome) :
    Stage (ended ++ [outcome]) (job.after outcome) := by
  simp only [Stage, hstatus] at h
  rcases h with ⟨hfailed, hcount, hle⟩
  cases outcome with
  | success => exact ⟨rfl, ended, rfl, hfailed, hle⟩
  | raised error_msg =>
    have hbelow : RetryLimit.below job.retry_count job.max_retries =
        decide ((job.retry_count : ℤ) < job.max_retries) := rfl
    by_cases hretry : (job.retry_count : ℤ) < job.max_retries
    · -- a retry is left
      have hafter : job.after (.raised error_msg) =
          { job with error := some error_msg, retry_count := job.retry_count + 1,
                     status := .queued } := by
        simp [Job.after, hbelow, hretry]
      have hlimit : job.retry_count + 1 ≤ job.max_retries.toNat := by omega
      rw [hafter]
      refine ⟨hfailed.concat error_msg, ?_, ?_⟩
      · simp [hcount]
      · simpa [Job.retries, ← hcount] using hlimit
    · -- that was the last one
      have hafter : job.after (.raised error_msg) =
          { job with error := some error_msg, status := .failed } := by
        simp [Job.after, hbelow, hretry]
      have hlimit : ended.length = job.max_retries.toNat := by
        have hle : ended.length ≤ job.max_retries.toNat := hle
        omega
      rw [hafter]
      refine ⟨hfailed.concat error_msg, ?_, ended, error_msg, rfl, rfl⟩
      simp [Job.retries, hlimit]

/-- A settled job has no attempts but those that settled it. -/
theorem Stage.no_more {ended more : List Outcome} {job : Job ℤ} (h : Stage ended job)
    (h' : Stage (ended ++ more) job) (hsettled : job.Settled) : more = [] := by
  rcases hsettled with hstatus | hstatus
  · -- the last outcome was the only success
    simp only [Stage, hstatus] at h h'
    rcases h with ⟨-, before, rfl, -, -⟩
    rcases h' with ⟨-, before', heq, hfailed, -⟩
    rcases List.eq_nil_or_concat more with hnil | ⟨rest, o, rfl⟩
    · exact hnil
    · rw [List.concat_eq_append, ← List.append_assoc] at heq
      have hinit := (List.append_inj' heq rfl).1
      refine absurd rfl (hfailed .success ?_)
      rw [← hinit]
      simp
  · -- all attempts have been made
    simp only [Stage, hstatus] at h h'
    have hlength := h.2.1
    have hlength' := h'.2.1
    rw [List.length_append] at hlength'
    exact List.eq_nil_of_length_eq_zero (by omega)

/-! ## The invariant -/

/-- Every job stands at the stage of its attempts, and one in processing has one
attempt more. -/
structure Counted (tr : List Obs) (s : System ℤ) : Prop where
  absent : ∀ job_id, s.manager.jobs.get? job_id = none →
    attempts job_id tr = 0 ∧ outcomes job_id tr = []
  stage : ∀ job_id job, s.manager.jobs.get? job_id = some job →
    Stage (outcomes job_id tr) job
  started : ∀ job_id job, s.manager.jobs.get? job_id = some job →
    attempts job_id tr =
      (outcomes job_id tr).length + if job.status = .processing then 1 else 0

theorem counted_init : Counted [] (⟨JobManager.new, []⟩ : System ℤ) := by
  constructor
  · intro job_id _
    exact ⟨rfl, rfl⟩
  · intro job_id job hjob
    simp [JobManager.new, OrderedDict.empty, OrderedDict.get?] at hjob
  · intro job_id job hjob
    simp [JobManager.new, OrderedDict.empty, OrderedDict.get?] at hjob

section Steps

variable {tr : List Obs} {s s' : System ℤ}

/-- A block that attempts nothing and leaves the jobs as they are. -/
theorem Counted.unchanged (h : Counted tr s) {out : List Obs}
    (hattempts : ∀ job_id, attempts job_id out = 0)
    (houtcomes : ∀ job_id, outcomes job_id out = [])
    (hjobs : s'.manager.jobs = s.manager.jobs) : Counted (tr ++ out) s' := by
  constructor
  · intro job_id hnone
    rw [hjobs] at hnone
    rw [attempts_append, outcomes_append, hattempts, houtcomes, List.append_nil]
    exact h.absent job_id hnone
  · intro job_id job hjob
    rw [hjobs] at hjob
    rw [outcomes_append, houtcomes, List.append_nil]
    exact h.stage job_id job hjob
  · intro job_id job hjob
    rw [hjobs] at hjob
    rw [attempts_append, outcomes_append, hattempts, houtcomes, List.append_nil]
    exact h.started job_id job hjob

/-- A block that overwrites one job, and attempts no other. -/
theorem Counted.overwrite (h : Counted tr s) {out : List Obs} {id : String} (new : Job ℤ)
    (hjobs : s'.manager.jobs = s.manager.jobs.setItem id new)
    (hother : ∀ job_id, job_id ≠ id → attempts job_id out = 0 ∧ outcomes job_id out = [])
    (hstage : Stage (outcomes id tr ++ outcomes id out) new)
    (hstarted : attempts id tr + attempts id out =
      (outcomes id tr ++ outcomes id out).length + if new.status = .processing then 1 else 0) :
    Counted (tr ++ out) s' := by
  have hself : s'.manager.jobs.get? id = some new := by
    rw [hjobs]
    exact OrderedDict.get?_setItem_self _ _ _
  have hrest : ∀ job_id, job_id ≠ id →
      s'.manager.jobs.get? job_id = s.manager.jobs.get? job_id := by
    intro job_id hne
    rw [hjobs]
    exact OrderedDict.get?_setItem_of_ne _ _ hne
  constructor
  · intro job_id hnone
    have hne : job_id ≠ id := by
      rintro rfl
      rw [hself] at hnone
      simp at hnone
    rw [hrest job_id hne] at hnone
    rw [attempts_append, outcomes_append, (hother job_id hne).1, (hother job_id hne).2,
      List.append_nil]
    exact h.absent job_id hnone
  · intro job_id job hjob
    rw [outcomes_append]
    by_cases hid : job_id = id
    · subst hid
      rw [hself] at hjob
      rw [← Option.some.inj hjob]
      exact hstage
    · rw [hrest job_id hid] at hjob
      rw [(hother job_id hid).2, List.append_nil]
      exact h.stage job_id job hjob
  · intro job_id job hjob
    rw [attempts_append, outcomes_append]
    by_cases hid : job_id = id
    · subst hid
      rw [hself] at hjob
      rw [← Option.some.inj hjob]
      exact hstarted
    · rw [hrest job_id hid] at hjob
      rw [(hother job_id hid).1, (hother job_id hid).2, List.append_nil]
      exact h.started job_id job hjob

/-- Every block keeps the account. -/
theorem Counted.step (h : Counted tr s) (hinv : Inv tr s) {out : List Obs}
    (hstep : Step s out s') : Counted (tr ++ out) s' := by
  cases hstep with
  | reuse hkey hmap =>
    exact h.unchanged (fun _ => rfl) (fun _ => rfl) rfl
  | read => exact h.unchanged (fun _ => rfl) (fun _ => rfl) rfl
  | idle hempty => exact h.unchanged (fun _ => rfl) (fun _ => rfl) rfl
  | @create r uuid now hfresh hkey =>
    rcases h.absent uuid hfresh with ⟨hattempts, houtcomes⟩
    refine h.overwrite (newJob r uuid now) rfl (fun _ _ => ⟨rfl, rfl⟩) ?_ ?_
    · -- nothing was attempted under a fresh id
      rw [houtcomes]
      refine ⟨?_, rfl, Nat.zero_le _⟩
      intro o ho
      simp [outcomes, Obs.outcome?] at ho
    · rw [hattempts, houtcomes]
      rfl
  | @start id queue job hqueue hjob =>
    -- the head of the queue is QUEUED
    have hstatus : job.status = .queued := by
      have hhead := (hinv.mem_queue_iff id).mp (by simp [hqueue])
      rw [_get_status_of_get? hjob] at hhead
      exact Option.some.inj hhead
    have hstage := h.stage id job hjob
    have hstarted := h.started id job hjob
    refine h.overwrite { job with status := .processing } rfl ?_ ?_ ?_
    · intro job_id hne
      exact ⟨by simp [attempts, Obs.starts, Ne.symm hne], rfl⟩
    · have hnone : outcomes id [.started s.calls.length id] = [] := rfl
      rw [hnone, List.append_nil]
      simp only [Stage, hstatus] at hstage
      exact hstage
    · have hone : attempts id [.started s.calls.length id] = 1 := by
        simp [attempts, Obs.starts]
      have hnone : outcomes id [.started s.calls.length id] = [] := rfl
      rw [hstatus] at hstarted
      rw [hone, hnone, List.append_nil, hstarted]
      rfl
  | @finish call id job outcome hcall hjob =>
    have hstatus : job.status = .processing := by
      have hheld := (hinv.mem_calls_iff id).mp (List.mem_of_getElem? hcall)
      rw [_get_status_of_get? hjob] at hheld
      exact Option.some.inj hheld
    have hended : outcomes id [.finished call id outcome] = [outcome] := by
      simp [outcomes, Obs.outcome?]
    have hstarted := h.started id job hjob
    refine h.overwrite (job.after outcome) rfl ?_ ?_ ?_
    · intro job_id hne
      exact ⟨rfl, by simp [outcomes, Obs.outcome?, Ne.symm hne]⟩
    · rw [hended]
      exact (h.stage id job hjob).after hstatus outcome
    · have hzero : attempts id [.finished call id outcome] = 0 := rfl
      rw [if_pos hstatus] at hstarted
      rw [if_neg (job.after_not_processing outcome), hended, hzero, List.length_append, hstarted]
      rfl

theorem counted_run {M : Machine (System ℤ) (Event ℤ) Obs}
    (hM : M = Python.machine ℤ ∨ M = TypeScript.machine ℤ) {es : List (Event ℤ)}
    (hrun : M.Run es tr s) : Counted tr s := by
  refine hrun.history_invariant (fun _ tr s => Counted tr s) ?_ ?_
  · rcases hM with rfl | rfl
    · exact counted_init
    · exact counted_init
  · intro es tr s e s' out hrun hcounted hs
    rcases run_step hM hrun with ⟨hinv, hsteps⟩
    exact hcounted.step hinv (hsteps e out s' hs)

end Steps

/-! ## The submitted limit -/

section Submitted

variable {M : Machine (System ℤ) (Event ℤ) Obs}

/-- A block keeps the retry limit of a job, unless it makes the job. -/
theorem Step.max_retries {s s' : System ℤ} {out : List Obs} (hstep : Step s out s')
    {job_id : String} {job' : Job ℤ} (hjob : s'.manager.jobs.get? job_id = some job') :
    (∃ job, s.manager.jobs.get? job_id = some job ∧ job'.max_retries = job.max_retries) ∨
    .created job_id ∈ out := by
  cases hstep with
  | reuse hkey hmap => exact Or.inl ⟨job', hjob, rfl⟩
  | read => exact Or.inl ⟨job', hjob, rfl⟩
  | idle hempty => exact Or.inl ⟨job', hjob, rfl⟩
  | @create r uuid now hfresh hkey =>
    by_cases hid : job_id = uuid
    · subst hid
      exact Or.inr (by simp)
    · refine Or.inl ⟨job', ?_, rfl⟩
      rw [← hjob]
      exact (OrderedDict.get?_setItem_of_ne _ _ hid).symm
  | @start id queue job hqueue hold =>
    by_cases hid : job_id = id
    · subst hid
      simp only [JobManager.setJob, OrderedDict.get?_setItem_self, Option.some.injEq] at hjob
      exact Or.inl ⟨job, hold, by rw [← hjob]⟩
    · refine Or.inl ⟨job', ?_, rfl⟩
      rw [← hjob]
      exact (OrderedDict.get?_setItem_of_ne _ _ hid).symm
  | @finish call id job outcome hcall hold =>
    by_cases hid : job_id = id
    · subst hid
      simp only [JobManager.setJob, OrderedDict.get?_setItem_self, Option.some.injEq] at hjob
      refine Or.inl ⟨job, hold, ?_⟩
      rw [← hjob]
      unfold Job.after
      cases outcome with
      | success => rfl
      | raised error_msg =>
        simp only
        split <;> rfl
    · refine Or.inl ⟨job', ?_, rfl⟩
      rw [← hjob]
      exact (OrderedDict.get?_setItem_of_ne _ _ hid).symm

/-- A job is made by the submission that brings its id. -/
theorem created_step {s s' : System ℤ} {e : Event ℤ} {out : List Obs}
    (h : (Python.machine ℤ).step s e = some (s', out)) {job_id : String}
    (hmem : .created job_id ∈ out) :
    ∃ r now, e = .enqueue r job_id now ∧
      s'.manager.jobs.get? job_id = some (newJob r job_id now) := by
  simp only [Python.machine, stepWith] at h
  cases e with
  | enqueue r uuid now =>
    simp only [Bool.not_true, Bool.or_false] at h
    split at h
    · simp at h
    · rename_i hfresh
      rcases _enqueue_cases s.manager r uuid now with ⟨hnew, he⟩ | ⟨key, id, hkey, hmap, he⟩
      · simp only [he, contains_create, if_true, Option.some.injEq, Prod.mk.injEq] at h
        rcases h with ⟨rfl, rfl⟩
        have hid : job_id = uuid := by simpa using hmem
        subst hid
        exact ⟨r, now, rfl, OrderedDict.get?_setItem_self _ _ _⟩
      · simp only [he, hfresh, Option.some.injEq, Prod.mk.injEq] at h
        rcases h with ⟨rfl, rfl⟩
        simp at hmem
  | get_status id =>
    simp only [Option.some.injEq, Prod.mk.injEq] at h
    rcases h with ⟨rfl, rfl⟩
    simp at hmem
  | process_next =>
    simp only at h
    split at h
    all_goals
      simp only [Option.some.injEq, Prod.mk.injEq] at h
      rcases h with ⟨rfl, rfl⟩
      simp at hmem
  | finish call outcome =>
    simp only at h
    split at h
    · simp only [Option.some.injEq, Prod.mk.injEq] at h
      rcases h with ⟨rfl, rfl⟩
      simp at hmem
    · simp at h

/-- A block of either source is one of the Python source. -/
theorem python_step_of {s s' : System ℤ} {es : List (Event ℤ)} {tr out : List Obs}
    (hM : M = Python.machine ℤ ∨ M = TypeScript.machine ℤ) (hrun : M.Run es tr s) {e : Event ℤ}
    (hs : M.step s e = some (s', out)) : (Python.machine ℤ).step s e = some (s', out) := by
  rcases hM with rfl | rfl
  · exact hs
  · rcases typescript_inv_run hrun with ⟨hinv, hne⟩
    exact typescript_step_python (hinv.nonEmpty hne) hs

/-- The limit of a job is the one it was submitted with. -/
theorem submitted_run {s : System ℤ} (hM : M = Python.machine ℤ ∨ M = TypeScript.machine ℤ)
    {es : List (Event ℤ)} {tr : List Obs} (hrun : M.Run es tr s) :
    ∀ job_id job, s.manager.jobs.get? job_id = some job →
      ∃ r now, .enqueue r job_id now ∈ es ∧
        job.max_retries = r.max_retries.getD RetryLimit.DEFAULT_MAX_RETRIES := by
  refine hrun.history_invariant (fun es _ s => ∀ job_id job,
    s.manager.jobs.get? job_id = some job → ∃ r now, .enqueue r job_id now ∈ es ∧
      job.max_retries = r.max_retries.getD RetryLimit.DEFAULT_MAX_RETRIES) ?_ ?_
  · intro job_id job hjob
    have hempty : M.init.manager.jobs.get? job_id = none := by
      rcases hM with rfl | rfl
      · rfl
      · rfl
    rw [hempty] at hjob
    simp at hjob
  · intro es tr s e s' out hrun ih hs job_id job' hjob'
    rcases ((run_step hM hrun).2 e out s' hs).max_retries hjob' with ⟨job, hjob, hsame⟩ | hmade
    · rcases ih job_id job hjob with ⟨r, now, hmem, hlimit⟩
      exact ⟨r, now, List.mem_append_left _ hmem, hsame.trans hlimit⟩
    · rcases created_step (python_step_of hM hrun hs) hmade with ⟨r, now, rfl, hnew⟩
      refine ⟨r, now, by simp, ?_⟩
      rw [hnew] at hjob'
      rw [← Option.some.inj hjob']
      rfl

end Submitted

/-! ## The account -/

/-- What the attempts made on a job say about it. -/
structure Accounting (tr : List Obs) (s : System ℤ) (job_id : String) (job : Job ℤ) : Prop where
  /-- No job is attempted more often than its retries allow. -/
  bound : attempts job_id tr ≤ job.retries + 1
  /-- After `k` failures with a retry left it is queued with `k` retries counted,
  or one call is processing it. -/
  requeued : AllFailed (outcomes job_id tr) → (outcomes job_id tr).length ≤ job.retries →
    job.retry_count = (outcomes job_id tr).length ∧
    (job.status = .queued ∨
      job.status = .processing ∧ ∃ call : ℕ, s.calls[call]? = some (.processing job_id))
  /-- It is FAILED when all attempts it may have were made and failed. -/
  failed : job.status = .failed ↔
    AllFailed (outcomes job_id tr) ∧ (outcomes job_id tr).length = job.retries + 1
  last_error : job.status = .failed → ∃ before error_msg,
    outcomes job_id tr = before ++ [.raised error_msg] ∧ job.error = some error_msg
  /-- It is COMPLETED without an error when its latest attempt has succeeded. -/
  completed : job.status = .completed ∧ job.error = none ↔
    attempts job_id tr = (outcomes job_id tr).length ∧
      (outcomes job_id tr).getLast? = some .success

theorem not_allFailed_concat (before : List Outcome) : ¬ AllFailed (before ++ [.success]) := by
  intro h
  exact h .success (by simp) rfl

/-- Where all attempts failed, so did the last one. -/
theorem AllFailed.getLast?_ne {ended : List Outcome} (h : AllFailed ended) :
    ended.getLast? ≠ some .success := by
  intro hlast
  exact h .success (List.mem_of_getLast? hlast) rfl

theorem Counted.accounting {tr : List Obs} {s : System ℤ} (h : Counted tr s) (hinv : Inv tr s)
    {job_id : String} {job : Job ℤ} (hjob : s.manager.jobs.get? job_id = some job) :
    Accounting tr s job_id job := by
  have hstage := h.stage job_id job hjob
  have hstarted := h.started job_id job hjob
  cases hstatus : job.status with
  | queued =>
    simp only [Stage, hstatus] at hstage
    rcases hstage with ⟨hfailed, hcount, hle⟩
    simp only [hstatus, reduceCtorEq, if_false, Nat.add_zero] at hstarted
    refine ⟨by omega, fun _ _ => ⟨hcount, Or.inl hstatus⟩, ?_, ?_, ?_⟩
    · simp only [hstatus, reduceCtorEq, false_iff]
      omega
    · simp [hstatus]
    · simp [hstatus, hfailed.getLast?_ne]
  | processing =>
    simp only [Stage, hstatus] at hstage
    rcases hstage with ⟨hfailed, hcount, hle⟩
    simp only [hstatus, if_true] at hstarted
    have hheld := (hinv.mem_calls_iff job_id).mpr (by rw [_get_status_of_get? hjob, hstatus])
    have hcall := List.mem_iff_getElem?.mp hheld
    refine ⟨by omega, fun _ _ => ⟨hcount, Or.inr ⟨hstatus, hcall⟩⟩, ?_, ?_, ?_⟩
    · simp only [hstatus, reduceCtorEq, false_iff]
      omega
    · simp [hstatus]
    · simp [hstatus, hfailed.getLast?_ne]
  | failed =>
    simp only [Stage, hstatus] at hstage
    rcases hstage with ⟨hfailed, hlength, hlast⟩
    simp only [hstatus, reduceCtorEq, if_false, Nat.add_zero] at hstarted
    refine ⟨by omega, fun _ hle => by omega, ?_, fun _ => hlast, ?_⟩
    · simp [hstatus, hfailed, hlength]
    · simp [hstatus, hfailed.getLast?_ne]
  | completed =>
    simp only [Stage, hstatus] at hstage
    rcases hstage with ⟨herror, before, hended, hfailed, hle⟩
    simp only [hstatus, reduceCtorEq, if_false, Nat.add_zero] at hstarted
    have hlength : (outcomes job_id tr).length = before.length + 1 := by
      rw [hended, List.length_append, List.length_singleton]
    have hnot : ¬ AllFailed (outcomes job_id tr) := by
      rw [hended]
      exact not_allFailed_concat before
    refine ⟨by omega, fun hall => absurd hall hnot, ?_, ?_, ?_⟩
    · simp [hstatus, hnot]
    · simp [hstatus]
    · simp [hstatus, herror, hstarted, hended]

/-- **Retry accounting.** In every run of either source, for every retry limit,
negative ones included, and whatever the workers and the other jobs do, every
job has the limit it was submitted with and stands where its attempts put it;
and once it is COMPLETED or FAILED no attempt on it is ever started again. -/
theorem retry_accounting {M : Machine (System ℤ) (Event ℤ) Obs}
    (hM : M = Python.machine ℤ ∨ M = TypeScript.machine ℤ) {es : List (Event ℤ)}
    {tr : List Obs} {s : System ℤ} (hrun : M.Run es tr s) {job_id : String} {job : Job ℤ}
    (hjob : s.manager.jobs.get? job_id = some job) :
    (∃ r now, .enqueue r job_id now ∈ es ∧
      job.max_retries = r.max_retries.getD RetryLimit.DEFAULT_MAX_RETRIES) ∧
    Accounting tr s job_id job ∧
    (job.Settled → ∀ fs tr' s', M.execFrom s fs = some (s', tr') → attempts job_id tr' = 0) := by
  have hcounted := counted_run hM hrun
  refine ⟨submitted_run hM hrun job_id job hjob,
    hcounted.accounting (run_step hM hrun).1 hjob, ?_⟩
  intro hsettled fs tr' s' hrest
  -- the job is the same at the end, so no attempt on it has ended in between
  have hjob' := settled_run hM hrun hrest hjob hsettled
  have hcounted' := counted_run hM (hrun.execFrom hrest)
  have hstage' := hcounted'.stage job_id job hjob'
  rw [outcomes_append] at hstage'
  have hnone := (hcounted.stage job_id job hjob).no_more hstage' hsettled
  have hstarted := hcounted.started job_id job hjob
  have hstarted' := hcounted'.started job_id job hjob'
  rw [attempts_append, outcomes_append, hnone, List.append_nil] at hstarted'
  omega

/-- Two retries: the third failure is the last one. -/
def exhaustedRun : List (Event ℤ) :=
  [.enqueue ⟨"doc-17", "...", none, some 2⟩ "job-a" 0,
    .process_next, .finish 0 (.raised "timeout"),
    .process_next, .finish 1 (.raised "timeout"),
    .process_next, .finish 2 (.raised "parse error"), .process_next]

theorem retry_accounting_exhausted :
    ∃ s tr job, (Python.machine ℤ).Run exhaustedRun tr s ∧
      s.manager.jobs.get? "job-a" = some job ∧
      (job.status, job.retry_count, job.error) = (.failed, 2, some "parse error") ∧
      Accounting tr s "job-a" job := by
  have hexec : ((Python.machine ℤ).exec exhaustedRun).map
      (fun r => (r.1.manager.jobs.get? "job-a").map
        (fun job => (job.status, job.retry_count, job.error))) =
      some (some (.failed, 2, some "parse error")) := by decide +kernel
  rcases Machine.Run.of_exec_map hexec with ⟨s, tr, hrun, hs⟩
  rcases Option.map_eq_some_iff.mp hs with ⟨job, hjob, hfields⟩
  exact ⟨s, tr, job, hrun, hjob, hfields, (retry_accounting (Or.inl rfl) hrun hjob).2.1⟩

end InterviewPrep.Jobs
