import InterviewPrep.Jobs.Steps

/-!
# The job manager's state invariant

The queue and the statuses say the same: an id is in the queue once if its job
is QUEUED and not otherwise, and in the hands of one call if its job is
PROCESSING and not otherwise (`Inv.queued`, `Inv.held`). Every block restores
this, whatever ran between the two blocks of a `process_next`. With the order of
the queue (`Inv.fifo`) and the map of the keys (`Inv.submitted`) it gives the
contract of the manager, for both sources (`state_invariant`).
-/

namespace InterviewPrep.Jobs

variable {L : Type*}

/-! ## The history -/

/-- The ids of the jobs made, in the order in which they were made. -/
def created (tr : List Obs) : List String :=
  tr.filterMap fun
    | .created job_id => some job_id
    | _ => none

/-- One observation's effect on the jobs attempted so far. -/
def recordAttempt (ids : List String) : Obs → List String
  | .started _ job_id => if job_id ∈ ids then ids else ids ++ [job_id]
  | _ => ids

/-- The jobs attempted, in the order of their first attempts. -/
def attempted (tr : List Obs) : List String :=
  tr.foldl recordAttempt []

theorem created_append (tr out : List Obs) : created (tr ++ out) = created tr ++ created out := by
  simp [created, List.filterMap_append]

theorem attempted_append (tr out : List Obs) :
    attempted (tr ++ out) = out.foldl recordAttempt (attempted tr) := by
  simp [attempted]

/-- Jobs in the queue that wait for their first attempt. -/
def waiting (tr : List Obs) (queue : List String) : List String :=
  queue.filter (fun job_id => job_id ∉ attempted tr)

/-! ## Statuses -/

section Status

variable {m : JobManager L} {job_id j : String}

theorem _get_status_of_get? {job : Job L} (h : m.jobs.get? job_id = some job) :
    m._get_status job_id = some job.status := by
  simp [JobManager._get_status, h]

theorem exists_of_status {status : JobStatus} (h : m._get_status job_id = some status) :
    ∃ job, m.jobs.get? job_id = some job ∧ job.status = status := by
  simpa [JobManager._get_status] using h

theorem _get_status_setJob (m : JobManager L) (job_id : String) (job : Job L)
    (queue : List String) (j : String) :
    (m.setJob job_id job queue)._get_status j =
      if j = job_id then some job.status else m._get_status j := by
  by_cases hj : j = job_id
  · simp [JobManager._get_status, JobManager.setJob, hj]
  · simp [JobManager._get_status, JobManager.setJob, hj, OrderedDict.get?_setItem_of_ne]

theorem keys_setJob {job : Job L} (h : m.jobs.get? job_id = some job) (job' : Job L)
    (queue : List String) : (m.setJob job_id job' queue).jobs.keys = m.jobs.keys :=
  OrderedDict.keys_setItem_of_mem _ (OrderedDict.mem_keys_iff.mpr ⟨job, h⟩)

/-- Overwriting a job with one of the same id. -/
theorem ids_setJob {job' : Job L} (hids : ∀ k job, m.jobs.get? k = some job → job.job_id = k)
    (hjob' : job'.job_id = job_id) (queue : List String) (k : String) (job : Job L)
    (h : (m.setJob job_id job' queue).jobs.get? k = some job) : job.job_id = k := by
  by_cases hk : k = job_id
  · subst hk
    have hself : (m.setJob k job' queue).jobs.get? k = some job' := OrderedDict.get?_setItem_self _ _ _
    rw [hself] at h
    rw [← Option.some.inj h]
    exact hjob'
  · refine hids k job ?_
    rw [← h]
    exact (OrderedDict.get?_setItem_of_ne _ _ hk).symm

end Status

theorem _get_status_create [RetryLimit L] (m : JobManager L) (r : Submission L) (uuid : String) (now : ℚ)
    (j : String) : (m.create r uuid now)._get_status j =
      if j = uuid then some .queued else m._get_status j :=
  _get_status_setJob m uuid (newJob r uuid now) m.queue j

theorem idempotency_map_create_of_none [RetryLimit L] {m : JobManager L} {r : Submission L}
    (uuid : String) (now : ℚ) (h : truthy r.idempotency_key = none) :
    (m.create r uuid now).idempotency_map = m.idempotency_map := by
  simp only [JobManager.create, h]

theorem idempotency_map_create_of_some [RetryLimit L] {m : JobManager L} {r : Submission L}
    {key : String} (uuid : String) (now : ℚ) (h : truthy r.idempotency_key = some key) :
    (m.create r uuid now).idempotency_map = m.idempotency_map.setItem key uuid := by
  simp only [JobManager.create, h]

/-! ## The invariant -/

/-- The manager and the calls against the history. -/
structure Inv (tr : List Obs) (s : System L) : Prop where
  ids : ∀ job_id job, s.manager.jobs.get? job_id = some job → job.job_id = job_id
  queued : ∀ job_id, s.manager.queue.count job_id =
    if s.manager._get_status job_id = some .queued then 1 else 0
  held : ∀ job_id, s.calls.count (.processing job_id) =
    if s.manager._get_status job_id = some .processing then 1 else 0
  started : ∀ job_id, s.manager._get_status job_id ≠ none →
    s.manager._get_status job_id ≠ some .queued → job_id ∈ attempted tr
  submitted : ∀ key job_id, key ≠ "" → .enqueued (some key) job_id ∈ tr →
    s.manager.idempotency_map.get? key = some job_id
  mapped : ∀ key job_id, s.manager.idempotency_map.get? key = some job_id →
    job_id ∈ s.manager.jobs.keys
  made : created tr = s.manager.jobs.keys
  fifo : s.manager.jobs.keys = attempted tr ++ waiting tr s.manager.queue

theorem inv_init : Inv ([] : List Obs) (⟨JobManager.new, []⟩ : System L) := by
  constructor <;> simp [JobManager.new, JobManager._get_status, created, attempted, waiting,
    OrderedDict.keys, OrderedDict.empty, OrderedDict.get?]

section Steps

variable {tr : List Obs} {s : System L}

/-- An attempted job has been made. -/
theorem Inv.attempted_mem (h : Inv tr s) {job_id : String} (hmem : job_id ∈ attempted tr) :
    job_id ∈ s.manager.jobs.keys := by
  rw [h.fifo]
  exact List.mem_append_left _ hmem

theorem Inv.mem_queue_iff (h : Inv tr s) (job_id : String) :
    job_id ∈ s.manager.queue ↔ s.manager._get_status job_id = some .queued := by
  rw [← List.count_pos_iff, h.queued]
  split <;> simp_all

theorem Inv.mem_calls_iff (h : Inv tr s) (job_id : String) :
    .processing job_id ∈ s.calls ↔ s.manager._get_status job_id = some .processing := by
  rw [← List.count_pos_iff, h.held]
  split <;> simp_all

theorem Inv.known (h : Inv tr s) : Known s := by
  constructor
  · intro job_id hmem
    obtain ⟨job, hjob, -⟩ := exists_of_status ((h.mem_queue_iff job_id).mp hmem)
    exact ⟨job, hjob⟩
  · intro call job_id hcall
    have hmem := List.mem_of_getElem? hcall
    obtain ⟨job, hjob, -⟩ := exists_of_status ((h.mem_calls_iff job_id).mp hmem)
    exact ⟨job, hjob⟩

/-- A submission that makes a job. -/
theorem Inv.create [RetryLimit L] (h : Inv tr s) {r : Submission L} {uuid : String} {now : ℚ}
    (hfresh : s.manager.jobs.get? uuid = none)
    (hkey : ∀ key, truthy r.idempotency_key = some key →
      s.manager.idempotency_map.get? key = none) :
    Inv (tr ++ [.created uuid, .enqueued r.idempotency_key uuid])
      { s with manager := s.manager.create r uuid now } := by
  have hnone : s.manager._get_status uuid = none := by
    simp [JobManager._get_status, hfresh]
  have habsent : uuid ∉ s.manager.jobs.keys := OrderedDict.get?_eq_none_iff.mp hfresh
  have hkeys : (s.manager.create r uuid now).jobs.keys = s.manager.jobs.keys ++ [uuid] :=
    OrderedDict.keys_setItem_of_get?_eq_none _ hfresh
  have hattempted : attempted (tr ++ [.created uuid, .enqueued r.idempotency_key uuid]) =
      attempted tr := attempted_append _ _
  constructor
  · intro job_id job hjob
    by_cases hj : job_id = uuid
    · subst hj
      have hself : (s.manager.create r job_id now).jobs.get? job_id =
          some (newJob r job_id now) := OrderedDict.get?_setItem_self _ _ _
      rw [hself] at hjob
      rw [← Option.some.inj hjob]
      rfl
    · refine h.ids job_id job ?_
      rw [← hjob]
      exact (OrderedDict.get?_setItem_of_ne _ _ hj).symm
  · intro job_id
    show (s.manager.queue ++ [uuid]).count job_id = _
    rw [_get_status_create, List.count_append, h.queued]
    by_cases hj : job_id = uuid
    · subst hj
      simp [hnone]
    · simp [hj, Ne.symm hj]
  · intro job_id
    rw [h.held, _get_status_create]
    by_cases hj : job_id = uuid
    · subst hj
      simp [hnone]
    · simp [hj]
  · intro job_id
    rw [_get_status_create, hattempted]
    by_cases hj : job_id = uuid
    · simp [hj]
    · simp only [hj, if_false]
      exact h.started job_id
  · intro key job_id hne hmem
    simp only [List.mem_append, List.mem_cons, Obs.enqueued.injEq, List.not_mem_nil, or_false,
      reduceCtorEq, false_or] at hmem
    show (s.manager.create r uuid now).idempotency_map.get? key = some job_id
    rcases hmem with hold | ⟨hrkey, rfl⟩
    · -- a key used before is not the one the job is made for
      have hold := h.submitted key job_id hne hold
      cases htruthy : truthy r.idempotency_key with
      | none =>
        rw [idempotency_map_create_of_none _ _ htruthy]
        exact hold
      | some key' =>
        have hdiff : key ≠ key' := by
          rintro rfl
          rw [hkey key htruthy] at hold
          simp at hold
        rw [idempotency_map_create_of_some _ _ htruthy, OrderedDict.get?_setItem_of_ne _ _ hdiff]
        exact hold
    · have htruthy : truthy r.idempotency_key = some key := by
        rw [← hrkey]
        simp [truthy, hne]
      rw [idempotency_map_create_of_some _ _ htruthy]
      exact OrderedDict.get?_setItem_self _ _ _
  · intro key job_id hmap
    rw [hkeys, List.mem_append, List.mem_singleton]
    change (s.manager.create r uuid now).idempotency_map.get? key = some job_id at hmap
    cases htruthy : truthy r.idempotency_key with
    | none =>
      rw [idempotency_map_create_of_none _ _ htruthy] at hmap
      exact Or.inl (h.mapped key job_id hmap)
    | some key' =>
      rw [idempotency_map_create_of_some _ _ htruthy] at hmap
      by_cases hk : key = key'
      · subst hk
        simp only [OrderedDict.get?_setItem_self, Option.some.injEq] at hmap
        exact Or.inr hmap.symm
      · simp only [OrderedDict.get?_setItem_of_ne _ _ hk] at hmap
        exact Or.inl (h.mapped key job_id hmap)
  · rw [created_append, h.made, hkeys]
    rfl
  · -- the new job waits behind all others
    show (s.manager.create r uuid now).jobs.keys = _ ++ waiting _ (s.manager.queue ++ [uuid])
    have hwaits : uuid ∉ attempted tr := fun hmem => habsent (h.attempted_mem hmem)
    rw [hkeys, waiting, hattempted, List.filter_append, h.fifo, List.append_assoc]
    simp [waiting, hwaits]

/-- A block that changes no job, no key and not the queue, and answers a
submission only with the job of its key. -/
theorem Inv.unchanged (h : Inv tr s) {o : Obs} {calls : List Call}
    (hcalls : ∀ job_id, calls.count (.processing job_id) = s.calls.count (.processing job_id))
    (hcreated : created [o] = []) (hattempted : recordAttempt (attempted tr) o = attempted tr)
    (hsubmitted : ∀ key job_id, key ≠ "" → .enqueued (some key) job_id = o →
      s.manager.idempotency_map.get? key = some job_id) :
    Inv (tr ++ [o]) { s with calls := calls } := by
  have hattempted : attempted (tr ++ [o]) = attempted tr := by
    rw [attempted_append]
    exact hattempted
  refine ⟨h.ids, h.queued, ?_, ?_, ?_, h.mapped, ?_, ?_⟩
  · intro job_id
    rw [hcalls, h.held]
  · rw [hattempted]
    exact h.started
  · intro key job_id hne hmem
    rcases List.mem_append.mp hmem with hold | hnew
    · exact h.submitted key job_id hne hold
    · exact hsubmitted key job_id hne (List.mem_singleton.mp hnew)
  · rw [created_append, hcreated, List.append_nil, h.made]
  · rw [waiting, hattempted]
    exact h.fifo

/-- An attempt starts at the head of the queue. -/
theorem Inv.start (h : Inv tr s) {job_id : String} {queue : List String} {job : Job L}
    (hqueue : s.manager.queue = job_id :: queue)
    (hjob : s.manager.jobs.get? job_id = some job) :
    Inv (tr ++ [.started s.calls.length job_id])
      ⟨s.manager.setJob job_id { job with status := .processing } queue,
        s.calls ++ [.processing job_id]⟩ := by
  -- the head was queued, once
  have hstatus := (h.mem_queue_iff job_id).mp (by simp [hqueue])
  have habsent : job_id ∉ queue := by
    have hcount := h.queued job_id
    rw [if_pos hstatus, hqueue, List.count_cons_self] at hcount
    exact List.count_eq_zero.mp (by omega)
  have hkeys := keys_setJob hjob { job with status := .processing } queue
  have hattempted : attempted (tr ++ [.started s.calls.length job_id]) =
      if job_id ∈ attempted tr then attempted tr else attempted tr ++ [job_id] :=
    attempted_append _ _
  have hmono : ∀ j, j ∈ attempted tr ∨ j = job_id →
      j ∈ attempted (tr ++ [.started s.calls.length job_id]) := by
    intro j hj
    rw [hattempted]
    split
    · rcases hj with hj | rfl
      · exact hj
      · assumption
    · simpa using hj
  constructor
  · refine ids_setJob h.ids ?_ queue
    exact h.ids job_id job hjob
  · intro j
    show queue.count j = _
    rw [_get_status_setJob]
    by_cases hj : j = job_id
    · subst hj
      simp [List.count_eq_zero.mpr habsent]
    · have hold := h.queued j
      rw [hqueue, List.count_cons_of_ne (Ne.symm hj)] at hold
      rw [hold, if_neg hj]
  · intro j
    rw [_get_status_setJob, List.count_append, h.held]
    by_cases hj : j = job_id
    · subst hj
      simp [hstatus]
    · simp [hj, Ne.symm hj]
  · intro j hmade hnot
    rw [_get_status_setJob] at hmade hnot
    by_cases hj : j = job_id
    · exact hmono j (Or.inr hj)
    · rw [if_neg hj] at hmade hnot
      exact hmono j (Or.inl (h.started j hmade hnot))
  · intro key j hne hmem
    refine h.submitted key j hne ?_
    simpa using hmem
  · intro key j hmap
    rw [hkeys]
    exact h.mapped key j hmap
  · rw [hkeys, created_append, h.made]
    simp [created]
  · show _ = _ ++ waiting _ queue
    rw [hkeys, h.fifo, hqueue, waiting, waiting, hattempted]
    by_cases hfirst : job_id ∈ attempted tr
    · simp [hfirst]
    · -- a first attempt: the head was the longest waiting job
      have hrest : queue.filter (fun j => j ∉ attempted tr ++ [job_id]) =
          queue.filter (fun j => j ∉ attempted tr) := by
        apply List.filter_congr
        intro j hj
        have hne : j ≠ job_id := fun he => habsent (he ▸ hj)
        simp [hne]
      rw [if_neg hfirst, hrest]
      simp [hfirst]

/-- An attempt ends. -/
theorem Inv.finish [RetryLimit L] (h : Inv tr s) {call : ℕ} {job_id : String} {job : Job L}
    {outcome : Outcome} (hcall : s.calls[call]? = some (.processing job_id))
    (hjob : s.manager.jobs.get? job_id = some job) :
    Inv (tr ++ [.finished call job_id outcome])
      ⟨s.manager.setJob job_id (job.after outcome) (s.manager.queue ++
          (if (job.after outcome).status = .queued then [job.job_id] else [])),
        s.calls.set call (.returned (some job_id))⟩ := by
  have hstatus := (h.mem_calls_iff job_id).mp (List.mem_of_getElem? hcall)
  have hset : ∀ j, (s.calls.set call (.returned (some job_id))).count (.processing j) +
      (if j = job_id then 1 else 0) = s.calls.count (.processing j) := by
    intro j
    have hadd := countP_set_add (a := Call.returned (some job_id)) (· == .processing j) hcall
    by_cases hj : j = job_id
    · subst hj
      simpa [List.count] using hadd
    · simpa [List.count, hj, Ne.symm hj] using hadd
  have hkeys := keys_setJob hjob (job.after outcome)
  have hid := h.ids job_id job hjob
  have hattempted : attempted (tr ++ [.finished call job_id outcome]) = attempted tr :=
    attempted_append _ _
  have hfirst : job_id ∈ attempted tr := h.started job_id (by simp [hstatus]) (by simp [hstatus])
  have hnot := job.after_not_processing outcome
  constructor
  · exact ids_setJob h.ids (by rw [Job.after_job_id, hid]) _
  · intro j
    show (s.manager.queue ++ _).count j = _
    rw [_get_status_setJob, List.count_append, h.queued, hid]
    by_cases hj : j = job_id
    · subst hj
      rw [hstatus]
      by_cases hretry : (job.after outcome).status = .queued
      · simp [hretry]
      · simp [hretry]
    · by_cases hretry : (job.after outcome).status = .queued
      · simp [hretry, hj, Ne.symm hj]
      · simp [hretry, hj]
  · intro j
    show (s.calls.set call (.returned (some job_id))).count (Call.processing j) = _
    rw [_get_status_setJob]
    have hj' := hset j
    have hold := h.held j
    by_cases hj : j = job_id
    · subst hj
      rw [if_pos rfl] at hj'
      rw [if_pos hstatus] at hold
      rw [if_pos rfl, if_neg (fun he => hnot (Option.some.inj he))]
      omega
    · rw [if_neg hj] at hj' ⊢
      rw [← hold]
      omega
  · intro j hmade hnotq
    rw [hattempted]
    rw [_get_status_setJob] at hmade hnotq
    by_cases hj : j = job_id
    · rw [hj]; exact hfirst
    · rw [if_neg hj] at hmade hnotq
      exact h.started j hmade hnotq
  · intro key j hne hmem
    refine h.submitted key j hne ?_
    simpa using hmem
  · intro key j hmap
    rw [hkeys]
    exact h.mapped key j hmap
  · rw [hkeys, created_append, h.made]
    simp [created]
  · show _ = _ ++ waiting _ (s.manager.queue ++ _)
    rw [hkeys, h.fifo, waiting, waiting, hattempted, List.filter_append, hid]
    -- what is requeued has been attempted
    split
    · simp [hfirst]
    · simp

/-- Every block keeps the invariant. -/
theorem inv_step [RetryLimit L] (h : Inv tr s) {out : List Obs} {s' : System L}
    (hstep : Step s out s') : Inv (tr ++ out) s' := by
  cases hstep with
  | create hfresh hkey => exact h.create hfresh hkey
  | @reuse r key job_id hkey hmap =>
    refine h.unchanged (fun _ => rfl) rfl rfl ?_
    intro key' job_id' hne he
    simp only [Obs.enqueued.injEq] at he
    obtain ⟨hrkey, rfl⟩ := he
    rw [← hrkey] at hkey
    simp only [truthy, hne, if_false, Option.some.injEq] at hkey
    rw [hkey, hmap]
  | read => exact h.unchanged (fun _ => rfl) rfl rfl (by simp)
  | start hqueue hjob => exact h.start hqueue hjob
  | idle hempty => exact h.unchanged (by simp) rfl rfl (by simp)
  | finish hcall hjob => exact h.finish hcall hjob

end Steps

end InterviewPrep.Jobs
