import Mathlib.Data.Finset.Dedup
import Mathlib.Data.Fintype.EquivFin
import InterviewPrep.Jobs.Contract
import InterviewPrep.Jobs.Mutex

/-!
# The TypeScript job manager behind its lock

The public methods of `technical/job_manager/answer.ts`. Each of them awaits
`acquire`; when it goes on it runs its block and calls the release function
without another `await` in between, and `processNext` acquires the lock a second
time after step 2. `Model.lean` has the blocks without the lock and `Mutex.lean`
the lock without the blocks; here a call of `acquire` carries the block it is for.

The blocks take effect in the order of the calls of `acquire`, whatever the order
of the resumptions (`service_serial`), and as long as a call waits there is one
that can go on (`service_serves`).
-/

namespace InterviewPrep.Jobs

namespace TypeScript

variable {L : Type*}

/-! ## The program -/

/-- A call of a public method. -/
inductive Request (L : Type*) where
  | enqueue (r : Submission L)
  | getStatus (jobId : String)
  | processNext
deriving DecidableEq

/-- What a call of `acquire` guards: the block of a method (step 1 of
`processNext`), or step 3 of a call of `processNext`. -/
inductive Block (L : Type*) where
  | request (request : Request L)
  | update (call : ℕ) (outcome : Outcome)
deriving DecidableEq

namespace Block

/-- The block as an event, with what `randomUUID` and `Date.now` answer. -/
def event (randomUUID : String) (now : ℚ) : Block L → Jobs.Event L
  | request (.enqueue r) => .enqueue r randomUUID now
  | request (.getStatus jobId) => .get_status jobId
  | request .processNext => .process_next
  | update call outcome => .finish call outcome

/-- Step 3 of this call. -/
def isUpdate (call : ℕ) : Block L → Bool
  | request _ => false
  | update c _ => c == call

end Block

/-- The lock with the calls of `acquire`, what each of them is for, and the
manager. -/
structure Service (L : Type*) where
  callers : Mutex.Callers
  blocks : List (Block L)
  system : System L

/-- A method is called, step 2 of `processNext` is over, `acquire` resumes, or the
method that called `acquire` resumes. -/
inductive ServiceEvent (L : Type*) where
  | call (request : Request L)
  | processed (call : ℕ) (outcome : Outcome)
  | resumeAcquire (c : ℕ)
  | resumeCaller (c : ℕ) (randomUUID : String) (now : ℚ)
deriving DecidableEq

namespace ServiceEvent

/-- The block for which the event calls `acquire`. -/
def block? : ServiceEvent L → Option (Block L)
  | .call request => some (.request request)
  | .processed n outcome => some (.update n outcome)
  | _ => none

/-- A promise that was resolved is gone on with. -/
def isResumption (e : ServiceEvent L) : Bool := e.block?.isNone

end ServiceEvent

/-- The blocks for which `acquire` was called, in the order of the calls. -/
def arrived (es : List (ServiceEvent L)) : List (Block L) := es.filterMap ServiceEvent.block?

namespace Service

/-- `this.lock.acquire()` -/
def acquire (s : Service L) (block : Block L) : Option (Service L × List Obs) :=
  (Mutex.step s.callers .acquire).map fun r => (⟨r.1, s.blocks ++ [block], s.system⟩, [])

/-- The call of `processNext` is in step 2. -/
def inStep2 (s : Service L) (call : ℕ) : Bool :=
  match s.system.calls[call]? with
  | some (.processing _) => !s.blocks.any (Block.isUpdate call)
  | _ => false

def step [RetryLimit L] (s : Service L) : ServiceEvent L → Option (Service L × List Obs)
  | .call request => s.acquire (.request request)
  -- step 2 is over; its outcome is kept for step 3
  | .processed call outcome => if s.inStep2 call then s.acquire (.update call outcome) else none
  | .resumeAcquire c =>
    (Mutex.step s.callers (.resumeAcquire c)).map fun r => ({ s with callers := r.1 }, [])
  | .resumeCaller c randomUUID now =>
    match s.blocks[c]?, Mutex.step s.callers (.resumeCaller c) with
    | some block, some (callers, _) =>
      -- the block, and the release function in `finally`
      match (machine L).step s.system (block.event randomUUID now),
          Mutex.step callers (.release c) with
      | some (system, out), some (callers, _) => some (⟨callers, s.blocks, system⟩, out)
      | _, _ => none
    | _, _ => none

/-- Calls of `acquire` that have not released the lock. -/
def waiting (s : Service L) : ℕ := s.callers.calls.countP (· ≠ .released)

end Service

/-- All interleavings of the calls of the public methods. -/
def service (L : Type*) [RetryLimit L] : Machine (Service L) (ServiceEvent L) Obs where
  init := ⟨⟨Mutex.new, []⟩, [], ⟨JobManager.new, []⟩⟩
  step := Service.step

/-- The event is the block, with some answers of `randomUUID` and `Date.now`. -/
def Performs (e : Jobs.Event L) (block : Block L) : Prop :=
  ∃ randomUUID now, e = block.event randomUUID now

/-! ## Steps -/

/-- What an event does. -/
inductive Turn [RetryLimit L] (s : Service L) : ServiceEvent L → Service L → List Obs → Prop where
  | acquires {e : ServiceEvent L} {block : Block L} {callers : Mutex.Callers}
      {locks : List Mutex.Obs} : e.block? = some block →
      (∀ call outcome, block = .update call outcome → s.inStep2 call = true) →
      Mutex.step s.callers .acquire = some (callers, locks) →
      Turn s e ⟨callers, s.blocks ++ [block], s.system⟩ []
  | resumes {c : ℕ} {callers : Mutex.Callers} {locks : List Mutex.Obs} :
      Mutex.step s.callers (.resumeAcquire c) = some (callers, locks) →
      Turn s (.resumeAcquire c) { s with callers } []
  | runs {c : ℕ} {randomUUID : String} {now : ℚ} {block : Block L}
      {callers callers' : Mutex.Callers} {locks locks' : List Mutex.Obs} {system : System L}
      {out : List Obs} : s.blocks[c]? = some block →
      Mutex.step s.callers (.resumeCaller c) = some (callers, locks) →
      (machine L).step s.system (block.event randomUUID now) = some (system, out) →
      Mutex.step callers (.release c) = some (callers', locks') →
      Turn s (.resumeCaller c randomUUID now) ⟨callers', s.blocks, system⟩ out

section Steps

variable [RetryLimit L] {s s' : Service L} {e : ServiceEvent L} {out : List Obs}

theorem acquire_turn {block : Block L} (hblock : e.block? = some block)
    (hupdate : ∀ call outcome, block = .update call outcome → s.inStep2 call = true)
    (h : s.acquire block = some (s', out)) : Turn s e s' out := by
  rcases Option.map_eq_some_iff.mp h with ⟨⟨callers, locks⟩, hlock, heq⟩
  cases heq
  exact .acquires hblock hupdate hlock

theorem turn_of_step (h : s.step e = some (s', out)) : Turn s e s' out := by
  cases e with
  | call request =>
    refine acquire_turn rfl ?_ h
    rintro call outcome ⟨⟩
  | processed n outcome =>
    simp only [Service.step] at h
    split at h
    · rename_i hstep2
      refine acquire_turn rfl ?_ h
      rintro call outcome ⟨⟩
      exact hstep2
    · cases h
  | resumeAcquire c =>
    rcases Option.map_eq_some_iff.mp h with ⟨⟨callers, locks⟩, hlock, heq⟩
    cases heq
    exact .resumes hlock
  | resumeCaller c randomUUID now =>
    simp only [Service.step] at h
    split at h
    · rename_i block callers locks hblock hlock
      split at h
      · rename_i system out' callers' locks' hrun hrelease
        cases h
        exact .runs hblock hlock hrun hrelease
      · cases h
    · cases h

end Steps

end TypeScript

/-! ## The lock -/

namespace Mutex

variable {s s' : Callers} {out : List Obs} {c : ℕ}

/-- A call of `acquire` returns or waits. -/
theorem acquire_cases (h : step s .acquire = some (s', out)) :
    (∃ x, s'.calls = s.calls ++ [x] ∧ (x = .returned ∨ x = .suspended)) ∧ releases out = [] := by
  simp only [step] at h
  split at h
  · cases h
    exact ⟨⟨_, rfl, Or.inl rfl⟩, rfl⟩
  · cases h
    exact ⟨⟨_, rfl, Or.inr rfl⟩, rfl⟩

theorem resumeAcquire_cases (h : step s (.resumeAcquire c) = some (s', out)) :
    s.calls[c]? = some .resolved ∧ s' = { s with calls := s.calls.set c .returned } ∧ out = [] := by
  simp only [step] at h
  split at h
  · rename_i hc
    cases h
    exact ⟨hc, rfl, rfl⟩
  · cases h

theorem resumeCaller_cases (h : step s (.resumeCaller c) = some (s', out)) :
    s.calls[c]? = some .returned ∧ s' = { s with calls := s.calls.set c .holding } ∧ out = [] := by
  simp only [step] at h
  split at h
  · rename_i hc
    cases h
    exact ⟨hc, rfl, rfl⟩
  · cases h

/-- A release ends the call and wakes the first waiter. -/
theorem release_cases (h : step s (.release c) = some (s', out)) :
    s.calls[c]? = some .holding ∧ releases out = [c] ∧
      (s'.calls = s.calls.set c .released ∨
        ∃ next waiters, s.mutex.waiters = next :: waiters ∧
          s'.calls = (s.calls.set c .released).set next .resolved) := by
  simp only [step] at h
  split at h
  · rename_i hc
    cases hwaiters : s.mutex.waiters with
    | nil =>
      simp only [release, hwaiters] at h
      cases h
      exact ⟨hc, rfl, Or.inl rfl⟩
    | cons next waiters =>
      simp only [release, hwaiters] at h
      cases h
      exact ⟨hc, rfl, Or.inr ⟨next, waiters, rfl, rfl⟩⟩
  · cases h

namespace Line

variable {tr : List Obs}

/-- The line, read off the calls that have released the lock. -/
theorem shape (h : Line tr s) :
    ∃ k, releases tr = List.range k ∧
      (s = ⟨new, List.replicate k .released⟩ ∨
        ∃ owner w, owner.isOwner = true ∧ s = ⟨⟨true, List.range' (k + 1) w⟩,
          List.replicate k .released ++ owner :: List.replicate w .suspended⟩) := by
  cases h with
  | @free k _ _ hreleases => exact ⟨k, hreleases, Or.inl rfl⟩
  | @owned k w owner howner _ _ hreleases =>
    exact ⟨k, hreleases, Or.inr ⟨owner, w, howner, rfl⟩⟩

theorem waiter_suspended (h : Line tr s) {next : ℕ} {waiters : List ℕ}
    (hwaiters : s.mutex.waiters = next :: waiters) : s.calls[next]? = some .suspended := by
  cases h with
  | free => cases hwaiters
  | @owned k w owner =>
    cases w with
    | zero => cases hwaiters
    | succ w =>
      simp only [List.range'_succ, List.cons.injEq] at hwaiters
      rcases hwaiters with ⟨rfl, -⟩
      rw [List.getElem?_append_right (by simp), List.length_replicate,
        Nat.add_sub_cancel_left, List.getElem?_cons_succ, List.replicate_succ,
        List.getElem?_cons_zero]

end Line

end Mutex

/-! ## The blocks in their order -/

namespace TypeScript

variable {L : Type*} [RetryLimit L]

/-- A block leaves the calls of `processNext` as they are, but for the one whose
step 3 it is. -/
theorem calls_of_step {s s' : System L} {e : Jobs.Event L} {out : List Obs}
    (h : (machine L).step s e = some (s', out)) {n : ℕ} {call : Call}
    (hcall : s.calls[n]? = some call) (hne : ∀ outcome, e ≠ .finish n outcome) :
    s'.calls[n]? = some call := by
  simp only [machine, stepWith] at h
  cases e with
  | enqueue r uuid now =>
    simp only at h
    split at h
    · cases h
    · cases h
      exact hcall
  -- a status is only read
  | get_status job_id =>
    cases h
    exact hcall
  | process_next =>
    simp only at h
    split at h <;> cases h <;> exact getElem?_concat_of_some hcall
  | finish m outcome =>
    have hm : m ≠ n := fun he => hne outcome (by rw [he])
    simp only at h
    split at h
    · cases h
      rwa [List.getElem?_set_ne hm]
    · cases h

/-- The first blocks have taken effect, in their order, and the calls of `acquire`
for the others wait. -/
structure Served (s : Service L) (tr : List Obs) (fs : List (Jobs.Event L))
    (locks : List Mutex.Obs) : Prop where
  run : (machine L).Run fs tr s.system
  line : Mutex.Line locks s.callers
  /-- between two steps nobody is inside a block -/
  not_holding : Mutex.Call.holding ∉ s.callers.calls
  released : Mutex.releases locks = List.range fs.length
  paired : s.blocks.length = s.callers.calls.length
  performed : List.Forall₂ Performs fs (s.blocks.take fs.length)
  updates : ∀ (c : ℕ) call outcome, fs.length ≤ c → s.blocks[c]? = some (.update call outcome) →
    ∃ job_id, s.system.calls[call]? = some (.processing job_id)
  once : ∀ (c d : ℕ) call outcome outcome', s.blocks[c]? = some (.update call outcome) →
    s.blocks[d]? = some (.update call outcome') → c = d

namespace Served

variable {s s' : Service L} {tr out : List Obs} {fs : List (Jobs.Event L)}
  {locks : List Mutex.Obs}

theorem length_le (h : Served s tr fs locks) : fs.length ≤ s.blocks.length := by
  have hlength := h.performed.length_eq
  rw [List.length_take] at hlength
  omega

omit [RetryLimit L] in
/-- A call of `processNext` in step 2 holds a job, and its step 3 is still to come. -/
theorem inStep2_cases {n : ℕ} (h : s.inStep2 n = true) :
    (∃ job_id, s.system.calls[n]? = some (.processing job_id)) ∧
      ∀ (c : ℕ) outcome, s.blocks[c]? ≠ some (.update n outcome) := by
  simp only [Service.inStep2] at h
  split at h
  · rename_i job_id hcall
    refine ⟨⟨job_id, hcall⟩, ?_⟩
    intro c outcome hblock
    simp only [Bool.not_eq_true', List.any_eq_false] at h
    refine h _ (List.mem_of_getElem? hblock) ?_
    simp [Block.isUpdate]
  · cases h

theorem acquires (h : Served s tr fs locks) {block : Block L} {callers : Mutex.Callers}
    {locks' : List Mutex.Obs}
    (hupdate : ∀ call outcome, block = .update call outcome → s.inStep2 call = true)
    (hlock : Mutex.step s.callers .acquire = some (callers, locks')) :
    Served ⟨callers, s.blocks ++ [block], s.system⟩ tr fs (locks ++ locks') := by
  rcases Mutex.acquire_cases hlock with ⟨⟨x, hcalls, hx⟩, hreleases⟩
  refine ⟨h.run, h.line.step hlock, ?_, ?_, ?_, ?_, ?_, ?_⟩
  · rw [hcalls, List.mem_append, List.mem_singleton, not_or]
    -- a call of `acquire` is not inside its block
    refine ⟨h.not_holding, ?_⟩
    rcases hx with rfl | rfl
    · exact nofun
    · exact nofun
  · rw [Mutex.releases_append, hreleases, List.append_nil]
    exact h.released
  · rw [hcalls, List.length_append, List.length_append, h.paired]
    rfl
  · rw [List.take_append_of_le_length h.length_le]
    exact h.performed
  · intro c call outcome hc hblock
    -- the update that is new is for a call in step 2
    rcases getElem?_concat_cases hblock with ⟨-, heq⟩ | hold
    · exact (inStep2_cases (hupdate call outcome heq.symm)).1
    · exact h.updates c call outcome hc hold
  · intro c d call outcome outcome' hc hd
    -- step 3 of a call is acquired for once, since the call is then no longer in step 2
    rcases getElem?_concat_cases hc with ⟨rfl, heq⟩ | hold
    · rcases getElem?_concat_cases hd with ⟨rfl, -⟩ | hold'
      · rfl
      · exact absurd hold' ((inStep2_cases (hupdate call outcome heq.symm)).2 d outcome')
    · rcases getElem?_concat_cases hd with ⟨rfl, heq⟩ | hold'
      · exact absurd hold ((inStep2_cases (hupdate call outcome' heq.symm)).2 c outcome)
      · exact h.once c d call outcome outcome' hold hold'

theorem resumes (h : Served s tr fs locks) {c : ℕ} {callers : Mutex.Callers}
    {locks' : List Mutex.Obs}
    (hlock : Mutex.step s.callers (.resumeAcquire c) = some (callers, locks')) :
    Served { s with callers } tr fs (locks ++ locks') := by
  have hline := h.line.step hlock
  rcases Mutex.resumeAcquire_cases hlock with ⟨-, rfl, rfl⟩
  rw [List.append_nil] at hline ⊢
  refine ⟨h.run, hline, ?_, h.released, ?_, h.performed, h.updates, h.once⟩
  · intro hmem
    rcases List.mem_or_eq_of_mem_set hmem with hmem | heq
    · exact h.not_holding hmem
    · cases heq
  · rw [List.length_set]
    exact h.paired

/-- The owner of the lock runs its block and releases the lock: it is the first
whose block has not taken effect. -/
theorem runs (h : Served s tr fs locks) {c : ℕ} {randomUUID : String} {now : ℚ}
    {block : Block L} {callers callers' : Mutex.Callers} {locks₁ locks₂ : List Mutex.Obs}
    {system : System L} (hblock : s.blocks[c]? = some block)
    (hlock : Mutex.step s.callers (.resumeCaller c) = some (callers, locks₁))
    (hrun : (machine L).step s.system (block.event randomUUID now) = some (system, out))
    (hrelease : Mutex.step callers (.release c) = some (callers', locks₂)) :
    Served ⟨callers', s.blocks, system⟩ (tr ++ out) (fs ++ [block.event randomUUID now])
      (locks ++ locks₁ ++ locks₂) := by
  have hline := (h.line.step hlock).step hrelease
  rcases Mutex.resumeCaller_cases hlock with ⟨-, rfl, rfl⟩
  rcases Mutex.release_cases hrelease with ⟨-, hreleases, hcalls⟩
  have hreleased : Mutex.releases (locks ++ [] ++ locks₂) = List.range fs.length ++ [c] := by
    rw [List.append_nil, Mutex.releases_append, h.released, hreleases]
  -- the calls release the lock in their order
  have hc : c = fs.length := by
    rcases hline.shape with ⟨k, hk, -⟩
    rw [hreleased] at hk
    have hlength := congrArg List.length hk
    rw [List.length_append, List.length_singleton, List.length_range, List.length_range] at hlength
    rw [← hlength, List.range_succ] at hk
    simpa using hk
  have hlength : (fs ++ [block.event randomUUID now]).length = fs.length + 1 := by simp
  refine ⟨h.run.step hrun, hline, ?_, ?_, ?_, ?_, ?_, h.once⟩
  · -- the owner has left its block again
    have hset : Mutex.Call.holding ∉ (s.callers.calls.set c .holding).set c .released := by
      rw [List.set_set]
      intro hmem
      rcases List.mem_or_eq_of_mem_set hmem with hmem | heq
      · exact h.not_holding hmem
      · cases heq
    rcases hcalls with hcalls | ⟨next, waiters, -, hcalls⟩
    · rw [hcalls]
      exact hset
    · rw [hcalls]
      intro hmem
      rcases List.mem_or_eq_of_mem_set hmem with hmem | heq
      · exact hset hmem
      · cases heq
  · rw [hreleased, hlength, List.range_succ, hc]
  · rw [h.paired]
    rcases hcalls with hcalls | ⟨next, waiters, -, hcalls⟩
    · simp only [hcalls, List.length_set]
    · simp only [hcalls, List.length_set]
  · -- the block that ran is the next one
    rw [hlength, List.take_add_one, ← hc, hblock, hc]
    exact List.rel_append h.performed (.cons ⟨randomUUID, now, rfl⟩ .nil)
  · intro d call outcome hd hupdate
    rw [hlength] at hd
    rcases h.updates d call outcome (by omega) hupdate with ⟨job_id, hheld⟩
    refine ⟨job_id, calls_of_step hrun hheld ?_⟩
    -- another block ends the attempt of another call
    intro outcome' heq
    have hsame : block = .update call outcome' := by
      cases block with
      | request request => cases request <;> cases heq
      | update n o =>
        cases heq
        rfl
    have hcd := h.once c d call outcome' outcome (by rw [hblock, hsame]) hupdate
    omega

theorem turn (h : Served s tr fs locks) {e : ServiceEvent L} (hturn : Turn s e s' out) :
    ∃ fs' locks', Served s' (tr ++ out) fs' locks' := by
  cases hturn with
  | acquires _ hupdate hlock =>
    rw [List.append_nil]
    exact ⟨_, _, h.acquires hupdate hlock⟩
  | resumes hlock =>
    rw [List.append_nil]
    exact ⟨_, _, h.resumes hlock⟩
  | runs hblock hlock hrun hrelease => exact ⟨_, _, h.runs hblock hlock hrun hrelease⟩

/-- The calls of `acquire`: those that are over, the one whose turn it is, and
those that wait behind it. -/
theorem shape (h : Served s tr fs locks) :
    s.callers = ⟨Mutex.new, List.replicate fs.length .released⟩ ∨
      ∃ owner w, (owner = .resolved ∨ owner = .returned) ∧
        s.callers = ⟨⟨true, List.range' (fs.length + 1) w⟩,
          List.replicate fs.length .released ++ owner :: List.replicate w .suspended⟩ := by
  rcases h.line.shape with ⟨k, hk, hcallers⟩
  obtain rfl : fs.length = k := by simpa [h.released] using congrArg List.length hk
  rcases hcallers with hcallers | ⟨owner, w, howner, hcallers⟩
  · exact Or.inl hcallers
  · refine Or.inr ⟨owner, w, ?_, hcallers⟩
    -- an owner that holds the lock would be inside its block
    have hholding := h.not_holding
    rw [hcallers] at hholding
    cases owner with
    | resolved => exact Or.inl rfl
    | returned => exact Or.inr rfl
    | holding => exact absurd (by simp) hholding
    | suspended => cases howner
    | released => cases howner

end Served

/-! ## Runs -/

section Runs

variable {es : List (ServiceEvent L)} {tr : List Obs} {s : Service L}

theorem served_run (hrun : (service L).Run es tr s) : ∃ fs locks, Served s tr fs locks := by
  refine hrun.history_invariant (fun _ tr s => ∃ fs locks, Served s tr fs locks) ?_ ?_
  · refine ⟨[], [], .init, Mutex.line_run .init, ?_, rfl, rfl, .nil, ?_, ?_⟩
    · exact List.not_mem_nil
    · rintro c call outcome - ⟨⟩
    · rintro c d call outcome outcome' ⟨⟩
  · rintro es tr s e s' out - ⟨fs, locks, h⟩ hs
    exact h.turn (turn_of_step hs)

theorem blocks_eq_arrived (hrun : (service L).Run es tr s) : s.blocks = arrived es := by
  refine hrun.history_invariant (fun es _ s => s.blocks = arrived es) rfl ?_
  intro es tr s e s' out _ h hs
  rw [arrived, List.filterMap_append, ← arrived, ← h]
  cases turn_of_step hs with
  | acquires hblock _ _ => rw [List.filterMap_cons_some hblock, List.filterMap_nil]
  | resumes _ => exact (List.append_nil _).symm
  | runs _ _ _ _ => exact (List.append_nil _).symm

/-- **The order of the calls.** However the calls of the methods and the
resumptions are interleaved, what the manager has done is what its blocks do one at
a time in the order of the calls of `acquire`: a first part of them has taken
effect, namely the blocks of the calls that have released the lock. The lock is
taken exactly while one of them has not. The manager's own invariant holds. -/
theorem service_serial (hrun : (service L).Run es tr s) :
    ∃ fs, (machine L).Run fs tr s.system ∧
      List.Forall₂ Performs fs ((arrived es).take fs.length) ∧
      (∀ c : ℕ, s.callers.calls[c]? = some .released ↔ c < fs.length) ∧
      (s.callers.mutex.locked = true ↔ fs.length < (arrived es).length) ∧
      Consistent tr s.system := by
  rcases served_run hrun with ⟨fs, locks, h⟩
  have hperformed := h.performed
  have hpaired := h.paired
  rw [blocks_eq_arrived hrun] at hperformed hpaired
  refine ⟨fs, h.run, hperformed, ?_, ?_, (state_invariant (Or.inr rfl) h.run).1⟩
  · intro c
    -- nobody waits, and all calls are over
    rcases h.shape with hcallers | ⟨owner, w, howner, hcallers⟩
    · rw [hcallers, List.getElem?_replicate]
      simp
    · rw [hcallers]
      -- before the owner, the owner, and behind it
      rcases Nat.lt_trichotomy c fs.length with hlt | heq | hgt
      · rw [List.getElem?_append_left (by simpa using hlt), List.getElem?_replicate, if_pos hlt]
        exact iff_of_true rfl hlt
      · refine iff_of_false ?_ (by omega)
        rw [heq, List.getElem?_append_right (by simp)]
        rcases howner with rfl | rfl <;> simp
      · refine iff_of_false ?_ (by omega)
        rw [List.getElem?_append_right (by simp; omega), List.length_replicate,
          List.getElem?_cons, if_neg (by omega), List.getElem?_replicate]
        split <;> simp
  · rw [hpaired]
    rcases h.shape with hcallers | ⟨owner, w, howner, hcallers⟩
    · rw [hcallers]
      simp [Mutex.new]
    · rw [hcallers]
      simp

end Runs

/-- A duplicate submission comes while the lock is handed over, and the job is
processed while other calls go on. -/
def clientsRun : List (ServiceEvent ℤ) :=
  [.call (.enqueue ⟨"doc-17", "...", some "upload-42", none⟩), .call .processNext,
    .call (.getStatus "job-a"), .resumeCaller 0 "job-a" 0,
    .call (.enqueue ⟨"doc-17", "...", some "upload-42", none⟩), .resumeAcquire 1,
    .resumeCaller 1 "job-b" 1, .processed 0 (.raised "timeout"), .resumeAcquire 2]

theorem service_serial_clientsRun :
    ∃ s tr, (service ℤ).Run clientsRun tr s ∧
      (tr, s.callers.mutex.waiters) =
        ([.created "job-a", .enqueued (some "upload-42") "job-a", .started 0 "job-a"], [3, 4]) ∧
      ∃ fs, (machine ℤ).Run fs tr s.system ∧
        List.Forall₂ Performs fs ((arrived clientsRun).take fs.length) ∧
        (∀ c : ℕ, s.callers.calls[c]? = some .released ↔ c < fs.length) ∧
        (s.callers.mutex.locked = true ↔ fs.length < (arrived clientsRun).length) ∧
        Consistent tr s.system := by
  have hexec : ((service ℤ).exec clientsRun).map (fun r => (r.2, r.1.callers.mutex.waiters)) =
      some ([.created "job-a", .enqueued (some "upload-42") "job-a", .started 0 "job-a"],
        [3, 4]) := by decide +kernel
  rcases Machine.Run.of_exec_map hexec with ⟨s, tr, hrun, hs⟩
  exact ⟨s, tr, hrun, hs, service_serial hrun⟩

/-! ## Progress -/

/-- Stretches between two `await`s until the call has released the lock, not
counting those that a call waits for others. -/
def stretches : Mutex.Call → ℕ
  | .suspended => 2
  | .resolved => 2
  | .returned => 1
  | .holding => 0
  | .released => 0

/-- Stretches that are left. -/
def Service.left (s : Service L) : ℕ := (s.callers.calls.map stretches).sum

theorem stretches_le (call : Mutex.Call) :
    stretches call ≤ if decide (call ≠ .released) = true then 2 else 0 := by
  cases call <;> decide

omit [RetryLimit L] in
theorem left_le (s : Service L) : s.left ≤ 2 * s.waiting := by
  rw [Service.left, Service.waiting]
  -- at most two for each call that has not released the lock
  induction s.callers.calls with
  | nil => exact Nat.le_refl 0
  | cons call calls ih =>
    have hcall := stretches_le call
    rw [List.map_cons, List.sum_cons, List.countP_cons]
    split at hcall
    · rw [if_pos ‹_›]
      omega
    · rw [if_neg ‹_›]
      omega

section Progress

variable {s s' : Service L} {tr out : List Obs} {fs : List (Jobs.Event L)}
  {locks : List Mutex.Obs} {e : ServiceEvent L}

/-- Going on with a promise takes one stretch, whomever it wakes. -/
theorem Served.left_turn (h : Served s tr fs locks) (hturn : Turn s e s' out)
    (he : e.isResumption = true) : s'.left + 1 = s.left := by
  cases hturn with
  -- a new call is no resumption
  | acquires hblock _ _ =>
    rw [ServiceEvent.isResumption, hblock] at he
    cases he
  | resumes hlock =>
    rcases Mutex.resumeAcquire_cases hlock with ⟨hc, rfl, -⟩
    have hsum := sum_map_set (a := Mutex.Call.returned) stretches hc
    simp only [stretches] at hsum
    simp only [Service.left]
    omega
  | @runs c _ _ _ _ _ _ _ _ _ hblock hlock hrun hrelease =>
    have hline := h.line.step hlock
    rcases Mutex.resumeCaller_cases hlock with ⟨hc, rfl, -⟩
    rcases Mutex.release_cases hrelease with ⟨hholding, -, hcalls⟩
    have hheld := sum_map_set (a := Mutex.Call.holding) stretches hc
    have hover := sum_map_set (a := Mutex.Call.released) stretches hholding
    simp only [stretches] at hheld hover
    -- nobody waited
    rcases hcalls with hcalls | ⟨next, waiters, hwaiters, hcalls⟩
    · simp only [Service.left, hcalls]
      omega
    · -- the one that is woken has the same stretches before it
      have hnext := hline.waiter_suspended hwaiters
      have hne : c ≠ next := by
        rintro rfl
        rw [hholding] at hnext
        cases hnext
      have hsame := sum_map_set (a := Mutex.Call.resolved) (i := next) stretches
        (l := ((s.callers.calls.set c .holding).set c .released)) (b := .suspended)
        (by rw [List.getElem?_set_ne hne]; exact hnext)
      simp only [stretches] at hsame
      simp only [Service.left, hcalls]
      omega

/-- Every block can take effect: there is an id that is not used. -/
theorem block_runs (s : System L) (block : Block L)
    (h : ∀ call outcome, block = .update call outcome →
      ∃ job_id, s.calls[call]? = some (.processing job_id)) :
    ∃ randomUUID now system out,
      (machine L).step s (block.event randomUUID now) = some (system, out) := by
  rcases Infinite.exists_notMem_finset ("" :: s.manager.jobs.keys).toFinset with ⟨uuid, huuid⟩
  rw [List.mem_toFinset, List.mem_cons, not_or] at huuid
  refine ⟨uuid, 0, ?_⟩
  cases block with
  | request request =>
    cases request with
    | enqueue r =>
      have hfresh : s.manager.jobs.get? uuid = none := by
        rw [Option.eq_none_iff_forall_ne_some]
        intro job hjob
        exact huuid.2 (OrderedDict.mem_keys_iff.mpr ⟨job, hjob⟩)
      simp [machine, stepWith, Block.event, hfresh, huuid.1]
    | getStatus jobId => exact ⟨_, _, rfl⟩
    | processNext =>
      simp only [machine, stepWith, Block.event]
      split
      · exact ⟨_, _, rfl⟩
      · exact ⟨_, _, rfl⟩
      · exact ⟨_, _, rfl⟩
  | update call outcome =>
    rcases h call outcome rfl with ⟨job_id, hheld⟩
    simp [machine, stepWith, Block.event, hheld]

/-- While a call has not released the lock, one can go on. -/
theorem Served.progress (h : Served s tr fs locks) (hwaiting : s.waiting ≠ 0) :
    ∃ e r, e.isResumption = true ∧ (service L).step s e = some r := by
  rcases h.shape with hcallers | ⟨owner, w, howner, hcallers⟩
  · refine absurd ?_ hwaiting
    rw [Service.waiting, hcallers]
    simp
  · have hturn : s.callers.calls[fs.length]? = some owner := by
      rw [hcallers, List.getElem?_append_right (by simp)]
      simp
    rcases howner with rfl | rfl
    · -- the promise of `acquire` has been resolved
      have hlock : Mutex.step s.callers (.resumeAcquire fs.length) =
          some ({ s.callers with calls := s.callers.calls.set fs.length .returned }, []) := by
        simp only [Mutex.step, hturn]
      have hstep : ((service L).step s (.resumeAcquire fs.length)).isSome = true := by
        simp only [service, Service.step, hlock, Option.map_some, Option.isSome_some]
      exact ⟨_, _, rfl, Option.some_get hstep |>.symm⟩
    · -- the block of the call, and the release
      have hlt : fs.length < s.blocks.length := by
        rw [h.paired, hcallers]
        simp
      have hblock := List.getElem?_eq_getElem hlt
      rcases block_runs s.system s.blocks[fs.length] (fun call outcome heq =>
        h.updates fs.length call outcome (Nat.le_refl _) (by rw [hblock, heq])) with
        ⟨uuid, now, system, out, hrun⟩
      have hlock : Mutex.step s.callers (.resumeCaller fs.length) =
          some ({ s.callers with calls := s.callers.calls.set fs.length .holding }, []) := by
        simp only [Mutex.step, hturn]
      have hholding := getElem?_set_of_some (a := Mutex.Call.holding) hturn
      obtain ⟨callers, locks', hrelease⟩ : ∃ callers locks', Mutex.step
          { s.callers with calls := s.callers.calls.set fs.length .holding }
          (.release fs.length) = some (callers, locks') := by
        simp only [Mutex.step, hholding]
        split
        · exact ⟨_, _, rfl⟩
        · exact ⟨_, _, rfl⟩
      refine ⟨.resumeCaller fs.length uuid now, (⟨callers, s.blocks, system⟩, out), rfl, ?_⟩
      simp only [service, Service.step, hblock, hlock, hrun, hrelease]

end Progress

/-- **Every call is served.** From any state that is reached, when no new call
comes, the calls that have not released the lock go on for two stretches each at
most, whatever the order; and when nobody can go on, all of them have released the
lock and the lock is free. -/
theorem service_serves {es gs : List (ServiceEvent L)} {tr tr' : List Obs} {s s' : Service L}
    (hrun : (service L).Run es tr s) (hexec : (service L).execFrom s gs = some (s', tr'))
    (hgs : ∀ e ∈ gs, e.isResumption = true) :
    gs.length ≤ 2 * s.waiting ∧
    ((∀ e, e.isResumption = true → (service L).step s' e = none) →
      s'.waiting = 0 ∧ s'.callers.mutex = Mutex.new) := by
  -- each step of the run takes one stretch
  have hleft : gs.length + s'.left = s.left := by
    induction gs generalizing es tr tr' s with
    | nil =>
      cases hexec
      exact Nat.zero_add _
    | cons e gs ih =>
      rcases Machine.execFrom_cons_cases hexec with ⟨s₁, out, tr₁, hs, hrest, -⟩
      rcases served_run hrun with ⟨fs, locks, h⟩
      have hone := h.left_turn (turn_of_step hs) (hgs e List.mem_cons_self)
      have hothers := ih (hrun.step hs) hrest fun e' he' => hgs e' (List.mem_cons_of_mem _ he')
      rw [List.length_cons]
      omega
  have hle := left_le s
  refine ⟨by omega, ?_⟩
  intro hstuck
  rcases served_run (hrun.execFrom hexec) with ⟨fs, locks, h⟩
  -- otherwise one could go on
  have hwaiting : s'.waiting = 0 := by
    by_contra hne
    rcases h.progress hne with ⟨e, r, he, hs⟩
    rw [hstuck e he] at hs
    cases hs
  refine ⟨hwaiting, ?_⟩
  rcases h.shape with hcallers | ⟨owner, w, howner, hcallers⟩
  · rw [hcallers]
  · rw [Service.waiting, hcallers] at hwaiting
    rcases howner with rfl | rfl <;> simp at hwaiting

/-- The calls of `clientsRun` that are left go on. -/
def clientsRest : List (ServiceEvent ℤ) :=
  [.resumeCaller 2 "job-c" 2, .resumeAcquire 3, .resumeCaller 3 "job-d" 3, .resumeAcquire 4,
    .resumeCaller 4 "job-e" 4]

theorem service_serves_clientsRest :
    ∃ s tr s' tr', (service ℤ).Run clientsRun tr s ∧
      (service ℤ).execFrom s clientsRest = some (s', tr') ∧
      tr' = [.status "job-a" (some .processing), .enqueued (some "upload-42") "job-a",
        .finished 0 "job-a" (.raised "timeout")] ∧
      clientsRest.length ≤ 2 * s.waiting ∧
      ((∀ e, e.isResumption = true → (service ℤ).step s' e = none) →
        s'.waiting = 0 ∧ s'.callers.mutex = Mutex.new) := by
  have hexec : ((service ℤ).exec clientsRun).map
      (fun r => ((service ℤ).execFrom r.1 clientsRest).map Prod.snd) =
      some (some [.status "job-a" (some .processing), .enqueued (some "upload-42") "job-a",
        .finished 0 "job-a" (.raised "timeout")]) := by decide +kernel
  rcases Machine.Run.of_exec_map hexec with ⟨s, tr, hrun, hs⟩
  rcases Option.map_eq_some_iff.mp hs with ⟨⟨s', tr'⟩, hrest, htr'⟩
  exact ⟨s, tr, s', tr', hrun, hrest, htr', service_serves hrun hrest (by decide)⟩

end TypeScript

end InterviewPrep.Jobs
