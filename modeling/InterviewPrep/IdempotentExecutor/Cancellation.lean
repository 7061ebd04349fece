import InterviewPrep.IdempotentExecutor.AtMostOnce
import InterviewPrep.Lib.Termination

/-!
# Cancellation of callers

A caller that is cancelled while it is suspended on an unfinished task cancels
the task, and with it everyone who waits for it, now or later. `isolated` says
that this is the only way in which callers disturb each other: in a run without
such a cancellation every caller that is not itself cancelled receives the
result of the one invocation for its key.

That it receives the result is said of the states in which the executor has come
to rest, together with a bound on the steps until then.
-/

namespace InterviewPrep.IdempotentExecutor.Python

variable {A V : Type}

/-! ## The property -/

/-- Events other than calls and cancellations. -/
def Event.internal : Event A V → Bool
  | execute _ => false
  | acquire _ => true
  | taskStart _ => true
  | taskEnds _ _ => true
  | resume _ => true
  | cancel _ => false

/-- Nothing can happen without a new call or a cancellation. -/
def Quiescent (s : Executor A V) : Prop := ∀ e : Event A V, e.internal = true → step s e = none

/-- The callers are isolated from one another's cancellation. -/
structure Isolated (es : List (Event A V)) (tr : List (Obs A V)) (s : Executor A V) : Prop where
  /-- only a caller that was cancelled sees a `CancelledError` -/
  cancelled : ∀ (c : ℕ) call, s.callers[c]? = some ⟨call, .cancelledError⟩ → .cancel c ∈ es
  /-- a result is that of the one invocation -/
  result : ∀ c call r, .returned c call r ∈ tr →
    (invocationsOf (_make_key call) tr).length = 1 ∧
      ∃ o, EndedWith (_make_key call) tr o ∧ r = _run o
  /-- without new calls and cancellations the executor comes to rest, and then
  every caller that was not cancelled has returned -/
  returns : ∃ n, ∀ fs s' tr', (∀ f ∈ fs, Event.internal f = true) →
    (machine A V).execFrom s fs = some (s', tr') → fs.length ≤ n ∧
      (Quiescent s' → ∀ (c : ℕ) caller, s'.callers[c]? = some caller →
        .cancel c ∈ es ∨ ∃ t r, caller.state = .returned t r)

/-- A caller is cancelled that is suspended on an unfinished task. -/
def CancelsTask (s : Executor A V) (e : Event A V) : Prop :=
  ∃ (c : ℕ) (call : ToolCall A) (t : ℕ) (holdsLock : Bool) (task : Task A V), e = .cancel c ∧
    s.callers[c]? = some ⟨call, .joined t holdsLock⟩ ∧ s.tasks[t]? = some task ∧
    task.status.unfinished = true

/-! ## Work -/

/-- The steps that a caller or a task still needs; a waiting caller may create a
task. -/
def Caller.work : Caller A V → ℕ
  | ⟨_, .waiting⟩ => 4
  | ⟨_, .joined _ _⟩ => 1
  | ⟨_, .returned _ _⟩ => 0
  | ⟨_, .cancelledError⟩ => 0

def Task.work : Task A V → ℕ
  | ⟨_, .created⟩ => 2
  | ⟨_, .running⟩ => 1
  | ⟨_, .done _⟩ => 0
  | ⟨_, .cancelled⟩ => 0

def work (s : Executor A V) : ℕ := (s.callers.map Caller.work).sum + (s.tasks.map Task.work).sum

variable {tr : List (Obs A V)} {s s' : Executor A V}

theorem work_setCaller {c : ℕ} {call : ToolCall A} {old : CallerState V} (new : CallerState V)
    (hc : s.callers[c]? = some ⟨call, old⟩) :
    work (setCaller s c call new) + Caller.work ⟨call, old⟩ =
      work s + Caller.work ⟨call, new⟩ := by
  have hsum : ((s.callers.set c ⟨call, new⟩).map Caller.work).sum + Caller.work ⟨call, old⟩ =
      (s.callers.map Caller.work).sum + Caller.work ⟨call, new⟩ := sum_map_set Caller.work hc
  simp only [work, setCaller]
  omega

theorem work_setTask {t : ℕ} {call : ToolCall A} {old : TaskStatus V} (new : TaskStatus V)
    (ht : s.tasks[t]? = some ⟨call, old⟩) :
    work (setTask s t call new) + Task.work ⟨call, old⟩ = work s + Task.work ⟨call, new⟩ := by
  have hsum : ((s.tasks.set t ⟨call, new⟩).map Task.work).sum + Task.work ⟨call, old⟩ =
      (s.tasks.map Task.work).sum + Task.work ⟨call, new⟩ := sum_map_set Task.work ht
  simp only [work, setTask]
  omega

/-- Every internal step does some of the work. -/
theorem work_lt {e : Event A V} {out : List (Obs A V)} (hs : Step s e s' out)
    (he : e.internal = true) : work s' < work s := by
  cases hs with
  | execute call => cases he
  | @acquireExisting c call t hlock hcaller hget =>
    have hcaller' : ({ s with lock := some c } : Executor A V).callers[c]? =
        some ⟨call, .waiting⟩ := hcaller
    have hwork := work_setCaller (.joined t true) hcaller'
    have hsame : work { s with lock := some c } = work s := rfl
    simp only [Caller.work] at hwork
    omega
  | @acquireNew c call hlock hcaller hget =>
    have hwork := work_setCaller (.joined s.tasks.length false) hcaller
    simp only [Caller.work, work, setCaller] at hwork
    -- the new task is work, but less than the caller has done
    have hnew : (([⟨call, .created⟩] : List (Task A V)).map Task.work).sum = 2 := rfl
    simp only [work, setCaller, List.map_append, List.sum_append, hnew]
    omega
  | taskStart htask =>
    have hwork := work_setTask .running htask
    simp only [Task.work] at hwork
    omega
  | taskEnds outcome htask =>
    have hwork := work_setTask (.done (_run outcome)) htask
    simp only [Task.work] at hwork
    omega
  | @resumeDone c call t holdsLock call' result hcaller htask =>
    have hcaller' : (release holdsLock s).callers[c]? = some ⟨call, .joined t holdsLock⟩ := hcaller
    have hwork := work_setCaller (.returned t result) hcaller'
    have hsame : work (release holdsLock s) = work s := rfl
    simp only [Caller.work] at hwork
    omega
  | @resumeCancelled c call t holdsLock call' hcaller htask =>
    have hcaller' : (release holdsLock s).callers[c]? = some ⟨call, .joined t holdsLock⟩ := hcaller
    have hwork := work_setCaller .cancelledError hcaller'
    have hsame : work (release holdsLock s) = work s := rfl
    simp only [Caller.work] at hwork
    omega
  | cancelWaiting hcaller => cases he
  | cancelTask hcaller htask hunfinished => cases he
  | cancelJoined hcaller htask hunfinished => cases he

/-- Internal steps come to an end. -/
theorem length_le_work {fs : List (Event A V)} {s s' : Executor A V} {tr' : List (Obs A V)}
    (hfs : ∀ f ∈ fs, Event.internal f = true)
    (hexec : (machine A V).execFrom s fs = some (s', tr')) : fs.length ≤ work s := by
  have hle := Machine.execFrom_length_add_le work (fun f => Event.internal f = true)
    (fun _ _ _ _ hf hs => work_lt (step_cases hs) hf) hfs hexec
  omega

/-! ## Runs without such a cancellation -/

/-- What holds if no task is cancelled. -/
structure Undisturbed (es : List (Event A V)) (s : Executor A V) : Prop where
  tasks : ∀ (t : ℕ) call, s.tasks[t]? ≠ some ⟨call, .cancelled⟩
  cancelled : ∀ (c : ℕ) call, s.callers[c]? = some ⟨call, .cancelledError⟩ → .cancel c ∈ es
  lock : ∀ c, s.lock = some c → ∃ call t, s.callers[c]? = some ⟨call, .joined t true⟩

variable {es : List (Event A V)}

/-- A task is overwritten, but not cancelled. -/
theorem Undisturbed.set_task (h : Undisturbed es s) {t : ℕ} {call : ToolCall A}
    {status : TaskStatus V} (hstatus : status ≠ .cancelled) :
    ∀ (u : ℕ) call', (s.tasks.set t ⟨call, status⟩)[u]? ≠ some ⟨call', .cancelled⟩ := by
  intro u call' hu
  rcases getElem?_set_cases hu with ⟨-, heq⟩ | ⟨-, hold⟩
  · cases heq
    exact hstatus rfl
  · exact h.tasks u call' hold

/-- A caller is overwritten by the event `e`; if it sees a `CancelledError`, it
was cancelled. -/
theorem Undisturbed.set_cancelled (h : Undisturbed es s) {c : ℕ} {call : ToolCall A}
    {state : CallerState V} {e : Event A V} (hstate : state = .cancelledError → e = .cancel c) :
    ∀ (d : ℕ) call', (s.callers.set c ⟨call, state⟩)[d]? = some ⟨call', .cancelledError⟩ →
      .cancel d ∈ es ++ [e] := by
  intro d call' hd
  rcases getElem?_set_cases hd with ⟨rfl, heq⟩ | ⟨-, hold⟩
  · cases heq
    simp [hstate rfl]
  · exact List.mem_append_left _ (h.cancelled d call' hold)

theorem Undisturbed.step (h : Undisturbed es s) {e : Event A V} {out : List (Obs A V)}
    (hs : Step s e s' out) (he : ¬ CancelsTask s e) : Undisturbed (es ++ [e]) s' := by
  have hcancelled : ∀ (c : ℕ) call, s.callers[c]? = some ⟨call, .cancelledError⟩ →
      .cancel c ∈ es ++ [e] := fun c call hc => List.mem_append_left _ (h.cancelled c call hc)
  have hlock : LockHeld s' := LockHeld.step h.lock hs
  cases hs with
  | execute call =>
    refine ⟨h.tasks, ?_, hlock⟩
    intro c call' hc
    rcases getElem?_concat_cases hc with ⟨-, heq⟩ | hold
    · cases heq
    · exact hcancelled c call' hold
  | acquireExisting hfree hcaller hget =>
    exact ⟨h.tasks, h.set_cancelled (by intro heq; cases heq), hlock⟩
  | acquireNew hfree hcaller hget =>
    refine ⟨?_, h.set_cancelled (by intro heq; cases heq), hlock⟩
    intro t call' ht
    rcases getElem?_concat_cases ht with ⟨-, heq⟩ | hold
    · cases heq
    · exact h.tasks t call' hold
  | taskStart htask => exact ⟨h.set_task (by intro heq; cases heq), hcancelled, hlock⟩
  | taskEnds outcome htask => exact ⟨h.set_task (by intro heq; cases heq), hcancelled, hlock⟩
  | resumeDone hcaller htask =>
    exact ⟨h.tasks, h.set_cancelled (by intro heq; cases heq), hlock⟩
  | resumeCancelled hcaller htask =>
    -- no task is cancelled
    exact absurd htask (h.tasks _ _)
  | cancelWaiting hcaller => exact ⟨h.tasks, h.set_cancelled (fun _ => rfl), hlock⟩
  | cancelTask hcaller htask hunfinished =>
    exact absurd ⟨_, _, _, _, _, rfl, hcaller, htask, hunfinished⟩ he
  | cancelJoined hcaller htask hunfinished =>
    exact ⟨h.tasks, h.set_cancelled (fun _ => rfl), hlock⟩

theorem undisturbed_run
    (hrun : (machine A V).RunWhere (fun s e => ¬ CancelsTask s e) es tr s) :
    Undisturbed es s := by
  refine hrun.history_invariant (fun es _ s => Undisturbed es s) ?_ ?_
  · constructor
    · intro t call ht
      cases ht
    · intro c call hc
      cases hc
    · intro c hc
      cases hc
  · intro es tr s e s' out _ hinv he hs
    exact hinv.step (step_cases hs) he

/-- At rest, every caller has returned or sees a `CancelledError`. -/
theorem Undisturbed.at_rest (h : Undisturbed es s) (hcallers : CallersOk tr s)
    (hrest : Quiescent s) {c : ℕ} {caller : Caller A V} (hc : s.callers[c]? = some caller) :
    .cancel c ∈ es ∨ ∃ t r, caller.state = .returned t r := by
  -- every task is done
  have hdone : ∀ (t : ℕ) task, s.tasks[t]? = some task → ∃ r, task.status = .done r := by
    rintro t ⟨call, status⟩ ht
    cases status with
    | created =>
      have hstep := hrest (.taskStart t) rfl
      simp [Python.step, ht] at hstep
    | running =>
      have hstep := hrest (.taskEnds t .timeoutError) rfl
      simp [Python.step, ht] at hstep
    | done r => exact ⟨r, rfl⟩
    | cancelled => exact absurd ht (h.tasks t call)
  -- so nobody is suspended on a task
  have hnot : ∀ (d : ℕ) call t holdsLock,
      s.callers[d]? ≠ some ⟨call, .joined t holdsLock⟩ := by
    intro d call t holdsLock hd
    rcases hcallers.joined d _ t hd rfl with ⟨⟨call', status⟩, ht, -⟩
    rcases hdone t _ ht with ⟨r, hr⟩
    have hstep := hrest (.resume d) rfl
    simp only at hr
    subst hr
    simp [Python.step, hd, ht] at hstep
  -- and the lock is free
  have hlock : s.lock = none := by
    cases hl : s.lock with
    | none => rfl
    | some d =>
      rcases h.lock d hl with ⟨call, t, hd⟩
      exact absurd hd (hnot d call t true)
  rcases caller with ⟨call, state⟩
  cases state with
  | waiting =>
    have hstep := hrest (.acquire c) rfl
    simp [Python.step, hlock, hc] at hstep
  | joined t holdsLock => exact absurd hc (hnot c call t holdsLock)
  | returned t r => exact Or.inr ⟨t, r, rfl⟩
  | cancelledError => exact Or.inl (h.cancelled c call hc)

/-- A result belongs to the one invocation for its key. -/
theorem result_of_invocation (htasks : TasksOk tr s) (hcallers : CallersOk tr s) {c : ℕ}
    {call : ToolCall A} {r : ExecutionResult V} (hmem : .returned c call r ∈ tr) :
    (invocationsOf (_make_key call) tr).length = 1 ∧
      ∃ o, EndedWith (_make_key call) tr o ∧ r = _run o := by
  rcases hcallers.returned c call r hmem with ⟨t, call', ht, hkey⟩
  rw [← hkey]
  constructor
  · rcases htasks.history t _ ht with ⟨o, hhistory, -⟩
    have hhistory : labelled Obs.key (_make_key call') tr = _ := hhistory
    rw [invocationsOf, hhistory]
    rfl
  · rcases endedWith_iff htasks ht with ⟨o, hr, hended⟩
    exact ⟨o, (hended o).mpr rfl, hr⟩

/-- In a run in which no caller is cancelled while it is suspended on an
unfinished task, the callers are isolated from one another's cancellation. -/
theorem isolated (hrun : (machine A V).RunWhere (fun s e => ¬ CancelsTask s e) es tr s) :
    Isolated es tr s := by
  have hundisturbed := undisturbed_run hrun
  constructor
  · exact hundisturbed.cancelled
  · intro c call r hmem
    exact result_of_invocation (tasksOk_run hrun.run) (callersOk_run hrun.run) hmem
  · refine ⟨work s, ?_⟩
    intro fs s' tr' hfs hexec
    refine ⟨length_le_work hfs hexec, ?_⟩
    intro hrest c caller hc
    -- internal events cancel nobody
    have hquiet : ∀ f ∈ fs, ∀ s, ¬ CancelsTask s f := by
      rintro f hf s ⟨d, call, t, holdsLock, task, rfl, -⟩
      have hinternal := hfs _ hf
      cases hinternal
    have hrun' := hrun.execFrom hquiet hexec
    rcases (undisturbed_run hrun').at_rest (callersOk_run hrun'.run) hrest hc with
      hcancel | hreturned
    · rcases List.mem_append.mp hcancel with hcancel | hcancel
      · exact Or.inl hcancel
      · have hinternal := hfs _ hcancel
        cases hinternal
    · exact Or.inr hreturned

/-- The second caller is cancelled while it waits for the lock; the first, and a
later one, have the result. -/
theorem isolated_waiter_cancelled :
    ∃ es tr s, (machine Unit String).RunWhere (fun s e => ¬ CancelsTask s e) es tr s ∧
      .cancel 1 ∈ es ∧ results tr = [.Completed "c-101", .Completed "c-101"] ∧
      Isolated es tr s := by
  let s₁ : Executor Unit String := ⟨OrderedDict.empty.setItem (_make_key createCase) 0, none,
    [⟨createCase, .running⟩], [⟨createCase, .joined 0 false⟩, ⟨createCase, .waiting⟩]⟩
  let s₂ : Executor Unit String := ⟨OrderedDict.empty.setItem (_make_key createCase) 0, none,
    [⟨createCase, .running⟩], [⟨createCase, .joined 0 false⟩, ⟨createCase, .cancelledError⟩]⟩
  have hnone : (machine Unit String).RunWhere (fun s e => ¬ CancelsTask s e) [] [] init :=
    .init
  have hrun₁ : (machine Unit String).RunWhere (fun s e => ¬ CancelsTask s e)
      [.execute createCase, .acquire 0, .execute createCase, .taskStart 0] [.invoked createCase]
      s₁ := by
    refine hnone.execFrom ?_ (rfl : (machine Unit String).execFrom init _ = some (s₁, _))
    rintro e he s ⟨c, call, t, holdsLock, task, rfl, -⟩
    simp at he
  -- the cancelled caller is not suspended on a task
  have hrun₂ : (machine Unit String).RunWhere (fun s e => ¬ CancelsTask s e)
      ([.execute createCase, .acquire 0, .execute createCase, .taskStart 0] ++ [.cancel 1])
      ([.invoked createCase] ++ [.cancelledError 1 createCase]) s₂ := by
    refine hrun₁.step ?_ rfl
    rintro ⟨c, call, t, holdsLock, task, heq, hc, -⟩
    cases heq
    cases hc
  have hexec : ((machine Unit String).execFrom s₂ [.taskEnds 0 (.returned "c-101"), .resume 0,
      .execute createCase, .acquire 2, .resume 2]).map (fun r => results r.2) =
      some [.Completed "c-101", .Completed "c-101"] := by decide +kernel
  rcases Option.map_eq_some_iff.mp hexec with ⟨⟨s₃, tr₃⟩, hexec, hresults⟩
  have hrun₃ := hrun₂.execFrom (by
    rintro e he s ⟨c, call, t, holdsLock, task, rfl, -⟩
    simp at he) hexec
  refine ⟨_, _, _, hrun₃, by simp, hresults, isolated hrun₃⟩

/-- A caller sees a `CancelledError`. -/
def seesCancelledError (s : Executor Unit String) (c : ℕ) : Bool :=
  match s.callers[c]? with
  | some ⟨_, .cancelledError⟩ => true
  | _ => false

/-- The first caller is cancelled while its task runs. The second, which waits
for the same task, and a third that comes later, see a `CancelledError`. -/
def firstCancelledRun : List (Event Unit String) :=
  [.execute createCase, .acquire 0, .taskStart 0, .execute createCase, .acquire 1, .cancel 0,
    .resume 0, .resume 1, .execute createCase, .acquire 2, .resume 2]

theorem first_cancelled_cancels_all :
    ∃ tr s, (machine Unit String).Run firstCancelledRun tr s ∧
      .cancel 1 ∉ firstCancelledRun ∧ .cancel 2 ∉ firstCancelledRun ∧
      seesCancelledError s 1 = true ∧ seesCancelledError s 2 = true ∧
      ¬ Isolated firstCancelledRun tr s := by
  have hexec : ((machine Unit String).exec firstCancelledRun).map
      (fun r => (seesCancelledError r.1 1, seesCancelledError r.1 2)) = some (true, true) := by
    decide +kernel
  rcases Machine.Run.of_exec_map hexec with ⟨s, tr, hrun, hs⟩
  injection hs with hone htwo
  have hnot : .cancel 1 ∉ firstCancelledRun := by simp [firstCancelledRun]
  refine ⟨tr, s, hrun, hnot, by simp [firstCancelledRun], hone, htwo, ?_⟩
  intro h
  have hcaller : ∃ call, s.callers[1]? = some ⟨call, .cancelledError⟩ := by
    simp only [seesCancelledError] at hone
    split at hone
    · rename_i call hcall
      exact ⟨call, hcall⟩
    · cases hone
  rcases hcaller with ⟨call, hcall⟩
  exact hnot (h.cancelled 1 call hcall)

end InterviewPrep.IdempotentExecutor.Python
