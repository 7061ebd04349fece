import InterviewPrep.IdempotentExecutor.Model
import InterviewPrep.Lib.Slots
import InterviewPrep.Lib.Trace

/-!
# What a step of the Python executor does

`Step` lists the changes that an event can make, with their guards, and
`step_cases` says that a step makes one of them. The invariants of the other
modules are proved by cases on it.
-/

namespace InterviewPrep.IdempotentExecutor.Python

variable {A V : Type}

/-- The changes of one step. -/
inductive Step (s : Executor A V) : Event A V → Executor A V → List (Obs A V) → Prop where
  | execute (call : ToolCall A) :
      Step s (.execute call) { s with callers := s.callers ++ [⟨call, .waiting⟩] } []
  | acquireExisting {c : ℕ} {call : ToolCall A} {t : ℕ} : s.lock = none →
      s.callers[c]? = some ⟨call, .waiting⟩ → s.executions.get? (_make_key call) = some t →
      Step s (.acquire c) (setCaller { s with lock := some c } c call (.joined t true)) []
  | acquireNew {c : ℕ} {call : ToolCall A} : s.lock = none →
      s.callers[c]? = some ⟨call, .waiting⟩ → s.executions.get? (_make_key call) = none →
      Step s (.acquire c)
        (setCaller
          { s with
            tasks := s.tasks ++ [⟨call, .created⟩]
            executions := s.executions.setItem (_make_key call) s.tasks.length }
          c call (.joined s.tasks.length false)) []
  | taskStart {t : ℕ} {call : ToolCall A} : s.tasks[t]? = some ⟨call, .created⟩ →
      Step s (.taskStart t) (setTask s t call .running) [.invoked call]
  | taskEnds {t : ℕ} {call : ToolCall A} (outcome : HandlerEnd V) :
      s.tasks[t]? = some ⟨call, .running⟩ →
      Step s (.taskEnds t outcome) (setTask s t call (.done (_run outcome)))
        [.ended call outcome]
  | resumeDone {c : ℕ} {call : ToolCall A} {t : ℕ} {holdsLock : Bool} {call' : ToolCall A}
      {result : ExecutionResult V} : s.callers[c]? = some ⟨call, .joined t holdsLock⟩ →
      s.tasks[t]? = some ⟨call', .done result⟩ →
      Step s (.resume c) (setCaller (release holdsLock s) c call (.returned t result))
        [.returned c call result]
  | resumeCancelled {c : ℕ} {call : ToolCall A} {t : ℕ} {holdsLock : Bool}
      {call' : ToolCall A} : s.callers[c]? = some ⟨call, .joined t holdsLock⟩ →
      s.tasks[t]? = some ⟨call', .cancelled⟩ →
      Step s (.resume c) (setCaller (release holdsLock s) c call .cancelledError)
        [.cancelledError c call]
  | cancelWaiting {c : ℕ} {call : ToolCall A} : s.callers[c]? = some ⟨call, .waiting⟩ →
      Step s (.cancel c) (setCaller s c call .cancelledError) [.cancelledError c call]
  | cancelTask {c : ℕ} {call : ToolCall A} {t : ℕ} {holdsLock : Bool} {call' : ToolCall A}
      {status : TaskStatus V} : s.callers[c]? = some ⟨call, .joined t holdsLock⟩ →
      s.tasks[t]? = some ⟨call', status⟩ → status.unfinished = true →
      Step s (.cancel c) (setTask s t call' .cancelled) []
  | cancelJoined {c : ℕ} {call : ToolCall A} {t : ℕ} {holdsLock : Bool} {call' : ToolCall A}
      {status : TaskStatus V} : s.callers[c]? = some ⟨call, .joined t holdsLock⟩ →
      s.tasks[t]? = some ⟨call', status⟩ → status.unfinished = false →
      Step s (.cancel c) (setCaller (release holdsLock s) c call .cancelledError)
        [.cancelledError c call]

theorem step_cases {s s' : Executor A V} {e : Event A V} {out : List (Obs A V)}
    (h : step s e = some (s', out)) : Step s e s' out := by
  cases e with
  | execute call =>
    cases h
    exact .execute call
  | acquire c =>
    simp only [step] at h
    split at h
    · rename_i hlock hcaller
      simp only [enter] at h
      split at h
      · rename_i hget
        cases h
        exact .acquireExisting hlock hcaller hget
      · rename_i hget
        cases h
        exact .acquireNew hlock hcaller hget
    · cases h
  | taskStart t =>
    simp only [step] at h
    split at h
    · rename_i htask
      cases h
      exact .taskStart htask
    · cases h
  | taskEnds t outcome =>
    simp only [step] at h
    split at h
    · rename_i htask
      cases h
      exact .taskEnds outcome htask
    · cases h
  | resume c =>
    simp only [step] at h
    split at h
    · rename_i hcaller
      split at h
      · rename_i htask
        cases h
        exact .resumeDone hcaller htask
      · rename_i htask
        cases h
        exact .resumeCancelled hcaller htask
      · cases h
    · cases h
  | cancel c =>
    simp only [step] at h
    split at h
    · rename_i hcaller
      cases h
      exact .cancelWaiting hcaller
    · rename_i hcaller
      split at h
      · rename_i htask
        split at h
        · rename_i hunfinished
          cases h
          exact .cancelTask hcaller htask hunfinished
        · rename_i hunfinished
          cases h
          exact .cancelJoined hcaller htask (Bool.not_eq_true _ ▸ hunfinished)
      · cases h
    · cases h

/-- A task keeps its call, and its result once it has one. -/
def Task.Extends (task task' : Task A V) : Prop :=
  task'.call = task.call ∧ ∀ r, task.status = .done r → task'.status = .done r

theorem Task.Extends.refl (task : Task A V) : task.Extends task := ⟨rfl, fun _ h => h⟩

/-- A status changes; the calls and the other tasks stay. -/
theorem setTask_call {s : Executor A V} {t u : ℕ} {call : ToolCall A}
    {status : TaskStatus V} (status' : TaskStatus V) (ht : s.tasks[t]? = some ⟨call, status⟩)
    {task : Task A V} (hu : s.tasks[u]? = some task) :
    ∃ task', (setTask s t call status').tasks[u]? = some task' ∧ task'.call = task.call ∧
      (u ≠ t → task' = task) := by
  by_cases hut : u = t
  · subst hut
    rw [ht] at hu
    cases hu
    exact ⟨_, getElem?_set_of_some ht, rfl, fun h => absurd rfl h⟩
  · refine ⟨task, ?_, rfl, fun _ => rfl⟩
    show (s.tasks.set t _)[u]? = some task
    rw [List.getElem?_set_ne (fun h => hut h.symm)]
    exact hu

theorem setTask_extends {s : Executor A V} {t u : ℕ} {call : ToolCall A}
    {status status' : TaskStatus V} (ht : s.tasks[t]? = some ⟨call, status⟩)
    (hstatus : ∀ r, status ≠ .done r) {task : Task A V} (hu : s.tasks[u]? = some task) :
    ∃ task', (setTask s t call status').tasks[u]? = some task' ∧ task.Extends task' := by
  rcases setTask_call status' ht hu with ⟨task', hu', hcall, hsame⟩
  refine ⟨task', hu', hcall, ?_⟩
  intro r hr
  by_cases hut : u = t
  · subst hut
    rw [ht] at hu
    cases hu
    exact absurd hr (hstatus r)
  · rw [hsame hut]
    exact hr

theorem Step.task {s s' : Executor A V} {e : Event A V} {out : List (Obs A V)}
    (h : Step s e s' out) {t : ℕ} {task : Task A V} (ht : s.tasks[t]? = some task) :
    ∃ task', s'.tasks[t]? = some task' ∧ task.Extends task' := by
  cases h with
  | acquireNew hlock hcaller hget =>
    exact ⟨task, getElem?_concat_of_some ht, Task.Extends.refl task⟩
  | taskStart htask => exact setTask_extends htask (by simp) ht
  | taskEnds outcome htask => exact setTask_extends htask (by simp) ht
  | cancelTask hcaller htask hunfinished =>
    refine setTask_extends htask ?_ ht
    rintro r rfl
    cases hunfinished
  -- the other steps leave the tasks as they are
  | execute call => exact ⟨task, ht, Task.Extends.refl task⟩
  | acquireExisting hlock hcaller hget => exact ⟨task, ht, Task.Extends.refl task⟩
  | resumeDone hcaller htask => exact ⟨task, ht, Task.Extends.refl task⟩
  | resumeCancelled hcaller htask => exact ⟨task, ht, Task.Extends.refl task⟩
  | cancelWaiting hcaller => exact ⟨task, ht, Task.Extends.refl task⟩
  | cancelJoined hcaller htask hunfinished => exact ⟨task, ht, Task.Extends.refl task⟩

/-! ## Finished tasks and the lock -/

/-- The task is done or cancelled. -/
def Finished (s : Executor A V) (t : ℕ) : Prop :=
  ∃ task, s.tasks[t]? = some task ∧ task.status.unfinished = false

/-- An unfinished task is overwritten; the others stay. -/
theorem setTask_of_finished {s : Executor A V} {t u : ℕ} {call : ToolCall A}
    {status status' : TaskStatus V} (ht : s.tasks[t]? = some ⟨call, status⟩)
    (hstatus : status.unfinished = true) {task : Task A V} (hu : s.tasks[u]? = some task)
    (hfinished : task.status.unfinished = false) :
    (setTask s t call status').tasks[u]? = some task := by
  have hut : u ≠ t := by
    rintro rfl
    rw [ht] at hu
    cases hu
    rw [hstatus] at hfinished
    cases hfinished
  rcases setTask_call status' ht hu with ⟨task', hu', -, hsame⟩
  rw [hu', hsame hut]

/-- A finished task stays as it is. -/
theorem Step.finished {s s' : Executor A V} {e : Event A V} {out : List (Obs A V)}
    (h : Step s e s' out) {t : ℕ} (ht : Finished s t) : Finished s' t := by
  rcases ht with ⟨task, ht, hfinished⟩
  refine ⟨task, ?_, hfinished⟩
  cases h with
  | acquireNew hlock hcaller hget => exact getElem?_concat_of_some ht
  | taskStart htask => exact setTask_of_finished htask rfl ht hfinished
  | taskEnds outcome htask => exact setTask_of_finished htask rfl ht hfinished
  | cancelTask hcaller htask hunfinished =>
    exact setTask_of_finished htask hunfinished ht hfinished
  -- the other steps leave the tasks as they are
  | execute call => exact ht
  | acquireExisting hlock hcaller hget => exact ht
  | resumeDone hcaller htask => exact ht
  | resumeCancelled hcaller htask => exact ht
  | cancelWaiting hcaller => exact ht
  | cancelJoined hcaller htask hunfinished => exact ht

/-- Who holds the lock is suspended on a task inside `async with`. -/
def LockHeld (s : Executor A V) : Prop :=
  ∀ c, s.lock = some c → ∃ call t, s.callers[c]? = some ⟨call, .joined t true⟩

/-- A caller is overwritten that holds the lock only if it releases it. -/
theorem LockHeld.set {s : Executor A V} (h : LockHeld s) {c : ℕ} {call : ToolCall A}
    {old new : CallerState V} {holdsLock : Bool} (hc : s.callers[c]? = some ⟨call, old⟩)
    (hold : ∀ t, old = .joined t true → holdsLock = true) :
    LockHeld (setCaller (release holdsLock s) c call new) := by
  intro d hd
  cases holdsLock with
  | true => cases hd
  | false =>
    rcases h d hd with ⟨call', t, hcall'⟩
    have hne : c ≠ d := by
      rintro rfl
      rw [hc] at hcall'
      cases hcall'
      cases hold t rfl
    refine ⟨call', t, ?_⟩
    show (s.callers.set c _)[d]? = _
    rw [List.getElem?_set_ne hne]
    exact hcall'

theorem LockHeld.step {s s' : Executor A V} {e : Event A V} {out : List (Obs A V)}
    (h : LockHeld s) (hs : Step s e s' out) : LockHeld s' := by
  cases hs with
  | execute call =>
    intro c hc
    rcases h c hc with ⟨call', t, hold⟩
    exact ⟨call', t, getElem?_concat_of_some hold⟩
  | acquireExisting hlock hcaller hget =>
    intro c hc
    cases hc
    exact ⟨_, _, getElem?_set_of_some hcaller⟩
  | acquireNew hlock hcaller hget =>
    intro c hc
    have hc : s.lock = some c := hc
    rw [hlock] at hc
    cases hc
  | taskStart htask => exact h
  | taskEnds outcome htask => exact h
  | cancelTask hcaller htask hunfinished => exact h
  | resumeDone hcaller htask => exact h.set hcaller (by intro u heq; cases heq; rfl)
  | resumeCancelled hcaller htask => exact h.set hcaller (by intro u heq; cases heq; rfl)
  | cancelJoined hcaller htask hunfinished =>
    exact h.set hcaller (by intro u heq; cases heq; rfl)
  | @cancelWaiting c call hcaller =>
    -- a waiting caller does not hold the lock
    have hset : LockHeld (setCaller (release false s) c call .cancelledError) :=
      h.set hcaller (by intro u heq; cases heq)
    exact hset

end InterviewPrep.IdempotentExecutor.Python
