import InterviewPrep.IdempotentExecutor.Steps

/-!
# At most one invocation per key

The map holds the one task of each key, for good, and what the trace says about
a key follows from the status of that task. So a key is invoked at most once,
whatever the order of the calls and whoever is cancelled, and every caller of it
that returns has the result of that invocation.
-/

namespace InterviewPrep.IdempotentExecutor.Python

variable {A V : Type}

/-! ## Reading a trace -/

namespace Obs

/-- The key whose handler an observation is about. -/
def key : Obs A V → Option String
  | invoked call => some (_make_key call)
  | ended call _ => some (_make_key call)
  | returned _ _ _ => none
  | cancelledError _ _ => none

end Obs

/-- What the trace says about the key of a task, by its status. -/
def History (history : List (Obs A V)) (task : Task A V) : Prop :=
  match task.status with
  | .created => history = []
  | .running => history = [.invoked task.call]
  | .done r => ∃ o, history = [.invoked task.call, .ended task.call o] ∧ r = _run o
  | .cancelled => history = [] ∨ history = [.invoked task.call]

/-! ## The tasks -/

/-- The map holds exactly the tasks, each under its key. -/
structure TasksOk (tr : List (Obs A V)) (s : Executor A V) : Prop where
  mapped : ∀ (t : ℕ) task, s.tasks[t]? = some task →
    s.executions.get? (_make_key task.call) = some t
  lookup : ∀ k t, s.executions.get? k = some t →
    ∃ task, s.tasks[t]? = some task ∧ _make_key task.call = k
  history : ∀ (t : ℕ) task, s.tasks[t]? = some task →
    History (labelled Obs.key (_make_key task.call) tr) task
  unmapped : ∀ k, s.executions.get? k = none → labelled Obs.key k tr = []

variable {tr : List (Obs A V)} {s s' : Executor A V}

/-- Steps that concern only the callers. -/
theorem TasksOk.concat_caller (h : TasksOk tr s) {o : Obs A V} (ho : o.key = none)
    (hexec : s'.executions = s.executions) (htasks : s'.tasks = s.tasks) :
    TasksOk (tr ++ [o]) s' := by
  have hsame : ∀ k, labelled Obs.key k (tr ++ [o]) = labelled Obs.key k tr := by
    intro k
    apply labelled_concat_of_ne
    rw [ho]
    intro hk
    cases hk
  constructor
  · rw [hexec, htasks]
    exact h.mapped
  · rw [hexec, htasks]
    exact h.lookup
  · intro t task ht
    rw [hsame]
    rw [htasks] at ht
    exact h.history t task ht
  · intro k hk
    rw [hsame]
    rw [hexec] at hk
    exact h.unmapped k hk

/-- Two tasks with one key are one task. -/
theorem TasksOk.unique (h : TasksOk tr s) {t u : ℕ} {task task' : Task A V}
    (ht : s.tasks[t]? = some task) (hu : s.tasks[u]? = some task')
    (hkey : _make_key task.call = _make_key task'.call) : t = u := by
  have hmapped := h.mapped t task ht
  rw [hkey, h.mapped u task' hu] at hmapped
  exact (Option.some.inj hmapped).symm

/-- A task moves to another status. -/
theorem TasksOk.setTask (h : TasksOk tr s) {t : ℕ} {call : ToolCall A}
    {status status' : TaskStatus V} (ht : s.tasks[t]? = some ⟨call, status⟩)
    {out : List (Obs A V)} (hout : out = [] ∨ ∃ o, out = [o] ∧ o.key = some (_make_key call))
    (hhistory : History (labelled Obs.key (_make_key call) (tr ++ out)) ⟨call, status'⟩) :
    TasksOk (tr ++ out) (setTask s t call status') := by
  have hother : ∀ k, k ≠ _make_key call →
      labelled Obs.key k (tr ++ out) = labelled Obs.key k tr := by
    intro k hk
    rcases hout with rfl | ⟨o, rfl, ho⟩
    · rw [List.append_nil]
    · apply labelled_concat_of_ne
      rw [ho]
      exact fun heq => hk (Option.some.inj heq).symm
  constructor
  · intro u task hu
    rcases getElem?_set_cases hu with ⟨rfl, rfl⟩ | ⟨-, hold⟩
    · have hmapped := h.mapped u _ ht
      exact hmapped
    · exact h.mapped u task hold
  · intro k u hk
    rcases h.lookup k u hk with ⟨task, hu, hkey⟩
    rcases setTask_call status' ht hu with ⟨task', hu', hcall, -⟩
    exact ⟨task', hu', by rw [hcall]; exact hkey⟩
  · intro u task hu
    rcases getElem?_set_cases hu with ⟨rfl, rfl⟩ | ⟨hne, hold⟩
    · exact hhistory
    · rw [hother]
      · exact h.history u task hold
      · -- another task has another key
        intro hkey
        exact hne (h.unique hold ht hkey)
  · intro k hk
    have hne : k ≠ _make_key call := by
      rintro rfl
      have hmapped := h.mapped t _ ht
      have hk : s.executions.get? (_make_key call) = none := hk
      rw [hk] at hmapped
      cases hmapped
    rw [hother k hne]
    exact h.unmapped k hk

/-- A task is created for a key that has none. -/
theorem TasksOk.create (h : TasksOk tr s) {call : ToolCall A}
    (hget : s.executions.get? (_make_key call) = none)
    (htasks : s'.tasks = s.tasks ++ [⟨call, .created⟩])
    (hexec : s'.executions = s.executions.setItem (_make_key call) s.tasks.length) :
    TasksOk tr s' := by
  constructor
  · intro t task ht
    rw [htasks] at ht
    rw [hexec]
    rcases getElem?_concat_cases ht with ⟨rfl, rfl⟩ | hold
    · exact OrderedDict.get?_setItem_self s.executions _ _
    · have hmapped := h.mapped t task hold
      have hne : _make_key task.call ≠ _make_key call := by
        intro hkey
        rw [hkey, hget] at hmapped
        cases hmapped
      rw [OrderedDict.get?_setItem_of_ne s.executions _ hne]
      exact hmapped
  · intro k t hk
    rw [hexec] at hk
    rw [htasks]
    by_cases hkey : k = _make_key call
    · subst hkey
      rw [OrderedDict.get?_setItem_self] at hk
      cases hk
      exact ⟨_, List.getElem?_concat_length, rfl⟩
    · rw [OrderedDict.get?_setItem_of_ne s.executions _ hkey] at hk
      rcases h.lookup k t hk with ⟨task, ht, htk⟩
      exact ⟨task, getElem?_concat_of_some ht, htk⟩
  · intro t task ht
    rw [htasks] at ht
    rcases getElem?_concat_cases ht with ⟨-, rfl⟩ | hold
    · -- nothing has been said about a key without a task
      exact h.unmapped _ hget
    · exact h.history t task hold
  · intro k hk
    rw [hexec] at hk
    by_cases hkey : k = _make_key call
    · subst hkey
      rw [OrderedDict.get?_setItem_self] at hk
      cases hk
    · rw [OrderedDict.get?_setItem_of_ne s.executions _ hkey] at hk
      exact h.unmapped k hk

theorem TasksOk.step (h : TasksOk tr s) {e : Event A V} {out : List (Obs A V)}
    (hs : Step s e s' out) : TasksOk (tr ++ out) s' := by
  cases hs with
  | execute call =>
    rw [List.append_nil]
    exact ⟨h.mapped, h.lookup, h.history, h.unmapped⟩
  | acquireExisting hlock hcaller hget =>
    rw [List.append_nil]
    exact ⟨h.mapped, h.lookup, h.history, h.unmapped⟩
  | acquireNew hlock hcaller hget =>
    rw [List.append_nil]
    exact h.create hget rfl rfl
  | @taskStart t call htask =>
    refine h.setTask htask (Or.inr ⟨_, rfl, rfl⟩) ?_
    have hhistory : labelled Obs.key (_make_key call) tr = [] := h.history t _ htask
    show labelled Obs.key (_make_key call) (tr ++ [.invoked call]) = [.invoked call]
    rw [labelled_concat_self Obs.key tr rfl, hhistory]
    rfl
  | @taskEnds t call outcome htask =>
    refine h.setTask htask (Or.inr ⟨_, rfl, rfl⟩) ?_
    have hhistory : labelled Obs.key (_make_key call) tr = [.invoked call] :=
      h.history t _ htask
    refine ⟨outcome, ?_, rfl⟩
    show labelled Obs.key (_make_key call) (tr ++ [.ended call outcome]) = _
    rw [labelled_concat_self Obs.key tr rfl, hhistory]
    rfl
  | resumeDone hcaller htask => exact h.concat_caller rfl rfl rfl
  | resumeCancelled hcaller htask => exact h.concat_caller rfl rfl rfl
  | cancelWaiting hcaller => exact h.concat_caller rfl rfl rfl
  | @cancelTask c call t holdsLock call' status hcaller htask hunfinished =>
    refine h.setTask htask (Or.inl rfl) ?_
    rw [List.append_nil]
    have hhistory := h.history t _ htask
    cases status with
    | created => exact Or.inl hhistory
    | running => exact Or.inr hhistory
    | done r => cases hunfinished
    | cancelled => cases hunfinished
  | cancelJoined hcaller htask hunfinished => exact h.concat_caller rfl rfl rfl

theorem tasksOk_init : TasksOk ([] : List (Obs A V)) init := by
  constructor
  · intro t task ht
    cases ht
  · intro k t hk
    cases hk
  · intro t task ht
    cases ht
  · intro k _
    rfl

theorem tasksOk_run {es : List (Event A V)} (hrun : (machine A V).Run es tr s) : TasksOk tr s :=
  hrun.history_invariant (fun _ tr s => TasksOk tr s) tasksOk_init
    (fun _ _ _ _ _ _ _ hinv hs => hinv.step (step_cases hs))

/-! ## The callers -/

/-- The task that a caller is or was suspended on. -/
def CallerState.task? : CallerState V → Option ℕ
  | waiting => none
  | joined t _ => some t
  | returned t _ => some t
  | cancelledError => none

/-- The callers are answered by the tasks of their keys. -/
structure CallersOk (tr : List (Obs A V)) (s : Executor A V) : Prop where
  joined : ∀ (c : ℕ) caller t, s.callers[c]? = some caller → caller.state.task? = some t →
    ∃ task, s.tasks[t]? = some task ∧ _make_key task.call = _make_key caller.call
  returned : ∀ c call r, .returned c call r ∈ tr →
    ∃ (t : ℕ) (call' : ToolCall A), s.tasks[t]? = some ⟨call', .done r⟩ ∧
      _make_key call' = _make_key call

/-- What a caller becomes in a step, if it does not stay as it is: it waits, or
is answered by the task of its key, or is cancelled. -/
theorem Step.caller {e : Event A V} {out : List (Obs A V)} (htasks : TasksOk tr s)
    (hs : Step s e s' out) {c : ℕ} {caller : Caller A V} {t : ℕ}
    (hc : s'.callers[c]? = some caller) (ht : caller.state.task? = some t) :
    (∃ old, s.callers[c]? = some old ∧ old.call = caller.call ∧ old.state.task? = some t) ∨
    ∃ task, s'.tasks[t]? = some task ∧ _make_key task.call = _make_key caller.call := by
  cases hs with
  | execute call =>
    rcases getElem?_concat_cases hc with ⟨-, rfl⟩ | hold
    · cases ht
    · exact Or.inl ⟨caller, hold, rfl, ht⟩
  | acquireExisting hlock hcaller hget =>
    rcases getElem?_set_cases hc with ⟨-, rfl⟩ | ⟨-, hold⟩
    · cases ht
      exact Or.inr (htasks.lookup _ _ hget)
    · exact Or.inl ⟨caller, hold, rfl, ht⟩
  | acquireNew hlock hcaller hget =>
    rcases getElem?_set_cases hc with ⟨-, rfl⟩ | ⟨-, hold⟩
    · cases ht
      exact Or.inr ⟨_, List.getElem?_concat_length, rfl⟩
    · exact Or.inl ⟨caller, hold, rfl, ht⟩
  | taskStart htask => exact Or.inl ⟨caller, hc, rfl, ht⟩
  | taskEnds outcome htask => exact Or.inl ⟨caller, hc, rfl, ht⟩
  | resumeDone hcaller htask =>
    rcases getElem?_set_cases hc with ⟨rfl, rfl⟩ | ⟨-, hold⟩
    · cases ht
      exact Or.inl ⟨_, hcaller, rfl, rfl⟩
    · exact Or.inl ⟨caller, hold, rfl, ht⟩
  | resumeCancelled hcaller htask =>
    rcases getElem?_set_cases hc with ⟨-, rfl⟩ | ⟨-, hold⟩
    · cases ht
    · exact Or.inl ⟨caller, hold, rfl, ht⟩
  | cancelWaiting hcaller =>
    rcases getElem?_set_cases hc with ⟨-, rfl⟩ | ⟨-, hold⟩
    · cases ht
    · exact Or.inl ⟨caller, hold, rfl, ht⟩
  | cancelTask hcaller htask hunfinished => exact Or.inl ⟨caller, hc, rfl, ht⟩
  | cancelJoined hcaller htask hunfinished =>
    rcases getElem?_set_cases hc with ⟨-, rfl⟩ | ⟨-, hold⟩
    · cases ht
    · exact Or.inl ⟨caller, hold, rfl, ht⟩

theorem CallersOk.step (h : CallersOk tr s) (htasks : TasksOk tr s) {e : Event A V}
    {out : List (Obs A V)} (hs : Step s e s' out) : CallersOk (tr ++ out) s' := by
  constructor
  · intro c caller t hc ht
    rcases hs.caller htasks hc ht with ⟨old, hold, hcall, holdt⟩ | hnew
    · rcases h.joined c old t hold holdt with ⟨task, htask, hkey⟩
      rcases hs.task htask with ⟨task', htask', hcall', -⟩
      exact ⟨task', htask', by rw [hcall', hkey, hcall]⟩
    · exact hnew
  · intro c call r hmem
    rcases List.mem_append.mp hmem with hold | hnew
    · rcases h.returned c call r hold with ⟨t, call', htask, hkey⟩
      rcases hs.task htask with ⟨task', htask', hcall, hdone⟩
      have hcall' : task'.call = call' := hcall
      have hstatus : task'.status = .done r := hdone r rfl
      refine ⟨t, call', ?_, hkey⟩
      rw [htask', ← hstatus, ← hcall']
    · -- only a caller that resumes after a task that is done returns
      cases hs with
      | resumeDone hcaller htask =>
        rw [List.mem_singleton] at hnew
        cases hnew
        rcases h.joined _ _ _ hcaller rfl with ⟨task, htask', hkey⟩
        rw [htask] at htask'
        cases htask'
        exact ⟨_, _, htask, hkey⟩
      | execute call => cases hnew
      | acquireExisting hlock hcaller hget => cases hnew
      | acquireNew hlock hcaller hget => cases hnew
      | taskStart htask => simp at hnew
      | taskEnds outcome htask => simp at hnew
      | resumeCancelled hcaller htask => simp at hnew
      | cancelWaiting hcaller => simp at hnew
      | cancelTask hcaller htask hunfinished => cases hnew
      | cancelJoined hcaller htask hunfinished => simp at hnew

theorem callersOk_run {es : List (Event A V)} (hrun : (machine A V).Run es tr s) :
    CallersOk tr s := by
  refine hrun.history_invariant (fun _ tr s => CallersOk tr s) ?_ ?_
  · constructor
    · intro c caller t hc
      cases hc
    · intro c call r hmem
      cases hmem
  · intro es tr s e s' out hrun hinv hs
    exact hinv.step (tasksOk_run hrun) (step_cases hs)

/-! ## One outcome -/

def Obs.isInvoked : Obs A V → Bool
  | invoked _ => true
  | _ => false

/-- The invocations for a key. -/
def invocationsOf (key : String) (tr : List (Obs A V)) : List (Obs A V) :=
  (labelled Obs.key key tr).filter Obs.isInvoked

/-- The handler for a key ended in `o`. -/
def EndedWith (key : String) (tr : List (Obs A V)) (o : HandlerEnd V) : Prop :=
  ∃ call, _make_key call = key ∧ .invoked call ∈ tr ∧ .ended call o ∈ tr

/-- One invocation for a key, and one result, that of the invocation, for all
callers that return. -/
structure OneOutcome (key : String) (tr : List (Obs A V)) : Prop where
  at_most_once : (invocationsOf key tr).length ≤ 1
  same : ∀ c c' call call' r r', .returned c call r ∈ tr → .returned c' call' r' ∈ tr →
    _make_key call = key → _make_key call' = key → r = r'
  completed : ∀ c call r, .returned c call r ∈ tr → _make_key call = key →
    ∀ v, r = .Completed v ↔ EndedWith key tr (.returned v)
  indeterminate : ∀ c call r, .returned c call r ∈ tr → _make_key call = key →
    (r = .Indeterminate ↔ EndedWith key tr .timeoutError)
  failed : ∀ c call r, .returned c call r ∈ tr → _make_key call = key →
    ∀ message, r = .Failed message ↔ EndedWith key tr (.exception message)

/-- What a trace can say about a key. -/
theorem TasksOk.history_cases (h : TasksOk tr s) (key : String) :
    labelled Obs.key key tr = [] ∨
    (∃ call, labelled Obs.key key tr = [.invoked call]) ∨
    ∃ call o, labelled Obs.key key tr = [.invoked call, .ended call o] := by
  cases hget : s.executions.get? key with
  | none => exact Or.inl (h.unmapped key hget)
  | some t =>
    rcases h.lookup key t hget with ⟨⟨call, status⟩, ht, rfl⟩
    have hhistory := h.history t _ ht
    cases status with
    | created => exact Or.inl hhistory
    | running => exact Or.inr (Or.inl ⟨call, hhistory⟩)
    | done r =>
      rcases hhistory with ⟨o, hhistory, -⟩
      exact Or.inr (Or.inr ⟨call, o, hhistory⟩)
    | cancelled =>
      rcases hhistory with hhistory | hhistory
      · exact Or.inl hhistory
      · exact Or.inr (Or.inl ⟨call, hhistory⟩)

theorem invocationsOf_le_one (h : TasksOk tr s) (key : String) :
    (invocationsOf key tr).length ≤ 1 := by
  rw [invocationsOf]
  rcases h.history_cases key with hh | ⟨call, hh⟩ | ⟨call, o, hh⟩
  · rw [hh]
    exact Nat.zero_le 1
  · rw [hh]
    exact Nat.le_refl 1
  · rw [hh]
    exact Nat.le_refl 1

/-- The result of a task is that of the one invocation for its key. -/
theorem endedWith_iff (h : TasksOk tr s) {t : ℕ} {call : ToolCall A} {r : ExecutionResult V}
    (ht : s.tasks[t]? = some ⟨call, .done r⟩) :
    ∃ o, r = _run o ∧ ∀ o', EndedWith (_make_key call) tr o' ↔ o' = o := by
  rcases h.history t _ ht with ⟨o, hhistory, hr⟩
  refine ⟨o, hr, ?_⟩
  intro o'
  constructor
  · rintro ⟨call', hkey, -, hended⟩
    have hmem : .ended call' o' ∈ labelled Obs.key (_make_key call) tr := by
      rw [← mem_iff_mem_labelled Obs.key (by rw [← hkey]; rfl)]
      exact hended
    rw [hhistory] at hmem
    simp only [List.mem_cons, reduceCtorEq, Obs.ended.injEq, List.not_mem_nil, or_false,
      false_or] at hmem
    exact hmem.2
  · rintro rfl
    refine ⟨call, rfl, ?_, ?_⟩
    · rw [mem_iff_mem_labelled Obs.key rfl, hhistory]
      simp
    · rw [mem_iff_mem_labelled Obs.key rfl, hhistory]
      simp

/-- In every run, whoever is cancelled, a key has at most one invocation and one
result. -/
theorem one_outcome {es : List (Event A V)} (hrun : (machine A V).Run es tr s) (key : String) :
    OneOutcome key tr := by
  have htasks := tasksOk_run hrun
  have hcallers := callersOk_run hrun
  -- the outcome behind the result of a caller
  have houtcome : ∀ c call r, .returned c call r ∈ tr → _make_key call = key →
      ∃ o, r = _run o ∧ ∀ o', EndedWith key tr o' ↔ o' = o := by
    intro c call r hmem hkey
    rcases hcallers.returned c call r hmem with ⟨t, call', ht, hkey'⟩
    rw [← hkey, ← hkey']
    exact endedWith_iff htasks ht
  constructor
  · exact invocationsOf_le_one htasks key
  · intro c c' call call' r r' hr hr' hkey hkey'
    rcases houtcome c call r hr hkey with ⟨o, rfl, ho⟩
    rcases houtcome c' call' r' hr' hkey' with ⟨o', rfl, ho'⟩
    rw [(ho' o).mp ((ho o).mpr rfl)]
  · intro c call r hr hkey v
    rcases houtcome c call r hr hkey with ⟨o, rfl, ho⟩
    rw [ho]
    cases o <;> simp [_run, eq_comm]
  · intro c call r hr hkey
    rcases houtcome c call r hr hkey with ⟨o, rfl, ho⟩
    rw [ho]
    cases o <;> simp [_run]
  · intro c call r hr hkey message
    rcases houtcome c call r hr hkey with ⟨o, rfl, ho⟩
    rw [ho]
    cases o <;> simp [_run, eq_comm]

/-- The call of the question. -/
def createCase : ToolCall Unit := ⟨"acme", "create_case", "case-request-93", ()⟩

/-- A second caller comes while the handler runs, a third after it has
returned. -/
def duplicatesRun : List (Event Unit String) :=
  [.execute createCase, .acquire 0, .taskStart 0, .execute createCase, .acquire 1,
    .taskEnds 0 (.returned "c-101"), .resume 0, .resume 1, .execute createCase, .acquire 2,
    .resume 2]

/-- The results of the callers, in the order in which they return. -/
def results : List (Obs Unit String) → List (ExecutionResult String)
  | [] => []
  | .returned _ _ r :: tr => r :: results tr
  | _ :: tr => results tr

theorem one_outcome_duplicates :
    ∃ s tr, (machine Unit String).Run duplicatesRun tr s ∧
      results tr = [.Completed "c-101", .Completed "c-101", .Completed "c-101"] ∧
      OneOutcome (_make_key createCase) tr := by
  have hexec : ((machine Unit String).exec duplicatesRun).map (fun r => results r.2) =
      some [.Completed "c-101", .Completed "c-101", .Completed "c-101"] := by decide +kernel
  rcases Machine.Run.of_exec_map hexec with ⟨s, tr, hrun, hresults⟩
  exact ⟨s, tr, hrun, hresults, one_outcome hrun _⟩

end InterviewPrep.IdempotentExecutor.Python
