import InterviewPrep.IdempotentExecutor.AtMostOnce
import InterviewPrep.IdempotentExecutor.TypeScript
import InterviewPrep.Lib.Delimited

/-!
# Which calls share an execution

An operation is a triple of a tenant, a tool and an idempotency key; the
executors identify it by the three joined with colons. `make_key_eq_iff` says
when two triples have one key: exactly if they have the same pieces, cut at all
their colons. So the executors keep operations apart as long as the triples of a
run are told apart by their pieces (`Separable`), and `never_mixes_iff` says that
this is exact: two calls with the same pieces and different triples are answered
by one execution.
-/

namespace InterviewPrep.IdempotentExecutor

variable {A V E : Type}

/-! ## Keys -/

/-- The operation that a call asks for. -/
def ToolCall.triple (call : ToolCall A) : String × String × String :=
  (call.tenant_id, call.tool_name, call.idempotency_key)

/-- The tenant, the tool and the key, each cut at its colons. -/
def ToolCall.pieces (call : ToolCall A) : List (List Char) :=
  Delimited.pieces ':'
    [call.tenant_id.toList, call.tool_name.toList, call.idempotency_key.toList]

theorem make_key_eq_iff (a b : ToolCall A) : _make_key a = _make_key b ↔ a.pieces = b.pieces := by
  have hjoined : ∀ call : ToolCall A, (_make_key call).toList = Delimited.joined ':'
      [call.tenant_id.toList, call.tool_name.toList, call.idempotency_key.toList] := by
    intro call
    simp [_make_key, Delimited.joined, String.toList_append]
  rw [← String.toList_inj, hjoined, hjoined, ToolCall.pieces, ToolCall.pieces]
  exact Delimited.joined_eq_iff ':' (by simp) (by simp)

/-- Calls that are told apart by their pieces. -/
def Separable (S : ToolCall A → Prop) : Prop :=
  ∀ a b, S a → S b → a.pieces = b.pieces → a.triple = b.triple

/-- Colons in the idempotency key alone do no harm. -/
theorem separable_of_no_colon {S : ToolCall A → Prop}
    (h : ∀ a, S a → ':' ∉ a.tenant_id.toList ∧ ':' ∉ a.tool_name.toList) : Separable S := by
  intro a b ha hb hpieces
  have hcut : ∀ call : ToolCall A, S call →
      call.pieces = call.tenant_id.toList :: call.tool_name.toList ::
        List.splitOn ':' call.idempotency_key.toList := by
    intro call hcall
    simp [ToolCall.pieces, Delimited.pieces, List.splitOn_eq_singleton (h call hcall).1,
      List.splitOn_eq_singleton (h call hcall).2]
  rw [hcut a ha, hcut b hb] at hpieces
  injection hpieces with htenant hrest
  injection hrest with htool hkey
  -- the pieces of the idempotency key determine it
  have hback := congrArg (List.intercalate [':']) hkey
  rw [List.intercalate_splitOn, List.intercalate_splitOn] at hback
  rw [ToolCall.triple, ToolCall.triple, String.toList_inj.mp htenant, String.toList_inj.mp htool,
    String.toList_inj.mp hback]

/-! ## Python -/

namespace Python

variable {tr : List (Obs A V)} {s s' : Executor A V}

/-- No caller is suspended on the task of another operation, or has its result;
and the result of a caller is that of an invocation for its operation. -/
structure NeverMixed (tr : List (Obs A V)) (s : Executor A V) : Prop where
  joined : ∀ (c : ℕ) caller t task, s.callers[c]? = some caller →
    caller.state.task? = some t → s.tasks[t]? = some task →
    task.call.triple = caller.call.triple
  own_result : ∀ c call r, .returned c call r ∈ tr →
    ∃ call' o, call'.triple = call.triple ∧ .invoked call' ∈ tr ∧ .ended call' o ∈ tr ∧
      r = _run o

/-- The calls in a state and its history satisfy `S`. -/
structure CallsIn (S : ToolCall A → Prop) (tr : List (Obs A V)) (s : Executor A V) : Prop where
  tasks : ∀ (t : ℕ) task, s.tasks[t]? = some task → S task.call
  callers : ∀ (c : ℕ) caller, s.callers[c]? = some caller → S caller.call
  returned : ∀ c call r, .returned c call r ∈ tr → S call

theorem CallsIn.set_caller {S : ToolCall A → Prop} (h : CallsIn S tr s) {c : ℕ}
    {call : ToolCall A} {state state' : CallerState V}
    (hc : s.callers[c]? = some ⟨call, state⟩) :
    ∀ (d : ℕ) caller, (s.callers.set c ⟨call, state'⟩)[d]? = some caller → S caller.call := by
  intro d caller hd
  rcases getElem?_set_cases hd with ⟨-, rfl⟩ | ⟨-, hold⟩
  · have hcall := h.callers c _ hc
    exact hcall
  · exact h.callers d caller hold

theorem CallsIn.set_task {S : ToolCall A → Prop} (h : CallsIn S tr s) {t : ℕ}
    {call : ToolCall A} {status status' : TaskStatus V}
    (ht : s.tasks[t]? = some ⟨call, status⟩) :
    ∀ (u : ℕ) task, (s.tasks.set t ⟨call, status'⟩)[u]? = some task → S task.call := by
  intro u task hu
  rcases getElem?_set_cases hu with ⟨-, rfl⟩ | ⟨-, hold⟩
  · have hcall := h.tasks t _ ht
    exact hcall
  · exact h.tasks u task hold

/-- The trace grows by something else than a return. -/
theorem CallsIn.concat {S : ToolCall A → Prop} (h : CallsIn S tr s) {o : Obs A V}
    (ho : ∀ c call r, o ≠ .returned c call r) :
    ∀ c call r, .returned c call r ∈ tr ++ [o] → S call := by
  intro c call r hmem
  rcases List.mem_append.mp hmem with hold | hnew
  · exact h.returned c call r hold
  · rw [List.mem_singleton] at hnew
    exact absurd hnew.symm (ho c call r)

theorem CallsIn.step {S : ToolCall A → Prop} (h : CallsIn S tr s) {e : Event A V}
    {out : List (Obs A V)} (hs : Step s e s' out) (he : ∀ call, e = .execute call → S call) :
    CallsIn S (tr ++ out) s' := by
  cases hs with
  | execute call =>
    rw [List.append_nil]
    refine ⟨h.tasks, ?_, h.returned⟩
    intro c caller hc
    rcases getElem?_concat_cases hc with ⟨-, rfl⟩ | hold
    · exact he call rfl
    · exact h.callers c caller hold
  | acquireExisting hlock hcaller hget =>
    rw [List.append_nil]
    exact ⟨h.tasks, h.set_caller hcaller, h.returned⟩
  | acquireNew hlock hcaller hget =>
    rw [List.append_nil]
    refine ⟨?_, h.set_caller hcaller, h.returned⟩
    intro t task ht
    rcases getElem?_concat_cases ht with ⟨-, rfl⟩ | hold
    · have hcall := h.callers _ _ hcaller
      exact hcall
    · exact h.tasks t task hold
  | taskStart htask =>
    exact ⟨h.set_task htask, h.callers, h.concat (by intro c call r heq; cases heq)⟩
  | taskEnds outcome htask =>
    exact ⟨h.set_task htask, h.callers, h.concat (by intro c call r heq; cases heq)⟩
  | resumeDone hcaller htask =>
    refine ⟨h.tasks, h.set_caller hcaller, ?_⟩
    intro c call r hmem
    rcases List.mem_append.mp hmem with hold | hnew
    · exact h.returned c call r hold
    · rw [List.mem_singleton] at hnew
      cases hnew
      have hcall := h.callers _ _ hcaller
      exact hcall
  | resumeCancelled hcaller htask =>
    exact ⟨h.tasks, h.set_caller hcaller, h.concat (by intro c call r heq; cases heq)⟩
  | cancelWaiting hcaller =>
    exact ⟨h.tasks, h.set_caller hcaller, h.concat (by intro c call r heq; cases heq)⟩
  | cancelTask hcaller htask hunfinished =>
    rw [List.append_nil]
    exact ⟨h.set_task htask, h.callers, h.returned⟩
  | cancelJoined hcaller htask hunfinished =>
    exact ⟨h.tasks, h.set_caller hcaller, h.concat (by intro c call r heq; cases heq)⟩

/-- In a run of calls from `S`, the state and the history hold calls from `S`. -/
theorem callsIn_run {S : ToolCall A → Prop} {es : List (Event A V)}
    (hrun : (machine A V).Run es tr s) (hS : ∀ call, .execute call ∈ es → S call) :
    CallsIn S tr s := by
  have hevents : ∀ e ∈ es, ∀ call, e = .execute call → S call := by
    rintro _ he call rfl
    exact hS call he
  refine hrun.history_invariant_of_events (CallsIn S) ?_ ?_ hevents
  · constructor
    · intro t task ht
      cases ht
    · intro c caller hc
      cases hc
    · intro c call r hmem
      cases hmem
  · intro tr s e s' out h he hs
    exact h.step (step_cases hs) he

/-- Operations that are told apart by their pieces are not mixed. -/
theorem neverMixed_run {S : ToolCall A → Prop} (hsep : Separable S) {es : List (Event A V)}
    (hrun : (machine A V).Run es tr s) (hS : ∀ call, .execute call ∈ es → S call) :
    NeverMixed tr s := by
  have hcalls := callsIn_run hrun hS
  have hcallers := callersOk_run hrun
  have htasks := tasksOk_run hrun
  constructor
  · intro c caller t task hc ht htask
    rcases hcallers.joined c caller t hc ht with ⟨task', htask', hkey⟩
    rw [htask] at htask'
    cases htask'
    exact hsep _ _ (hcalls.tasks t task htask) (hcalls.callers c caller hc)
      ((make_key_eq_iff _ _).mp hkey)
  · intro c call r hmem
    rcases hcallers.returned c call r hmem with ⟨t, call', htask, hkey⟩
    rcases htasks.history t _ htask with ⟨o, hhistory, hr⟩
    have hmem' := hcalls.tasks t _ htask
    have htriple : call'.triple = call.triple :=
      hsep _ _ hmem' (hcalls.returned c call r hmem) ((make_key_eq_iff _ _).mp hkey)
    refine ⟨call', o, htriple, ?_, ?_, hr⟩
    · rw [mem_iff_mem_labelled Obs.key rfl, hhistory]
      simp
    · rw [mem_iff_mem_labelled Obs.key rfl, hhistory]
      simp

/-- Two calls with one key share a task, also if they are different operations. -/
theorem exists_mixed (V : Type) {a b : ToolCall A} (hkey : _make_key a = _make_key b)
    (hne : a.triple ≠ b.triple) :
    ∃ es tr s, (machine A V).Run es tr s ∧ (∀ call, .execute call ∈ es → call = a ∨ call = b) ∧
      ¬ NeverMixed tr s := by
  let s₁ : Executor A V := ⟨OrderedDict.empty.setItem (_make_key a) 0, none, [⟨a, .created⟩],
    [⟨a, .joined 0 false⟩]⟩
  let s₂ : Executor A V := ⟨OrderedDict.empty.setItem (_make_key a) 0, some 1, [⟨a, .created⟩],
    [⟨a, .joined 0 false⟩, ⟨b, .joined 0 true⟩]⟩
  -- the first call creates the task
  have hrun₁ : (machine A V).Run [.execute a, .acquire 0] [] s₁ := by
    apply Machine.Run.of_exec
    rfl
  -- the second call finds it
  have hrun₂ : (machine A V).Run [.execute a, .acquire 0, .execute b, .acquire 1] [] s₂ := by
    have hget : (OrderedDict.empty.setItem (_make_key a) 0).get? (_make_key b) = some 0 := by
      rw [← hkey]
      exact OrderedDict.get?_setItem_self _ _ _
    have hexec : (machine A V).execFrom s₁ [.execute b, .acquire 1] = some (s₂, []) := by
      simp [s₁, s₂, Machine.execFrom, machine, step, enter, setCaller, hget]
    exact hrun₁.execFrom hexec
  refine ⟨_, _, s₂, hrun₂, ?_, ?_⟩
  · intro call hmem
    simpa using hmem
  · intro h
    exact hne (h.joined 1 ⟨b, .joined 0 true⟩ 0 ⟨a, .created⟩ rfl rfl rfl)

end Python

/-! ## TypeScript -/

namespace TypeScript

variable {tr : List (Obs A V)} {s s' : Executor A V}

/-- No caller has the execution of another operation; and what a caller receives
comes from an invocation for its operation. -/
structure NeverMixed (tr : List (Obs A V)) (s : Executor A V) : Prop where
  joined : ∀ (c : ℕ) caller execution, s.callers[c]? = some caller →
    s.all[caller.execution]? = some execution → execution.call.triple = caller.call.triple
  own_result : ∀ c call r, .received c call r ∈ tr →
    ∃ (e : ℕ) (call' : ToolCall A), call'.triple = call.triple ∧ .invoked call' ∈ tr ∧
      s.all[e]? = some ⟨call', .settled r⟩

/-- Every execution has been invoked and is in the map under its key, if it is
there at all; every caller has an execution of its key. -/
structure Inv (S : ToolCall A → Prop) (tr : List (Obs A V)) (s : Executor A V) : Prop where
  calls : ∀ (e : ℕ) execution, s.all[e]? = some execution →
    S execution.call ∧ .invoked execution.call ∈ tr
  lookup : ∀ k e, s.executions.get? k = some e →
    ∃ execution, s.all[e]? = some execution ∧ _make_key execution.call = k
  joined : ∀ (c : ℕ) caller, s.callers[c]? = some caller → S caller.call ∧
    ∃ execution, s.all[caller.execution]? = some execution ∧
      _make_key execution.call = _make_key caller.call
  received : ∀ c call r, .received c call r ∈ tr → S call ∧
    ∃ (e : ℕ) (call' : ToolCall A), s.all[e]? = some ⟨call', .settled r⟩ ∧
      _make_key call' = _make_key call

/-- The status of an execution that has no result changes. -/
theorem set_execution {x y : ℕ} {call call' : ToolCall A} {status old new : ExecutionStatus V}
    (hy : s.all[y]? = some ⟨call', old⟩) (hold : ∀ r, old ≠ .settled r)
    (hx : s.all[x]? = some ⟨call, status⟩) :
    ∃ status', (s.all.set y ⟨call', new⟩)[x]? = some ⟨call, status'⟩ ∧
      ∀ r, status = .settled r → status' = .settled r := by
  by_cases hxy : x = y
  · subst hxy
    rw [hy] at hx
    cases hx
    exact ⟨_, getElem?_set_of_some hy, fun r hr => absurd hr (hold r)⟩
  · refine ⟨status, ?_, fun _ h => h⟩
    rw [List.getElem?_set_ne (fun h => hxy h.symm)]
    exact hx

/-- An execution keeps its call, and its result once it has one. -/
theorem Step.execution {errorMessage : E → Option String} {e : Event A V E}
    {out : List (Obs A V)} (hs : Step errorMessage s e s' out) {x : ℕ} {call : ToolCall A}
    {status : ExecutionStatus V} (hx : s.all[x]? = some ⟨call, status⟩) :
    ∃ status', s'.all[x]? = some ⟨call, status'⟩ ∧
      ∀ r, status = .settled r → status' = .settled r := by
  cases hs with
  | callExisting hget => exact ⟨status, hx, fun _ h => h⟩
  | callNew hget => exact ⟨status, getElem?_concat_of_some hx, fun _ h => h⟩
  | handlerReturns throws hstack hall =>
    exact set_execution hall (by intro r hr; cases hr) hx
  | settle outcome hstack hall => exact set_execution hall (by intro r hr; cases hr) hx
  | receive hstack hcaller hall => exact ⟨status, hx, fun _ h => h⟩

variable {S : ToolCall A → Prop} {errorMessage : E → Option String}

/-- What is said about the old executions, of the new ones. -/
theorem Inv.joined_step (h : Inv S tr s) {e : Event A V E} {out : List (Obs A V)}
    (hs : Step errorMessage s e s' out) {c : ℕ} {caller : Caller A V}
    (hc : s.callers[c]? = some caller) :
    S caller.call ∧ ∃ execution, s'.all[caller.execution]? = some execution ∧
      _make_key execution.call = _make_key caller.call := by
  rcases h.joined c caller hc with ⟨hS, ⟨call', status⟩, hx, hkey⟩
  rcases hs.execution hx with ⟨status', hx', -⟩
  exact ⟨hS, _, hx', hkey⟩

theorem Inv.received_step (h : Inv S tr s) {e : Event A V E} {out : List (Obs A V)}
    (hs : Step errorMessage s e s' out) {c : ℕ} {call : ToolCall A}
    {r : Option (ExecutionResult V)} (hmem : .received c call r ∈ tr) :
    S call ∧ ∃ (x : ℕ) (call' : ToolCall A), s'.all[x]? = some ⟨call', .settled r⟩ ∧
      _make_key call' = _make_key call := by
  rcases h.received c call r hmem with ⟨hS, x, call', hx, hkey⟩
  rcases hs.execution hx with ⟨status', hx', hsettled⟩
  rw [hsettled r rfl] at hx'
  exact ⟨hS, x, call', hx', hkey⟩

theorem Inv.lookup_step (h : Inv S tr s) {e : Event A V E} {out : List (Obs A V)}
    (hs : Step errorMessage s e s' out) {k : String} {x : ℕ}
    (hk : s.executions.get? k = some x) :
    ∃ execution, s'.all[x]? = some execution ∧ _make_key execution.call = k := by
  rcases h.lookup k x hk with ⟨⟨call', status⟩, hx, hkey⟩
  rcases hs.execution hx with ⟨status', hx', -⟩
  exact ⟨_, hx', hkey⟩

theorem Inv.step (h : Inv S tr s) {e : Event A V E} {out : List (Obs A V)}
    (hs : Step errorMessage s e s' out) (he : ∀ call, e = .call call → S call) :
    Inv S (tr ++ out) s' := by
  have hjoined := fun (c : ℕ) (caller : Caller A V) (hc : s.callers[c]? = some caller) =>
    h.joined_step hs hc
  have hreceived := fun c call r (hmem : .received c call r ∈ tr) => h.received_step hs hmem
  have hlookup := fun k x (hk : s.executions.get? k = some x) => h.lookup_step hs hk
  cases hs with
  | @callExisting call existing hget =>
    rw [List.append_nil]
    refine ⟨h.calls, h.lookup, ?_, h.received⟩
    intro c caller hc
    rcases getElem?_concat_cases hc with ⟨-, rfl⟩ | hold
    · exact ⟨he call rfl, h.lookup _ existing hget⟩
    · exact h.joined c caller hold
  | @callNew call hget =>
    refine ⟨?_, hlookup, ?_, ?_⟩
    · intro x execution hx
      rcases getElem?_concat_cases hx with ⟨-, rfl⟩ | hold
      · exact ⟨he call rfl, by simp⟩
      · have hcalls := h.calls x execution hold
        exact ⟨hcalls.1, List.mem_append_left _ hcalls.2⟩
    · intro c caller hc
      rcases getElem?_concat_cases hc with ⟨-, rfl⟩ | hold
      · exact ⟨he call rfl, _, List.getElem?_concat_length, rfl⟩
      · exact hjoined c caller hold
    · intro c call' r hmem
      apply hreceived c call' r
      simpa using hmem
  | @handlerReturns x stack call throws hstack hall =>
    rw [List.append_nil]
    refine ⟨?_, ?_, hjoined, hreceived⟩
    · intro y execution hy
      rcases getElem?_set_cases hy with ⟨-, rfl⟩ | ⟨-, hold⟩
      · have hcalls := h.calls x _ hall
        exact hcalls
      · exact h.calls y execution hold
    · intro k y hk
      by_cases hkey : k = _make_key call
      · subst hkey
        have hk : (s.executions.setItem (_make_key call) x).get? (_make_key call) = some y := hk
        rw [OrderedDict.get?_setItem_self] at hk
        cases hk
        exact ⟨_, getElem?_set_of_some hall, rfl⟩
      · have hk : (s.executions.setItem (_make_key call) x).get? k = some y := hk
        rw [OrderedDict.get?_setItem_of_ne _ _ hkey] at hk
        exact hlookup k y hk
  | @settle x call outcome hstack hall =>
    rw [List.append_nil]
    refine ⟨?_, hlookup, hjoined, hreceived⟩
    intro y execution hy
    rcases getElem?_set_cases hy with ⟨-, rfl⟩ | ⟨-, hold⟩
    · have hcalls := h.calls x _ hall
      exact hcalls
    · exact h.calls y execution hold
  | @receive c call call' x result hstack hcaller hall =>
    have hcalls := h.joined c _ hcaller
    refine ⟨?_, h.lookup, ?_, ?_⟩
    · intro y execution hy
      have hold := h.calls y execution hy
      exact ⟨hold.1, List.mem_append_left _ hold.2⟩
    · intro d caller hd
      rcases getElem?_set_cases hd with ⟨-, rfl⟩ | ⟨-, hold⟩
      · exact hcalls
      · exact h.joined d caller hold
    · intro d call'' r hmem
      rcases List.mem_append.mp hmem with hold | hnew
      · exact h.received d call'' r hold
      · rw [List.mem_singleton] at hnew
        cases hnew
        rcases hcalls.2 with ⟨execution, hx, hkey⟩
        rw [hall] at hx
        cases hx
        exact ⟨hcalls.1, x, call', hall, hkey⟩

theorem inv_run {es : List (Event A V E)} (hrun : (machine A V errorMessage).Run es tr s)
    (hS : ∀ call, .call call ∈ es → S call) : Inv S tr s := by
  have hevents : ∀ e ∈ es, ∀ call, e = .call call → S call := by
    rintro _ he call rfl
    exact hS call he
  refine hrun.history_invariant_of_events (Inv S) ?_ ?_ hevents
  · constructor
    · intro x execution hx
      cases hx
    · intro k x hk
      cases hk
    · intro c caller hc
      cases hc
    · intro c call r hmem
      cases hmem
  · intro tr s e s' out h he hs
    exact h.step (step_cases hs) he

/-- Operations that are told apart by their pieces are not mixed. -/
theorem neverMixed_run (hsep : Separable S) {es : List (Event A V E)}
    (hrun : (machine A V errorMessage).Run es tr s) (hS : ∀ call, .call call ∈ es → S call) :
    NeverMixed tr s := by
  have h := inv_run hrun hS
  constructor
  · intro c caller execution hc hx
    rcases h.joined c caller hc with ⟨hcaller, execution', hx', hkey⟩
    rw [hx] at hx'
    cases hx'
    exact hsep _ _ (h.calls _ execution hx).1 hcaller ((make_key_eq_iff _ _).mp hkey)
  · intro c call r hmem
    rcases h.received c call r hmem with ⟨hcall, x, call', hx, hkey⟩
    have hcalls := h.calls x _ hx
    exact ⟨x, call', hsep _ _ hcalls.1 hcall ((make_key_eq_iff _ _).mp hkey), hcalls.2, hx⟩

/-- Two calls with one key share an execution, also if they are different
operations. -/
theorem exists_mixed (V : Type) (errorMessage : E → Option String) {a b : ToolCall A}
    (hkey : _make_key a = _make_key b) (hne : a.triple ≠ b.triple) :
    ∃ es tr s, (machine A V errorMessage).Run es tr s ∧
      (∀ call, .call call ∈ es → call = a ∨ call = b) ∧ ¬ NeverMixed tr s := by
  let s₁ : Executor A V := ⟨OrderedDict.empty.setItem (_make_key a) 0, [⟨a, .pending⟩], [],
    [⟨a, 0, none⟩]⟩
  let s₂ : Executor A V := ⟨OrderedDict.empty.setItem (_make_key a) 0, [⟨a, .pending⟩], [],
    [⟨a, 0, none⟩, ⟨b, 0, none⟩]⟩
  -- the first call is entered when its handler has returned its promise
  have hrun₁ : (machine A V errorMessage).Run [.call a, .handlerReturns none] [.invoked a] s₁ := by
    apply Machine.Run.of_exec
    rfl
  -- the second call finds it
  have hrun₂ : (machine A V errorMessage).Run [.call a, .handlerReturns none, .call b]
      [.invoked a] s₂ := by
    have hget : (OrderedDict.empty.setItem (_make_key a) 0).get? (_make_key b) = some 0 := by
      rw [← hkey]
      exact OrderedDict.get?_setItem_self _ _ _
    have hexec : (machine A V errorMessage).execFrom s₁ [.call b] = some (s₂, []) := by
      simp [s₁, s₂, Machine.execFrom, machine, step, hget]
    exact hrun₁.execFrom hexec
  refine ⟨_, _, s₂, hrun₂, ?_, ?_⟩
  · intro call hmem
    simpa using hmem
  · intro h
    exact hne (h.joined 1 ⟨b, 0, none⟩ ⟨a, .pending⟩ rfl rfl)

end TypeScript

/-! ## When operations are kept apart -/

/-- Both executors keep operations apart in all runs of calls from `S` exactly
if these are told apart by their pieces. -/
theorem never_mixes_iff (V : Type) (errorMessage : E → Option String) (S : ToolCall A → Prop) :
    ((∀ es tr s, (Python.machine A V).Run es tr s → (∀ call, .execute call ∈ es → S call) →
      Python.NeverMixed tr s) ↔ Separable S) ∧
    ((∀ es tr s, (TypeScript.machine A V errorMessage).Run es tr s →
      (∀ call, .call call ∈ es → S call) → TypeScript.NeverMixed tr s) ↔ Separable S) := by
  constructor
  · constructor
    · intro h a b ha hb hpieces
      by_contra hne
      rcases Python.exists_mixed V ((make_key_eq_iff a b).mpr hpieces) hne with
        ⟨es, tr, s, hrun, hcalls, hmixed⟩
      apply hmixed (h es tr s hrun _)
      intro call hcall
      rcases hcalls call hcall with rfl | rfl
      · exact ha
      · exact hb
    · intro hsep es tr s hrun hS
      exact Python.neverMixed_run hsep hrun hS
  · constructor
    · intro h a b ha hb hpieces
      by_contra hne
      rcases TypeScript.exists_mixed V errorMessage ((make_key_eq_iff a b).mpr hpieces) hne with
        ⟨es, tr, s, hrun, hcalls, hmixed⟩
      apply hmixed (h es tr s hrun _)
      intro call hcall
      rcases hcalls call hcall with rfl | rfl
      · exact ha
      · exact hb
    · intro hsep es tr s hrun hS
      exact TypeScript.neverMixed_run hsep hrun hS

/-- The tenant "a:b" with the tool "c", and the tenant "a" with the tool "b:c",
share an execution in both executors. -/
theorem tenants_mixed :
    (∃ es tr s, (Python.machine Unit String).Run es tr s ∧
      (∀ call, .execute call ∈ es →
        call = ⟨"a:b", "c", "d", ()⟩ ∨ call = ⟨"a", "b:c", "d", ()⟩) ∧
      ¬ Python.NeverMixed tr s) ∧
    (∃ es tr s, (TypeScript.machine Unit String (some : String → Option String)).Run es tr s ∧
      (∀ call, .call call ∈ es → call = ⟨"a:b", "c", "d", ()⟩ ∨ call = ⟨"a", "b:c", "d", ()⟩) ∧
      ¬ TypeScript.NeverMixed tr s) := by
  have hkey : _make_key (⟨"a:b", "c", "d", ()⟩ : ToolCall Unit) =
      _make_key ⟨"a", "b:c", "d", ()⟩ := by decide
  have hne : (⟨"a:b", "c", "d", ()⟩ : ToolCall Unit).triple ≠
      (⟨"a", "b:c", "d", ()⟩ : ToolCall Unit).triple := by decide
  exact ⟨Python.exists_mixed String hkey hne, TypeScript.exists_mixed String some hkey hne⟩

end InterviewPrep.IdempotentExecutor
