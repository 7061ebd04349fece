import InterviewPrep.IdempotentExecutor.Keys

/-!
# One outcome per key, TypeScript

What callers of the TypeScript executor rely on. As long as no handler calls
`execute` for its own key before its first `await`, a key has one invocation, and
every caller of it receives what became of that invocation (`invoked_once`). And no
caller waits for anything else than its own handler, apart from code that runs
synchronously (`answered_alone`).
-/

namespace InterviewPrep.IdempotentExecutor.TypeScript

variable {A V E : Type}

/-! ## The properties -/

/-- The calls whose handlers were invoked, in this order. -/
def invocations : List (Obs A V) → List (ToolCall A)
  | [] => []
  | .invoked call :: tr => call :: invocations tr
  | .received _ _ _ :: tr => invocations tr

/-- A call comes out of the synchronous part of a handler for the same key, and finds
nothing in the map. -/
def CallsOwnKey (s : Executor A V) (e : Event A V E) : Prop :=
  ∃ call, e = .call call ∧ s.executions.get? (_make_key call) = none ∧
    ∃ x ∈ s.stack, ∃ execution, s.all[x]? = some execution ∧
      _make_key execution.call = _make_key call

/-- The handler of the execution `x` threw `err`: it was the topmost one when the
synchronous part of a handler threw. -/
def Threw (errorMessage : E → Option String) (es : List (Event A V E)) (x : ℕ) (err : E) : Prop :=
  ∃ es₀ es₁ tr₀ s₀, es = es₀ ++ .handlerReturns (some err) :: es₁ ∧
    (machine A V errorMessage).Run es₀ tr₀ s₀ ∧ s₀.stack.head? = some x

/-- The race of the execution `x` ended with `o`: so it was decided, or its handler
threw. -/
def Decided (errorMessage : E → Option String) (es : List (Event A V E)) (x : ℕ)
    (o : RaceEnd V E) : Prop :=
  .settle x o ∈ es ∨ ∃ err, o = .rejected err ∧ Threw errorMessage es x err

/-- One invocation for each key, and its result for all callers. -/
structure OneOutcome (errorMessage : E → Option String) (es : List (Event A V E))
    (tr : List (Obs A V)) : Prop where
  at_most_once : ((invocations tr).map _make_key).Nodup
  same : ∀ c c' call call' r r', .received c call r ∈ tr → .received c' call' r' ∈ tr →
    _make_key call = _make_key call' → r = r'
  own : ∀ c call r, .received c call r ∈ tr → ∃ (x : ℕ) (call' : ToolCall A) (o : RaceEnd V E),
    (invocations tr)[x]? = some call' ∧ _make_key call' = _make_key call ∧
      Decided errorMessage es x o ∧ r = run errorMessage o

/-! ## The executions -/

theorem invocations_append (tr out : List (Obs A V)) :
    invocations (tr ++ out) = invocations tr ++ invocations out := by
  induction tr with
  | nil => rfl
  | cons o tr ih =>
    cases o with
    | invoked call => exact congrArg (call :: ·) ih
    | received c call r => exact ih

/-- The executions of a state, and what the run says about them. -/
structure Recorded (errorMessage : E → Option String) (es : List (Event A V E))
    (tr : List (Obs A V)) (s : Executor A V) : Prop where
  calls : s.all.map Execution.call = invocations tr
  once : ((invocations tr).map _make_key).Nodup
  known : ∀ (x : ℕ) execution, s.all[x]? = some execution →
    x ∈ s.stack ∨ s.executions.get? (_make_key execution.call) ≠ none
  settled : ∀ (x : ℕ) call r, s.all[x]? = some ⟨call, .settled r⟩ →
    ∃ o, Decided errorMessage es x o ∧ r = run errorMessage o

section Recorded

variable {errorMessage : E → Option String} {es : List (Event A V E)} {tr out : List (Obs A V)}
  {s s' : Executor A V} {e : Event A V E} {x : ℕ} {call : ToolCall A}

theorem Decided.concat {o : RaceEnd V E} (h : Decided errorMessage es x o) (e : Event A V E) :
    Decided errorMessage (es ++ [e]) x o := by
  rcases h with hsettle | ⟨err, ho, es₀, es₁, tr₀, s₀, rfl, hrun, htop⟩
  · exact Or.inl (List.mem_append_left _ hsettle)
  · -- the throw stays where it was in the run
    refine Or.inr ⟨err, ho, es₀, es₁ ++ [e], tr₀, s₀, ?_, hrun, htop⟩
    rw [List.append_assoc, List.cons_append]

/-- The calls of the executions do not change with a status. -/
theorem map_call_set {old new : ExecutionStatus V} (hx : s.all[x]? = some ⟨call, old⟩) :
    (s.all.set x ⟨call, new⟩).map Execution.call = s.all.map Execution.call := by
  rw [List.map_set]
  refine set_eq_self ?_
  rw [List.getElem?_map, hx]
  rfl

/-- An execution gets its result, or waits for it. -/
theorem Recorded.setStatus (h : Recorded errorMessage es tr s) {old new : ExecutionStatus V}
    (hx : s.all[x]? = some ⟨call, old⟩) {stack : List ℕ} {executions : OrderedDict String ℕ}
    (hknown : ∀ (y : ℕ) execution, s.all[y]? = some execution →
      y ∈ stack ∨ executions.get? (_make_key execution.call) ≠ none)
    (hnew : ∀ r, new = .settled r → ∃ o, Decided errorMessage (es ++ [e]) x o ∧ r = run errorMessage o) :
    Recorded errorMessage (es ++ [e]) tr
      (setStatus { s with stack := stack, executions := executions } x call new) := by
  refine ⟨(map_call_set hx).trans h.calls, h.once, ?_, ?_⟩
  · intro y execution hy
    -- a new status changes no call
    rcases getElem?_set_cases hy with ⟨rfl, rfl⟩ | ⟨-, hold⟩
    · exact hknown y ⟨call, old⟩ hx
    · exact hknown y execution hold
  · intro y call' r hy
    rcases getElem?_set_cases hy with ⟨rfl, heq⟩ | ⟨-, hold⟩
    · cases heq
      exact hnew r rfl
    · rcases h.settled y call' r hold with ⟨o, hdecided, hr⟩
      exact ⟨o, hdecided.concat e, hr⟩

/-- A call that finds nothing, and comes from no handler for its key, has a key that
was not invoked. -/
theorem Recorded.fresh (h : Recorded errorMessage es tr s)
    (hget : s.executions.get? (_make_key call) = none)
    (hnot : ¬ CallsOwnKey s (.call call : Event A V E)) :
    _make_key call ∉ (invocations tr).map _make_key := by
  intro hmem
  -- the invocation is that of an execution, which is known or still on the stack
  rw [← h.calls, List.map_map] at hmem
  rcases List.mem_map.mp hmem with ⟨execution, hexecution, hkey⟩
  rcases List.mem_iff_getElem?.mp hexecution with ⟨x, hx⟩
  have hkey : _make_key execution.call = _make_key call := hkey
  rcases h.known x execution hx with hstack | hknown
  · exact hnot ⟨call, rfl, hget, x, hstack, execution, hx, hkey⟩
  · rw [hkey] at hknown
    exact hknown hget

theorem Recorded.step (h : Recorded errorMessage es tr s)
    (hrun : (machine A V errorMessage).Run es tr s) (hnot : ¬ CallsOwnKey s e)
    (hs : Step errorMessage s e s' out) :
    Recorded errorMessage (es ++ [e]) (tr ++ out) s' := by
  have hsettled : ∀ (x : ℕ) call r, s.all[x]? = some ⟨call, .settled r⟩ →
      ∃ o, Decided errorMessage (es ++ [e]) x o ∧ r = run errorMessage o := by
    intro x call r hx
    rcases h.settled x call r hx with ⟨o, hdecided, hr⟩
    exact ⟨o, hdecided.concat e, hr⟩
  cases hs with
  | callExisting hget =>
    rw [List.append_nil]
    exact ⟨h.calls, h.once, h.known, hsettled⟩
  | @callNew call hget =>
    refine ⟨?_, ?_, ?_, ?_⟩
    · rw [invocations_append, ← h.calls, List.map_append]
      rfl
    · rw [invocations_append, List.map_append]
      exact List.Nodup.append h.once (List.nodup_singleton _)
        (List.disjoint_singleton.mpr (h.fresh hget hnot))
    · intro x execution hx
      rcases getElem?_concat_cases hx with ⟨rfl, -⟩ | hold
      · exact Or.inl List.mem_cons_self
      · exact (h.known x execution hold).imp (List.mem_cons_of_mem _) id
    · intro x call' r hx
      rcases getElem?_concat_cases hx with ⟨-, heq⟩ | hold
      · cases heq
      · exact hsettled x call' r hold
  | @handlerReturns x stack call throws hstack hall =>
    rw [List.append_nil]
    refine h.setStatus hall ?_ ?_
    · -- the key of the topmost handler is in the map from now on
      intro y execution hy
      by_cases hkey : _make_key execution.call = _make_key call
      · right
        rw [hkey, OrderedDict.get?_setItem_self]
        exact Option.some_ne_none _
      · rw [OrderedDict.get?_setItem_of_ne _ _ hkey]
        refine (h.known y execution hy).imp ?_ id
        intro hmem
        rw [hstack] at hmem
        rcases List.mem_cons.mp hmem with rfl | hmem
        · rw [hall] at hy
          cases hy
          exact absurd rfl hkey
        · exact hmem
    · intro r hr
      cases throws with
      | none => cases hr
      | some err =>
        cases hr
        -- a handler that threw has settled its execution at once
        have htop : s.stack.head? = some x := by
          rw [hstack]
          rfl
        exact ⟨.rejected err, Or.inr ⟨err, rfl, es, [], tr, s, rfl, hrun, htop⟩, rfl⟩
  | @settle x call outcome hstack hall =>
    rw [List.append_nil]
    refine h.setStatus hall h.known ?_
    intro r hr
    cases hr
    exact ⟨outcome, Or.inl (by simp), rfl⟩
  | receive hstack hcaller hall =>
    refine ⟨?_, ?_, h.known, hsettled⟩
    · rw [invocations_append, ← h.calls]
      exact (List.append_nil _).symm
    · rw [invocations_append]
      exact (List.append_nil (invocations tr)).symm ▸ h.once

/-- Two executions with one key are one execution. -/
theorem Recorded.unique (h : Recorded errorMessage es tr s) {y : ℕ} {call' : ToolCall A}
    {status status' : ExecutionStatus V} (hx : s.all[x]? = some ⟨call, status⟩)
    (hy : s.all[y]? = some ⟨call', status'⟩) (hkey : _make_key call = _make_key call') : x = y := by
  have hkeys : ∀ {z : ℕ} {c : ToolCall A} {st}, s.all[z]? = some ⟨c, st⟩ →
      ((invocations tr).map _make_key)[z]? = some (_make_key c) := fun hz => by
    rw [← h.calls, List.map_map, List.getElem?_map, hz]
    rfl
  rcases List.getElem?_eq_some_iff.mp (hkeys hx) with ⟨hlt, -⟩
  exact (List.getElem?_inj hlt h.once).mp ((hkeys hx).trans (hkey ▸ (hkeys hy).symm))

end Recorded

/-- **One outcome.** In every run in which no handler calls `execute` for its own key
before its first `await`, a key has one invocation at most, all its callers receive
the same result, and it is the result of that invocation. -/
theorem invoked_once {errorMessage : E → Option String} {es : List (Event A V E)}
    {tr : List (Obs A V)} {s : Executor A V}
    (hrun : (machine A V errorMessage).RunWhere (fun s e => ¬ CallsOwnKey s e) es tr s) :
    OneOutcome errorMessage es tr := by
  have hrecorded : Recorded errorMessage es tr s := by
    refine hrun.history_invariant (Recorded errorMessage) ?_ ?_
    · refine ⟨rfl, List.nodup_nil, ?_, ?_⟩
      · intro x execution hx
        cases hx
      · intro x call r hx
        cases hx
    · intro es tr s e s' out hrun hinv hnot hs
      exact hinv.step hrun hnot (step_cases hs)
  have hinv : Inv (fun _ => True) tr s := inv_run hrun.run fun _ _ => trivial
  refine ⟨hrecorded.once, ?_, ?_⟩
  · intro c c' call call' r r' hr hr' hkey
    rcases (hinv.received c call r hr).2 with ⟨x, call₁, hx, hkey₁⟩
    rcases (hinv.received c' call' r' hr').2 with ⟨y, call₂, hy, hkey₂⟩
    -- both joined the one execution of their key
    have hxy := hrecorded.unique hx hy (hkey₁.trans (hkey.trans hkey₂.symm))
    subst hxy
    rw [hx] at hy
    cases hy
    rfl
  · intro c call r hr
    rcases (hinv.received c call r hr).2 with ⟨x, call', hx, hkey⟩
    rcases hrecorded.settled x call' r hx with ⟨o, hdecided, hresult⟩
    refine ⟨x, call', o, ?_, hkey, hdecided, hresult⟩
    rw [← hrecorded.calls, List.getElem?_map, hx]
    rfl

/-! ## Waiting -/

section Waiting

variable {errorMessage : E → Option String} {es : List (Event A V E)} {tr out : List (Obs A V)}
  {s s' : Executor A V} {e : Event A V E} {x c : ℕ} {call : ToolCall A}

/-- The stack holds, once each, the executions whose handlers run synchronously. -/
structure StackOk (s : Executor A V) : Prop where
  nodup : s.stack.Nodup
  mem_iff : ∀ x, x ∈ s.stack ↔ ∃ call, s.all[x]? = some ⟨call, .handlerRuns⟩

/-- An execution that waits, or is settled, is not on the stack. -/
theorem mem_iff_set {call : ToolCall A} {new : ExecutionStatus V} (hnew : new ≠ .handlerRuns)
    (y : ℕ) :
    (∃ call', (s.all.set x ⟨call, new⟩)[y]? = some ⟨call', .handlerRuns⟩) ↔
      y ≠ x ∧ ∃ call', s.all[y]? = some ⟨call', .handlerRuns⟩ := by
  constructor
  · rintro ⟨call', hy⟩
    rcases getElem?_set_cases hy with ⟨-, heq⟩ | ⟨hne, hold⟩
    · cases heq
      exact absurd rfl hnew
    · exact ⟨hne, call', hold⟩
  · rintro ⟨hne, call', hy⟩
    exact ⟨call', by rw [List.getElem?_set_ne (Ne.symm hne)]; exact hy⟩

theorem StackOk.step (h : StackOk s) (hs : Step errorMessage s e s' out) : StackOk s' := by
  cases hs with
  | callExisting hget => exact ⟨h.nodup, h.mem_iff⟩
  | @callNew call hget =>
    -- the stack holds indices of executions only
    have hnew : s.all.length ∉ s.stack := by
      rw [h.mem_iff]
      rintro ⟨call', hx⟩
      rw [List.getElem?_eq_none (le_refl _)] at hx
      cases hx
    refine ⟨List.nodup_cons.mpr ⟨hnew, h.nodup⟩, ?_⟩
    intro y
    rw [List.mem_cons, h.mem_iff]
    constructor
    · rintro (rfl | ⟨call', hy⟩)
      · exact ⟨call, List.getElem?_concat_length⟩
      · exact ⟨call', getElem?_concat_of_some hy⟩
    · rintro ⟨call', hy⟩
      exact (getElem?_concat_cases hy).imp And.left fun hold => ⟨call', hold⟩
  | @handlerReturns x stack call throws hstack hall =>
    have hnodup := hstack ▸ h.nodup
    rw [List.nodup_cons] at hnodup
    have hnew : (afterHandler errorMessage throws : ExecutionStatus V) ≠ .handlerRuns := by
      intro hruns
      cases throws with
      | none => cases hruns
      | some err => cases hruns
    refine ⟨hnodup.2, fun y => ?_⟩
    refine Iff.trans ?_ (mem_iff_set hnew y).symm
    rw [← h.mem_iff, hstack, List.mem_cons]
    constructor
    · intro hy
      exact ⟨fun hxy => hnodup.1 (hxy ▸ hy), Or.inr hy⟩
    · rintro ⟨hne, rfl | hy⟩
      · exact absurd rfl hne
      · exact hy
  | @settle x call outcome hstack hall =>
    refine ⟨h.nodup, fun y => ?_⟩
    have hnew : (ExecutionStatus.settled (run errorMessage outcome)) ≠ .handlerRuns := by
      intro hruns
      cases hruns
    refine Iff.trans ?_ (mem_iff_set hnew y).symm
    rw [← h.mem_iff]
    -- a race is decided when no code runs synchronously
    have hnone : y ∉ s.stack := by
      rw [hstack]
      exact List.not_mem_nil
    exact ⟨fun hy => absurd hy hnone, fun hy => hy.2⟩
  | receive hstack hcaller hall => exact ⟨h.nodup, h.mem_iff⟩

theorem stackOk_run (hrun : (machine A V errorMessage).Run es tr s) : StackOk s := by
  refine hrun.invariant StackOk ?_ fun s e s' out hinv hs => hinv.step (step_cases hs)
  refine ⟨List.nodup_nil, fun x => ⟨fun hx => absurd hx List.not_mem_nil, ?_⟩⟩
  rintro ⟨call, hx⟩
  cases hx

/-- The synchronous parts of the handlers return, one after the other. -/
theorem exists_returns (hrun : (machine A V errorMessage).Run es tr s) :
    ∃ s', (machine A V errorMessage).execFrom s
        (List.replicate s.stack.length (.handlerReturns none)) = some (s', []) ∧
      s'.stack = [] ∧ s'.callers = s.callers := by
  induction hn : s.stack.length generalizing es tr s with
  | zero => exact ⟨s, rfl, List.length_eq_zero_iff.mp hn, rfl⟩
  | succ n ih =>
    rcases List.exists_cons_of_length_eq_add_one hn with ⟨x, stack, hstack⟩
    have hx : x ∈ s.stack := hstack ▸ List.mem_cons_self
    rcases ((stackOk_run hrun).mem_iff x).mp hx with ⟨call, hall⟩
    have hstep : (machine A V errorMessage).step s (.handlerReturns none) =
        some (setStatus
          { s with
            stack := stack
            executions := s.executions.setItem (_make_key call) x }
          x call .pending, []) := by
      simp only [machine, step, hstack, hall, afterHandler]
    have hlength : stack.length = n := by
      rw [hstack, List.length_cons] at hn
      omega
    rcases ih (hrun.step hstep) hlength with ⟨s', hexec, hempty, hcallers⟩
    exact ⟨s', Machine.execFrom_cons hstep hexec, hempty, hcallers⟩

/-- What it takes to answer the caller `c` of the execution `x`: the synchronous parts
that are running, the end of its own handler, and the answer. -/
def Own (x c : ℕ) (o : RaceEnd V E) (e : Event A V E) : Prop :=
  e = .handlerReturns none ∨ e = .settle x o ∨ e = .receive c

/-- When no code runs synchronously, a caller is answered as soon as its handler ends. -/
theorem exists_answer (hrun : (machine A V errorMessage).Run es tr s) (hstack : s.stack = [])
    (hc : s.callers[c]? = some ⟨call, x, none⟩) (o : RaceEnd V E) :
    ∃ fs s' r, (machine A V errorMessage).execFrom s fs = some (s', [.received c call r]) ∧
      fs.length ≤ 2 ∧ ∀ e ∈ fs, Own x c o e := by
  have hinv : Inv (fun _ => True) tr s := inv_run hrun fun _ _ => trivial
  rcases (hinv.joined c _ hc).2 with ⟨⟨call', status⟩, hx, -⟩
  cases status with
  | handlerRuns =>
    have hmem := ((stackOk_run hrun).mem_iff x).mpr ⟨call', hx⟩
    rw [hstack] at hmem
    exact absurd hmem List.not_mem_nil
  | pending =>
    have hsettle : (machine A V errorMessage).step s (.settle x o) =
        some (setStatus s x call' (.settled (run errorMessage o)), []) := by
      simp only [machine, step, hstack, hx]
    have hreceive : (machine A V errorMessage).step
        (setStatus s x call' (.settled (run errorMessage o))) (.receive c) =
        some ({ setStatus s x call' (.settled (run errorMessage o)) with
            callers := s.callers.set c ⟨call, x, some (run errorMessage o)⟩ },
          [.received c call (run errorMessage o)]) := by
      simp only [machine, step, setStatus, hstack, hc, getElem?_set_of_some hx]
    refine ⟨[.settle x o, .receive c], _, run errorMessage o,
      Machine.execFrom_cons hsettle (Machine.execFrom_singleton hreceive), le_refl 2, ?_⟩
    intro e he
    rcases List.mem_cons.mp he with rfl | he
    · exact Or.inr (Or.inl rfl)
    · exact Or.inr (Or.inr (List.mem_singleton.mp he))
  | settled r =>
    have hreceive : (machine A V errorMessage).step s (.receive c) =
        some ({ s with callers := s.callers.set c ⟨call, x, some r⟩ }, [.received c call r]) := by
      simp only [machine, step, hstack, hc, hx]
    refine ⟨[.receive c], _, r, Machine.execFrom_singleton hreceive, Nat.le_succ 1, ?_⟩
    intro e he
    exact Or.inr (Or.inr (List.mem_singleton.mp he))

/-- **No waiting for others.** In every reachable state, a caller that has no result yet
gets it by steps in which no handler but its own ends: the handlers that are running
synchronously return their promises, its own race is decided, and it is answered. -/
theorem answered_alone (hrun : (machine A V errorMessage).Run es tr s)
    (hc : s.callers[c]? = some ⟨call, x, none⟩) (o : RaceEnd V E) :
    ∃ fs s' r, (machine A V errorMessage).execFrom s fs = some (s', [.received c call r]) ∧
      fs.length ≤ s.stack.length + 2 ∧ ∀ e ∈ fs, Own x c o e := by
  rcases exists_returns hrun with ⟨s₁, hreturns, hempty, hcallers⟩
  rcases exists_answer (hrun.execFrom hreturns) hempty (hcallers.symm ▸ hc) o with
    ⟨fs, s', r, hexec, hlength, hown⟩
  refine ⟨_, s', r, Machine.execFrom_append hreturns hexec, ?_, ?_⟩
  · rw [List.length_append, List.length_replicate]
    omega
  · intro e he
    rcases List.mem_append.mp he with he | he
    · exact Or.inl (List.eq_of_mem_replicate he)
    · exact hown e he

end Waiting

/-! ## A run -/

/-- A second caller comes while the handler is running, and a third one after it failed. -/
def duplicateCalls : List (Event Unit String String) :=
  [.call Python.createCase, .handlerReturns none, .call Python.createCase,
    .settle 0 (.rejected "down"), .receive 1, .call Python.createCase, .receive 2, .receive 0]

/-- The results of the callers, in the order in which they receive them. -/
def receivedResults : List (Obs Unit String) → List (Option (ExecutionResult String))
  | [] => []
  | .invoked _ :: tr => receivedResults tr
  | .received _ _ r :: tr => r :: receivedResults tr

theorem invoked_once_duplicateCalls :
    ∃ tr s, (machine Unit String (some : String → Option String)).RunWhere
        (fun s e => ¬ CallsOwnKey s e) duplicateCalls tr s ∧
      receivedResults tr = List.replicate 3 (some (.Failed "down")) ∧
      OneOutcome (some : String → Option String) duplicateCalls tr := by
  have hempty : ∀ (s : Executor Unit String) (e : Event Unit String String), s.stack = [] →
      ¬ CallsOwnKey s e := by
    rintro s e hstack ⟨call, -, -, x, hx, -⟩
    rw [hstack] at hx
    cases hx
  have hcalled : (machine Unit String (some : String → Option String)).RunWhere
      (fun s e => ¬ CallsOwnKey s e) ([] ++ [.call Python.createCase])
      ([] ++ [.invoked Python.createCase])
      ⟨OrderedDict.empty, [⟨Python.createCase, .handlerRuns⟩], [0],
        [⟨Python.createCase, 0, none⟩]⟩ :=
    Machine.RunWhere.init.step (hempty _ _ rfl) rfl
  have hreturned := hcalled.step (e := .handlerReturns none) (by
    rintro ⟨call, hcall, -⟩
    cases hcall) rfl
  have hrest := ((((((hreturned.step (e := .call Python.createCase) (hempty _ _ rfl) rfl).step
    (e := .settle 0 (.rejected "down")) (hempty _ _ rfl) rfl).step
    (e := .receive 1) (hempty _ _ rfl) rfl).step
    (e := .call Python.createCase) (hempty _ _ rfl) rfl).step
    (e := .receive 2) (hempty _ _ rfl) rfl).step
    (e := .receive 0) (hempty _ _ rfl) rfl)
  exact ⟨_, _, hrest, rfl, invoked_once hrest⟩

/-- Another operation, called from inside a handler. -/
def notifyOwner : ToolCall Unit := ⟨"acme", "notify_owner", "case-93", ()⟩

/-- The first call is answered while the handler of another key does not end. -/
theorem answered_alone_nested :
    ∃ tr s, (machine Unit String (some : String → Option String)).Run
        [.call Python.createCase, .call notifyOwner] tr s ∧
      s.stack = [1, 0] ∧
      ∃ fs s' r, (machine Unit String (some : String → Option String)).execFrom s fs =
          some (s', [.received 0 Python.createCase r]) ∧
        fs.length ≤ 4 ∧ ∀ e ∈ fs, Own 0 0 (.fulfilled "c-101") e := by
  have hrun : (machine Unit String (some : String → Option String)).Run
      [.call Python.createCase, .call notifyOwner]
      [.invoked Python.createCase, .invoked notifyOwner]
      ⟨OrderedDict.empty, [⟨Python.createCase, .handlerRuns⟩, ⟨notifyOwner, .handlerRuns⟩], [1, 0],
        [⟨Python.createCase, 0, none⟩, ⟨notifyOwner, 1, none⟩]⟩ :=
    .of_exec rfl
  exact ⟨_, _, hrun, rfl, answered_alone hrun rfl (.fulfilled "c-101")⟩

end InterviewPrep.IdempotentExecutor.TypeScript
