import InterviewPrep.IdempotentExecutor.Keys

/-!
# Calls from inside a handler

In TypeScript `execute` enters the execution into the map after the synchronous
part of the handler. A call for the same operation in that part finds nothing
and invokes the handler again; `at_most_once_iff` says that no other call does.
-/

namespace InterviewPrep.IdempotentExecutor.TypeScript

variable {A V E : Type}

/-! ## The property -/

def Obs.invokes (operation : String × String × String) : Obs A V → Bool
  | invoked call => call.triple = operation
  | received _ _ _ => false

def Execution.performs (operation : String × String × String) (execution : Execution A V) : Bool :=
  execution.call.triple = operation

/-- Every operation has one invocation at most. -/
def AtMostOnce (tr : List (Obs A V)) : Prop :=
  ∀ operation, tr.countP (Obs.invokes operation) ≤ 1

/-- A call finds no execution for its key, while a handler of its operation is in
its synchronous part. -/
def Reentrant (s : Executor A V) (e : Event A V E) : Prop :=
  ∃ call, e = .call call ∧ s.executions.get? (_make_key call) = none ∧
    ∃ x ∈ s.stack, ∃ execution, s.all[x]? = some execution ∧ execution.call.triple = call.triple

/-! ## The invariant -/

theorem _make_key_of_triple {a b : ToolCall A} (h : a.triple = b.triple) :
    _make_key a = _make_key b := by
  simp only [ToolCall.triple, Prod.mk.injEq] at h
  rcases h with ⟨htenant, htool, hid⟩
  rw [_make_key, _make_key, htenant, htool, hid]

/-- Every invocation has an execution, whose handler is in its synchronous part
or whose key is in the map; and no operation has two. -/
structure Published (tr : List (Obs A V)) (s : Executor A V) : Prop where
  known : ∀ (x : ℕ) execution, s.all[x]? = some execution →
    x ∈ s.stack ∨ s.executions.get? (_make_key execution.call) ≠ none
  counted : ∀ operation, tr.countP (Obs.invokes operation) =
    s.all.countP (Execution.performs operation)
  once : ∀ operation, s.all.countP (Execution.performs operation) ≤ 1

variable {tr : List (Obs A V)} {s s' : Executor A V}

/-- A key in the map stays there. -/
theorem get?_setItem_ne_none {executions : OrderedDict String ℕ} {k key : String} {x : ℕ}
    (h : executions.get? k ≠ none) : (executions.setItem key x).get? k ≠ none := by
  by_cases hkey : k = key
  · rw [hkey, OrderedDict.get?_setItem_self]
    simp
  · rw [OrderedDict.get?_setItem_of_ne _ _ hkey]
    exact h

/-- A status changes; the operations stay. -/
theorem countP_setStatus {x : ℕ} {call : ToolCall A} {old new : ExecutionStatus V}
    (hx : s.all[x]? = some ⟨call, old⟩) (operation : String × String × String) :
    (setStatus s x call new).all.countP (Execution.performs operation) =
      s.all.countP (Execution.performs operation) := by
  have hcount := countP_set_add (a := (⟨call, new⟩ : Execution A V))
    (Execution.performs operation) hx
  -- both statuses belong to the same call
  have hsame : (⟨call, new⟩ : Execution A V).performs operation =
      (⟨call, old⟩ : Execution A V).performs operation := rfl
  rw [hsame] at hcount
  show (s.all.set x _).countP _ = _
  omega

theorem Published.setStatus (h : Published tr s) {x : ℕ} {call : ToolCall A}
    {old new : ExecutionStatus V} (hx : s.all[x]? = some ⟨call, old⟩) :
    Published tr (setStatus s x call new) := by
  refine ⟨?_, ?_, ?_⟩
  · intro y execution hy
    rcases getElem?_set_cases hy with ⟨rfl, rfl⟩ | ⟨-, hold⟩
    · exact h.known y ⟨call, old⟩ hx
    · exact h.known y execution hold
  · intro operation
    rw [countP_setStatus hx]
    exact h.counted operation
  · intro operation
    rw [countP_setStatus hx]
    exact h.once operation

/-- The topmost handler leaves its synchronous part. -/
theorem Published.publish (h : Published tr s) {x : ℕ} {stack : List ℕ} {call : ToolCall A}
    {status : ExecutionStatus V} (hstack : s.stack = x :: stack)
    (hx : s.all[x]? = some ⟨call, status⟩) :
    Published tr
      { s with stack := stack, executions := s.executions.setItem (_make_key call) x } := by
  refine ⟨?_, h.counted, h.once⟩
  intro y execution hy
  rcases h.known y execution hy with hmem | hget
  · rw [hstack] at hmem
    rcases List.mem_cons.mp hmem with rfl | hmem
    · right
      rw [hx] at hy
      cases hy
      show (s.executions.setItem (_make_key call) y).get? (_make_key call) ≠ none
      rw [OrderedDict.get?_setItem_self]
      simp
    · exact Or.inl hmem
  · exact Or.inr (get?_setItem_ne_none hget)

/-- Before a call that is not re-entrant its operation has no execution. -/
theorem Published.fresh (h : Published tr s) {call : ToolCall A}
    (hget : s.executions.get? (_make_key call) = none)
    (hnot : ¬ Reentrant s (.call call : Event A V E)) :
    s.all.countP (Execution.performs call.triple) = 0 := by
  rw [List.countP_eq_zero]
  intro execution hmem htriple
  have htriple : execution.call.triple = call.triple := of_decide_eq_true htriple
  rcases List.mem_iff_getElem?.mp hmem with ⟨x, hx⟩
  rcases h.known x execution hx with hstack | hknown
  · exact hnot ⟨call, rfl, hget, x, hstack, execution, hx, htriple⟩
  · rw [_make_key_of_triple htriple] at hknown
    exact hknown hget

/-- A handler is invoked for a call that is not re-entrant. -/
theorem Published.invoke (h : Published tr s) {call : ToolCall A}
    (hget : s.executions.get? (_make_key call) = none)
    (hnot : ¬ Reentrant s (.call call : Event A V E)) :
    Published (tr ++ [.invoked call])
      { s with
        all := s.all ++ [⟨call, .handlerRuns⟩]
        stack := s.all.length :: s.stack
        callers := s.callers ++ [⟨call, s.all.length, none⟩] } := by
  have hcount : ∀ operation,
      (s.all ++ [(⟨call, .handlerRuns⟩ : Execution A V)]).countP (Execution.performs operation) =
        s.all.countP (Execution.performs operation) +
          if call.triple = operation then 1 else 0 := by
    intro operation
    simp [List.countP_append, List.countP_singleton, Execution.performs]
  refine ⟨?_, ?_, ?_⟩
  · intro x execution hx
    rcases getElem?_concat_cases hx with ⟨rfl, -⟩ | hold
    · exact Or.inl (by simp)
    · rcases h.known x execution hold with hmem | hknown
      · exact Or.inl (List.mem_cons_of_mem _ hmem)
      · exact Or.inr hknown
  · intro operation
    rw [hcount, ← h.counted operation]
    simp [List.countP_append, List.countP_singleton, Obs.invokes]
  · intro operation
    rw [hcount]
    by_cases hop : call.triple = operation
    · subst hop
      rw [h.fresh hget hnot]
      simp
    · simpa [hop] using h.once operation

variable {errorMessage : E → Option String}

theorem Published.step (h : Published tr s) {e : Event A V E} {out : List (Obs A V)}
    (hs : Step errorMessage s e s' out) (hnot : ¬ Reentrant s e) : Published (tr ++ out) s' := by
  cases hs with
  | callExisting hget =>
    rw [List.append_nil]
    exact ⟨h.known, h.counted, h.once⟩
  | callNew hget => exact h.invoke hget hnot
  | handlerReturns throws hstack hall =>
    rw [List.append_nil]
    exact (h.publish hstack hall).setStatus hall
  | settle outcome hstack hall =>
    rw [List.append_nil]
    exact h.setStatus hall
  | receive hstack hcaller hall =>
    refine ⟨h.known, ?_, h.once⟩
    intro operation
    rw [← h.counted operation]
    simp [List.countP_append, Obs.invokes]

theorem Published.atMostOnce (h : Published tr s) : AtMostOnce tr := by
  intro operation
  rw [h.counted]
  exact h.once operation

/-- A re-entrant call invokes the handler of its operation a second time. -/
theorem Published.reentrant (h : Published tr s) {e : Event A V E} {out : List (Obs A V)}
    (hs : Step errorMessage s e s' out) (he : Reentrant s e) : ¬ AtMostOnce (tr ++ out) := by
  rcases he with ⟨call, rfl, hget, x, -, execution, hx, htriple⟩
  intro honce
  cases hs with
  | callExisting hsome =>
    rw [hget] at hsome
    cases hsome
  | callNew _ =>
    have hold : 0 < tr.countP (Obs.invokes call.triple) := by
      rw [h.counted, List.countP_pos_iff]
      exact ⟨execution, List.mem_of_getElem? hx, decide_eq_true htriple⟩
    have hnew := honce call.triple
    simp only [List.countP_append, List.countP_singleton, Obs.invokes, decide_true, if_true] at hnew
    omega

section Runs

variable {es : List (Event A V E)}

theorem published_run
    (hrun : (machine A V errorMessage).RunWhere (fun s e => ¬ Reentrant s e) es tr s) :
    Published tr s := by
  refine hrun.history_invariant (fun _ tr s => Published tr s) ?_ ?_
  · refine ⟨?_, fun _ => rfl, fun _ => Nat.zero_le 1⟩
    intro x execution hx
    cases hx
  · intro es tr s e s' out _ hinv he hs
    exact hinv.step (step_cases hs) he

/-- **Re-entrant calls.** In a run without re-entrant calls every operation has
one invocation at most; and the run can go on so as long as no re-entrant call
is made, and no longer. -/
theorem at_most_once_iff
    (hrun : (machine A V errorMessage).RunWhere (fun s e => ¬ Reentrant s e) es tr s) :
    AtMostOnce tr ∧ ∀ e s' out, (machine A V errorMessage).step s e = some (s', out) →
      (AtMostOnce (tr ++ out) ↔ ¬ Reentrant s e) := by
  have hpublished := published_run hrun
  refine ⟨hpublished.atMostOnce, ?_⟩
  intro e s' out hs
  constructor
  · intro honce he
    exact hpublished.reentrant (step_cases hs) he honce
  · intro he
    exact (hpublished.step (step_cases hs) he).atMostOnce

end Runs

/-- The handler calls another operation before its first `await`, and its own
after it. -/
theorem at_most_once_iff_nested :
    ∃ es tr s, (machine Unit String some).RunWhere (fun s e => ¬ Reentrant s e) es tr s ∧
      tr = [.invoked Python.createCase, .invoked ⟨"acme", "notify_owner", "case-93", ()⟩] ∧
      s.callers.length = 3 ∧ AtMostOnce tr := by
  have houter : (machine Unit String some).RunWhere (fun s e => ¬ Reentrant s e)
      ([] ++ [.call Python.createCase]) ([] ++ [.invoked Python.createCase])
      ⟨OrderedDict.empty, [⟨Python.createCase, .handlerRuns⟩], [0],
        [⟨Python.createCase, 0, none⟩]⟩ := by
    refine Machine.RunWhere.init.step ?_ rfl
    rintro ⟨call, -, -, x, hx, -⟩
    cases hx
  have hnested := houter.step (e := .call ⟨"acme", "notify_owner", "case-93", ()⟩) (by
    rintro ⟨call, heq, -, x, hx, execution, hexecution, htriple⟩
    cases heq
    have hx : x = 0 := by simpa using hx
    subst hx
    cases hexecution
    exact absurd htriple (by decide +kernel)) rfl
  have hreturn : ∀ e ∈ [(.handlerReturns none : Event Unit String String), .handlerReturns none],
      ∀ s : Executor Unit String, ¬ Reentrant s e := by
    rintro e he s ⟨call, rfl, -⟩
    simp at he
  have hreturned := hnested.execFrom hreturn rfl
  have hagain := hreturned.step (e := .call Python.createCase) (by
    rintro ⟨call, -, -, x, hx, -⟩
    cases hx) rfl
  exact ⟨_, _, _, hagain, rfl, rfl, (at_most_once_iff hagain).1⟩

/-- A handler calls `execute` for its own operation before its first `await`. -/
def reentrantRun : List (Event Unit String String) :=
  [.call Python.createCase, .call Python.createCase, .handlerReturns none, .handlerReturns none]

/-- The handler of one operation is invoked twice. -/
theorem reentrant_invokes_twice :
    ∃ tr s, (machine Unit String some).Run reentrantRun tr s ∧
      tr = [.invoked Python.createCase, .invoked Python.createCase] ∧ ¬ AtMostOnce tr := by
  refine ⟨_, _, .of_exec rfl, rfl, ?_⟩
  intro h
  exact absurd (h Python.createCase.triple) (by decide +kernel)

end InterviewPrep.IdempotentExecutor.TypeScript
