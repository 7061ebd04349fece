import InterviewPrep.ToolRunner.Python

/-!
# The Python tool runner with its lock

The body of `run_tools` under the reading that its author had in mind: in a scope
where `lock` is bound, to an `asyncio.Lock` that nobody outside the call holds. Its
workers are then the workers of `runTools`, except that their first stretches may run in
any order and that an error which `except Exception` does not catch ends the call.
`Image` relates the two states, so that the invariant of the TypeScript runner carries
the proof.

* `run_tools_contract`: what the call promises at every moment, with any errors;
* `run_tools_honours`: with errors that `run_tool` can report, every run ends, and
  the call returns one result for each request.
-/

namespace InterviewPrep.ToolRunner.Python

variable {A V E : Type}

/-! ## The property -/

/-- How the error `err` of a handler leaves `run_tool`: it is not an `Exception`, or
its `str` raises. -/
def Escapes (isException : E → Bool) (str : E → Except E String) (err : E) (exc : Exc E) : Prop :=
  (isException err = false ∧ exc = .raised err) ∨
    (isException err = true ∧ ∃ err', str err = .error err' ∧ exc = .raised err')

/-- What the call promises at every moment of a run. -/
structure Promises (isException : E → Bool) (str : E → Except E String)
    (requests : List (ToolRequest A)) (max_concurrency : ℤ) (signal₀ : Bool)
    (tr : List (Obs V E)) (s : State V E) : Prop where
  at_most_once : ∀ i, (about i tr).countP Obs.isInvoked ≤ 1
  not_after_set : ∀ pre i post, tr = pre ++ .invoked i :: post → ¬ Aborted signal₀ pre
  in_flight : ∀ pre post, tr = pre ++ post →
    (invocations pre : ℤ) ≤ endings pre + max_concurrency
  returns : ∀ res, s.main = .returned res → Honours requests signal₀ tr s
  raises : ∀ exc, s.main = .raised exc →
    ∃ i err, .ended i (.rejected err) ∈ tr ∧ Escapes isException str err exc

/-! ## The runner behind a state -/

section Image

/-- A task of `run_tools` and a worker of `runTools` at the same place. -/
inductive Counterpart : Worker V E → ToolRunner.Worker V E → Prop where
  | created : Counterpart .created .atLoop
  | awaitingHandler (i : ℕ) (id : String) :
      Counterpart (.awaitingHandler i id) (.awaitingHandler i id)
  | handlerEnded (i : ℕ) (id : String) (outcome : Outcome V E) :
      Counterpart (.handlerEnded i id outcome) (.handlerEnded i id outcome)
  | finished : Counterpart .finished .finished
  | failed (exc : Exc E) (i : ℕ) : Counterpart (.failed exc) (.rejected i)

structure Image (s : State V E) (r : Runner V E) : Prop where
  signal : r.aborted = s.signal
  next_index : r.nextIndex = s.next_index
  length : r.workers.length = s.tasks.length
  tasks : ∀ (w : ℕ) x, s.tasks[w]? = some x → ∃ y, r.workers[w]? = some y ∧ Counterpart x y
  res : r.res = s.res

variable {s : State V E} {r : Runner V E} {w : ℕ}

theorem Image.setTask (h : Image s r) {x : Worker V E} {y : ToolRunner.Worker V E}
    (hxy : Counterpart x y) : Image (s.setTask w x) (r.setWorker w y) := by
  refine ⟨h.signal, h.next_index, ?_, ?_, h.res⟩
  · show (r.workers.set w y).length = (s.tasks.set w x).length
    rw [List.length_set, List.length_set, h.length]
  · intro v x' hv
    rcases getElem?_set_cases hv with ⟨rfl, rfl⟩ | ⟨hne, hold⟩
    · have hlt : v < s.tasks.length := by
        rcases List.getElem?_eq_some_iff.mp hv with ⟨hlt, -⟩
        rwa [State.setTask, List.length_set] at hlt
      exact ⟨y, List.getElem?_set_self (h.length ▸ hlt), hxy⟩
    · rcases h.tasks v x' hold with ⟨y', hy', hpair⟩
      exact ⟨y', by rw [setWorker_of_ne hne]; exact hy', hpair⟩

theorem Image.store (h : Image s r) (i : ℕ) (result : ToolResult V) :
    Image (s.store i result) (r.store i result) :=
  ⟨h.signal, h.next_index, h.length, h.tasks, by
    show r.res.set i (some result) = s.res.set i (some result)
    rw [h.res]⟩

theorem Image.set (h : Image s r) :
    Image { s with signal := true } { r with aborted := true } :=
  ⟨rfl, h.next_index, h.length, h.tasks, h.res⟩

theorem Image.claim (h : Image s r) :
    Image { s with next_index := s.next_index + 1 } { r with nextIndex := r.nextIndex + 1 } :=
  ⟨h.signal, congrArg (· + 1) h.next_index, h.length, h.tasks, h.res⟩

end Image

/-! ## The invariant -/

section Kept

/-- `str(e)` in `except Exception as e`, where it gives a message. -/
def message? (isException : E → Bool) (str : E → Except E String) (err : E) : Option String :=
  if isException err then (str err).toOption else none

variable (isException : E → Bool) (str : E → Except E String) (requests : List (ToolRequest A))
  (pool : ℕ) (signal₀ : Bool)

/-- The invariant of `runTools` holds of the runner behind the state. -/
def Kept (tr : List (Obs V E)) (s : State V E) : Prop :=
  ∃ r, Image s r ∧ Inv (message? isException str) requests pool signal₀ tr r

variable {isException str requests pool signal₀}
variable {tr : List (Obs V E)} {s : State V E} {w i : ℕ} {id : String} {request : ToolRequest A}
  {outcome : Outcome V E}

theorem Kept.claimed_le (h : Kept isException str requests pool signal₀ tr s) :
    s.next_index ≤ requests.length := by
  rcases h with ⟨r, himage, hinv⟩
  exact himage.next_index ▸ hinv.bound

theorem Kept.finish (h : Kept isException str requests pool signal₀ tr s)
    (hw : s.tasks[w]? = some .created) (hall : s.next_index = requests.length) :
    Kept isException str requests pool signal₀ tr (s.setTask w .finished) := by
  rcases h with ⟨r, himage, hinv⟩
  rcases himage.tasks w _ hw with ⟨y, hy, hpair⟩
  cases hpair
  exact ⟨_, himage.setTask .finished, hinv.finish hy (himage.next_index.trans hall)⟩

theorem Kept.skip (h : Kept isException str requests pool signal₀ tr s)
    (hrequest : requests[s.next_index]? = some request) :
    Kept isException str requests pool signal₀ tr
      ({ s with next_index := s.next_index + 1 }.store s.next_index (.cancelled request.id)) := by
  rcases h with ⟨r, himage, hinv⟩
  have hskip := hinv.skip (himage.next_index.symm ▸ hrequest)
  rw [himage.next_index] at hskip
  exact ⟨_, himage.next_index ▸ himage.claim.store s.next_index _, hskip⟩

theorem Kept.set (h : Kept isException str requests pool signal₀ tr s) :
    Kept isException str requests pool signal₀ (tr ++ [.aborted]) { s with signal := true } := by
  rcases h with ⟨r, himage, hinv⟩
  exact ⟨_, himage.set, hinv.abort⟩

theorem Kept.handlerEnds (h : Kept isException str requests pool signal₀ tr s)
    (hw : s.tasks[w]? = some (.awaitingHandler i id)) (outcome : Outcome V E) :
    Kept isException str requests pool signal₀ (tr ++ [.ended i outcome])
      (s.setTask w (.handlerEnded i id outcome)) := by
  rcases h with ⟨r, himage, hinv⟩
  rcases himage.tasks w _ hw with ⟨y, hy, hpair⟩
  cases hpair
  exact ⟨_, himage.setTask (.handlerEnded i id outcome), hinv.handlerEnds hy outcome⟩

/-- The claim of a request and the call of its handler, up to the suspension. -/
theorem Kept.called (h : Kept isException str requests pool signal₀ tr s)
    (hw : s.tasks[w]? = some .created) (hrequest : requests[s.next_index]? = some request)
    (hsignal : s.signal = false) :
    Kept isException str requests pool signal₀ (tr ++ [.invoked s.next_index])
      ({ s with next_index := s.next_index + 1 }.setTask w
        (.awaitingHandler s.next_index request.id)) := by
  rcases h with ⟨r, himage, hinv⟩
  rcases himage.tasks w _ hw with ⟨y, hy, hpair⟩
  cases hpair
  have hinvoke := hinv.invoke hy (himage.next_index.symm ▸ hrequest)
    (himage.signal.trans hsignal)
  rw [himage.next_index] at hinvoke
  exact ⟨_, himage.next_index ▸ himage.claim.setTask (.awaitingHandler s.next_index request.id),
    hinvoke⟩

/-- All that the call of a handler does before its worker suspends. -/
theorem Kept.invoke (h : Kept isException str requests pool signal₀ tr s)
    (hw : s.tasks[w]? = some .created) (hrequest : requests[s.next_index]? = some request)
    (hsignal : s.signal = false) (call : HandlerCall V E) :
    Kept isException str requests pool signal₀
      (tr ++ (Python.invoke w s.next_index request.id call
        { s with next_index := s.next_index + 1 }).2)
      (Python.invoke w s.next_index request.id call
        { s with next_index := s.next_index + 1 }).1 := by
  -- the call itself, then the event if the handler sets it, then its end if it does not suspend
  have hcalled := h.called hw hrequest hsignal
  have hw₁ : ({ s with next_index := s.next_index + 1 }.setTask w
      (.awaitingHandler s.next_index request.id)).tasks[w]? =
      some (.awaitingHandler s.next_index request.id) := getElem?_set_of_some hw
  -- a handler that has ended without suspending overwrites the place of its worker
  have htwice : ∀ (s : State V E) x y, (s.setTask w x).setTask w y = s.setTask w y ∧
      { s.setTask w x with signal := true }.setTask w y =
        { s with signal := true }.setTask w y := fun s x y => by
    simp only [State.setTask, List.set_set, and_self]
  rw [Python.invoke]
  cases hsets : call.sets with
  | false =>
    cases hends : call.ends with
    | none => exact hcalled
    | some outcome =>
      have hended := hcalled.handlerEnds hw₁ outcome
      rw [(htwice _ _ _).1, List.append_assoc] at hended
      exact hended
  | true =>
    have hset := hcalled.set
    rw [List.append_assoc] at hset
    cases hends : call.ends with
    | none => exact hset
    | some outcome =>
      have hended := hset.handlerEnds hw₁ outcome
      rw [(htwice _ _ _).2, List.append_assoc] at hended
      exact hended

/-- Where `run_tool` returns, the runner behind it returns the same result. -/
theorem conclude_message? {signal : Bool} {result : ToolResult V}
    (h : conclude isException str id signal outcome = .ok result) :
    ToolRunner.conclude (message? isException str) id signal outcome = some result := by
  cases outcome with
  | fulfilled value =>
    rw [conclude, Except.ok.injEq] at h
    rw [ToolRunner.conclude, h]
  | rejected err =>
    rw [conclude] at h
    rw [ToolRunner.conclude]
    split at h
    · rename_i hexception
      split at h
      · rename_i hset
        rw [if_pos hset]
        cases h
        rfl
      · rename_i hset
        rw [if_neg hset, message?, if_pos hexception]
        cases hstr : str err with
        | error err' =>
          rw [hstr] at h
          cases h
        | ok message =>
          rw [hstr] at h
          cases h
          rfl
    · cases h

/-- Where `run_tool` raises, it is for the error of the handler. -/
theorem conclude_error {signal : Bool} {err : E}
    (h : (conclude isException str id signal outcome : Except E (ToolResult V)) = .error err) :
    ∃ err', outcome = .rejected err' ∧ Escapes isException str err' (.raised err) := by
  cases outcome with
  | fulfilled value =>
    rw [conclude] at h
    cases h
  | rejected err' =>
    refine ⟨err', rfl, ?_⟩
    rw [conclude] at h
    split at h
    · rename_i hexception
      split at h
      · cases h
      · cases hstr : str err' with
        | ok message =>
          rw [hstr] at h
          cases h
        | error err'' =>
          rw [hstr] at h
          cases h
          exact Or.inr ⟨hexception, err, hstr, rfl⟩
    · rename_i hexception
      cases h
      exact Or.inl ⟨Bool.eq_false_iff.mpr hexception, rfl⟩

/-- A worker resumes and stores the result; it is at the head of its loop again. -/
theorem Kept.resume (h : Kept isException str requests pool signal₀ tr s)
    (hw : s.tasks[w]? = some (.handlerEnded i id outcome)) {result : ToolResult V}
    (hresult : conclude isException str id s.signal outcome = .ok result) :
    Kept isException str requests pool signal₀ (tr ++ [.resumed i s.signal])
      ((s.store i result).setTask w .created) := by
  rcases h with ⟨r, himage, hinv⟩
  rcases himage.tasks w _ hw with ⟨y, hy, hpair⟩
  cases hpair
  -- the TypeScript runner resumes, stores and goes on in steps of its own
  have hresumed := hinv.resumeTool hy
  rw [ToolRunner.resumeTool, himage.signal, conclude_message? hresult] at hresumed
  have hstored := hresumed.store (setWorker_self hy)
  have htwice : ((r.setWorker w (.toolDone i result)).store i result).setWorker w .atLoop =
      (r.store i result).setWorker w .atLoop := by
    simp only [Runner.setWorker, Runner.store, List.set_set]
  rw [htwice] at hstored
  exact ⟨_, (himage.store i result).setTask .created, hstored⟩

/-- A worker resumes, and `run_tool` raises in it. -/
theorem Kept.fail (h : Kept isException str requests pool signal₀ tr s)
    (hw : s.tasks[w]? = some (.handlerEnded i id outcome)) (exc : Exc E) :
    Kept isException str requests pool signal₀ (tr ++ [.resumed i s.signal]) (s.fail w exc) := by
  rcases h with ⟨r, himage, hinv⟩
  rcases himage.tasks w _ hw with ⟨y, hy, hpair⟩
  cases hpair
  -- no result is stored: the place of the request stays empty
  have hlaw : Lawful pool signal₀ tr (.resumed i s.signal : Obs V E) := by
    rw [← himage.signal]
    exact hinv.aborted_iff.symm
  have habout : about i (tr ++ [.resumed i s.signal]) =
      [.invoked i, .ended i outcome, .resumed i s.signal] := by
    rw [about_concat_self tr rfl, (hinv.worker w _ hy).2]
    rfl
  have hset := himage.setTask (w := w) (.failed exc i)
  refine ⟨r.setWorker w (.rejected i), ⟨hset.signal, hset.next_index, hset.length, hset.tasks,
    hset.res⟩, ?_⟩
  exact hinv.advance hy rfl rfl rfl ⟨outcome, s.signal, habout⟩ hlaw rfl rfl

/-! ## The loop of a worker -/

variable {scope : List String}

/-- The loop of a worker, up to its next suspension. -/
theorem Kept.loop (hlock : "lock" ∈ scope) (call : HandlerCall V E)
    (h : Kept isException str requests pool signal₀ tr s) (hw : s.tasks[w]? = some .created)
    (rest : List (ToolRequest A)) (hrest : rest = requests.drop s.next_index) :
    Kept isException str requests pool signal₀ (tr ++ (Python.loop scope w call rest s).2)
      (Python.loop scope w call rest s).1 := by
  induction rest generalizing s with
  | nil =>
    -- no request is left
    have hall : s.next_index = requests.length := by
      have hle := List.drop_eq_nil_iff.mp hrest.symm
      have hclaimed := h.claimed_le
      omega
    rw [Python.loop, if_pos hlock, List.append_nil]
    exact h.finish hw hall
  | cons request rest ih =>
    have hrequest : requests[s.next_index]? = some request := by
      have hhead : (requests.drop s.next_index)[0]? = some request := by rw [← hrest]; rfl
      rwa [List.getElem?_drop, Nat.add_zero] at hhead
    have htail : rest = requests.drop (s.next_index + 1) := by
      rw [← List.drop_drop, ← hrest]
      rfl
    rw [Python.loop, if_pos hlock]
    by_cases hsignal : s.signal = true
    · rw [if_pos hsignal]
      -- `run_tool` returns at once, and the worker stays in its loop
      exact ih (h.skip hrequest) hw htail
    · rw [if_neg hsignal, run_tool, if_neg hsignal]
      exact h.invoke hw hrequest (Bool.eq_false_iff.mpr hsignal) call

end Kept

section Loop

variable {scope : List String} {s : State V E} {w : ℕ}

/-- The loop overwrites the place of its worker. -/
theorem loop_setTask (hlock : "lock" ∈ scope) (call : HandlerCall V E)
    (rest : List (ToolRequest A)) (s : State V E) (x : Worker V E) :
    loop scope w call rest (s.setTask w x) = loop scope w call rest s := by
  induction rest generalizing s with
  | nil =>
    rw [loop, loop, if_pos hlock, if_pos hlock]
    simp only [State.setTask, List.set_set]
  | cons request rest ih =>
    rw [loop, loop, if_pos hlock, if_pos hlock]
    by_cases hsignal : s.signal = true
    · have hsignal' : (s.setTask w x).signal = true := hsignal
      rw [if_pos hsignal, if_pos hsignal']
      exact ih ({ s with next_index := s.next_index + 1 }.store s.next_index
        (.cancelled request.id))
    · have hsignal' : ¬ (s.setTask w x).signal = true := hsignal
      rw [if_neg hsignal, if_neg hsignal', run_tool, run_tool, if_neg hsignal, if_neg hsignal']
      show invoke w s.next_index request.id call _ = invoke w s.next_index request.id call _
      rw [invoke, invoke]
      cases call.sets <;> cases call.ends <;> simp [State.setTask, List.set_set]

/-- The number of steps that a task still takes with the request that it has. -/
def Worker.stepsLeft : Worker V E → ℕ
  | created => 1
  | awaitingHandler _ _ => 2
  | handlerEnded _ _ _ => 1
  | finished => 0
  | failed _ => 0

def Worker.isFailed : Worker V E → Bool
  | failed _ => true
  | _ => false

/-- What the loop changes: the place `x` of its worker, and the requests that are left. -/
structure LoopEnds (s : State V E) (w : ℕ) (s' : State V E) (x : Worker V E) : Prop where
  tasks : s'.tasks = s.tasks.set w x
  main : s'.main = s.main
  failure : s'.failure = s.failure
  signal : s.signal = true → s'.signal = true
  not_failed : x.isFailed = false
  progress : (s.next_index ≤ s'.next_index ∧ x.stepsLeft = 0) ∨
    (s.next_index < s'.next_index ∧ x.stepsLeft ≤ 2)

theorem loop_ends (hlock : "lock" ∈ scope) (call : HandlerCall V E)
    (rest : List (ToolRequest A)) (s : State V E) :
    ∃ x, LoopEnds s w (loop scope w call rest s).1 x := by
  induction rest generalizing s with
  | nil =>
    rw [loop, if_pos hlock]
    exact ⟨.finished, rfl, rfl, rfl, id, rfl, Or.inl ⟨le_refl _, rfl⟩⟩
  | cons request rest ih =>
    rw [loop, if_pos hlock]
    by_cases hsignal : s.signal = true
    · -- one request fewer, and the loop goes on
      rw [if_pos hsignal]
      rcases ih ({ s with next_index := s.next_index + 1 }.store s.next_index
        (.cancelled request.id)) with ⟨x, h⟩
      refine ⟨x, h.tasks, h.main, h.failure, h.signal, h.not_failed, ?_⟩
      have hnext : ({ s with next_index := s.next_index + 1 }.store s.next_index
        (.cancelled request.id)).next_index = s.next_index + 1 := rfl
      rcases h.progress with ⟨hle, hx⟩ | ⟨hlt, hx⟩
      · exact Or.inl ⟨by omega, hx⟩
      · exact Or.inr ⟨by omega, hx⟩
    · rw [if_neg hsignal, run_tool, if_neg hsignal]
      show ∃ x, LoopEnds s w (invoke w s.next_index request.id call _).1 x
      rw [invoke]
      have hmore : s.next_index < s.next_index + 1 := Nat.lt_succ_self _
      cases hsets : call.sets with
      | false =>
        cases call.ends with
        | none => exact ⟨_, rfl, rfl, rfl, id, rfl, Or.inr ⟨hmore, le_refl 2⟩⟩
        | some outcome => exact ⟨_, rfl, rfl, rfl, id, rfl, Or.inr ⟨hmore, Nat.le_succ 1⟩⟩
      | true =>
        cases call.ends with
        | none => exact ⟨_, rfl, rfl, rfl, fun _ => rfl, rfl, Or.inr ⟨hmore, le_refl 2⟩⟩
        | some outcome => exact ⟨_, rfl, rfl, rfl, fun _ => rfl, rfl, Or.inr ⟨hmore, Nat.le_succ 1⟩⟩

end Loop

/-! ## Steps -/

section Steps

variable {scope : List String} {isException : E → Bool} {str : E → Except E String}
  {requests : List (ToolRequest A)} {pool : ℕ} {signal₀ : Bool} {tr out : List (Obs V E)}
  {s s' : State V E} {e : Event V E}

/-- The steps of a call whose workers have their lock. -/
inductive LockedStep (scope : List String) (isException : E → Bool) (str : E → Except E String)
    (requests : List (ToolRequest A)) (s : State V E) :
    Event V E → State V E → List (Obs V E) → Prop where
  | started {w : ℕ} {call : HandlerCall V E} (hw : s.tasks[w]? = some .created) :
      LockedStep scope isException str requests s (.start w call)
        (loop scope w call (requests.drop s.next_index) s).1
        (loop scope w call (requests.drop s.next_index) s).2
  | ended {w i : ℕ} {id : String} (outcome : Outcome V E)
      (hw : s.tasks[w]? = some (.awaitingHandler i id)) :
      LockedStep scope isException str requests s (.handlerEnds w outcome)
        (s.setTask w (.handlerEnded i id outcome)) [.ended i outcome]
  | resumed {w i : ℕ} {id : String} {outcome : Outcome V E} {call : HandlerCall V E}
      {result : ToolResult V} (hw : s.tasks[w]? = some (.handlerEnded i id outcome))
      (hresult : conclude isException str id s.signal outcome = .ok result) :
      LockedStep scope isException str requests s (.resume w call)
        (loop scope w call (requests.drop s.next_index) (s.store i result)).1
        (.resumed i s.signal :: (loop scope w call (requests.drop s.next_index)
          (s.store i result)).2)
  | failed {w i : ℕ} {id : String} {outcome : Outcome V E} {call : HandlerCall V E} {err : E}
      (hw : s.tasks[w]? = some (.handlerEnded i id outcome))
      (herror : (conclude isException str id s.signal outcome : Except E (ToolResult V)) =
        .error err) :
      LockedStep scope isException str requests s (.resume w call) (s.fail w (.raised err))
        [.resumed i s.signal]
  | set (hsignal : s.signal = false) :
      LockedStep scope isException str requests s .set { s with signal := true } [.aborted]
  | raises {exc : Exc E} (hmain : s.main = .awaiting) (hfailure : s.failure = some exc) :
      LockedStep scope isException str requests s .resumeMain { s with main := .raised exc } []
  | returns (hmain : s.main = .awaiting) (hfailure : s.failure = none)
      (hall : s.tasks.all Worker.isFinished = true) :
      LockedStep scope isException str requests s .resumeMain { s with main := .returned s.res } []

theorem step_cases (hstep : step scope isException str requests s e = some (s', out)) :
    LockedStep scope isException str requests s e s' out := by
  cases e with
  | start w call =>
    simp only [step] at hstep
    split at hstep
    · have hloop := Option.some.inj hstep
      have hs' : (loop scope w call (requests.drop s.next_index) s).1 = s' :=
        congrArg Prod.fst hloop
      have hout : (loop scope w call (requests.drop s.next_index) s).2 = out :=
        congrArg Prod.snd hloop
      rw [← hs', ← hout]
      exact .started ‹_›
    · cases hstep
  | handlerEnds w outcome =>
    simp only [step] at hstep
    split at hstep
    · cases hstep
      exact .ended outcome ‹_›
    · cases hstep
  | resume w call =>
    simp only [step] at hstep
    split at hstep
    · split at hstep
      · cases hstep
        exact .resumed ‹_› ‹_›
      · cases hstep
        exact .failed ‹_› ‹_›
    · cases hstep
  | set =>
    simp only [step] at hstep
    split at hstep
    · cases hstep
    · cases hstep
      exact .set (Bool.eq_false_iff.mpr ‹_›)
  | resumeMain =>
    simp only [step] at hstep
    split at hstep
    · cases hstep
      exact .raises ‹_› ‹_›
    · split at hstep
      · cases hstep
        exact .returns ‹_› ‹_› ‹_›
      · cases hstep
    · cases hstep

theorem Kept.step (hlock : "lock" ∈ scope) (h : Kept isException str requests pool signal₀ tr s)
    (hstep : LockedStep scope isException str requests s e s' out) :
    Kept isException str requests pool signal₀ (tr ++ out) s' := by
  cases hstep with
  | @started w call hw => exact h.loop hlock call hw _ rfl
  | ended outcome hw => exact h.handlerEnds hw outcome
  | @resumed w i id outcome call result hw hresult =>
    have hw' : ((s.store i result).setTask w .created).tasks[w]? = some .created :=
      getElem?_set_of_some hw
    have hresumed := (h.resume hw hresult).loop hlock call hw' (requests.drop s.next_index) rfl
    -- the loop overwrites the place that the resumption has set
    rw [loop_setTask hlock, List.append_assoc] at hresumed
    exact hresumed
  | failed hw herror => exact h.fail hw _
  | set hsignal => exact h.set
  | raises hmain hfailure =>
    rcases h with ⟨r, himage, hinv⟩
    rw [List.append_nil]
    exact ⟨r, ⟨himage.signal, himage.next_index, himage.length, himage.tasks, himage.res⟩, hinv⟩
  | returns hmain hfailure hall =>
    rcases h with ⟨r, himage, hinv⟩
    rw [List.append_nil]
    exact ⟨r, ⟨himage.signal, himage.next_index, himage.length, himage.tasks, himage.res⟩, hinv⟩

/-! ## The call itself -/

/-- What `gather` knows, and what it has answered. -/
structure MainOk (isException : E → Bool) (str : E → Except E String) (tr : List (Obs V E))
    (s : State V E) : Prop where
  failed : ∀ (w : ℕ) x, s.tasks[w]? = some x → x.isFailed = true → s.failure ≠ none
  failure : ∀ exc, s.failure = some exc →
    ∃ i err, .ended i (.rejected err) ∈ tr ∧ Escapes isException str err exc
  returned : ∀ res, s.main = .returned res → s.res = res ∧ s.tasks.all Worker.isFinished = true
  raised : ∀ exc, s.main = .raised exc → s.failure = some exc

variable {w : ℕ} {x y : Worker V E}

/-- A call that has returned has no task that could move. -/
theorem MainOk.not_returned (h : MainOk isException str tr s) (hw : s.tasks[w]? = some x)
    (hx : x.isFinished = false) (res : List (Option (ToolResult V))) : s.main ≠ .returned res := by
  intro hmain
  have hfinished := List.all_eq_true.mp (h.returned res hmain).2 x (List.mem_of_getElem? hw)
  rw [hx] at hfinished
  cases hfinished

/-- A task moves without raising. -/
theorem MainOk.move (h : MainOk isException str tr s) (hw : s.tasks[w]? = some x)
    (hx : x.isFinished = false) (htasks : s'.tasks = s.tasks.set w y) (hy : y.isFailed = false)
    (hfailure : s'.failure = s.failure) (hmain : s'.main = s.main) :
    MainOk isException str (tr ++ out) s' := by
  refine ⟨?_, ?_, ?_, ?_⟩
  · intro v z hv hz
    rw [htasks] at hv
    rw [hfailure]
    -- the task that moved does not fail, and the others stand where they stood
    rcases getElem?_set_cases hv with ⟨-, rfl⟩ | ⟨-, hold⟩
    · rw [hy] at hz
      cases hz
    · exact h.failed v z hold hz
  · intro exc hexc
    rcases h.failure exc (hfailure ▸ hexc) with ⟨i, err, hended, hescapes⟩
    exact ⟨i, err, List.mem_append_left out hended, hescapes⟩
  · intro res hres
    exact absurd (hmain ▸ hres) (h.not_returned hw hx res)
  · intro exc hexc
    rw [hfailure]
    exact h.raised exc (hmain ▸ hexc)

/-- The handler behind which a task stands has ended. -/
theorem Kept.ended_mem (h : Kept isException str requests pool signal₀ tr s) {i : ℕ} {id : String}
    {outcome : Outcome V E} (hw : s.tasks[w]? = some (.handlerEnded i id outcome)) :
    .ended i outcome ∈ tr := by
  rcases h with ⟨r, himage, hinv⟩
  rcases himage.tasks w _ hw with ⟨y, hy, hpair⟩
  cases hpair
  rw [mem_iff_mem_about rfl, (hinv.worker w _ hy).2]
  exact List.mem_cons_of_mem _ List.mem_cons_self

theorem MainOk.step (hlock : "lock" ∈ scope)
    (hkept : Kept isException str requests pool signal₀ tr s) (h : MainOk isException str tr s)
    (hstep : LockedStep scope isException str requests s e s' out) :
    MainOk isException str (tr ++ out) s' := by
  cases hstep with
  | @started w call hw =>
    rcases loop_ends (w := w) hlock call (requests.drop s.next_index) s with ⟨x, hloop⟩
    exact h.move hw rfl hloop.tasks hloop.not_failed hloop.failure hloop.main
  | @ended w i id outcome hw =>
    exact h.move (y := .handlerEnded i id outcome) hw rfl rfl rfl rfl rfl
  | @resumed w i id outcome call result hw hresult =>
    rcases loop_ends (w := w) hlock call (requests.drop s.next_index) (s.store i result) with
      ⟨x, hloop⟩
    exact h.move hw rfl hloop.tasks hloop.not_failed hloop.failure hloop.main
  | @failed w i id outcome call err hw herror =>
    rcases conclude_error herror with ⟨err', rfl, hescapes⟩
    have hended := hkept.ended_mem hw
    refine ⟨?_, ?_, ?_, ?_⟩
    · intro v z _ _
      -- `gather` keeps the first exception
      show s.failure.or (some _) ≠ none
      cases s.failure with
      | none => exact Option.some_ne_none _
      | some exc => exact Option.some_ne_none _
    · intro exc hexc
      have hexc : s.failure.or (some (.raised err)) = some exc := hexc
      cases hfailure : s.failure with
      | none =>
        rw [hfailure] at hexc
        cases hexc
        exact ⟨i, err', List.mem_append_left _ hended, hescapes⟩
      | some exc' =>
        -- an earlier exception stays
        rw [hfailure] at hexc
        cases hexc
        rcases h.failure exc hfailure with ⟨j, err'', hended', hescapes'⟩
        exact ⟨j, err'', List.mem_append_left _ hended', hescapes'⟩
    · intro res hres
      exact absurd hres (h.not_returned hw rfl res)
    · intro exc hexc
      have hfailure := h.raised exc hexc
      show s.failure.or (some _) = some exc
      rw [hfailure]
      rfl
  | set hsignal =>
    refine ⟨h.failed, ?_, h.returned, h.raised⟩
    intro exc hexc
    rcases h.failure exc hexc with ⟨i, err, hended, hescapes⟩
    exact ⟨i, err, List.mem_append_left _ hended, hescapes⟩
  | @raises exc hmain hfailure =>
    rw [List.append_nil]
    refine ⟨h.failed, h.failure, fun res hres => (by cases hres), ?_⟩
    intro exc' hexc'
    cases hexc'
    exact hfailure
  | returns hmain hfailure hall =>
    rw [List.append_nil]
    refine ⟨h.failed, h.failure, ?_, fun exc hexc => (by cases hexc)⟩
    intro res hres
    cases hres
    exact ⟨rfl, hall⟩

end Steps

/-! ## Runs -/

section Runs

variable {scope : List String} {isException : E → Bool} {str : E → Except E String}
  {requests : List (ToolRequest A)} {max_concurrency : ℤ} {signal₀ : Bool}
  {es : List (Event V E)} {tr : List (Obs V E)} {s : State V E}

/-- The number of tasks of a call. -/
def taskCount (requests : List (ToolRequest A)) (max_concurrency : ℤ) : ℕ :=
  if requests.length = 0 then 0 else min max_concurrency.toNat requests.length

theorem kept_init (hmax : 1 ≤ max_concurrency) :
    Kept isException str requests (taskCount requests max_concurrency) signal₀ []
      (init requests max_concurrency signal₀ : State V E) := by
  have hinv := inv_init (V := V) (message? isException str) requests
    (.finite (max_concurrency.toNat : ℕ)) signal₀
  rw [poolSize_nat] at hinv
  refine ⟨_, ?_, hinv⟩
  by_cases hnil : requests = []
  · subst hnil
    refine ⟨rfl, rfl, rfl, ?_, rfl⟩
    intro w x hw
    cases hw
  · have hlength : ¬ requests.length = 0 := fun h => hnil (List.length_eq_zero_iff.mp h)
    have hpool : poolSize requests (.finite (max_concurrency.toNat : ℕ)) =
        pool_size requests max_concurrency := by
      rw [poolSize_nat, pool_size]
      omega
    rw [init, if_neg hnil, if_neg (by omega)]
    refine ⟨rfl, rfl, ?_, ?_, rfl⟩
    · simp only [ToolRunner.init, if_neg hlength, List.length_replicate, hpool]
    · intro w x hw
      have hx := List.eq_of_mem_replicate (List.mem_of_getElem? hw)
      have hlt : w < pool_size requests max_concurrency := by
        rcases List.getElem?_eq_some_iff.mp hw with ⟨hlt, -⟩
        rwa [List.length_replicate] at hlt
      refine ⟨.atLoop, ?_, hx ▸ .created⟩
      simp only [ToolRunner.init, if_neg hlength, hpool]
      exact List.getElem?_replicate_of_lt hlt

theorem mainOk_init (hmax : 1 ≤ max_concurrency) :
    MainOk isException str [] (init requests max_concurrency signal₀ : State V E) := by
  by_cases hnil : requests = []
  · rw [init, if_pos hnil]
    refine ⟨?_, ?_, ?_, ?_⟩
    · intro w x hw
      cases hw
    · intro exc hexc
      cases hexc
    · intro res hres
      cases hres
      exact ⟨rfl, rfl⟩
    · intro exc hexc
      cases hexc
  · rw [init, if_neg hnil, if_neg (by omega)]
    refine ⟨?_, ?_, ?_, ?_⟩
    · intro w x hw hfailed
      rw [List.eq_of_mem_replicate (List.mem_of_getElem? hw)] at hfailed
      cases hfailed
    · intro exc hexc
      cases hexc
    · intro res hres
      cases hres
    · intro exc hexc
      cases hexc

theorem kept_run (hlock : "lock" ∈ scope) (hmax : 1 ≤ max_concurrency)
    (hrun : (machine scope isException str requests max_concurrency signal₀).Run es tr s) :
    Kept isException str requests (taskCount requests max_concurrency) signal₀ tr s ∧
      MainOk isException str tr s :=
  hrun.history_invariant
    (fun _ tr s => Kept isException str requests (taskCount requests max_concurrency) signal₀ tr s ∧
      MainOk isException str tr s)
    ⟨kept_init hmax, mainOk_init hmax⟩
    (fun _ _ _ _ _ _ _ hinv hstep =>
      ⟨hinv.1.step hlock (step_cases hstep), hinv.2.step hlock hinv.1 (step_cases hstep)⟩)

/-- When all tasks have finished, the array says of each request what happened to it. -/
theorem Kept.honours (hmax : 1 ≤ max_concurrency)
    (h : Kept isException str requests (taskCount requests max_concurrency) signal₀ tr s)
    (hall : s.tasks.all Worker.isFinished = true) :
    s.res.length = requests.length ∧ ∀ (i : ℕ) request, requests[i]? = some request →
      ∃ r, s.res[i]? = some (some r) ∧ ResultOk signal₀ tr i request r := by
  rcases h with ⟨r, himage, hinv⟩
  have hworkers : r.workers.all ToolRunner.Worker.isFinished = true := by
    rw [List.all_eq_true]
    intro y hy
    rcases List.mem_iff_getElem?.mp hy with ⟨w, hw⟩
    have hlt : w < s.tasks.length := by
      rcases List.getElem?_eq_some_iff.mp hw with ⟨hlt, -⟩
      exact himage.length ▸ hlt
    have hx := List.all_eq_true.mp hall _ (List.getElem_mem hlt)
    -- the task behind a worker of the image has finished, and so has the worker
    rcases himage.tasks w _ (List.getElem?_eq_getElem hlt) with ⟨y', hy', hpair⟩
    rw [hw] at hy'
    cases hy'
    generalize s.tasks[w] = x at hx hpair
    cases hpair with
    | finished => rfl
    | created => cases hx
    | awaitingHandler i id => cases hx
    | handlerEnded i id outcome => cases hx
    | failed exc i => cases hx
  have hone : requests.length ≠ 0 → 1 ≤ taskCount requests max_concurrency := by
    intro hne
    rw [taskCount, if_neg hne]
    omega
  rw [← himage.res]
  refine ⟨hinv.size, ?_⟩
  intro i request hrequest
  rcases List.getElem?_eq_some_iff.mp hrequest with ⟨hi, -⟩
  rcases hinv.filled hone hworkers hi with ⟨result, hresult⟩
  exact ⟨result, hresult, (hinv.stored i result hresult).2.resultOk hrequest hinv.lawful⟩

/-- **The contract behind the lock.** Where the name `lock` is bound, in every run of
`run_tools`, for every bound from 1 on, every order of the tasks and every moment at
which the event is set: a handler is invoked at most once, not after the event and
within the bound; a call that returns has said of each request what happened to it;
and a call that raises does so for an error of a handler that `run_tool` cannot
report. -/
theorem run_tools_contract (hlock : "lock" ∈ scope) (hmax : 1 ≤ max_concurrency)
    (hrun : (machine scope isException str requests max_concurrency signal₀).Run es tr s) :
    Promises isException str requests max_concurrency signal₀ tr s := by
  rcases kept_run hlock hmax hrun with ⟨hkept, hmain⟩
  have hreturns : ∀ res, s.main = .returned res → Honours requests signal₀ tr s := by
    intro res hres
    rcases hmain.returned res hres with ⟨hsame, hall⟩
    exact ⟨s.res, hsame.symm ▸ hres, hkept.honours hmax hall⟩
  rcases hkept with ⟨r, himage, hinv⟩
  refine ⟨hinv.at_most_once, ?_, ?_, hreturns, ?_⟩
  · intro pre i post htr
    exact (hinv.lawful pre (.invoked i) post htr).1
  · intro pre post htr
    have hle := in_flight_of_lawful hinv.lawful pre post htr
    have hcount : taskCount requests max_concurrency ≤ max_concurrency.toNat := by
      rw [taskCount]
      split
      · exact Nat.zero_le _
      · exact Nat.min_le_left _ _
    omega
  · intro exc hexc
    exact hmain.failure exc (hmain.raised exc hexc)

/-! ## The end of a call -/

/-- The steps that are left: those of the requests, of the tasks, of the event and of
the call. -/
def State.stepsLeft (requests : List (ToolRequest A)) (s : State V E) : ℕ :=
  3 * (requests.length - s.next_index) + (s.tasks.map Worker.stepsLeft).sum +
    (!s.signal).toNat +
    match s.main with
    | .awaiting => 1
    | _ => 0

/-- The signal is set once at most. -/
theorem toNat_not_le {a b : Bool} (h : a = true → b = true) : (!b).toNat ≤ (!a).toNat := by
  cases a with
  | false => exact Bool.toNat_le _
  | true => rw [h rfl]

/-- A worker that goes through its loop from a place one step from its end. -/
theorem stepsLeft_loop {s' s₁ : State V E} {w : ℕ} {x y : Worker V E}
    (hw : s.tasks[w]? = some x) (hx : x.stepsLeft = 1) (hends : LoopEnds s₁ w s' y)
    (hbound : s'.next_index ≤ requests.length) (htasks : s₁.tasks = s.tasks)
    (hmain : s₁.main = s.main) (hsignal : s₁.signal = s.signal)
    (hnext : s₁.next_index = s.next_index) :
    s'.stepsLeft requests < s.stepsLeft requests := by
  have hsum := sum_map_set (a := y) Worker.stepsLeft hw
  have hset := toNat_not_le hends.signal
  rw [hsignal] at hset
  rw [State.stepsLeft, State.stepsLeft, hends.main, hmain, hends.tasks, htasks]
  rcases hends.progress with ⟨hle, hy⟩ | ⟨hlt, hy⟩
  · omega
  · omega

theorem LockedStep.stepsLeft_lt (hlock : "lock" ∈ scope) {s' : State V E} {e : Event V E}
    {out : List (Obs V E)} (hstep : LockedStep scope isException str requests s e s' out)
    (hbound : s'.next_index ≤ requests.length) :
    s'.stepsLeft requests < s.stepsLeft requests := by
  cases hstep with
  | @started w call hw =>
    rcases loop_ends (w := w) hlock call (requests.drop s.next_index) s with ⟨y, hends⟩
    exact stepsLeft_loop hw rfl hends hbound rfl rfl rfl rfl
  | @ended w i id outcome hw =>
    -- from two steps to one
    have hsum := sum_map_set (a := .handlerEnded i id outcome) Worker.stepsLeft hw
    simp only [Worker.stepsLeft] at hsum
    simp only [State.stepsLeft, State.setTask]
    omega
  | @resumed w i id outcome call result hw hresult =>
    rcases loop_ends (w := w) hlock call (requests.drop s.next_index) (s.store i result) with
      ⟨y, hends⟩
    exact stepsLeft_loop hw rfl hends hbound rfl rfl rfl rfl
  | @failed w i id outcome call err hw herror =>
    -- from one step to none
    have hsum := sum_map_set (a := .failed (.raised err)) Worker.stepsLeft hw
    simp only [Worker.stepsLeft] at hsum
    simp only [State.stepsLeft, State.fail, State.setTask]
    omega
  | set hsignal => simp [State.stepsLeft, hsignal]
  | raises hmain hfailure => simp [State.stepsLeft, hmain]
  | returns hmain hfailure hall => simp [State.stepsLeft, hmain]

/-- While the call is not over, a task can move or the call can resume. -/
theorem MainOk.exists_step [Nonempty (Outcome V E)] (h : MainOk isException str tr s)
    (hmain : s.main = .awaiting) :
    ∃ e s' out, Python.step scope isException str requests s e = some (s', out) := by
  cases hfailure : s.failure with
  | some exc => exact ⟨.resumeMain, _, _, by simp only [Python.step, hmain, hfailure]; rfl⟩
  | none =>
    by_cases hall : s.tasks.all Worker.isFinished = true
    · exact ⟨.resumeMain, _, _, by simp only [Python.step, hmain, hfailure, if_pos hall]; rfl⟩
    · -- a task that has not finished can move
      rw [List.all_eq_true] at hall
      push Not at hall
      rcases hall with ⟨x, hx, hunfinished⟩
      rcases List.mem_iff_getElem?.mp hx with ⟨w, hw⟩
      cases x with
      | created => exact ⟨.start w ⟨false, none⟩, _, _, by simp only [Python.step, hw]; rfl⟩
      | awaitingHandler i id =>
        rcases ‹Nonempty (Outcome V E)› with ⟨outcome⟩
        exact ⟨.handlerEnds w outcome, _, _, by simp only [Python.step, hw]; rfl⟩
      | handlerEnded i id outcome =>
        cases hresult : (conclude isException str id s.signal outcome :
            Except E (ToolResult V)) with
        | ok result =>
          exact ⟨.resume w ⟨false, none⟩, _, _, by simp only [Python.step, hw, hresult]; rfl⟩
        | error err =>
          exact ⟨.resume w ⟨false, none⟩, _, _, by simp only [Python.step, hw, hresult]; rfl⟩
      | finished => exact absurd rfl hunfinished
      | failed exc => exact absurd hfailure (h.failed w _ hw rfl)

/-- **The call ends.** Where the name `lock` is bound, and `run_tool` can report every
error, every run of `run_tools`, continued as long as its handlers end, comes to its
end, and the call has then returned what `runTools` returns. -/
theorem run_tools_honours [Nonempty (Outcome V E)] (hlock : "lock" ∈ scope)
    (hmax : 1 ≤ max_concurrency) (hexception : ∀ err, isException err = true)
    (hstr : ∀ err, ∃ message, str err = .ok message) (requests : List (ToolRequest A))
    (signal₀ : Bool) :
    let M : Machine (State V E) (Event V E) (Obs V E) :=
      machine scope isException str requests max_concurrency signal₀
    HonoursContract M requests signal₀ ∧
      M.Ends (fun _ _ => True) (fun s => ∃ res, s.main = .returned res) := by
  intro M
  -- no error of a handler leaves `run_tool`
  have hnever : ∀ err exc, ¬ Escapes isException str err exc := by
    rintro err exc (⟨hnot, -⟩ | ⟨-, err', herror, -⟩)
    · rw [hexception err] at hnot
      cases hnot
    · rcases hstr err with ⟨message, hmessage⟩
      rw [hmessage] at herror
      cases herror
  have hraised : ∀ es tr s, M.Run es tr s → ∀ exc, s.main ≠ .raised exc := by
    intro es tr s hrun exc hexc
    rcases (run_tools_contract hlock hmax hrun).raises exc hexc with ⟨i, err, -, hescapes⟩
    exact hnever err exc hescapes
  refine ⟨?_, ?_, ?_⟩
  · intro es tr s hrun hover
    cases hmain : s.main with
    | awaiting => exact absurd hmain hover
    | returned res => exact (run_tools_contract hlock hmax hrun).returns res hmain
    | raised exc => exact absurd hmain (hraised es tr s hrun exc)
  · refine ⟨M.init.stepsLeft requests, ?_⟩
    intro es tr s hrun
    have hle := hrun.length_add_le (State.stepsLeft requests) ?_
    · omega
    · intro es tr s e s' out hrun _ hstep
      have hnext := kept_run hlock hmax (hrun.run.step hstep)
      exact (step_cases hstep).stepsLeft_lt hlock hnext.1.claimed_le
  · intro es tr s hrun hfinal
    have hmain : s.main = .awaiting := by
      cases hmain : s.main with
      | awaiting => rfl
      | returned res => exact absurd ⟨res, hmain⟩ hfinal
      | raised exc => exact absurd hmain (hraised es tr s hrun.run exc)
    have hmove : ∃ e s' out, Python.step scope isException str requests s e = some (s', out) :=
      (kept_run hlock hmax hrun.run).2.exists_step hmain
    rcases hmove with ⟨e, s', out, hstep⟩
    exact ⟨e, s', out, trivial, hstep⟩

end Runs

/-- The scope of a worker in a module that makes the lock. -/
def lockedScope : List String := "lock" :: workerScope

/-- The second task starts first; `a` fails, `b` succeeds, and `c` ends after the event
was set. -/
def lockedRun : List (Event ℕ String) :=
  [.start 1 ⟨false, none⟩, .start 0 ⟨false, none⟩, .handlerEnds 0 (.fulfilled 2),
    .handlerEnds 1 (.rejected "down"), .resume 1 ⟨false, none⟩, .resume 0 ⟨false, none⟩, .set,
    .handlerEnds 1 (.fulfilled 3), .resume 1 ⟨false, none⟩, .resumeMain]

/-- What the call has returned, if it has. -/
def State.result (s : State ℕ String) : Option (List (String × String)) :=
  match s.main with
  | .returned res => some (statuses res)
  | _ => none

theorem run_tools_contract_abc :
    ∃ tr s, (machine lockedScope (fun _ : String => true) .ok abc 2 false).Run lockedRun tr s ∧
      s.result = some [("a", "failed"), ("b", "succeeded"), ("c", "cancelled")] ∧
      Promises (fun _ : String => true) .ok abc 2 false tr s := by
  have hexec : ((machine lockedScope (fun _ : String => true) .ok abc 2 false).exec
      lockedRun).map (fun r => r.1.result) =
      some (some [("a", "failed"), ("b", "succeeded"), ("c", "cancelled")]) := by decide +kernel
  rcases Machine.Run.of_exec_map hexec with ⟨s, tr, hrun, hs⟩
  exact ⟨tr, s, hrun, hs, run_tools_contract List.mem_cons_self (by decide) hrun⟩

theorem run_tools_honours_abc :
    HonoursContract (V := ℕ) (machine lockedScope (fun _ : String => true) .ok abc 2 false) abc
      false :=
  haveI : Nonempty (Outcome ℕ String) := ⟨.fulfilled 0⟩
  (run_tools_honours List.mem_cons_self (by decide) (fun _ => rfl) (fun err => ⟨err, rfl⟩) abc
    false).1

end InterviewPrep.ToolRunner.Python
