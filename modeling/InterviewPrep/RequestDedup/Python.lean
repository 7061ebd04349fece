import InterviewPrep.Lib.OrderedDict
import InterviewPrep.Lib.SingleFlight

/-!
# Request deduplication, Python

`parse_once` and `_run_and_cleanup` of
`technical/async_state_and_request_deduplication/question.md` under asyncio. The
blocks under `in_flight_lock` contain no `await`, so the lock is free at every
suspension point and a block is one step; a caller or a task may still be delayed
before it.

* `parse_once`: a call arrives;
* `enter`: it runs its block, which finds a task or creates one, and awaits the task
  behind `asyncio.shield`;
* `taskStart`: a task starts and calls `parse_document`;
* `parseEnds`: `parse_document` returns or raises in the task;
* `cleanup`: the task runs the block of its `finally`, and is done;
* `resume`: a caller resumes after its task is done;
* `cancel`: a caller is cancelled. The shield keeps the cancellation from the task.

Nobody has a handle on a task but the map and the callers behind the shield, so no
task is cancelled.
-/

namespace InterviewPrep.RequestDedup.Python

open SingleFlight (Desk)

/-- The state of a task; an outcome is a value or a raised `BaseException`. -/
inductive TaskStatus (V E : Type) where
  | created
  | parsing
  /-- in the `finally` -/
  | finishing (outcome : Except E V)
  | done (outcome : Except E V)

structure Task (V E : Type) where
  document_id : String
  status : TaskStatus V E

/-- Where a call of `parse_once` stands. -/
inductive CallerState where
  | arrived
  | awaiting (task : ℕ)
  | returned
  /-- `CancelledError` was raised in it, before or behind the shield -/
  | cancelledError (behind : Bool)

structure Caller where
  document_id : String
  state : CallerState

structure Module (V E : Type) where
  in_flight : OrderedDict String ℕ
  tasks : List (Task V E)
  callers : List Caller

inductive Event (V E : Type) where
  | parse_once (document_id : String)
  | enter (caller : ℕ)
  | taskStart (task : ℕ)
  | parseEnds (task : ℕ) (outcome : Except E V)
  | cleanup (task : ℕ)
  | resume (caller : ℕ)
  | cancel (caller : ℕ)

abbrev Obs (V E : Type) := SingleFlight.Obs String (Except E V)

section Program

variable {V E : Type}

def setCaller (s : Module V E) (c : ℕ) (document_id : String) (state : CallerState) :
    Module V E :=
  { s with callers := s.callers.set c ⟨document_id, state⟩ }

def setTask (s : Module V E) (t : ℕ) (document_id : String) (status : TaskStatus V E) :
    Module V E :=
  { s with tasks := s.tasks.set t ⟨document_id, status⟩ }

/-- `task = asyncio.create_task(..)`, `in_flight[document_id] = task` -/
def createTask (s : Module V E) (document_id : String) : Module V E :=
  { s with
    tasks := s.tasks ++ [⟨document_id, .created⟩]
    in_flight := s.in_flight.setItem document_id s.tasks.length }

/-- `if in_flight.get(document_id) is current: in_flight.pop(document_id)` -/
def popCurrent (in_flight : OrderedDict String ℕ) (document_id : String) (current : ℕ) :
    OrderedDict String ℕ :=
  if in_flight.get? document_id = some current then in_flight.pop document_id else in_flight

/-- The block of the `finally`, and the end of the task. -/
def finishTask (s : Module V E) (t : ℕ) (document_id : String) (outcome : Except E V) :
    Module V E :=
  setTask { s with in_flight := popCurrent s.in_flight document_id t } t document_id
    (.done outcome)

def step (s : Module V E) : Event V E → Option (Module V E × List (Obs V E))
  | .parse_once document_id =>
    some ({ s with callers := s.callers ++ [⟨document_id, .arrived⟩] }, [])
  | .enter c =>
    match s.callers[c]? with
    | some ⟨document_id, .arrived⟩ =>
      match s.in_flight.get? document_id with
      -- share the task
      | some task =>
        some (setCaller s c document_id (.awaiting task), [.asked c document_id task])
      | none =>
        -- or create it; it starts later
        let task := s.tasks.length
        some (setCaller (createTask s document_id) c document_id (.awaiting task),
          [.asked c document_id task])
    | _ => none
  | .taskStart t =>
    match s.tasks[t]? with
    | some ⟨document_id, .created⟩ =>
      some (setTask s t document_id .parsing, [.started t document_id])
    | _ => none
  | .parseEnds t outcome =>
    match s.tasks[t]? with
    | some ⟨document_id, .parsing⟩ =>
      some (setTask s t document_id (.finishing outcome), [.ended t document_id outcome])
    | _ => none
  | .cleanup t =>
    match s.tasks[t]? with
    | some ⟨document_id, .finishing outcome⟩ =>
      some (finishTask s t document_id outcome, [.left t document_id])
    | _ => none
  | .resume c =>
    match s.callers[c]? with
    | some ⟨document_id, .awaiting t⟩ =>
      match s.tasks[t]? with
      | some ⟨parsed, .done outcome⟩ =>
        some (setCaller s c document_id .returned, [.answered c parsed outcome])
      | _ => none
    | _ => none
  | .cancel c =>
    match s.callers[c]? with
    -- before the lock is taken
    | some ⟨document_id, .arrived⟩ => some (setCaller s c document_id (.cancelledError false), [])
    -- behind the shield: the task goes on
    | some ⟨document_id, .awaiting _⟩ =>
      some (setCaller s c document_id (.cancelledError true), [.gaveUp c])
    | _ => none

def machine (V E : Type) : Machine (Module V E) (Event V E) (Obs V E) where
  init := ⟨OrderedDict.empty, [], []⟩
  step := step

end Program

/-! ## What a step does -/

section Steps

variable {V E : Type}

/-- The changes of one step. -/
inductive Step (s : Module V E) : Event V E → Module V E → List (Obs V E) → Prop where
  | parse_once {document_id : String} :
      Step s (.parse_once document_id)
        { s with callers := s.callers ++ [⟨document_id, .arrived⟩] } []
  | join {c task : ℕ} {document_id : String} : s.callers[c]? = some ⟨document_id, .arrived⟩ →
      s.in_flight.get? document_id = some task →
      Step s (.enter c) (setCaller s c document_id (.awaiting task)) [.asked c document_id task]
  | create {c : ℕ} {document_id : String} : s.callers[c]? = some ⟨document_id, .arrived⟩ →
      s.in_flight.get? document_id = none →
      Step s (.enter c)
        (setCaller (createTask s document_id) c document_id (.awaiting s.tasks.length))
        [.asked c document_id s.tasks.length]
  | taskStart {t : ℕ} {document_id : String} : s.tasks[t]? = some ⟨document_id, .created⟩ →
      Step s (.taskStart t) (setTask s t document_id .parsing) [.started t document_id]
  | parseEnds {t : ℕ} {document_id : String} (outcome : Except E V) :
      s.tasks[t]? = some ⟨document_id, .parsing⟩ →
      Step s (.parseEnds t outcome) (setTask s t document_id (.finishing outcome))
        [.ended t document_id outcome]
  | cleanup {t : ℕ} {document_id : String} {outcome : Except E V} :
      s.tasks[t]? = some ⟨document_id, .finishing outcome⟩ →
      Step s (.cleanup t) (finishTask s t document_id outcome) [.left t document_id]
  | resume {c t : ℕ} {document_id parsed : String} {outcome : Except E V} :
      s.callers[c]? = some ⟨document_id, .awaiting t⟩ →
      s.tasks[t]? = some ⟨parsed, .done outcome⟩ →
      Step s (.resume c) (setCaller s c document_id .returned) [.answered c parsed outcome]
  | cancelArrived {c : ℕ} {document_id : String} :
      s.callers[c]? = some ⟨document_id, .arrived⟩ →
      Step s (.cancel c) (setCaller s c document_id (.cancelledError false)) []
  | cancelAwaiting {c t : ℕ} {document_id : String} :
      s.callers[c]? = some ⟨document_id, .awaiting t⟩ →
      Step s (.cancel c) (setCaller s c document_id (.cancelledError true)) [.gaveUp c]

theorem step_cases {s s' : Module V E} {e : Event V E} {out : List (Obs V E)}
    (h : step s e = some (s', out)) : Step s e s' out := by
  cases e with
  | parse_once document_id =>
    cases h
    exact .parse_once
  | enter c =>
    simp only [step] at h
    split at h
    · rename_i hc
      split at h
      · rename_i hget
        cases h
        exact .join hc hget
      · rename_i hget
        cases h
        exact .create hc hget
    · cases h
  | taskStart t =>
    simp only [step] at h
    split at h
    · rename_i ht
      cases h
      exact .taskStart ht
    · cases h
  | parseEnds t outcome =>
    simp only [step] at h
    split at h
    · rename_i ht
      cases h
      exact .parseEnds outcome ht
    · cases h
  | cleanup t =>
    simp only [step] at h
    split at h
    · rename_i ht
      cases h
      exact .cleanup ht
    · cases h
  | resume c =>
    simp only [step] at h
    split at h
    · rename_i hc
      split at h
      · rename_i ht
        cases h
        exact .resume hc ht
      · cases h
    · cases h
  | cancel c =>
    simp only [step] at h
    split at h
    · rename_i hc
      cases h
      exact .cancelArrived hc
    · rename_i hc
      cases h
      exact .cancelAwaiting hc
    · cases h

/-- Every such change is a step. -/
theorem Step.eq {s s' : Module V E} {e : Event V E} {out : List (Obs V E)}
    (h : Step s e s' out) : (machine V E).step s e = some (s', out) := by
  show step s e = some (s', out)
  cases h with
  | parse_once => rfl
  | join hc hget => simp only [step, hc, hget]
  | create hc hget => simp only [step, hc, hget]
  | taskStart ht => simp only [step, ht]
  | parseEnds outcome ht => simp only [step, ht]
  | cleanup ht => simp only [step, ht]
  | resume hc ht => simp only [step, hc, ht]
  | cancelArrived hc => simp only [step, hc]
  | cancelAwaiting hc => simp only [step, hc]

end Steps

/-! ## The machine that the module refines -/

section Refinement

variable {V E : Type}

def TaskStatus.abs : TaskStatus V E → SingleFlight.Status (Except E V)
  | created => .opened
  | parsing => .running
  | finishing outcome => .ended outcome
  | done outcome => .left outcome

def Task.abs (t : Task V E) : SingleFlight.Flight String (Except E V) :=
  ⟨t.document_id, t.status.abs⟩

def CallerState.abs : CallerState → SingleFlight.Caller
  | arrived => .idle
  | awaiting task => .waiting task
  | returned => .finished
  | cancelledError behind => if behind then .finished else .idle

def callerAbs (callers : List Caller) (c : ℕ) : SingleFlight.Caller :=
  ((callers[c]?).map fun caller => caller.state.abs).getD .idle

def abs (s : Module V E) : Desk String (Except E V) where
  registered := s.in_flight.get?
  flights := s.tasks.map Task.abs
  callers := callerAbs s.callers

variable {s : Module V E} {c t : ℕ} {document_id : String}

theorem flights_getElem? {status : TaskStatus V E}
    (ht : s.tasks[t]? = some ⟨document_id, status⟩) :
    (abs s).flights[t]? = some ⟨document_id, status.abs⟩ := by
  show (s.tasks.map Task.abs)[t]? = _
  rw [List.getElem?_map, ht]
  rfl

theorem callers_getElem? {state : CallerState}
    (hc : s.callers[c]? = some ⟨document_id, state⟩) : (abs s).callers c = state.abs := by
  show callerAbs s.callers c = _
  rw [callerAbs, hc]
  rfl

theorem callerAbs_set {state : CallerState} {caller : Caller} {callers : List Caller}
    (hc : callers[c]? = some caller) : callerAbs (callers.set c ⟨document_id, state⟩) =
      Function.update (callerAbs callers) c state.abs := by
  funext d
  by_cases hd : d = c
  · subst hd
    rw [Function.update_self, callerAbs, getElem?_set_of_some hc]
    rfl
  · -- other callers are as before
    rw [Function.update_of_ne hd, callerAbs, List.getElem?_set_ne (Ne.symm hd)]
    rfl

theorem callerAbs_arrived (callers : List Caller) (document_id : String) :
    callerAbs (callers ++ [⟨document_id, .arrived⟩]) = callerAbs callers := by
  funext d
  rcases Nat.lt_trichotomy d callers.length with hlt | rfl | hgt
  · rw [callerAbs, List.getElem?_append_left hlt]
    rfl
  · -- a call that has arrived has not asked yet
    rw [callerAbs, callerAbs, List.getElem?_concat_length, List.getElem?_eq_none le_rfl]
    rfl
  · have hbeyond : (callers ++ [⟨document_id, .arrived⟩] : List Caller).length ≤ d := by
      rw [List.length_append, List.length_singleton]
      omega
    rw [callerAbs, callerAbs, List.getElem?_eq_none (Nat.le_of_lt hgt),
      List.getElem?_eq_none hbeyond]

theorem abs_setCaller {state : CallerState} {caller : Caller} (hc : s.callers[c]? = some caller) :
    abs (setCaller s c document_id state) = (abs s).setCaller c state.abs := by
  apply SingleFlight.Desk.ext
  · rfl
  · rfl
  · exact callerAbs_set hc

theorem abs_setTask (s : Module V E) (t : ℕ) (document_id : String) (status : TaskStatus V E) :
    abs (setTask s t document_id status) = (abs s).setFlight t document_id status.abs := by
  apply SingleFlight.Desk.ext
  · rfl
  · exact List.map_set
  · rfl

theorem abs_createTask (s : Module V E) (document_id : String) :
    abs (createTask s document_id) = (abs s).openFlight document_id := by
  apply SingleFlight.Desk.ext
  · show (s.in_flight.setItem document_id s.tasks.length).get? =
      Function.update s.in_flight.get? document_id (some (s.tasks.map Task.abs).length)
    rw [OrderedDict.get?_setItem, List.length_map]
  · exact List.map_append
  · rfl

theorem get?_popCurrent (in_flight : OrderedDict String ℕ) (document_id : String) (t : ℕ) :
    (popCurrent in_flight document_id t).get? =
      if in_flight.get? document_id = some t then Function.update in_flight.get? document_id none
      else in_flight.get? := by
  by_cases hget : in_flight.get? document_id = some t
  · rw [popCurrent, if_pos hget, if_pos hget, OrderedDict.get?_pop]
  · rw [popCurrent, if_neg hget, if_neg hget]

theorem abs_finishTask (s : Module V E) (t : ℕ) (document_id : String) (outcome : Except E V) :
    abs (finishTask s t document_id outcome) =
      SingleFlight.Desk.setFlight ((abs s).unregister document_id t) t document_id
        (.left outcome) := by
  rw [finishTask, abs_setTask]
  apply SingleFlight.Desk.ext
  · exact get?_popCurrent s.in_flight document_id t
  · rfl
  · rfl

/-- Every step is a step of `SingleFlight.machine`, or none. -/
theorem step_refines {s' : Module V E} {e : Event V E} {out : List (Obs V E)}
    (hs : step s e = some (s', out)) :
    ∃ fs, (SingleFlight.machine String (Except E V)).execFrom (abs s) fs = some (abs s', out) := by
  cases step_cases hs with
  | @parse_once document_id =>
    -- a call that has arrived is not seen by the abstract desk
    have habs : abs { s with callers := s.callers ++ [⟨document_id, .arrived⟩] } = abs s :=
      SingleFlight.Desk.ext rfl rfl (callerAbs_arrived s.callers document_id)
    rw [habs]
    exact ⟨[], rfl⟩
  | @join c task document_id hc hget =>
    refine ⟨[.ask c document_id], Machine.execFrom_singleton ?_⟩
    rw [abs_setCaller hc]
    exact (SingleFlight.Step.join (callers_getElem? hc) hget).eq
  | @create c document_id hc hget =>
    have hlength : (abs s).flights.length = s.tasks.length := List.length_map _
    refine ⟨[.ask c document_id], Machine.execFrom_singleton ?_⟩
    have hc' : (createTask s document_id).callers[c]? = some ⟨document_id, .arrived⟩ := hc
    rw [abs_setCaller hc', abs_createTask]
    have hask := (SingleFlight.Step.openNew (callers_getElem? hc) hget).eq (s := abs s)
    rw [hlength] at hask
    exact hask
  | @taskStart t document_id ht =>
    refine ⟨[.start t], Machine.execFrom_singleton ?_⟩
    rw [abs_setTask]
    exact (SingleFlight.Step.start (flights_getElem? ht)).eq
  | @parseEnds t document_id outcome ht =>
    refine ⟨[.finish t outcome], Machine.execFrom_singleton ?_⟩
    rw [abs_setTask]
    exact (SingleFlight.Step.finish outcome (flights_getElem? ht)).eq
  | @cleanup t document_id outcome ht =>
    refine ⟨[.leave t], Machine.execFrom_singleton ?_⟩
    rw [abs_finishTask]
    exact (SingleFlight.Step.leave (flights_getElem? ht)).eq
  | @resume c t document_id parsed outcome hc ht =>
    refine ⟨[.answer c], Machine.execFrom_singleton ?_⟩
    rw [abs_setCaller hc]
    exact (SingleFlight.Step.answer (callers_getElem? hc) (flights_getElem? ht) rfl).eq
  | @cancelArrived c document_id hc =>
    -- nor is one that was cancelled before its block
    have habs : abs (setCaller s c document_id (.cancelledError false)) = abs s := by
      rw [abs_setCaller hc]
      exact SingleFlight.Desk.ext rfl rfl
        (Function.update_eq_self_iff.mpr (callers_getElem? hc).symm)
    rw [habs]
    exact ⟨[], rfl⟩
  | @cancelAwaiting c t document_id hc =>
    refine ⟨[.giveUp c], Machine.execFrom_singleton ?_⟩
    rw [abs_setCaller hc]
    exact (SingleFlight.Step.giveUp (callers_getElem? hc)).eq

end Refinement

/-! ## The contract -/

section Contract

variable {V E : Type} {es : List (Event V E)} {tr : List (Obs V E)} {s : Module V E}

theorem abs_run (hrun : (machine V E).Run es tr s) :
    ∃ fs, (SingleFlight.machine String (Except E V)).Run fs tr (abs s) := by
  have hsim := (hrun.restrict (P := fun _ _ => True) (fun _ _ => trivial)).simulate
    (N := SingleFlight.machine String (Except E V)) abs (fun _ => True) rfl trivial
    (fun s e s' out _ _ hs => ⟨trivial, step_refines hs⟩)
  exact hsim.2

/-- **`parse_once`.** However the callers, the tasks and the cancellations are
interleaved, no document is parsed twice at a time, every caller that is answered
gets the outcome of a parse of its own document that had not been cleaned up when it
joined, and an id is taken exactly until the task of its parse is done. -/
theorem parse_once_contract (hrun : (machine V E).Run es tr s) :
    SingleFlight.Contract tr s.in_flight.get? := by
  rcases abs_run hrun with ⟨fs, habs⟩
  exact SingleFlight.contract_run habs

/-- Two callers share a parse and one of them is cancelled; another document is
parsed at the same time. -/
def cancelledWaiter : List (Event ℕ String) :=
  [.parse_once "d1", .parse_once "d1", .enter 0, .parse_once "d2", .enter 1, .taskStart 0,
    .cancel 0, .enter 2, .taskStart 1]

theorem parse_once_contract_cancelledWaiter :
    ∃ tr s, (machine ℕ String).Run cancelledWaiter tr s ∧
      SingleFlight.Contract tr s.in_flight.get? ∧
      SingleFlight.starts tr = [(0, "d1"), (1, "d2")] ∧ s.in_flight.get? "d1" = some 0 := by
  have hexec : ((machine ℕ String).exec cancelledWaiter).map
      (fun r => (SingleFlight.starts r.2, r.1.in_flight.get? "d1")) =
        some ([(0, "d1"), (1, "d2")], some 0) := by decide +kernel
  rcases Machine.Run.of_exec_map hexec with ⟨s, tr, hrun, hread⟩
  simp only [Prod.mk.injEq] at hread
  exact ⟨tr, s, hrun, parse_once_contract hrun, hread.1, hread.2⟩

/-! ## Cancelled callers -/

/-- The steps of one task, and the resumption of one caller. -/
def OfParse (t c : ℕ) : Event V E → Prop
  | .taskStart t' => t' = t
  | .parseEnds t' _ => t' = t
  | .cleanup t' => t' = t
  | .resume c' => c' = c
  | _ => False

theorem awaiting_of_callers {c t : ℕ} (h : (abs s).callers c = .waiting t) :
    ∃ document_id, s.callers[c]? = some ⟨document_id, .awaiting t⟩ := by
  have h : callerAbs s.callers c = .waiting t := h
  rw [callerAbs] at h
  cases hc : s.callers[c]? with
  | none => simp [hc] at h
  | some caller =>
    rcases caller with ⟨document_id, state⟩
    simp only [hc, Option.map_some, Option.getD_some] at h
    cases state with
    | awaiting task =>
      cases h
      exact ⟨document_id, rfl⟩
    | cancelledError behind => cases behind <;> cases h
    | _ => cases h

theorem task_of_flights {t : ℕ} {k : String} {status : SingleFlight.Status (Except E V)}
    (h : (abs s).flights[t]? = some ⟨k, status⟩) :
    ∃ st : TaskStatus V E, s.tasks[t]? = some ⟨k, st⟩ ∧ status = st.abs := by
  have h : (s.tasks.map Task.abs)[t]? = some ⟨k, status⟩ := h
  rw [List.getElem?_map, Option.map_eq_some_iff] at h
  rcases h with ⟨⟨document_id, st⟩, ht, heq⟩
  cases heq
  exact ⟨st, ht, rfl⟩

/-- The steps of the task answer the caller with `r`. -/
def CanAnswer (s : Module V E) (c t : ℕ) (k : String) (r : Except E V) : Prop :=
  ∃ fs s' out, (machine V E).execFrom s fs = some (s', out) ∧ (∀ e ∈ fs, OfParse t c e) ∧
    .answered c k r ∈ out

theorem CanAnswer.after {s₁ : Module V E} {c t : ℕ} {k : String} {r : Except E V} {e : Event V E}
    {out : List (Obs V E)} (hs : Step s e s₁ out) (he : OfParse t c e)
    (h : CanAnswer s₁ c t k r) : CanAnswer s c t k r := by
  rcases h with ⟨fs, s', out', hexec, hfs, hmem⟩
  refine ⟨e :: fs, s', out ++ out', Machine.execFrom_cons hs.eq hexec, ?_,
    List.mem_append_right _ hmem⟩
  intro e' he'
  rcases List.mem_cons.mp he' with rfl | he'
  · exact he
  · exact hfs e' he'

/-- From wherever the task stands, it can go on to its end, and answer the caller. -/
theorem canAnswer {c t : ℕ} {document_id k : String} {st : TaskStatus V E} {r : Except E V}
    (hc : s.callers[c]? = some ⟨document_id, .awaiting t⟩) (ht : s.tasks[t]? = some ⟨k, st⟩)
    (hr : ∀ r', st.abs.result? = some r' → r' = r) : CanAnswer s c t k r := by
  -- from the end of the task backwards
  have hdone : ∀ s : Module V E, s.callers[c]? = some ⟨document_id, .awaiting t⟩ →
      s.tasks[t]? = some ⟨k, .done r⟩ → CanAnswer s c t k r := by
    intro s hc ht
    exact ⟨[.resume c], _, _, Machine.execFrom_singleton (Step.resume hc ht).eq,
      by simp [OfParse], List.mem_singleton_self _⟩
  have hfinishing : ∀ s : Module V E, s.callers[c]? = some ⟨document_id, .awaiting t⟩ →
      s.tasks[t]? = some ⟨k, .finishing r⟩ → CanAnswer s c t k r := fun s hc ht =>
    CanAnswer.after (Step.cleanup ht) rfl (hdone _ hc (getElem?_set_of_some ht))
  have hparsing : ∀ s : Module V E, s.callers[c]? = some ⟨document_id, .awaiting t⟩ →
      s.tasks[t]? = some ⟨k, .parsing⟩ → CanAnswer s c t k r := fun s hc ht =>
    CanAnswer.after (Step.parseEnds r ht) rfl (hfinishing _ hc (getElem?_set_of_some ht))
  cases st with
  | created =>
    exact CanAnswer.after (Step.taskStart ht) rfl (hparsing _ hc (getElem?_set_of_some ht))
  | parsing => exact hparsing s hc ht
  | finishing outcome =>
    cases hr outcome rfl
    exact hfinishing s hc ht
  | done outcome =>
    cases hr outcome rfl
    exact hdone s hc ht

/-- **Cancellation.** Whoever else is cancelled, and whenever: a caller that has
joined a parse and was not cancelled itself can still be answered with the outcome
of that parse, whatever it is or was, by steps of the parse alone. -/
theorem survives_cancellation (hrun : (machine V E).Run es tr s) {c t : ℕ} {k : String}
    (hasked : .asked c k t ∈ tr) (hcancel : .gaveUp c ∉ tr) (hanswer : ∀ r, .answered c k r ∉ tr)
    (r : Except E V) (hr : ∀ r', .ended t k r' ∈ tr → r' = r) : CanAnswer s c t k r := by
  rcases abs_run hrun with ⟨gs, habs⟩
  have h := SingleFlight.inv_run habs
  -- the caller awaits its task still
  rcases awaiting_of_callers (h.waiting hasked hcancel hanswer) with ⟨document_id, hc⟩
  rcases h.asked hasked with ⟨status, hf⟩
  rcases task_of_flights hf with ⟨st, ht, rfl⟩
  exact canAnswer hc ht fun r' hr' => hr r' (h.ended_iff.mpr ⟨_, hf, hr'⟩)

/-- The caller that opened the parse is cancelled before it starts; the other one is
answered all the same. -/
theorem survives_cancellation_cancelledWaiter :
    ∃ tr s, (machine ℕ String).Run cancelledWaiter tr s ∧ .gaveUp 0 ∈ tr ∧
      CanAnswer s 1 0 "d1" (.ok 7) := by
  have hexec : ((machine ℕ String).exec cancelledWaiter).map Prod.snd =
      some [.asked 0 "d1" 0, .asked 1 "d1" 0, .started 0 "d1", .gaveUp 0, .asked 2 "d2" 1,
        .started 1 "d2"] := rfl
  rcases Machine.Run.of_exec_map hexec with ⟨s, tr, hrun, rfl⟩
  exact ⟨_, s, hrun, by simp,
    survives_cancellation hrun (by simp) (by simp) (by simp) (.ok 7) (by simp)⟩

end Contract

end InterviewPrep.RequestDedup.Python
