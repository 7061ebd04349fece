import InterviewPrep.Lib.OrderedDict
import InterviewPrep.Lib.SingleFlight

/-!
# Request deduplication, TypeScript

`parseOnce` of `technical/async_state_and_request_deduplication/question.md`.
`parseDocument` is an async function: a call runs it synchronously up to its first
`await`, and only then is its promise entered into the map. The calls whose
synchronous part is running form a stack; while it is not empty the code that runs
is that of the topmost one, which may call `parseOnce` itself.

* `parseOnce`: a call, up to the call of `parseDocument` if there is one;
* `parseReturns`: the topmost `parseDocument` returns its promise, which is
  entered into the map;
* `settle`: a promise is settled;
* `cleanup`: the callback that `parseOnce` attached to a promise runs;
* `receive`: a caller resumes with the outcome of its promise.

The module refines `SingleFlight.machine` in the runs in which no `parseDocument`
calls `parseOnce` for its own id before its first `await`, as `ownIdParse` does; there
an id is taken as long as its `parseDocument` runs synchronously or its promise stands
in the map (`parseOnce_contract`).
-/

namespace InterviewPrep.RequestDedup.TypeScript

open SingleFlight (Desk)

/-- The state of a promise; it is settled with a document or with an error. -/
inductive PromiseStatus (D E : Type) where
  | pending
  | settled (outcome : Except E D)
  /-- settled, and its cleanup has run -/
  | cleaned (outcome : Except E D)

structure Promise (D E : Type) where
  id : String
  status : PromiseStatus D E

/-- A call of `parseOnce`, the promise that it returned, and whether the outcome has
been received. -/
structure Caller where
  promise : ℕ
  received : Bool

structure Module (D E : Type) where
  inFlight : OrderedDict String ℕ
  promises : List (Promise D E)
  /-- the calls of `parseDocument` that run synchronously, topmost first -/
  stack : List (String × ℕ)
  callers : List Caller

inductive Event (D E : Type) where
  | parseOnce (id : String)
  | parseReturns
  | settle (promise : ℕ) (outcome : Except E D)
  | cleanup (promise : ℕ)
  | receive (caller : ℕ)

abbrev Obs (D E : Type) := SingleFlight.Obs String (Except E D)

section Program

variable {D E : Type}

/-- The outcome of a promise that is settled. -/
def PromiseStatus.outcome? : PromiseStatus D E → Option (Except E D)
  | pending => none
  | settled outcome => some outcome
  | cleaned outcome => some outcome

def PromiseStatus.isCleaned : PromiseStatus D E → Bool
  | cleaned _ => true
  | _ => false

/-- `const cleanup = ..` -/
def cleanup (inFlight : OrderedDict String ℕ) (id : String) (promise : ℕ) :
    OrderedDict String ℕ :=
  if inFlight.get? id = some promise then inFlight.pop id else inFlight

def step (s : Module D E) : Event D E → Option (Module D E × List (Obs D E))
  | .parseOnce id =>
    let caller := s.callers.length
    match s.inFlight.get? id with
    -- an existing parse is shared
    | some existing =>
      some ({ s with callers := s.callers ++ [⟨existing, false⟩] }, [.asked caller id existing])
    | none =>
      -- `parseDocument` starts; its promise is entered into the map when it returns
      let promise := s.promises.length
      some
        ({ s with
            promises := s.promises ++ [⟨id, .pending⟩]
            stack := (id, promise) :: s.stack
            callers := s.callers ++ [⟨promise, false⟩] },
          [.asked caller id promise, .started promise id])
  | .parseReturns =>
    match s.stack with
    | [] => none
    | (id, promise) :: stack =>
      some ({ s with stack := stack, inFlight := s.inFlight.setItem id promise }, [])
  | .settle promise outcome =>
    -- its `parseDocument` has returned
    if s.stack.all (fun call => call.2 ≠ promise) then
      match s.promises[promise]? with
      | some ⟨id, .pending⟩ =>
        some ({ s with promises := s.promises.set promise ⟨id, .settled outcome⟩ },
          [.ended promise id outcome])
      | _ => none
    else none
  | .cleanup promise =>
    -- a callback runs when no synchronous code does
    match s.stack, s.promises[promise]? with
    | [], some ⟨id, .settled outcome⟩ =>
      some
        ({ s with
            inFlight := cleanup s.inFlight id promise
            promises := s.promises.set promise ⟨id, .cleaned outcome⟩ },
          [.left promise id])
    | _, _ => none
  | .receive c =>
    -- and so does the code behind an `await`
    match s.stack, s.callers[c]? with
    | [], some ⟨promise, false⟩ =>
      match s.promises[promise]? with
      | some ⟨id, status⟩ =>
        match status.outcome? with
        | some outcome =>
          some ({ s with callers := s.callers.set c ⟨promise, true⟩ }, [.answered c id outcome])
        | none => none
      | none => none
    | _, _ => none

def machine (D E : Type) : Machine (Module D E) (Event D E) (Obs D E) where
  init := ⟨OrderedDict.empty, [], [], []⟩
  step := step

end Program

/-! ## What a step does -/

section Steps

variable {D E : Type}

/-- The changes of one step. -/
inductive Step (s : Module D E) : Event D E → Module D E → List (Obs D E) → Prop where
  | existing {id : String} {existing : ℕ} : s.inFlight.get? id = some existing →
      Step s (.parseOnce id) { s with callers := s.callers ++ [⟨existing, false⟩] }
        [.asked s.callers.length id existing]
  | new {id : String} : s.inFlight.get? id = none →
      Step s (.parseOnce id)
        { s with
          promises := s.promises ++ [⟨id, .pending⟩]
          stack := (id, s.promises.length) :: s.stack
          callers := s.callers ++ [⟨s.promises.length, false⟩] }
        [.asked s.callers.length id s.promises.length, .started s.promises.length id]
  | parseReturns {id : String} {promise : ℕ} {stack : List (String × ℕ)} :
      s.stack = (id, promise) :: stack →
      Step s .parseReturns
        { s with stack := stack, inFlight := s.inFlight.setItem id promise } []
  | settle {id : String} {promise : ℕ} (outcome : Except E D) :
      (∀ call ∈ s.stack, call.2 ≠ promise) → s.promises[promise]? = some ⟨id, .pending⟩ →
      Step s (.settle promise outcome)
        { s with promises := s.promises.set promise ⟨id, .settled outcome⟩ }
        [.ended promise id outcome]
  | cleanup {id : String} {promise : ℕ} {outcome : Except E D} : s.stack = [] →
      s.promises[promise]? = some ⟨id, .settled outcome⟩ →
      Step s (.cleanup promise)
        { s with
          inFlight := TypeScript.cleanup s.inFlight id promise
          promises := s.promises.set promise ⟨id, .cleaned outcome⟩ }
        [.left promise id]
  | receive {c promise : ℕ} {id : String} {status : PromiseStatus D E} {outcome : Except E D} :
      s.stack = [] → s.callers[c]? = some ⟨promise, false⟩ →
      s.promises[promise]? = some ⟨id, status⟩ → status.outcome? = some outcome →
      Step s (.receive c) { s with callers := s.callers.set c ⟨promise, true⟩ }
        [.answered c id outcome]

theorem step_cases {s s' : Module D E} {e : Event D E} {out : List (Obs D E)}
    (h : step s e = some (s', out)) : Step s e s' out := by
  cases e with
  | parseOnce id =>
    simp only [step] at h
    split at h
    · rename_i hget
      cases h
      exact .existing hget
    · rename_i hget
      cases h
      exact .new hget
  | parseReturns =>
    simp only [step] at h
    split at h
    · cases h
    · rename_i hstack
      cases h
      exact .parseReturns hstack
  | settle promise outcome =>
    simp only [step] at h
    split at h
    · rename_i hstack
      split at h
      · rename_i hp
        cases h
        exact .settle outcome (by simpa using hstack) hp
      · cases h
    · cases h
  | cleanup promise =>
    simp only [step] at h
    split at h
    · rename_i hstack hp
      cases h
      exact .cleanup hstack hp
    · cases h
  | receive c =>
    simp only [step] at h
    split at h
    · rename_i hstack hc
      split at h
      · rename_i hp
        split at h
        · rename_i houtcome
          cases h
          exact .receive hstack hc hp houtcome
        · cases h
      · cases h
    · cases h

end Steps

/-! ## The machine that the module refines -/

section Refinement

variable {D E : Type}

/-- The promise that stands for an id: the one whose `parseDocument` is running
synchronously, or the one in the map. -/
def current (s : Module D E) (id : String) : Option ℕ :=
  (s.stack.lookup id).or (s.inFlight.get? id)

def PromiseStatus.abs : PromiseStatus D E → SingleFlight.Status (Except E D)
  | pending => .running
  | settled outcome => .ended outcome
  | cleaned outcome => .left outcome

def Promise.abs (p : Promise D E) : SingleFlight.Flight String (Except E D) :=
  ⟨p.id, p.status.abs⟩

def Caller.abs : Option Caller → SingleFlight.Caller
  | none => .idle
  | some ⟨promise, false⟩ => .waiting promise
  | some ⟨_, true⟩ => .finished

def abs (s : Module D E) : Desk String (Except E D) where
  registered := current s
  flights := s.promises.map Promise.abs
  callers := fun c => Caller.abs s.callers[c]?

/-- No `parseDocument` calls `parseOnce` for its own id before its first `await`. -/
def NotReentrant (s : Module D E) : Event D E → Prop
  | .parseOnce id => ∀ call ∈ s.stack, call.1 ≠ id
  | _ => True

instance (s : Module D E) (e : Event D E) : Decidable (NotReentrant s e) := by
  cases e <;> simp only [NotReentrant] <;> infer_instance

/-- The calls on the stack are for different ids. -/
def Distinct (s : Module D E) : Prop := (s.stack.map Prod.fst).Nodup

/-- No id of a call on the stack is in the map. -/
def Absent (s : Module D E) : Prop := ∀ call ∈ s.stack, s.inFlight.get? call.1 = none

theorem callers_concat (s : Module D E) (promise : ℕ) :
    (fun c => Caller.abs (s.callers ++ [⟨promise, false⟩])[c]?) =
      Function.update (fun c => Caller.abs s.callers[c]?) s.callers.length (.waiting promise) := by
  funext c
  by_cases hc : c = s.callers.length
  · subst hc
    rw [Function.update_self, List.getElem?_concat_length]
    rfl
  · rw [Function.update_of_ne hc]
    rcases Nat.lt_or_gt_of_ne hc with hlt | hgt
    · rw [List.getElem?_append_left hlt]
    · have hbeyond : (s.callers ++ [⟨promise, false⟩] : List Caller).length ≤ c := by
        rw [List.length_append, List.length_singleton]
        omega
      rw [List.getElem?_eq_none (Nat.le_of_lt hgt), List.getElem?_eq_none hbeyond]

theorem callers_idle (s : Module D E) : (abs s).callers s.callers.length = .idle := by
  show Caller.abs s.callers[s.callers.length]? = _
  rw [List.getElem?_eq_none le_rfl]
  rfl

theorem set_concat_length {α : Type} (l : List α) (a b : α) :
    (l ++ [a]).set l.length b = l ++ [b] := by
  rw [List.set_append_right _ _ le_rfl, Nat.sub_self]
  rfl

theorem flights_getElem? {s : Module D E} {promise : ℕ} {id : String} {status : PromiseStatus D E}
    (hp : s.promises[promise]? = some ⟨id, status⟩) :
    (abs s).flights[promise]? = some ⟨id, status.abs⟩ := by
  show (s.promises.map Promise.abs)[promise]? = _
  rw [List.getElem?_map, hp]
  rfl

theorem current_of_notReentrant {s : Module D E} {id : String}
    (h : ∀ call ∈ s.stack, call.1 ≠ id) : current s id = s.inFlight.get? id := by
  have hlookup : s.stack.lookup id = none := by
    rw [List.lookup_eq_none_iff]
    intro call hcall
    exact bne_iff_ne.mpr (h call hcall).symm
  rw [current, hlookup, Option.none_or]

theorem current_of_stack_nil {s : Module D E} (h : s.stack = []) :
    current s = s.inFlight.get? := by
  funext id
  rw [current, h]
  rfl

/-- Entering the promise into the map changes nothing of what stands for an id. -/
theorem current_parseReturns {s : Module D E} (h : Distinct s) {id : String} {promise : ℕ}
    {stack : List (String × ℕ)} (hstack : s.stack = (id, promise) :: stack) :
    current { s with stack := stack, inFlight := s.inFlight.setItem id promise } = current s := by
  funext j
  rw [Distinct, hstack, List.map_cons, List.nodup_cons] at h
  simp only [current, hstack]
  by_cases hj : j = id
  · subst hj
    -- the id leaves the stack and stands in the map
    have hlookup : stack.lookup j = none := by
      rw [List.lookup_eq_none_iff]
      rintro ⟨i, p⟩ hmem
      rw [bne_iff_ne]
      rintro rfl
      exact h.1 (List.mem_map.mpr ⟨_, hmem, rfl⟩)
    rw [hlookup, List.lookup_cons_self, OrderedDict.get?_setItem_self, Option.none_or,
      Option.some_or]
  · have hbeq : (j == id) = false := by simpa using hj
    rw [List.lookup_cons, hbeq, OrderedDict.get?_setItem_of_ne _ _ hj]

/-- A call of `parseDocument` stands for its id. -/
theorem current_new (s : Module D E) (id : String) :
    current { s with
      promises := s.promises ++ [⟨id, .pending⟩]
      stack := (id, s.promises.length) :: s.stack
      callers := s.callers ++ [⟨s.promises.length, false⟩] } =
        Function.update (current s) id (some s.promises.length) := by
  funext j
  by_cases hj : j = id
  · -- the topmost call stands for the id
    subst hj
    rw [Function.update_self, current, List.lookup_cons_self, Option.some_or]
  · have hbeq : (j == id) = false := by simpa using hj
    rw [Function.update_of_ne hj, current, List.lookup_cons, hbeq]
    rfl

/-- The cleanup takes away what is its own. -/
theorem current_cleanup {s : Module D E} (hstack : s.stack = []) (id : String) (promise : ℕ) :
    current { s with inFlight := cleanup s.inFlight id promise } =
      if current s id = some promise then Function.update (current s) id none else current s := by
  have hafter := current_of_stack_nil
    (s := { s with inFlight := cleanup s.inFlight id promise }) hstack
  rw [hafter, current_of_stack_nil hstack]
  by_cases hget : s.inFlight.get? id = some promise
  · rw [cleanup, if_pos hget, if_pos hget, OrderedDict.get?_pop]
  · rw [cleanup, if_neg hget, if_neg hget]

theorem callers_set {s : Module D E} {c : ℕ} {x : Caller} (hc : s.callers[c]? = some x)
    {promise : ℕ} : (fun d => Caller.abs (s.callers.set c ⟨promise, true⟩)[d]?) =
      Function.update (fun d => Caller.abs s.callers[d]?) c .finished := by
  funext d
  by_cases hd : d = c
  · subst hd
    rw [Function.update_self, getElem?_set_of_some hc]
    rfl
  · rw [Function.update_of_ne hd, List.getElem?_set_ne (Ne.symm hd)]

/-- Every step is a schedule of `SingleFlight.machine`. -/
theorem step_refines {s s' : Module D E} {e : Event D E} {out : List (Obs D E)} (h : Distinct s)
    (hP : NotReentrant s e) (hs : step s e = some (s', out)) : Distinct s' ∧
      ∃ fs, (SingleFlight.machine String (Except E D)).execFrom (abs s) fs =
        some (abs s', out) := by
  cases step_cases hs with
  | @existing id existing hget =>
    have hreg : (abs s).registered id = some existing := (current_of_notReentrant hP).trans hget
    have habs : abs { s with callers := s.callers ++ [⟨existing, false⟩] } =
        (abs s).setCaller s.callers.length (.waiting existing) := by
      rw [abs, callers_concat]
      rfl
    refine ⟨h, [.ask s.callers.length id], Machine.execFrom_singleton ?_⟩
    rw [habs]
    exact (SingleFlight.Step.join (callers_idle s) hreg).eq
  | @new id hget =>
    -- the caller is put on the flight that is registered
    have hreg : (abs s).registered id = none := (current_of_notReentrant hP).trans hget
    have hlength : (abs s).flights.length = s.promises.length := List.length_map _
    have hopened : ((abs s).openFlight id).flights[s.promises.length]? = some ⟨id, .opened⟩ := by
      rw [← hlength]
      exact List.getElem?_concat_length
    -- the flight is opened and its work starts, in one step of the program
    refine ⟨?_, [.ask s.callers.length id, .start s.promises.length], ?_⟩
    · refine List.nodup_cons.mpr ⟨?_, h⟩
      intro hmem
      rcases List.mem_map.mp hmem with ⟨call, hcall, hid⟩
      exact hP call hcall hid
    · have hask := (SingleFlight.Step.openNew (callers_idle s) hreg).eq
      have hstart := (SingleFlight.Step.start (s := ((abs s).openFlight id).setCaller
        s.callers.length (.waiting (abs s).flights.length)) hopened).eq
      have habs : abs { s with
          promises := s.promises ++ [⟨id, .pending⟩]
          stack := (id, s.promises.length) :: s.stack
          callers := s.callers ++ [⟨s.promises.length, false⟩] } =
            SingleFlight.Desk.setFlight (((abs s).openFlight id).setCaller s.callers.length
              (.waiting (abs s).flights.length)) s.promises.length id .running := by
        apply SingleFlight.Desk.ext
        · exact (current_new s id).trans (congrArg _ (congrArg _ hlength.symm))
        · rw [← hlength]
          exact List.map_append.trans (set_concat_length _ _ _).symm
        · exact (callers_concat s _).trans (congrArg _ (congrArg _ hlength.symm))
      rw [habs]
      have hexec := Machine.execFrom_cons hask (Machine.execFrom_singleton hstart)
      rw [hlength] at hexec ⊢
      exact hexec
  | @parseReturns id promise stack hstack =>
    refine ⟨?_, [], ?_⟩
    · rw [Distinct, hstack, List.map_cons, List.nodup_cons] at h
      exact h.2
    · -- the abstract desk does not see where the promise is kept
      have habs : abs { s with stack := stack, inFlight := s.inFlight.setItem id promise } =
          abs s := by
        rw [abs, current_parseReturns h hstack]
        rfl
      rw [habs]
      rfl
  | @settle id promise outcome hstack hp =>
    have habs : abs { s with promises := s.promises.set promise ⟨id, .settled outcome⟩ } =
        (abs s).setFlight promise id (.ended outcome) := by
      simp only [abs, SingleFlight.Desk.setFlight, List.map_set]
      rfl
    refine ⟨h, [.finish promise outcome], Machine.execFrom_singleton ?_⟩
    rw [habs]
    exact (SingleFlight.Step.finish outcome (flights_getElem? hp)).eq
  | @cleanup id promise outcome hstack hp =>
    have habs : abs { s with
        inFlight := cleanup s.inFlight id promise
        promises := s.promises.set promise ⟨id, .cleaned outcome⟩ } =
          ((abs s).unregister id promise).setFlight promise id (.left outcome) := by
      apply SingleFlight.Desk.ext
      · exact current_cleanup hstack id promise
      · exact List.map_set
      · rfl
    refine ⟨h, [.leave promise], Machine.execFrom_singleton ?_⟩
    rw [habs]
    exact (SingleFlight.Step.leave (flights_getElem? hp)).eq
  | @receive c promise id status outcome hstack hc hp houtcome =>
    have hwaiting : (abs s).callers c = .waiting promise := by
      show Caller.abs s.callers[c]? = _
      rw [hc]
      rfl
    -- `outcome?` and `result?` read the same
    have hresult : status.abs.result? = some outcome := by
      cases status <;> exact houtcome
    have habs : abs { s with callers := s.callers.set c ⟨promise, true⟩ } =
        (abs s).setCaller c .finished := by
      apply SingleFlight.Desk.ext
      · rfl
      · rfl
      · exact callers_set hc
    refine ⟨h, [.answer c], Machine.execFrom_singleton ?_⟩
    rw [habs]
    exact (SingleFlight.Step.answer hwaiting (flights_getElem? hp) hresult).eq

theorem absent_step {s s' : Module D E} {e : Event D E} {out : List (Obs D E)} (h : Absent s)
    (hdistinct : Distinct s) (hs : step s e = some (s', out)) : Absent s' := by
  cases step_cases hs with
  | existing => exact h
  | new hget =>
    intro call hcall
    rcases List.mem_cons.mp hcall with rfl | hcall
    · exact hget
    · exact h call hcall
  | @parseReturns id promise stack hstack =>
    rw [Distinct, hstack, List.map_cons, List.nodup_cons] at hdistinct
    intro call hcall
    -- a call below the topmost one is for another id
    have hne : call.1 ≠ id := fun heq =>
      hdistinct.1 (List.mem_map.mpr ⟨call, hcall, heq⟩)
    show (s.inFlight.setItem id promise).get? call.1 = none
    rw [OrderedDict.get?_setItem_of_ne _ _ hne]
    exact h call (hstack ▸ List.mem_cons_of_mem _ hcall)
  | settle => exact h
  | cleanup hstack =>
    intro call hcall
    rw [hstack] at hcall
    cases hcall
  | receive => exact h

end Refinement

/-! ## The contract -/

section Contract

variable {D E : Type} {es : List (Event D E)} {tr : List (Obs D E)} {s : Module D E}

/-- What holds of `parseOnce` and its map. -/
structure MapContract (tr : List (Obs D E)) (s : Module D E) : Prop where
  flights : SingleFlight.Contract tr (current s)
  /-- an id is not in the map while its `parseDocument` runs synchronously -/
  running : ∀ id promise, (id, promise) ∈ s.stack → s.inFlight.get? id = none
  /-- it is from the return of its promise until the promise is cleaned up -/
  inFlight_iff : ∀ id promise, s.inFlight.get? id = some promise ↔
    (∃ c, .asked c id promise ∈ tr) ∧ (id, promise) ∉ s.stack ∧ .left promise id ∉ tr

/-- What is in the map, in terms of what stands for an id. -/
theorem get?_inFlight_iff (h : Absent s) {id : String} {promise : ℕ} :
    s.inFlight.get? id = some promise ↔ current s id = some promise ∧ (id, promise) ∉ s.stack := by
  cases hlookup : s.stack.lookup id with
  | none =>
    rw [current, hlookup, Option.none_or, iff_self_and]
    intro _ hmem
    have hne := List.lookup_eq_none_iff.mp hlookup _ hmem
    simp at hne
  | some q =>
    -- an id that is on the stack stands for nothing else
    rcases List.lookup_eq_some_iff.mp hlookup with ⟨l₁, l₂, hstack, -⟩
    have hmem : (id, q) ∈ s.stack := by
      rw [hstack]
      exact List.mem_append_right _ List.mem_cons_self
    rw [current, hlookup, Option.some_or, h _ hmem]
    constructor
    · rintro ⟨⟩
    · rintro ⟨heq, hnot⟩
      cases heq
      exact absurd hmem hnot

/-- **`parseOnce`.** However the calls, the settlements and the callbacks are
interleaved, as long as no `parseDocument` asks for its own id before its first `await`:
no document is parsed twice at a time, every caller that is answered gets the outcome of
a parse of its own document that had not been cleaned up when it called, and an id stands
in the map exactly from the return of its `parseDocument` until the promise is cleaned
up, be it fulfilled or rejected. -/
theorem parseOnce_contract (hrun : (machine D E).RunWhere NotReentrant es tr s) :
    MapContract tr s := by
  have hinit : Distinct (machine D E).init ∧ Absent (machine D E).init := by
    refine ⟨List.nodup_nil, ?_⟩
    rintro call ⟨⟩
  have hsim : (Distinct s ∧ Absent s) ∧
      ∃ fs, (SingleFlight.machine String (Except E D)).Run fs tr (abs s) := by
    refine hrun.simulate abs (fun s => Distinct s ∧ Absent s) rfl hinit ?_
    intro s e s' out h hP hs
    rcases step_refines h.1 hP hs with ⟨hdistinct, hexec⟩
    exact ⟨⟨hdistinct, absent_step h.2 h.1 hs⟩, hexec⟩
  rcases hsim with ⟨⟨-, habsent⟩, fs, habs⟩
  have hcontract : SingleFlight.Contract tr (current s) := SingleFlight.contract_run habs
  refine ⟨hcontract, fun id promise hmem => habsent _ hmem, fun id promise => ?_⟩
  rw [get?_inFlight_iff habsent, hcontract.registered_iff]
  constructor
  · rintro ⟨⟨hasked, hleft⟩, hstack⟩
    exact ⟨hasked, hstack, hleft⟩
  · rintro ⟨hasked, hstack, hleft⟩
    exact ⟨⟨hasked, hleft⟩, hstack⟩

/-- Two handlers ask for one document and share its parse, which fails; a third asks
after the cleanup, and a new parse starts. -/
def failedParse : List (Event ℕ String) :=
  [.parseOnce "d1", .parseReturns, .parseOnce "d1", .settle 0 (.error "timeout"), .cleanup 0,
    .receive 1, .parseOnce "d1", .parseReturns, .receive 0]

theorem parseOnce_contract_failedParse :
    ∃ tr s, (machine ℕ String).RunWhere NotReentrant failedParse tr s ∧
      MapContract tr s ∧ SingleFlight.starts tr = [(0, "d1"), (1, "d1")] ∧
      s.inFlight.get? "d1" = some 1 := by
  have hexec : ((machine ℕ String).execWhere NotReentrant (machine ℕ String).init failedParse).map
      (fun r => (SingleFlight.starts r.2, r.1.inFlight.get? "d1")) =
        some ([(0, "d1"), (1, "d1")], some 1) := by decide +kernel
  rcases Machine.RunWhere.of_execWhere_map hexec with ⟨s, tr, hrun, hread⟩
  simp only [Prod.mk.injEq] at hread
  exact ⟨tr, s, hrun, parseOnce_contract hrun, hread.1, hread.2⟩

/-! ## Nothing stays in the map -/

/-- The map and the stack name promises that are not cleaned up. -/
structure Live (s : Module D E) : Prop where
  entry : ∀ id promise, s.inFlight.get? id = some promise →
    ∃ status, s.promises[promise]? = some ⟨id, status⟩ ∧ ∀ outcome, status ≠ .cleaned outcome
  call : ∀ call ∈ s.stack, s.promises[call.2]? = some ⟨call.1, .pending⟩

theorem live_step {s' : Module D E} {e : Event D E} {out : List (Obs D E)} (h : Live s)
    (hs : step s e = some (s', out)) : Live s' := by
  cases step_cases hs with
  | existing => exact ⟨h.entry, h.call⟩
  | new =>
    refine ⟨?_, ?_⟩
    · intro id promise hget
      rcases h.entry id promise hget with ⟨status, hp, hlive⟩
      exact ⟨status, getElem?_concat_of_some hp, hlive⟩
    · rintro call hcall
      rcases List.mem_cons.mp hcall with rfl | hcall
      · exact List.getElem?_concat_length
      · exact getElem?_concat_of_some (h.call call hcall)
  | @parseReturns id promise stack hstack =>
    have hcalls := h.call
    rw [hstack] at hcalls
    refine ⟨?_, fun call hcall => hcalls call (List.mem_cons_of_mem _ hcall)⟩
    intro j p hget
    by_cases hj : j = id
    · subst hj
      rw [OrderedDict.get?_setItem_self] at hget
      cases hget
      exact ⟨.pending, hcalls _ List.mem_cons_self, fun _ => by simp⟩
    · rw [OrderedDict.get?_setItem_of_ne _ _ hj] at hget
      exact h.entry j p hget
  | @settle id promise outcome hstack hp =>
    -- the entry of the promise that is settled stays in the map
    refine ⟨?_, ?_⟩
    · intro j p hget
      rcases h.entry j p hget with ⟨status, hjp, hlive⟩
      by_cases hpp : p = promise
      · subst hpp
        rw [hp] at hjp
        cases hjp
        exact ⟨.settled outcome, getElem?_set_of_some hp, fun _ => by simp⟩
      · exact ⟨status, by rw [List.getElem?_set_ne (Ne.symm hpp), hjp], hlive⟩
    · intro call hcall
      rw [List.getElem?_set_ne (hstack call hcall).symm]
      exact h.call call hcall
  | @cleanup id promise outcome hstack hp =>
    refine ⟨?_, fun call hcall => by rw [hstack] at hcall; cases hcall⟩
    intro j p hget
    -- an entry that is left is of another promise, or of another id
    have hold : s.inFlight.get? j = some p ∧ (j = id → p ≠ promise) := by
      by_cases hget' : s.inFlight.get? id = some promise
      · rw [cleanup, if_pos hget'] at hget
        rcases OrderedDict.get?_of_get?_pop hget with ⟨hget, hj⟩
        exact ⟨hget, fun heq => absurd heq hj⟩
      · rw [cleanup, if_neg hget'] at hget
        refine ⟨hget, ?_⟩
        rintro rfl rfl
        exact hget' hget
    rcases h.entry j p hold.1 with ⟨status, hjp, hlive⟩
    have hne : p ≠ promise := by
      rintro rfl
      rw [hp] at hjp
      cases hjp
      exact hold.2 rfl rfl
    exact ⟨status, by rw [List.getElem?_set_ne hne.symm, hjp], hlive⟩
  | receive => exact ⟨h.entry, h.call⟩

theorem live_run (hrun : (machine D E).Run es tr s) : Live s := by
  refine hrun.invariant Live ⟨?_, ?_⟩ (fun s e s' out h hs => live_step h hs)
  · intro id promise hget
    cases hget
  · intro call hcall
    cases hcall

/-- Also where `parseDocument` calls `parseOnce` for its own id, so that two parses
of one id may be under way: once all promises are cleaned up, the map is empty. -/
theorem parseOnce_empties (hrun : (machine D E).Run es tr s)
    (hall : ∀ p ∈ s.promises, p.status.isCleaned = true) (id : String) :
    s.inFlight.get? id = none := by
  rw [Option.eq_none_iff_forall_ne_some]
  intro promise hget
  rcases (live_run hrun).entry id promise hget with ⟨status, hp, hlive⟩
  have hcleaned := hall _ (List.mem_of_getElem? hp)
  cases status with
  | cleaned outcome => exact hlive outcome rfl
  | _ => cases hcleaned

/-- A `parseDocument` calls `parseOnce` for its own id; the outer parse takes the
place of the inner one, whose cleanup leaves it there. -/
def ownIdParse : List (Event ℕ String) :=
  [.parseOnce "d1", .parseOnce "d1", .parseReturns, .parseReturns, .settle 1 (.ok 7), .cleanup 1,
    .settle 0 (.error "timeout"), .cleanup 0]

theorem parseOnce_empties_ownIdParse :
    ∃ tr s, (machine ℕ String).Run ownIdParse tr s ∧
      SingleFlight.starts tr = [(0, "d1"), (1, "d1")] ∧ s.inFlight.get? "d1" = none := by
  have hexec : ((machine ℕ String).exec ownIdParse).map (fun r =>
      (SingleFlight.starts r.2, r.1.promises.all fun p => p.status.isCleaned)) =
        some ([(0, "d1"), (1, "d1")], true) := by decide +kernel
  rcases Machine.Run.of_exec_map hexec with ⟨s, tr, hrun, hread⟩
  simp only [Prod.mk.injEq, List.all_eq_true] at hread
  exact ⟨tr, s, hrun, hread.1, parseOnce_empties hrun hread.2 "d1"⟩

/-! ## A batch of calls -/

/-- The ids that are asked for. -/
def called (es : List (Event D E)) : List String :=
  es.filterMap fun
    | .parseOnce id => some id
    | _ => none

/-- The ids whose parse is started. -/
def parsed (out : List (Obs D E)) : List String := (SingleFlight.starts out).map Prod.snd

end Contract

end InterviewPrep.RequestDedup.TypeScript
