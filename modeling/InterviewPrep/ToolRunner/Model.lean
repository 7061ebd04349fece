import Mathlib.Data.Rat.Floor
import InterviewPrep.Lib.Machine

/-!
# Bounded parallel tool runner

`runTools` of `technical/bounded_parallel_tool_runner/answer.ts`. The workers
share an index and a result array; a worker runs without interruption from one
`await` to the next, so a step of the machine is such a stretch:

* `start`: `Array.from` starts the next worker, which runs to its first `await`;
* `handlerEnds`: the promise of a handler settles;
* `resumeTool`: `runTool` resumes after its handler and returns or throws;
* `resumeWorker`: a worker resumes after `runTool`, stores the result and runs
  on to its next `await`;
* `abort`: the signal is aborted.

A stretch invokes at most one handler. What the handler does synchronously, that
is, whether it aborts the signal and whether it throws, is part of the event.
-/

namespace InterviewPrep.ToolRunner

/-! ## JavaScript numbers -/

/-- A number, without rounding. -/
inductive JsNumber where
  | nan
  | negInfinity
  | finite (q : ℚ)
  | infinity
deriving DecidableEq

namespace JsNumber

/-- `x <= 0` -/
def leZero : JsNumber → Bool
  | nan => false
  | negInfinity => true
  | finite q => decide (q ≤ 0)
  | infinity => false

/-- `Math.min(x, n)` -/
def min : JsNumber → ℕ → JsNumber
  | nan, _ => nan
  | negInfinity, _ => negInfinity
  | finite q, n => if q ≤ n then finite q else finite n
  | infinity, n => finite n

/-- The number of elements of `Array.from({length: x})`. -/
def toLength : JsNumber → ℕ
  | nan => 0
  | negInfinity => 0
  | finite q => ⌊q⌋.toNat
  | infinity => 2 ^ 53 - 1

end JsNumber

/-! ## The data -/

structure ToolRequest (A : Type) where
  id : String
  args : A

inductive ToolResult (V : Type) where
  | succeeded (id : String) (value : V)
  | failed (id message : String)
  | cancelled (id : String)

namespace ToolResult

variable {V : Type}

def id : ToolResult V → String
  | succeeded id _ => id
  | failed id _ => id
  | cancelled id => id

end ToolResult

/-- How the promise of a handler settles. -/
inductive Outcome (V E : Type) where
  | fulfilled (value : V)
  | rejected (err : E)

/-- What a handler does before it returns its promise. -/
structure HandlerCall (E : Type) where
  aborts : Bool
  throws : Option E

/-- Where a worker stands, with the index it has claimed and the id of that
request. -/
inductive Worker (V E : Type) where
  /-- at the head of its loop, or not started yet -/
  | atLoop
  /-- `await handler(req, signal)` -/
  | awaitingHandler (index : ℕ) (id : String)
  /-- the promise of the handler has settled -/
  | handlerEnded (index : ℕ) (id : String) (outcome : Outcome V E)
  /-- `runTool` has returned -/
  | toolDone (index : ℕ) (result : ToolResult V)
  /-- `runTool` has thrown, and so rejects the worker -/
  | rejected (index : ℕ)
  | finished

namespace Worker

variable {V E : Type}

/-- The index that a worker has claimed and not stored yet. -/
def index : Worker V E → Option ℕ
  | atLoop => none
  | awaitingHandler i _ => some i
  | handlerEnded i _ _ => some i
  | toolDone i _ => some i
  | rejected i => some i
  | finished => none

def isAwaiting : Worker V E → Bool
  | awaitingHandler _ _ => true
  | _ => false

def isFinished : Worker V E → Bool
  | finished => true
  | _ => false

end Worker

/-- The state of a call of `runTools`. -/
structure Runner (V E : Type) where
  aborted : Bool
  /-- the number of workers that `Array.from` has started -/
  started : ℕ
  nextIndex : ℕ
  workers : List (Worker V E)
  res : List (Option (ToolResult V))

namespace Runner

variable {V E : Type}

def setWorker (s : Runner V E) (w : ℕ) (x : Worker V E) : Runner V E :=
  { s with workers := s.workers.set w x }

/-- `res[i] = r` -/
def store (s : Runner V E) (i : ℕ) (r : ToolResult V) : Runner V E :=
  { s with res := s.res.set i (some r) }

end Runner

inductive Event (V E : Type) where
  | start (call : HandlerCall E)
  | handlerEnds (w : ℕ) (outcome : Outcome V E)
  | resumeTool (w : ℕ)
  | resumeWorker (w : ℕ) (call : HandlerCall E)
  | abort

/-- `resumed` is the return from the `await` of a handler, or its synchronous
throw, with the value of `signal.aborted` that `runTool` reads there. -/
inductive Obs (V E : Type) where
  | invoked (index : ℕ)
  | ended (index : ℕ) (outcome : Outcome V E)
  | resumed (index : ℕ) (aborted : Bool)
  | aborted

/-! ## The program -/

section Program

variable {A V E : Type}

/-- What `runTool` returns after its handler, or `none` if it throws;
`errorMessage` is `err instanceof Error ? err.message : String(err)`, which
throws for some values. -/
def conclude (errorMessage : E → Option String) (id : String) (aborted : Bool) :
    Outcome V E → Option (ToolResult V)
  | .fulfilled value => some (if aborted then .cancelled id else .succeeded id value)
  | .rejected err => if aborted then some (.cancelled id) else (errorMessage err).map (.failed id)

variable (errorMessage : E → Option String)

/-- `runTool` resumes after its handler. -/
def resumeTool (w i : ℕ) (id : String) (outcome : Outcome V E) (s : Runner V E) :
    Runner V E × List (Obs V E) :=
  (s.setWorker w (match conclude errorMessage id s.aborted outcome with
    | some r => .toolDone i r
    | none => .rejected i),
   [.resumed i s.aborted])

/-- The call of the handler in `runTool`, and its `catch` if the handler throws
synchronously. -/
def invoke (w i : ℕ) (id : String) (call : HandlerCall E) (s : Runner V E) :
    Runner V E × List (Obs V E) :=
  let s₁ := s.setWorker w (.awaitingHandler i id)
  let s₂ := if call.aborts then { s₁ with aborted := true } else s₁
  let called : List (Obs V E) := if call.aborts then [.invoked i, .aborted] else [.invoked i]
  match call.throws with
  | none => (s₂, called)
  | some err =>
    let (s₃, out) := resumeTool errorMessage w i id (.rejected err) s₂
    (s₃, called ++ .ended i (.rejected err) :: out)

/-- `runTool`, up to its first `await`. -/
def runTool (w i : ℕ) (req : ToolRequest A) (call : HandlerCall E) (s : Runner V E) :
    Runner V E × List (Obs V E) :=
  if s.aborted then (s.setWorker w (.toolDone i (.cancelled req.id)), [])
  else invoke errorMessage w i req.id call s

/-- The loop of a worker up to its next `await`; the list is what is left of
`requests` from `nextIndex` on. -/
def loop (w : ℕ) (call : HandlerCall E) :
    List (ToolRequest A) → Runner V E → Runner V E × List (Obs V E)
  | [], s => (s.setWorker w .finished, [])
  | req :: rest, s =>
    let currentIndex := s.nextIndex
    let s₁ : Runner V E := { s with nextIndex := currentIndex + 1 }
    if s.aborted then loop w call rest (s₁.store currentIndex (.cancelled req.id))
    else runTool errorMessage w currentIndex req call s₁

variable (requests : List (ToolRequest A))

def step (s : Runner V E) : Event V E → Option (Runner V E × List (Obs V E))
  | .start call =>
    match s.workers[s.started]? with
    | some .atLoop =>
      some (loop errorMessage s.started call (requests.drop s.nextIndex)
        { s with started := s.started + 1 })
    | _ => none
  | .handlerEnds w outcome =>
    if s.started = s.workers.length then
      match s.workers[w]? with
      | some (.awaitingHandler i id) =>
        some (s.setWorker w (.handlerEnded i id outcome), [.ended i outcome])
      | _ => none
    else none
  | .resumeTool w =>
    if s.started = s.workers.length then
      match s.workers[w]? with
      | some (.handlerEnded i id outcome) => some (resumeTool errorMessage w i id outcome s)
      | _ => none
    else none
  | .resumeWorker w call =>
    if s.started = s.workers.length then
      match s.workers[w]? with
      | some (.toolDone i r) =>
        some (loop errorMessage w call (requests.drop s.nextIndex) ((s.store i r).setWorker w .atLoop))
      | _ => none
    else none
  | .abort =>
    if s.started = s.workers.length ∧ s.aborted = false then
      some ({ s with aborted := true }, [.aborted])
    else none

/-- `poolSize`, as the number of workers that are created. -/
def poolSize (maxConcurrency : JsNumber) : ℕ := (maxConcurrency.min requests.length).toLength

/-- The state after the argument check. The signal may be aborted before the
call. Without requests there is no worker, and nothing to wait for. -/
def init (maxConcurrency : JsNumber) (aborted : Bool) : Runner V E where
  aborted := aborted
  started := 0
  nextIndex := 0
  workers := if requests.length = 0 then []
    else List.replicate (poolSize requests maxConcurrency) .atLoop
  res := List.replicate requests.length none

/-- The runs of `runTools` behind the argument check. -/
def machine (maxConcurrency : JsNumber) (aborted : Bool) :
    Machine (Runner V E) (Event V E) (Obs V E) where
  init := init requests maxConcurrency aborted
  step := step errorMessage requests

/-- `runTools`: it throws, or starts a run. -/
def runTools (maxConcurrency : JsNumber) (aborted : Bool) :
    Except String (Machine (Runner V E) (Event V E) (Obs V E)) :=
  if maxConcurrency.leZero then .error "maxConcurrency must be a positive integer."
  else .ok (machine errorMessage requests maxConcurrency aborted)

/-- `await Promise.all(workers)` is fulfilled: the array that is returned. -/
def returned (s : Runner V E) : Option (List (Option (ToolResult V))) :=
  if s.started = s.workers.length ∧ s.workers.all Worker.isFinished then
    some s.res
  else none

end Program

end InterviewPrep.ToolRunner
