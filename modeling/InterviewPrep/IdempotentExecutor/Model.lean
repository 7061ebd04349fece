import InterviewPrep.Lib.Machine
import InterviewPrep.Lib.OrderedDict

/-!
# Idempotent tool executor, Python

`IdempotentExecutor` of `technical/idempotent_tool_executor/answer.py` under
asyncio. Code between two awaits is one step:

* `execute`: a caller computes the key and waits for the lock;
* `acquire`: a waiting caller takes the lock and runs the body of `async with`,
  where it finds a task, and awaits it with the lock, or creates one, and awaits
  it after the lock is released;
* `taskStart`: `_run` starts and invokes the handler;
* `taskEnds`: `asyncio.wait_for` returns or raises in `_run`;
* `resume`: a caller resumes after the task that it awaits;
* `cancel`: a caller is cancelled. The cancellation of a caller that is suspended
  on an unfinished task goes to the task.
-/

namespace InterviewPrep.IdempotentExecutor

/-! ## The data -/

structure ToolCall (A : Type) where
  tenant_id : String
  tool_name : String
  idempotency_key : String
  args : A

inductive ExecutionResult (V : Type) where
  | Completed (value : V)
  | Failed (message : String)
  | Indeterminate
deriving DecidableEq

/-- `_make_key` -/
def _make_key {A : Type} (call : ToolCall A) : String :=
  call.tenant_id ++ ":" ++ call.tool_name ++ ":" ++ call.idempotency_key

/-- How `await asyncio.wait_for(handler(call.args), ..)` ends in `_run`. An `Exception`
whose `str` raises, and a handler that raises `CancelledError` itself, are left out. -/
inductive HandlerEnd (V : Type) where
  | returned (value : V)
  /-- `asyncio.TimeoutError` -/
  | timeoutError
  /-- another `Exception`, with its `str` -/
  | exception (message : String)

/-- What `_run` returns. -/
def _run {V : Type} : HandlerEnd V → ExecutionResult V
  | .returned value => .Completed value
  | .timeoutError => .Indeterminate
  | .exception message => .Failed message

namespace Python

/-- The state of a task that runs `_run`. -/
inductive TaskStatus (V : Type) where
  | created
  | running
  | done (result : ExecutionResult V)
  | cancelled

def TaskStatus.unfinished {V : Type} : TaskStatus V → Bool
  | created => true
  | running => true
  | done _ => false
  | cancelled => false

structure Task (A V : Type) where
  call : ToolCall A
  status : TaskStatus V

/-- Where a call of `execute` stands. -/
inductive CallerState (V : Type) where
  /-- suspended in the acquisition of the lock -/
  | waiting
  /-- suspended on a task, inside `async with` or behind it -/
  | joined (task : ℕ) (holdsLock : Bool)
  | returned (task : ℕ) (result : ExecutionResult V)
  /-- `CancelledError` was raised in it -/
  | cancelledError

structure Caller (A V : Type) where
  call : ToolCall A
  state : CallerState V

/-- An executor with the tasks it has created and the calls made to it. -/
structure Executor (A V : Type) where
  executions : OrderedDict String ℕ
  /-- the caller that holds `self.lock` -/
  lock : Option ℕ
  tasks : List (Task A V)
  callers : List (Caller A V)

inductive Event (A V : Type) where
  | execute (call : ToolCall A)
  | acquire (caller : ℕ)
  | taskStart (task : ℕ)
  | taskEnds (task : ℕ) (outcome : HandlerEnd V)
  | resume (caller : ℕ)
  | cancel (caller : ℕ)

inductive Obs (A V : Type) where
  | invoked (call : ToolCall A)
  | ended (call : ToolCall A) (outcome : HandlerEnd V)
  | returned (caller : ℕ) (call : ToolCall A) (result : ExecutionResult V)
  | cancelledError (caller : ℕ) (call : ToolCall A)

section Program

variable {A V : Type}

def init : Executor A V := ⟨OrderedDict.empty, none, [], []⟩

def setCaller (s : Executor A V) (c : ℕ) (call : ToolCall A) (state : CallerState V) :
    Executor A V :=
  { s with callers := s.callers.set c ⟨call, state⟩ }

def setTask (s : Executor A V) (t : ℕ) (call : ToolCall A) (status : TaskStatus V) :
    Executor A V :=
  { s with tasks := s.tasks.set t ⟨call, status⟩ }

/-- Leave `async with`, if the caller is inside. -/
def release (holdsLock : Bool) (s : Executor A V) : Executor A V :=
  { s with lock := if holdsLock then none else s.lock }

/-- The body of `async with self.lock`, and the exit from it where a task was
created. -/
def enter (s : Executor A V) (c : ℕ) (call : ToolCall A) : Executor A V :=
  match s.executions.get? (_make_key call) with
  | some existing => setCaller { s with lock := some c } c call (.joined existing true)
  | none =>
    let task := s.tasks.length
    setCaller
      { s with
        tasks := s.tasks ++ [⟨call, .created⟩]
        executions := s.executions.setItem (_make_key call) task }
      c call (.joined task false)

def step (s : Executor A V) : Event A V → Option (Executor A V × List (Obs A V))
  | .execute call => some ({ s with callers := s.callers ++ [⟨call, .waiting⟩] }, [])
  | .acquire c =>
    match s.lock, s.callers[c]? with
    | none, some ⟨call, .waiting⟩ => some (enter s c call, [])
    | _, _ => none
  | .taskStart t =>
    match s.tasks[t]? with
    | some ⟨call, .created⟩ => some (setTask s t call .running, [.invoked call])
    | _ => none
  | .taskEnds t outcome =>
    match s.tasks[t]? with
    | some ⟨call, .running⟩ =>
      some (setTask s t call (.done (_run outcome)), [.ended call outcome])
    | _ => none
  | .resume c =>
    match s.callers[c]? with
    | some ⟨call, .joined t holdsLock⟩ =>
      match s.tasks[t]? with
      | some ⟨_, .done result⟩ =>
        some (setCaller (release holdsLock s) c call (.returned t result),
          [.returned c call result])
      | some ⟨_, .cancelled⟩ =>
        some (setCaller (release holdsLock s) c call .cancelledError, [.cancelledError c call])
      | _ => none
    | _ => none
  | .cancel c =>
    match s.callers[c]? with
    | some ⟨call, .waiting⟩ => some (setCaller s c call .cancelledError, [.cancelledError c call])
    | some ⟨call, .joined t holdsLock⟩ =>
      match s.tasks[t]? with
      | some ⟨call', status⟩ =>
        if status.unfinished then some (setTask s t call' .cancelled, [])
        else
          some (setCaller (release holdsLock s) c call .cancelledError, [.cancelledError c call])
      | none => none
    | _ => none

def machine (A V : Type) : Machine (Executor A V) (Event A V) (Obs A V) where
  init := init
  step := step

end Program

end Python

end InterviewPrep.IdempotentExecutor
