import InterviewPrep.IdempotentExecutor.Model

/-!
# Idempotent tool executor, TypeScript

`IdempotentExecutor` of `technical/idempotent_tool_executor/answer.ts`. An async
function runs synchronously up to its first `await`, so `execute` runs `run`, and
`run` calls the handler, before the execution is entered into the map. The
handlers whose synchronous part is running form a stack; while it is not empty
the code that runs is that of the topmost handler, which may itself call
`execute`, and no promise settles.

* `call`: a call of `execute`, up to the call of the handler if there is one;
* `handlerReturns`: the synchronous part of the topmost handler returns its
  promise or throws, and the execution is entered into the map;
* `settle`: the race of the handler and the timer is decided;
* `receive`: a caller receives the result of its execution.
-/

namespace InterviewPrep.IdempotentExecutor.TypeScript

/-- How the race in `run` is decided. -/
inductive RaceEnd (V E : Type) where
  | fulfilled (value : V)
  /-- the timer rejects with the `TimeoutError` of the module -/
  | timeout
  | rejected (err : E)

/-- The state of an execution; it is settled with the result of `run`, or with
`none` if `run` throws. -/
inductive ExecutionStatus (V : Type) where
  | handlerRuns
  | pending
  | settled (result : Option (ExecutionResult V))

structure Execution (A V : Type) where
  call : ToolCall A
  status : ExecutionStatus V

/-- A call of `execute`, the execution it returned, and what was received from
it. -/
structure Caller (A V : Type) where
  call : ToolCall A
  execution : ℕ
  received : Option (Option (ExecutionResult V))

structure Executor (A V : Type) where
  executions : OrderedDict String ℕ
  all : List (Execution A V)
  /-- the executions whose handler is running synchronously, topmost first -/
  stack : List ℕ
  callers : List (Caller A V)

inductive Event (A V E : Type) where
  | call (call : ToolCall A)
  | handlerReturns (throws : Option E)
  | settle (execution : ℕ) (outcome : RaceEnd V E)
  | receive (caller : ℕ)

inductive Obs (A V : Type) where
  | invoked (call : ToolCall A)
  | received (caller : ℕ) (call : ToolCall A) (result : Option (ExecutionResult V))

section Program

variable {A V E : Type}

/-- What `run` returns; `errorMessage` is
`error instanceof Error ? error.message : String(error)`, which throws for some
values. -/
def run (errorMessage : E → Option String) : RaceEnd V E → Option (ExecutionResult V)
  | .fulfilled value => some (.Completed value)
  | .timeout => some .Indeterminate
  | .rejected err => (errorMessage err).map .Failed

def init : Executor A V := ⟨OrderedDict.empty, [], [], []⟩

def setStatus (s : Executor A V) (e : ℕ) (call : ToolCall A) (status : ExecutionStatus V) :
    Executor A V :=
  { s with all := s.all.set e ⟨call, status⟩ }

variable (errorMessage : E → Option String)

/-- The state of an execution whose handler has returned its promise, or has
thrown. -/
def afterHandler : Option E → ExecutionStatus V
  | none => .pending
  | some err => .settled (run errorMessage (.rejected err : RaceEnd V E))

def step (s : Executor A V) : Event A V E → Option (Executor A V × List (Obs A V))
  | .call call =>
    match s.executions.get? (_make_key call) with
    | some existing => some ({ s with callers := s.callers ++ [⟨call, existing, none⟩] }, [])
    | none =>
      let execution := s.all.length
      some
        ({ s with
            all := s.all ++ [⟨call, .handlerRuns⟩]
            stack := execution :: s.stack
            callers := s.callers ++ [⟨call, execution, none⟩] },
          [.invoked call])
  | .handlerReturns throws =>
    match s.stack with
    | [] => none
    | execution :: stack =>
      match s.all[execution]? with
      | some ⟨call, .handlerRuns⟩ =>
        some
          (setStatus
            { s with
              stack := stack
              executions := s.executions.setItem (_make_key call) execution }
            execution call (afterHandler errorMessage throws), [])
      | _ => none
  | .settle execution outcome =>
    match s.stack, s.all[execution]? with
    | [], some ⟨call, .pending⟩ =>
      some (setStatus s execution call (.settled (run errorMessage outcome)), [])
    | _, _ => none
  | .receive c =>
    match s.stack, s.callers[c]? with
    | [], some ⟨call, execution, none⟩ =>
      match s.all[execution]? with
      | some ⟨_, .settled result⟩ =>
        some ({ s with callers := s.callers.set c ⟨call, execution, some result⟩ },
          [.received c call result])
      | _ => none
    | _, _ => none

def machine (A V : Type) {E : Type} (errorMessage : E → Option String) :
    Machine (Executor A V) (Event A V E) (Obs A V) where
  init := init
  step := step errorMessage

end Program

/-! ## What a step does -/

variable {A V E : Type}

/-- The changes of one step. -/
inductive Step (errorMessage : E → Option String) (s : Executor A V) :
    Event A V E → Executor A V → List (Obs A V) → Prop where
  | callExisting {call : ToolCall A} {existing : ℕ} :
      s.executions.get? (_make_key call) = some existing →
      Step errorMessage s (.call call)
        { s with callers := s.callers ++ [⟨call, existing, none⟩] } []
  | callNew {call : ToolCall A} : s.executions.get? (_make_key call) = none →
      Step errorMessage s (.call call)
        { s with
          all := s.all ++ [⟨call, .handlerRuns⟩]
          stack := s.all.length :: s.stack
          callers := s.callers ++ [⟨call, s.all.length, none⟩] }
        [.invoked call]
  | handlerReturns {execution : ℕ} {stack : List ℕ} {call : ToolCall A} (throws : Option E) :
      s.stack = execution :: stack → s.all[execution]? = some ⟨call, .handlerRuns⟩ →
      Step errorMessage s (.handlerReturns throws)
        (setStatus
          { s with
            stack := stack
            executions := s.executions.setItem (_make_key call) execution }
          execution call (afterHandler errorMessage throws)) []
  | settle {execution : ℕ} {call : ToolCall A} (outcome : RaceEnd V E) :
      s.stack = [] → s.all[execution]? = some ⟨call, .pending⟩ →
      Step errorMessage s (.settle execution outcome)
        (setStatus s execution call (.settled (run errorMessage outcome))) []
  | receive {c : ℕ} {call call' : ToolCall A} {execution : ℕ}
      {result : Option (ExecutionResult V)} : s.stack = [] →
      s.callers[c]? = some ⟨call, execution, none⟩ →
      s.all[execution]? = some ⟨call', .settled result⟩ →
      Step errorMessage s (.receive c)
        { s with callers := s.callers.set c ⟨call, execution, some result⟩ }
        [.received c call result]

theorem step_cases {errorMessage : E → Option String} {s s' : Executor A V} {e : Event A V E}
    {out : List (Obs A V)} (h : step errorMessage s e = some (s', out)) :
    Step errorMessage s e s' out := by
  cases e with
  | call call =>
    simp only [step] at h
    split at h
    · rename_i hget
      cases h
      exact .callExisting hget
    · rename_i hget
      cases h
      exact .callNew hget
  | handlerReturns throws =>
    simp only [step] at h
    split at h
    · cases h
    · rename_i hstack
      split at h
      · rename_i hall
        cases h
        exact .handlerReturns throws hstack hall
      · cases h
  | settle execution outcome =>
    simp only [step] at h
    split at h
    · rename_i hstack hall
      cases h
      exact .settle outcome hstack hall
    · cases h
  | receive c =>
    simp only [step] at h
    split at h
    · rename_i hstack hcaller
      split at h
      · rename_i hall
        cases h
        exact .receive hstack hcaller hall
      · cases h
    · cases h

end InterviewPrep.IdempotentExecutor.TypeScript
