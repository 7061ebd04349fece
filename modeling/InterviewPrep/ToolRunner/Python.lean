import InterviewPrep.Lib.Slots
import InterviewPrep.Lib.Termination
import InterviewPrep.ToolRunner.Contract

/-!
# The Python tool runner

`run_tools` of `technical/bounded_parallel_tool_runner/answer.py`. The workers
are tasks, which `asyncio.gather` waits for; the first one that raises is the
end of the call. A worker runs without interruption from one suspension to the
next:

* `start`: the event loop runs a task for the first time;
* `handlerEnds`: the awaitable of a handler ends;
* `resume`: a worker resumes after its handler, stores the result and goes on;
* `set`: the event is set;
* `resumeMain`: `await asyncio.gather(*tasks)` resumes.

A worker that holds the lock does not suspend, so `async with lock` does not
wait: it enters its body, or raises where the name is not bound. In this module
it is not bound (`lock_unbound`), and no call gets further
(`run_tools_raises`).
-/

namespace InterviewPrep.ToolRunner.Python

/-! ## Names -/

/-- What the module binds. -/
def moduleNames : List String :=
  ["__name__", "__doc__", "__package__", "__loader__", "__spec__", "__file__", "__cached__",
    "__builtins__", "asyncio", "Awaitable", "Callable", "Generic", "List", "TypeVar", "TypedDict",
    "Union", "TArgs", "TResult", "ToolRequest", "SucceededToolResult", "FailedToolResult",
    "CancelledToolResult", "ToolResult", "run_tools"]

/-- The functions, types and constants of `builtins`. -/
def builtinNames : List String :=
  ["False", "True", "None", "NotImplemented", "Ellipsis", "__debug__", "__import__",
    "__build_class__", "abs", "aiter", "all", "anext", "any", "ascii", "bin", "bool", "breakpoint",
    "bytearray", "bytes", "callable", "chr", "classmethod", "compile", "complex", "delattr", "dict",
    "dir", "divmod", "enumerate", "eval", "exec", "filter", "float", "format", "frozenset",
    "getattr", "globals", "hasattr", "hash", "hex", "id", "input", "int", "isinstance",
    "issubclass", "iter", "len", "list", "locals", "map", "max", "memoryview", "min", "next",
    "object", "oct", "open", "ord", "pow", "print", "property", "range", "repr", "reversed",
    "round", "set", "setattr", "slice", "sorted", "staticmethod", "str", "sum", "super", "tuple",
    "type", "vars", "zip"]

/-- The exceptions and warnings of `builtins`. -/
def exceptionNames : List String :=
  ["ArithmeticError", "AssertionError", "AttributeError", "BaseException", "BaseExceptionGroup",
    "BlockingIOError", "BrokenPipeError", "BufferError", "BytesWarning", "ChildProcessError",
    "ConnectionAbortedError", "ConnectionError", "ConnectionRefusedError", "ConnectionResetError",
    "DeprecationWarning", "EOFError", "EncodingWarning", "EnvironmentError", "Exception",
    "ExceptionGroup", "FileExistsError", "FileNotFoundError", "FloatingPointError",
    "FutureWarning", "GeneratorExit", "IOError", "ImportError", "ImportWarning",
    "IndentationError", "IndexError", "InterruptedError", "IsADirectoryError", "KeyError",
    "KeyboardInterrupt", "LookupError", "MemoryError", "ModuleNotFoundError", "NameError",
    "NotADirectoryError", "NotImplementedError", "OSError", "OverflowError",
    "PendingDeprecationWarning", "PermissionError", "ProcessLookupError", "RecursionError",
    "ReferenceError", "ResourceWarning", "RuntimeError", "RuntimeWarning", "StopAsyncIteration",
    "StopIteration", "SyntaxError", "SyntaxWarning", "SystemError", "SystemExit", "TabError",
    "TimeoutError", "TypeError", "UnboundLocalError", "UnicodeDecodeError", "UnicodeEncodeError",
    "UnicodeError", "UnicodeTranslateError", "UnicodeWarning", "UserWarning", "ValueError",
    "Warning", "ZeroDivisionError"]

/-- The scopes in which a worker looks a name up, from its own locals and those
of `run_tools` outwards. -/
def workerScope : List String :=
  ["index"] ++ ["requests", "handler", "max_concurrency", "signal", "res", "next_index",
    "run_tool", "worker", "pool_size", "tasks"] ++ moduleNames ++ builtinNames ++ exceptionNames

theorem lock_unbound : "lock" ∉ workerScope := by decide +kernel

/-- The other names that a worker reads. -/
example : ∀ name ∈ ["next_index", "len", "requests", "index", "signal", "res", "run_tool"],
    name ∈ workerScope := by decide +kernel

/-! ## The state -/

inductive Exc (E : Type) where
  | valueError (message : String)
  | nameError (name : String)
  | raised (err : E)
deriving DecidableEq

/-- Where a task stands. -/
inductive Worker (V E : Type) where
  /-- not run yet -/
  | created
  /-- `await handler(request, signal)` -/
  | awaitingHandler (index : ℕ) (id : String)
  /-- the awaitable of the handler has ended -/
  | handlerEnded (index : ℕ) (id : String) (outcome : Outcome V E)
  | finished
  | failed (exc : Exc E)

def Worker.isFinished {V E : Type} : Worker V E → Bool
  | finished => true
  | _ => false

def Worker.isCreated {V E : Type} : Worker V E → Bool
  | created => true
  | _ => false

/-- Where the call of `run_tools` stands. -/
inductive Main (V E : Type) where
  | awaiting
  | returned (res : List (Option (ToolResult V)))
  | raised (exc : Exc E)

structure State (V E : Type) where
  signal : Bool
  next_index : ℕ
  tasks : List (Worker V E)
  res : List (Option (ToolResult V))
  /-- the exception that `gather` was given first -/
  failure : Option (Exc E)
  main : Main V E

/-- What a handler does before it suspends: it may set the event, and it may end
without suspending at all. -/
structure HandlerCall (V E : Type) where
  sets : Bool
  ends : Option (Outcome V E)

inductive Event (V E : Type) where
  | start (w : ℕ) (call : HandlerCall V E)
  | handlerEnds (w : ℕ) (outcome : Outcome V E)
  | resume (w : ℕ) (call : HandlerCall V E)
  | set
  | resumeMain

namespace State

variable {V E : Type}

def setTask (s : State V E) (w : ℕ) (x : Worker V E) : State V E :=
  { s with tasks := s.tasks.set w x }

/-- `res[i] = r` -/
def store (s : State V E) (i : ℕ) (r : ToolResult V) : State V E :=
  { s with res := s.res.set i (some r) }

/-- A task raises, and `gather` hears of it. -/
def fail (s : State V E) (w : ℕ) (exc : Exc E) : State V E :=
  { s.setTask w (.failed exc) with failure := s.failure.or (some exc) }

end State

/-! ## The program -/

section Program

variable {A V E : Type}

/-- The end of `run_tool` after its handler; `isException` is what
`except Exception` catches, and `str` may raise itself. -/
def conclude (isException : E → Bool) (str : E → Except E String) (id : String) (signal : Bool) :
    Outcome V E → Except E (ToolResult V)
  | .fulfilled value => .ok (if signal then .cancelled id else .succeeded id value)
  | .rejected err =>
    if isException err then
      if signal then .ok (.cancelled id) else (str err).map (.failed id)
    else .error err

/-- The call of the handler. Where it ends without suspending, its worker resumes
at any later time, which allows more orders than the event loop has. -/
def invoke (w i : ℕ) (id : String) (call : HandlerCall V E) (s : State V E) :
    State V E × List (Obs V E) :=
  let s₁ := if call.sets then { s with signal := true } else s
  let called : List (Obs V E) := if call.sets then [.invoked i, .aborted] else [.invoked i]
  match call.ends with
  | none => (s₁.setTask w (.awaitingHandler i id), called)
  | some outcome => (s₁.setTask w (.handlerEnded i id outcome), called ++ [.ended i outcome])

/-- `run_tool`, which returns at once or awaits its handler. -/
def run_tool (w i : ℕ) (request : ToolRequest A) (call : HandlerCall V E) (s : State V E) :
    ToolResult V ⊕ (State V E × List (Obs V E)) :=
  if s.signal then .inl (.cancelled request.id)
  else .inr (invoke w i request.id call s)

variable (scope : List String)

/-- The loop of a worker up to its next suspension; the list is what is left of
`requests` from `next_index` on. -/
def loop (w : ℕ) (call : HandlerCall V E) :
    List (ToolRequest A) → State V E → State V E × List (Obs V E)
  | [], s =>
    if "lock" ∈ scope then (s.setTask w .finished, [])
    else (s.fail w (.nameError "lock"), [])
  | request :: rest, s =>
    if "lock" ∈ scope then
      let index := s.next_index
      let s₁ : State V E := { s with next_index := index + 1 }
      if s.signal then loop w call rest (s₁.store index (.cancelled request.id))
      else
        match run_tool w index request call s₁ with
        | .inl result => loop w call rest (s₁.store index result)
        | .inr r => r
    else (s.fail w (.nameError "lock"), [])

variable (isException : E → Bool) (str : E → Except E String) (requests : List (ToolRequest A))

def step (s : State V E) : Event V E → Option (State V E × List (Obs V E))
  | .start w call =>
    match s.tasks[w]? with
    | some .created => some (loop scope w call (requests.drop s.next_index) s)
    | _ => none
  | .handlerEnds w outcome =>
    match s.tasks[w]? with
    | some (.awaitingHandler i id) =>
      some (s.setTask w (.handlerEnded i id outcome), [.ended i outcome])
    | _ => none
  | .resume w call =>
    match s.tasks[w]? with
    | some (.handlerEnded i id outcome) =>
      match conclude isException str id s.signal outcome with
      | .ok r =>
        let (s', out) := loop scope w call (requests.drop s.next_index) (s.store i r)
        some (s', .resumed i s.signal :: out)
      | .error err => some (s.fail w (.raised err), [.resumed i s.signal])
    | _ => none
  | .set => if s.signal then none else some ({ s with signal := true }, [.aborted])
  | .resumeMain =>
    match s.main, s.failure with
    | .awaiting, some exc => some ({ s with main := .raised exc }, [])
    | .awaiting, none =>
      if s.tasks.all Worker.isFinished then some ({ s with main := .returned s.res }, []) else none
    | _, _ => none

/-- `pool_size` -/
def pool_size (max_concurrency : ℤ) : ℕ := (min max_concurrency requests.length).toNat

/-- `run_tools` up to its first suspension: it returns, raises, or awaits its
tasks. The event may be set before the call. -/
def init (max_concurrency : ℤ) (signal : Bool) : State V E :=
  if requests = [] then ⟨signal, 0, [], [], none, .returned []⟩
  else
    let res := List.replicate requests.length none
    if max_concurrency ≤ 0 then
      ⟨signal, 0, [], res, none, .raised (.valueError "max_concurrency must be greater than 0")⟩
    else ⟨signal, 0, List.replicate (pool_size requests max_concurrency) .created, res, none,
      .awaiting⟩

/-- A call of `run_tools` where a worker sees the names in `scope`. -/
def machine (max_concurrency : ℤ) (signal : Bool) : Machine (State V E) (Event V E) (Obs V E) where
  init := init requests max_concurrency signal
  step := step scope isException str requests

/-- A call of `run_tools`. -/
def run_tools (max_concurrency : ℤ) (signal : Bool) :
    Machine (State V E) (Event V E) (Obs V E) :=
  machine workerScope isException str requests max_concurrency signal

end Program

/-! ## The property -/

section Property

variable {A V E : Type}

/-- What `run_contract` proves of the array that `runTools` returns: one result
for each request, in their order, that says what happened to it. -/
def Honours (requests : List (ToolRequest A)) (signal₀ : Bool) (tr : List (Obs V E))
    (s : State V E) : Prop :=
  ∃ res, s.main = .returned res ∧ res.length = requests.length ∧
    ∀ (i : ℕ) request, requests[i]? = some request →
      ∃ r, res[i]? = some (some r) ∧ ResultOk signal₀ tr i request r

/-- A call honours the contract: whenever it is over, it has returned such an
array. -/
def HonoursContract (M : Machine (State V E) (Event V E) (Obs V E))
    (requests : List (ToolRequest A)) (signal₀ : Bool) : Prop :=
  ∀ es tr s, M.Run es tr s → s.main ≠ .awaiting → Honours requests signal₀ tr s

end Property

/-! ## A worker without its lock -/

section Unbound

variable {A V E : Type} {scope : List String} {isException : E → Bool}
  {str : E → Except E String} {requests : List (ToolRequest A)} {s s' : State V E}
  {e : Event V E} {out : List (Obs V E)}

/-- A worker raises at the head of its loop. -/
theorem loop_unbound (hlock : "lock" ∉ scope) (w : ℕ) (call : HandlerCall V E)
    (rest : List (ToolRequest A)) (s : State V E) :
    loop scope w call rest s = (s.fail w (.nameError "lock"), []) := by
  cases rest with
  | nil => rw [loop, if_neg hlock]
  | cons request rest => rw [loop, if_neg hlock]

/-- No task has got beyond the lock. -/
structure Stuck (s : State V E) : Prop where
  nonempty : s.tasks ≠ []
  tasks : ∀ x ∈ s.tasks, x = .created ∨ x = .failed (.nameError "lock")
  failure : s.failure = some (.nameError "lock") ∨
    (s.failure = none ∧ ∀ x ∈ s.tasks, x = .created)
  main : s.main = .awaiting ∨ s.main = .raised (.nameError "lock")

/-- The steps of a call in which no task gets beyond the lock. -/
inductive StuckStep (s : State V E) : Event V E → State V E → List (Obs V E) → Prop where
  | started {w : ℕ} {call : HandlerCall V E} (hw : s.tasks[w]? = some .created) :
      StuckStep s (.start w call) (s.fail w (.nameError "lock")) []
  | set (hsignal : s.signal = false) : StuckStep s .set { s with signal := true } [.aborted]
  | raised (hmain : s.main = .awaiting) (hfailure : s.failure = some (.nameError "lock")) :
      StuckStep s .resumeMain { s with main := .raised (.nameError "lock") } []

/-- No task has finished. -/
theorem Stuck.not_finished (h : Stuck s) : s.tasks.all Worker.isFinished = false := by
  rcases List.exists_mem_of_ne_nil s.tasks h.nonempty with ⟨x, hx⟩
  rw [List.all_eq_false]
  refine ⟨x, hx, ?_⟩
  rcases h.tasks x hx with rfl | rfl
  · exact Bool.false_ne_true
  · exact Bool.false_ne_true

theorem Stuck.task_cases (h : Stuck s) {w : ℕ} {x : Worker V E} (hw : s.tasks[w]? = some x) :
    x = .created ∨ x = .failed (.nameError "lock") :=
  h.tasks x (List.mem_of_getElem? hw)

/-- The inversion of `step`. -/
theorem Stuck.step_cases (hlock : "lock" ∉ scope) (h : Stuck s)
    (hstep : step scope isException str requests s e = some (s', out)) :
    StuckStep s e s' out := by
  cases e with
  | start w call =>
    simp only [step, loop_unbound hlock] at hstep
    split at hstep
    · cases hstep
      exact .started ‹_›
    · cases hstep
  | handlerEnds w outcome =>
    simp only [step] at hstep
    split at hstep
    · -- a task at its handler
      rcases h.task_cases ‹_› with hx | hx <;> cases hx
    · cases hstep
  | resume w call =>
    simp only [step] at hstep
    split at hstep
    · -- a task behind its handler
      rcases h.task_cases ‹_› with hx | hx <;> cases hx
    · cases hstep
  | set =>
    simp only [step] at hstep
    split at hstep
    · cases hstep
    · cases hstep
      exact .set (Bool.eq_false_iff.mpr ‹_›)
  | resumeMain =>
    simp only [step, h.not_finished] at hstep
    split at hstep
    · rename_i exc hmain hfailure
      cases hstep
      rcases h.failure with hf | ⟨hf, -⟩
      · rw [hfailure] at hf
        cases hf
        exact .raised hmain hfailure
      · rw [hfailure] at hf
        cases hf
    · cases hstep
    · cases hstep

/-- One step. -/
theorem Stuck.step (h : Stuck s) (hstep : StuckStep s e s' out) :
    Stuck s' ∧ ∀ i, .invoked i ∉ out := by
  cases hstep with
  | @started w call hw =>
    refine ⟨⟨?_, ?_, Or.inl ?_, h.main⟩, by simp⟩
    · simpa [State.fail, State.setTask] using h.nonempty
    · intro x hx
      rcases List.mem_or_eq_of_mem_set hx with hx | rfl
      · exact h.tasks x hx
      · exact Or.inr rfl
    · rcases h.failure with hf | ⟨hf, -⟩
      · simp [State.fail, hf]
      · simp [State.fail, hf]
  | set hsignal => exact ⟨⟨h.nonempty, h.tasks, h.failure, h.main⟩, by simp⟩
  | raised hmain hfailure => exact ⟨⟨h.nonempty, h.tasks, h.failure, Or.inr rfl⟩, by simp⟩

/-- The steps that are left. -/
def State.work (s : State V E) : ℕ :=
  s.tasks.countP Worker.isCreated + (!s.signal).toNat +
    match s.main with
    | .awaiting => 1
    | _ => 0

theorem StuckStep.work_lt (hstep : StuckStep s e s' out) : s'.work < s.work := by
  cases hstep with
  | @started w call hw =>
    have hset := countP_set_add (a := .failed (.nameError "lock")) Worker.isCreated hw
    simp only [Worker.isCreated, if_true, Bool.false_eq_true, if_false] at hset
    simp only [State.work, State.fail, State.setTask]
    omega
  | set hsignal => simp [State.work, hsignal]
  | raised hmain hfailure => simp [State.work, hmain]

/-- While the call is not over, a task is left to run or the call is to resume. -/
theorem Stuck.exists_step (h : Stuck s) (hmain : s.main = .awaiting) :
    ∃ e s' out, Python.step scope isException str requests s e = some (s', out) := by
  rcases h.failure with hf | ⟨hf, hcreated⟩
  · exact ⟨.resumeMain, { s with main := .raised (.nameError "lock") }, [],
      by simp only [Python.step, hmain, hf]⟩
  · have hlt : 0 < s.tasks.length := List.length_pos_of_ne_nil h.nonempty
    have hget := List.getElem?_eq_getElem hlt
    rw [hcreated s.tasks[0] (List.getElem_mem hlt)] at hget
    exact ⟨.start 0 ⟨false, none⟩, _, _, by simp only [Python.step, hget]; rfl⟩

end Unbound

section Result

variable {A V E : Type} (isException : E → Bool) (str : E → Except E String)
  {requests : List (ToolRequest A)} {max_concurrency : ℤ}

theorem stuck_init (hne : requests ≠ []) (hmax : 1 ≤ max_concurrency) (signal₀ : Bool) :
    Stuck (init requests max_concurrency signal₀ : State V E) := by
  have hpool : 1 ≤ pool_size requests max_concurrency := by
    have hpos := List.length_pos_of_ne_nil hne
    rw [pool_size]
    omega
  have hinit : (init requests max_concurrency signal₀ : State V E) =
      ⟨signal₀, 0, List.replicate (pool_size requests max_concurrency) .created,
        List.replicate requests.length none, none, .awaiting⟩ := by
    rw [init, if_neg hne, if_neg (by omega)]
  rw [hinit]
  refine ⟨?_, fun x hx => Or.inl (List.eq_of_mem_replicate hx),
    Or.inr ⟨rfl, fun x hx => List.eq_of_mem_replicate hx⟩, Or.inl rfl⟩
  intro hnil
  rw [List.replicate_eq_nil_iff] at hnil
  omega

/-- In every run no task gets beyond the lock, and no handler is invoked. -/
theorem stuck_run (hne : requests ≠ []) (hmax : 1 ≤ max_concurrency) {signal₀ : Bool}
    {es : List (Event V E)} {tr : List (Obs V E)} {s : State V E}
    (hrun : (run_tools isException str requests max_concurrency signal₀).Run es tr s) :
    Stuck s ∧ ∀ i, .invoked i ∉ tr := by
  refine hrun.history_invariant (fun _ tr s => Stuck s ∧ ∀ i, .invoked i ∉ tr)
    ⟨stuck_init hne hmax signal₀, by simp⟩ ?_
  rintro es tr s e s' out - ⟨hstuck, htr⟩ hstep
  have h := hstuck.step (hstuck.step_cases lock_unbound hstep)
  refine ⟨h.1, ?_⟩
  intro i hi
  rcases List.mem_append.mp hi with hi | hi
  · exact htr i hi
  · exact h.2 i hi

/-- No call with a request and a worker honours the contract: no handler is
invoked, and every run, continued as long as possible, ends with the
`NameError`. -/
theorem run_tools_raises (hne : requests ≠ []) (hmax : 1 ≤ max_concurrency) (signal₀ : Bool) :
    let M : Machine (State V E) (Event V E) (Obs V E) :=
      run_tools isException str requests max_concurrency signal₀
    ¬ HonoursContract M requests signal₀ ∧
    (∀ es tr s, M.Run es tr s → (∀ i, .invoked i ∉ tr) ∧
      (s.main = .awaiting ∨ s.main = .raised (.nameError "lock"))) ∧
    M.Ends (fun _ _ => True) (fun s => s.main = .raised (.nameError "lock")) := by
  intro M
  have hends : M.Ends (fun _ _ => True) (fun s => s.main = .raised (.nameError "lock")) := by
    constructor
    · refine ⟨M.init.work, ?_⟩
      intro es tr s hrun
      have hle := hrun.length_add_le State.work ?_
      · omega
      · intro es tr s e s' out hrun _ hstep
        have hstuck := (stuck_run isException str hne hmax hrun.run).1
        exact (hstuck.step_cases lock_unbound hstep).work_lt
    · intro es tr s hrun hfinal
      have hstuck := (stuck_run isException str hne hmax hrun.run).1
      rcases hstuck.exists_step (hstuck.main.resolve_right hfinal) with ⟨e, s', out, hstep⟩
      exact ⟨e, s', out, trivial, hstep⟩
  refine ⟨?_, ?_, hends⟩
  · intro hcontract
    rcases hends.extend .init with ⟨es, tr, s, hrun, hraised⟩
    have hover : s.main ≠ .awaiting := by simp [hraised]
    rcases hcontract _ _ s hrun.run hover with ⟨res, hreturned, -⟩
    rw [hraised] at hreturned
    cases hreturned
  · intro es tr s hrun
    have h := stuck_run isException str hne hmax hrun
    exact ⟨h.2, h.1.main⟩

end Result

/-- Two tasks for the three requests, as in the example of the question. -/
theorem run_tools_raises_abc :
    abc ≠ [] ∧ (1 : ℤ) ≤ 2 ∧
    ¬ HonoursContract (V := ℕ) (run_tools (fun _ : String => true) .ok abc 2 false) abc false :=
  ⟨by decide, by decide,
    (run_tools_raises (fun _ => true) .ok (by decide) (by decide) false).1⟩

/-- Both tasks run, and the call raises; `runTools` returns three results on the
schedule of the question's example. -/
theorem lock_not_defined :
    (∃ tr s, (run_tools (V := ℕ) (fun _ : String => true) .ok abc 2 false).Run
      [.start 0 ⟨false, none⟩, .start 1 ⟨false, none⟩, .resumeMain] tr s ∧
      s.main = .raised (.nameError "lock") ∧ ¬ Honours abc false tr s) ∧
    ∃ tr s, (ToolRunner.machine some abc (.finite 2) false).Run abcRun tr s ∧
      (returned s).map statuses =
        some [("a", "failed"), ("b", "succeeded"), ("c", "succeeded")] := by
  constructor
  · have hexec : ((run_tools (V := ℕ) (fun _ : String => true) .ok abc 2 false).exec
        [.start 0 ⟨false, none⟩, .start 1 ⟨false, none⟩, .resumeMain]).map
        (fun r => match r.1.main with
          | .raised exc => some exc
          | _ => none) = some (some (.nameError "lock")) := by decide +kernel
    rcases Machine.Run.of_exec_map hexec with ⟨s, tr, hrun, hs⟩
    have hmain : s.main = .raised (.nameError "lock") := by
      split at hs
      · rename_i hmain
        cases hs
        exact hmain
      · cases hs
    refine ⟨tr, s, hrun, hmain, ?_⟩
    rintro ⟨res, hreturned, -⟩
    rw [hmain] at hreturned
    cases hreturned
  · have hexec : ((ToolRunner.machine some abc (.finite 2) false).exec abcRun).map
        (fun r => (returned r.1).map statuses) =
        some (some [("a", "failed"), ("b", "succeeded"), ("c", "succeeded")]) := by
      decide +kernel
    rcases Machine.Run.of_exec_map hexec with ⟨s, tr, hrun, hs⟩
    exact ⟨tr, s, hrun, hs⟩

end InterviewPrep.ToolRunner.Python
