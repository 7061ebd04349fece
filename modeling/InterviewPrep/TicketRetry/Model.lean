import Mathlib.Algebra.Group.Nat.Defs
import InterviewPrep.Lib.Interaction

/-!
# Creating a ticket with retries

`createTicket` and `create_ticket` of
`technical/timeout_retry_external_call/question.md`. What the ticketing service does,
and what the timeout does to it, is in the answers to `fetch`. A call that its caller
cancels, as a task of Python can be at every `await`, is left out.
-/

namespace InterviewPrep.TicketRetry

/-- How a request ends, within its timeout. -/
inductive Fetched (E : Type) where
  /-- `ok` is `response.ok`, or `response.is_success` -/
  | responded (ok : Bool) (status : ℕ)
  /-- the time is over; `aborted` is the error of the aborted `fetch`, where its promise
  is rejected before the one of the timer -/
  | timedOut (aborted : Option E)
  /-- the transport fails: `fetch` rejects, `httpx.RequestError` -/
  | failed (err : E)
  /-- anything else is thrown -/
  | raised (err : E)
deriving DecidableEq

/-- What the function ends with, unless it returns. -/
inductive Failure (E : Type) where
  /-- the error of the timer, or `TimeoutError`, with its text -/
  | timedOut (message : String)
  /-- the error of a `fetch` that was aborted -/
  | aborted (err : E)
  /-- the error of the request, or of `response.json()` -/
  | thrown (err : E)
  | nonRetryable (message : String)
  | retryable (message : String)
  | unreachable
deriving DecidableEq

/-- What the functions ask of their environment. The times are in milliseconds. -/
inductive Query where
  /-- `setTimeout(.., 2_000)` -/
  | startTimer
  /-- `clearTimeout(timer)` -/
  | clearTimer
  /-- one `POST` with its idempotency key -/
  | fetch (key body : String)
  /-- `response.json()` -/
  | json
  | sleep (ms : ℕ)
deriving DecidableEq

abbrev Answer (E V : Type) : Query → Type
  | .startTimer => Unit
  | .clearTimer => Unit
  | .fetch _ _ => Fetched E
  | .json => Except E V
  | .sleep _ => Unit

section Program

variable {E V : Type}

def retryable (status : ℕ) : Bool := status = 408 || status = 429 || 500 ≤ status

def ask (q : Query) : Program (Answer E V) (Answer E V q) := Program.ask (Answer E V) q

/-- `return await response.json()` -/
def returnJson : Program (Answer E V) (Except (Failure E) V) := do
  match ← ask .json with
  | .ok value => return .ok value
  | .error err => return .error (.thrown err)

/-! ## TypeScript -/

/-- The `catch` clause of `createTicket`, and `finally` behind it. -/
def caught (attempt : ℕ) (error : Failure E)
    (next : Program (Answer E V) (Except (Failure E) V)) :
    Program (Answer E V) (Except (Failure E) V) := do
  if attempt = 2 then
    ask .clearTimer
    return .error error
  else
    ask (.sleep (100 * 2 ^ attempt))
    ask .clearTimer
    next

/-- What `Promise.race` rejects with when the time is over. -/
def timeoutError : Option E → Failure E
  | none => .timedOut "ticket request timed out"
  | some err => .aborted err

/-- The iterations of `createTicket` from `attempt` on; `n` of them are left. -/
def createTicketFrom (body key : String) :
    ℕ → ℕ → Program (Answer E V) (Except (Failure E) V)
  | 0, _ => return .error .unreachable
  | n + 1, attempt => do
    ask .startTimer
    match ← ask (.fetch key body) with
    | .responded ok status =>
      ask .clearTimer
      if ok then returnJson
      else if !retryable status then
        return .error (.nonRetryable s!"non-retryable HTTP {status}")
      else if attempt = 2 then return .error (.retryable s!"retryable HTTP {status}")
      else
        ask (.sleep (100 * 2 ^ attempt))
        createTicketFrom body key n (attempt + 1)
    | .timedOut aborted =>
      caught attempt (timeoutError aborted) (createTicketFrom body key n (attempt + 1))
    | .failed err => caught attempt (.thrown err) (createTicketFrom body key n (attempt + 1))
    | .raised err => caught attempt (.thrown err) (createTicketFrom body key n (attempt + 1))

def createTicket (body key : String) : Program (Answer E V) (Except (Failure E) V) :=
  createTicketFrom body key 3 0

/-! ## Python -/

/-- The `except` clause of `create_ticket`, and what follows it in the loop. -/
def excepted (attempt : ℕ) (error : Failure E)
    (next : Program (Answer E V) (Except (Failure E) V)) :
    Program (Answer E V) (Except (Failure E) V) := do
  if attempt = 2 then return .error error
  else
    ask (.sleep (100 * 2 ^ attempt))
    next

/-- The iterations of `create_ticket` from `attempt` on; `n` of them are left. -/
def create_ticket_from (body key : String) :
    ℕ → ℕ → Program (Answer E V) (Except (Failure E) V)
  | 0, _ => return .error .unreachable
  | n + 1, attempt => do
    match ← ask (.fetch key body) with
    | .responded ok status =>
      if ok then returnJson
      else if !retryable status then
        return .error (.nonRetryable s!"non-retryable HTTP {status}")
      else if attempt = 2 then return .error (.retryable "retryable HTTP failure")
      else
        ask (.sleep (100 * 2 ^ attempt))
        create_ticket_from body key n (attempt + 1)
    -- a `TimeoutError` has no text
    | .timedOut _ => excepted attempt (.timedOut "") (create_ticket_from body key n (attempt + 1))
    | .failed err => excepted attempt (.thrown err) (create_ticket_from body key n (attempt + 1))
    -- neither `TimeoutError` nor `httpx.RequestError`
    | .raised err => return .error (.thrown err)

def create_ticket (body key : String) : Program (Answer E V) (Except (Failure E) V) :=
  create_ticket_from body key 3 0

end Program

end InterviewPrep.TicketRetry
