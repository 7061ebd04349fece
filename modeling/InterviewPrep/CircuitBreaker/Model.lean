import Mathlib.Data.Rat.Defs
import Mathlib.Algebra.Order.Ring.Rat
import Mathlib.Logic.Function.Basic
import InterviewPrep.Lib.Machine

/-!
# Dependency circuit breaker

The class `CircuitBreaker` of `technical/dependency_circuit_breaker`, in
TypeScript (`answer.ts`) and in Python (`answer.py`). The two bodies of
`execute` and `state` agree line by line; the files differ in the type of the
clock, in the comparison with the cooldown and in whether the eligibility
callback is optional. `Policy` holds exactly these differences, the body is
written once over it, and each file is its own `policy`. The numbers of TypeScript, its
clock readings among them, are exact rationals.

`execute` suspends once, at `await operation()`. It is therefore two atomic
blocks, `enter` before the suspension and `onSuccess` / `onFailure` after it,
and any number of calls may be suspended at the same time.
-/

namespace InterviewPrep.CircuitBreaker

/-- The answers of `state()`. -/
inductive BreakerState where
  | closed
  | «open»
  | half_open
deriving DecidableEq, Repr

/-- The mutable fields of the class. -/
structure Breaker (τ : Type*) where
  failCount : ℕ
  lastFailTimestamp : τ
  probeInFlight : Bool
deriving DecidableEq, Repr

/-- The comparisons and the callback in which the two files differ. -/
structure Policy (τ Err : Type*) where
  /-- `failCount < failureThreshold` -/
  belowThreshold : ℕ → Bool
  /-- the cooldown comparison, at a clock reading and the last failure -/
  cooldownElapsed : τ → τ → Bool
  /-- the decision of the catch clause -/
  isEligible : Err → Bool

variable {τ Err : Type*}

/-- `state()` at the clock reading `now`. -/
def Policy.state (P : Policy τ Err) (b : Breaker τ) (now : τ) : BreakerState :=
  if P.belowThreshold b.failCount then .closed
  else if P.cooldownElapsed now b.lastFailTimestamp then .half_open
  else .open

/-- `execute` up to `await operation()`: the breaker and the local `state`
the call keeps, or `none` for a thrown `CircuitOpenError`. -/
def Policy.enter (P : Policy τ Err) (b : Breaker τ) (now : τ) :
    Option (Breaker τ × BreakerState) :=
  match P.state b now with
  | .open => none
  | .half_open =>
    if b.probeInFlight then none else some ({ b with probeInFlight := true }, .half_open)
  | .closed => some (b, .closed)

/-- The `finally` clause, for a call that entered in state `st`. -/
def leave (st : BreakerState) (b : Breaker τ) : Breaker τ :=
  if st = .half_open then { b with probeInFlight := false } else b

/-- `execute` after the operation succeeded. -/
def onSuccess [Zero τ] (st : BreakerState) (b : Breaker τ) : Breaker τ :=
  leave st { b with failCount := 0, lastFailTimestamp := 0 }

/-- `execute` after the operation failed with `err`, the catch clause reading
the clock as `now`. -/
def Policy.onFailure (P : Policy τ Err) (st : BreakerState) (err : Err) (now : τ)
    (b : Breaker τ) : Breaker τ :=
  leave st (if P.isEligible err then
    { b with failCount := b.failCount + 1, lastFailTimestamp := now } else b)

/-! ## Overlapping calls -/

/-- The breaker and, for every call suspended in `operation()`, the local
`state` it entered with. -/
structure Calls (τ : Type*) where
  breaker : Breaker τ
  inFlight : ℕ → Option BreakerState

/-- A call is made, or the operation of a call in flight completes. -/
inductive Event (τ Err : Type*) where
  | call (c : ℕ) (now : τ)
  | succeed (c : ℕ)
  | fail (c : ℕ) (err : Err) (now : τ)
deriving DecidableEq

/-- What the callers and the dependency see. -/
inductive Obs (Err : Type*) where
  | invoked (c : ℕ)
  | circuitOpen (c : ℕ)
  | returned (c : ℕ)
  | raised (c : ℕ) (err : Err)
deriving DecidableEq

/-- The new breaker of either constructor. -/
def init [Zero τ] : Calls τ where
  breaker := { failCount := 0, lastFailTimestamp := 0, probeInFlight := false }
  inFlight := fun _ => none

/-- One atomic block of `execute`, in the call `c`. -/
def Policy.step [Zero τ] (P : Policy τ Err) (s : Calls τ) :
    Event τ Err → Option (Calls τ × List (Obs Err))
  | .call c now =>
    match s.inFlight c with
    | some _ => none
    | none =>
      match P.enter s.breaker now with
      | none => some (s, [.circuitOpen c])
      | some (b, st) =>
        some ({ breaker := b, inFlight := Function.update s.inFlight c (some st) }, [.invoked c])
  | .succeed c =>
    match s.inFlight c with
    | none => none
    | some st =>
      some ({ breaker := onSuccess st s.breaker,
              inFlight := Function.update s.inFlight c none }, [.returned c])
  | .fail c err now =>
    match s.inFlight c with
    | none => none
    | some st =>
      some ({ breaker := P.onFailure st err now s.breaker,
              inFlight := Function.update s.inFlight c none }, [.raised c err])

/-- All interleavings of any number of calls on one breaker. -/
def Policy.machine [Zero τ] (P : Policy τ Err) : Machine (Calls τ) (Event τ Err) (Obs Err) where
  init := init
  step := P.step

/-! ## The two files -/

namespace TypeScript

/-- `CircuitBreakerOptions`; the clock readings are part of the events. -/
structure CircuitBreakerOptions (Err : Type*) where
  failureThreshold : ℚ
  cooldownMs : ℚ
  isEligibleFailure : Err → Bool

def policy (o : CircuitBreakerOptions Err) : Policy ℚ Err where
  belowThreshold failCount := decide ((failCount : ℚ) < o.failureThreshold)
  cooldownElapsed now last := decide (now - last ≥ o.cooldownMs)
  isEligible := o.isEligibleFailure

/-- `CircuitBreaker.state` -/
def state (o : CircuitBreakerOptions Err) : Breaker ℚ → ℚ → BreakerState := (policy o).state

/-- Overlapping calls of `CircuitBreaker.execute` -/
def execute (o : CircuitBreakerOptions Err) : Machine (Calls ℚ) (Event ℚ Err) (Obs Err) :=
  (policy o).machine

end TypeScript

namespace Python

/-- `CircuitBreakerOptions`; the clock readings are part of the events. -/
structure CircuitBreakerOptions (Err : Type*) where
  failure_threshold : ℤ
  cooldown_ms : ℤ
  is_eligible_failure : Option (Err → Bool)

def policy (o : CircuitBreakerOptions Err) : Policy ℤ Err where
  belowThreshold fail_count := decide ((fail_count : ℤ) < o.failure_threshold)
  cooldownElapsed now last := decide (now - last > o.cooldown_ms)
  -- a failure counts when the option is omitted or the callback says so
  isEligible err :=
    match o.is_eligible_failure with
    | none => true
    | some is_eligible => is_eligible err

/-- `CircuitBreaker.state` -/
def state (o : CircuitBreakerOptions Err) : Breaker ℤ → ℤ → BreakerState := (policy o).state

/-- Overlapping calls of `CircuitBreaker.execute` -/
def execute (o : CircuitBreakerOptions Err) : Machine (Calls ℤ) (Event ℤ Err) (Obs Err) :=
  (policy o).machine

end Python

/-! ## What each block does -/

@[simp] theorem leave_failCount (st : BreakerState) (b : Breaker τ) :
    (leave st b).failCount = b.failCount := by
  unfold leave; split <;> rfl

@[simp] theorem leave_lastFailTimestamp (st : BreakerState) (b : Breaker τ) :
    (leave st b).lastFailTimestamp = b.lastFailTimestamp := by
  unfold leave; split <;> rfl

@[simp] theorem leave_probeInFlight (st : BreakerState) (b : Breaker τ) :
    (leave st b).probeInFlight = if st = .half_open then false else b.probeInFlight := by
  unfold leave; split <;> rfl

@[simp] theorem onSuccess_failCount [Zero τ] (st : BreakerState) (b : Breaker τ) :
    (onSuccess st b).failCount = 0 := by
  simp [onSuccess]

@[simp] theorem onSuccess_lastFailTimestamp [Zero τ] (st : BreakerState) (b : Breaker τ) :
    (onSuccess st b).lastFailTimestamp = 0 := by
  simp [onSuccess]

@[simp] theorem onSuccess_probeInFlight [Zero τ] (st : BreakerState) (b : Breaker τ) :
    (onSuccess st b).probeInFlight = if st = .half_open then false else b.probeInFlight := by
  simp [onSuccess]

@[simp] theorem onFailure_failCount (P : Policy τ Err) (st : BreakerState) (err : Err)
    (now : τ) (b : Breaker τ) :
    (P.onFailure st err now b).failCount =
      if P.isEligible err then b.failCount + 1 else b.failCount := by
  unfold Policy.onFailure; split <;> simp

@[simp] theorem onFailure_lastFailTimestamp (P : Policy τ Err) (st : BreakerState) (err : Err)
    (now : τ) (b : Breaker τ) :
    (P.onFailure st err now b).lastFailTimestamp =
      if P.isEligible err then now else b.lastFailTimestamp := by
  unfold Policy.onFailure; split <;> simp

@[simp] theorem onFailure_probeInFlight (P : Policy τ Err) (st : BreakerState) (err : Err)
    (now : τ) (b : Breaker τ) :
    (P.onFailure st err now b).probeInFlight =
      if st = .half_open then false else b.probeInFlight := by
  unfold Policy.onFailure; split <;> simp

/-- The four ways through the admission block. -/
theorem enter_cases (P : Policy τ Err) (b : Breaker τ) (now : τ) :
    (P.belowThreshold b.failCount = true ∧ P.enter b now = some (b, .closed)) ∨
    (P.belowThreshold b.failCount = false ∧
      P.cooldownElapsed now b.lastFailTimestamp = true ∧ b.probeInFlight = false ∧
      P.enter b now = some ({ b with probeInFlight := true }, .half_open)) ∨
    (P.belowThreshold b.failCount = false ∧
      P.cooldownElapsed now b.lastFailTimestamp = true ∧ b.probeInFlight = true ∧
      P.enter b now = none) ∨
    (P.belowThreshold b.failCount = false ∧
      P.cooldownElapsed now b.lastFailTimestamp = false ∧ P.enter b now = none) := by
  unfold Policy.enter Policy.state
  cases P.belowThreshold b.failCount <;> cases P.cooldownElapsed now b.lastFailTimestamp <;>
    cases b.probeInFlight <;> simp

theorem call_rejected [Zero τ] {P : Policy τ Err} {s : Calls τ} {c : ℕ} {now : τ}
    (hc : s.inFlight c = none) (henter : P.enter s.breaker now = none) :
    P.machine.step s (.call c now) = some (s, [.circuitOpen c]) := by
  simp [Policy.machine, Policy.step, hc, henter]

theorem call_admitted [Zero τ] {P : Policy τ Err} {s : Calls τ} {c : ℕ} {now : τ}
    {b : Breaker τ} {st : BreakerState} (hc : s.inFlight c = none)
    (henter : P.enter s.breaker now = some (b, st)) :
    P.machine.step s (.call c now) =
      some ({ breaker := b, inFlight := Function.update s.inFlight c (some st) },
        [.invoked c]) := by
  simp [Policy.machine, Policy.step, hc, henter]

/-- The steps of the machine, one disjunct per kind. -/
theorem step_cases [Zero τ] {P : Policy τ Err} {s s' : Calls τ} {e : Event τ Err}
    {out : List (Obs Err)} (h : P.machine.step s e = some (s', out)) :
    (∃ c now, e = .call c now ∧ s.inFlight c = none ∧ P.enter s.breaker now = none ∧
      s' = s ∧ out = [.circuitOpen c]) ∨
    (∃ c now b st, e = .call c now ∧ s.inFlight c = none ∧
      P.enter s.breaker now = some (b, st) ∧
      s' = { breaker := b, inFlight := Function.update s.inFlight c (some st) } ∧
      out = [.invoked c]) ∨
    (∃ c st, e = .succeed c ∧ s.inFlight c = some st ∧
      s' = { breaker := onSuccess st s.breaker,
             inFlight := Function.update s.inFlight c none } ∧
      out = [.returned c]) ∨
    (∃ c err now st, e = .fail c err now ∧ s.inFlight c = some st ∧
      s' = { breaker := P.onFailure st err now s.breaker,
             inFlight := Function.update s.inFlight c none } ∧
      out = [.raised c err]) := by
  cases e with
  | call c now =>
    simp only [Policy.machine, Policy.step] at h
    cases hc : s.inFlight c with
    | some st => simp [hc] at h
    | none =>
      cases henter : P.enter s.breaker now with
      | none =>
        simp only [hc, henter, Option.some.injEq, Prod.mk.injEq] at h
        exact Or.inl ⟨c, now, rfl, hc, henter, h.1.symm, h.2.symm⟩
      | some r =>
        simp only [hc, henter, Option.some.injEq, Prod.mk.injEq] at h
        exact Or.inr (Or.inl ⟨c, now, r.1, r.2, rfl, hc, henter, h.1.symm, h.2.symm⟩)
  | succeed c =>
    simp only [Policy.machine, Policy.step] at h
    cases hc : s.inFlight c with
    | none => simp [hc] at h
    | some st =>
      simp only [hc, Option.some.injEq, Prod.mk.injEq] at h
      exact Or.inr (Or.inr (Or.inl ⟨c, st, rfl, hc, h.1.symm, h.2.symm⟩))
  | fail c err now =>
    simp only [Policy.machine, Policy.step] at h
    cases hc : s.inFlight c with
    | none => simp [hc] at h
    | some st =>
      simp only [hc, Option.some.injEq, Prod.mk.injEq] at h
      exact Or.inr (Or.inr (Or.inr ⟨c, err, now, st, rfl, hc, h.1.symm, h.2.symm⟩))

end InterviewPrep.CircuitBreaker
