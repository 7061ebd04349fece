import Mathlib.Data.Rat.Cast.Order
import InterviewPrep.CircuitBreaker.Model
import InterviewPrep.Lib.Lockstep

/-!
# The two circuit breakers

Python takes the cooldown to be over when more than `cooldown_ms` have elapsed,
TypeScript when `cooldownMs` have. `agree_iff` says that nothing else tells the
two apart: on the same schedule they give the same answers unless the clock is
read exactly at the end of the cooldown and the reading counts.
-/

namespace InterviewPrep.CircuitBreaker

variable {τ υ Err : Type*}

/-! ## The observed breaker -/

/-- An event, or a call of `state()` in between. -/
inductive Query (τ Err : Type*) where
  | event (e : Event τ Err)
  | state (now : τ)
deriving DecidableEq

inductive Answer (Err : Type*) where
  | obs (o : Obs Err)
  | state (st : BreakerState)
deriving DecidableEq

/-- The breaker with the calls of `state()`. -/
def Policy.observed [Zero τ] (P : Policy τ Err) :
    Machine (Calls τ) (Query τ Err) (Answer Err) where
  init := init
  step s
    | .event e => (P.step s e).map fun r => (r.1, r.2.map .obs)
    | .state now => some (s, [.state (P.state s.breaker now)])

/-! ## Another type of clock readings -/

section Map

variable (f : τ → υ)

def Breaker.map (b : Breaker τ) : Breaker υ :=
  ⟨b.failCount, f b.lastFailTimestamp, b.probeInFlight⟩

def Calls.map (s : Calls τ) : Calls υ := ⟨s.breaker.map f, s.inFlight⟩

def Event.map : Event τ Err → Event υ Err
  | .call c now => .call c (f now)
  | .succeed c => .succeed c
  | .fail c err now => .fail c err (f now)

def Query.map : Query τ Err → Query υ Err
  | .event e => .event (e.map f)
  | .state now => .state (f now)

variable {f}

theorem leave_map (st : BreakerState) (b : Breaker τ) :
    (leave st b).map f = leave st (b.map f) := by
  unfold leave
  split <;> rfl

theorem onSuccess_map [Zero τ] [Zero υ] (hzero : f 0 = 0) (st : BreakerState) (b : Breaker τ) :
    (onSuccess st b).map f = onSuccess st (b.map f) := by
  unfold onSuccess
  rw [leave_map]
  simp only [Breaker.map, hzero]

theorem onFailure_map {P : Policy τ Err} {Q : Policy υ Err} (helig : Q.isEligible = P.isEligible)
    (st : BreakerState) (err : Err) (now : τ) (b : Breaker τ) :
    (P.onFailure st err now b).map f = Q.onFailure st err (f now) (b.map f) := by
  unfold Policy.onFailure
  rw [leave_map, helig]
  split <;> rfl

/-- The admission agrees where the answers of `state()` do, and where there is a
probe in flight. -/
theorem enter_map {P : Policy τ Err} {Q : Policy υ Err} {b : Breaker τ} {now : τ}
    (hstate : Q.state (b.map f) (f now) = P.state b now) :
    Q.enter (b.map f) (f now) = (P.enter b now).map (Prod.map (Breaker.map f) id) := by
  unfold Policy.enter
  rw [hstate]
  cases P.state b now with
  | closed => rfl
  | «open» => rfl
  | half_open =>
    show (if b.probeInFlight then _ else _) = _
    cases b.probeInFlight <;> rfl

end Map

/-! ## The boundary -/

/-- An integer of Python as a number of TypeScript. -/
def asNumber (n : ℤ) : ℚ := n

section Agreement

variable (failure_threshold cooldown_ms : ℤ) (is_eligible_failure : Err → Bool)

/-- The breaker of `answer.py`, with the callback supplied. -/
def python : Machine (Calls ℤ) (Query ℤ Err) (Answer Err) :=
  (Python.policy ⟨failure_threshold, cooldown_ms, some is_eligible_failure⟩).observed

/-- The breaker of `answer.ts`, with the same options. -/
def typescript : Machine (Calls ℚ) (Query ℚ Err) (Answer Err) :=
  (TypeScript.policy ⟨failure_threshold, cooldown_ms, is_eligible_failure⟩).observed

/-- The clock is read exactly at the end of the cooldown. -/
def Due (b : Breaker ℤ) (now : ℤ) : Prop :=
  failure_threshold ≤ b.failCount ∧ now - b.lastFailTimestamp = cooldown_ms

/-- The reading counts: it is that of `state()`, or of a new call with no probe
in flight. -/
def AtBoundary (s : Calls ℤ) : Query ℤ Err → Prop
  | .event (.call c now) => s.inFlight c = none ∧ s.breaker.probeInFlight = false ∧
      Due failure_threshold cooldown_ms s.breaker now
  | .event _ => False
  | .state now => Due failure_threshold cooldown_ms s.breaker now

variable {failure_threshold cooldown_ms is_eligible_failure}

/-- At the end of the cooldown the circuit is open in Python and half-open in
TypeScript. -/
theorem states_of_due (is_eligible_failure : Err → Bool) {b : Breaker ℤ} {now : ℤ}
    (h : Due failure_threshold cooldown_ms b now) :
    (Python.policy ⟨failure_threshold, cooldown_ms, some is_eligible_failure⟩).state b now = .open ∧
      (TypeScript.policy ⟨failure_threshold, cooldown_ms, is_eligible_failure⟩).state
        (b.map asNumber) (asNumber now) = .half_open := by
  rcases h with ⟨hcount, helapsed⟩
  have hcount' : ¬ (b.failCount : ℚ) < (failure_threshold : ℚ) := by
    rw [not_lt]
    exact_mod_cast hcount
  have helapsed' : (now : ℚ) - (b.lastFailTimestamp : ℚ) = (cooldown_ms : ℚ) := by
    exact_mod_cast helapsed
  constructor
  · simp [Policy.state, Python.policy, helapsed, not_lt.mpr hcount]
  · simp [Policy.state, TypeScript.policy, Breaker.map, asNumber, helapsed', hcount']

theorem state_eq_iff (is_eligible_failure : Err → Bool) (b : Breaker ℤ) (now : ℤ) :
    (TypeScript.policy ⟨failure_threshold, cooldown_ms, is_eligible_failure⟩).state
        (b.map asNumber) (asNumber now) =
      (Python.policy ⟨failure_threshold, cooldown_ms, some is_eligible_failure⟩).state b now ↔
    ¬ Due failure_threshold cooldown_ms b now := by
  have hthreshold : ((b.failCount : ℚ) < (failure_threshold : ℚ)) ↔
      (b.failCount : ℤ) < failure_threshold := by exact_mod_cast Iff.rfl
  have hcooldown : ((cooldown_ms : ℚ) ≤ (now : ℚ) - (b.lastFailTimestamp : ℚ)) ↔
      cooldown_ms ≤ now - b.lastFailTimestamp := by
    rw [← Int.cast_sub]
    exact Int.cast_le
  constructor
  · intro hsame hdue
    rcases states_of_due is_eligible_failure hdue with ⟨hopen, hhalf⟩
    rw [hopen, hhalf] at hsame
    cases hsame
  · intro hdue
    simp only [Policy.state, TypeScript.policy, Python.policy, Breaker.map, asNumber, ge_iff_le,
      gt_iff_lt, hthreshold, hcooldown, decide_eq_true_eq]
    by_cases hbelow : (b.failCount : ℤ) < failure_threshold
    · rw [if_pos hbelow, if_pos hbelow]
    · have hne : now - b.lastFailTimestamp ≠ cooldown_ms := fun heq => hdue ⟨by omega, heq⟩
      rw [if_neg hbelow, if_neg hbelow]
      by_cases hlt : now - b.lastFailTimestamp < cooldown_ms
      · rw [if_neg (by omega), if_neg (by omega)]
      · rw [if_pos (by omega), if_pos (by omega)]

/-- At the threshold a call is rejected while a probe is in flight. -/
theorem enter_of_probe {P : Policy τ Err} {b : Breaker τ} (now : τ)
    (hbelow : P.belowThreshold b.failCount = false) (hprobe : b.probeInFlight = true) :
    P.enter b now = none := by
  rcases enter_cases P b now with ⟨hcount, -⟩ | ⟨-, -, hflag, -⟩ | ⟨-, -, -, henter⟩ | ⟨-, -, henter⟩
  · rw [hbelow] at hcount
    cases hcount
  · rw [hprobe] at hflag
    cases hflag
  · exact henter
  · exact henter

/-- Both admit a call alike unless its reading is at the boundary. -/
theorem enter_of_not_due {b : Breaker ℤ} {now : ℤ}
    (h : b.probeInFlight = false → ¬ Due failure_threshold cooldown_ms b now) :
    (TypeScript.policy ⟨failure_threshold, cooldown_ms, is_eligible_failure⟩).enter
        (b.map asNumber) (asNumber now) =
      ((Python.policy ⟨failure_threshold, cooldown_ms, some is_eligible_failure⟩).enter b now).map
        (Prod.map (Breaker.map asNumber) id) := by
  by_cases hdue : Due failure_threshold cooldown_ms b now
  · -- a probe is in flight, and both reject
    have hprobe : b.probeInFlight = true := by
      by_contra hne
      exact h (Bool.not_eq_true _ ▸ hne) hdue
    have hpython : (Python.policy ⟨failure_threshold, cooldown_ms,
        some is_eligible_failure⟩).belowThreshold b.failCount = false :=
      decide_eq_false (not_lt.mpr hdue.1)
    have htypescript : (TypeScript.policy ⟨failure_threshold, cooldown_ms,
        is_eligible_failure⟩).belowThreshold (b.map asNumber).failCount = false := by
      have hge : (failure_threshold : ℚ) ≤ (b.failCount : ℚ) := by exact_mod_cast hdue.1
      exact decide_eq_false (not_lt.mpr hge)
    rw [enter_of_probe now hpython hprobe, enter_of_probe _ htypescript hprobe]
    rfl
  · exact enter_map ((state_eq_iff is_eligible_failure b now).mpr hdue)

/-- Off the boundary a step of the one is the step of the other. -/
theorem step_of_not_atBoundary (s : Calls ℤ) (e : Query ℤ Err)
    (h : ¬ AtBoundary failure_threshold cooldown_ms s e) :
    (typescript failure_threshold cooldown_ms is_eligible_failure).step
        (s.map asNumber) (e.map asNumber) =
      ((python failure_threshold cooldown_ms is_eligible_failure).step s e).map
        (Prod.map (Calls.map asNumber) id) := by
  rcases e with (⟨c, now⟩ | c | ⟨c, err, now⟩) | now
  · -- a call
    simp only [python, typescript, Policy.observed, Query.map, Event.map, Policy.step, Calls.map]
    cases hc : s.inFlight c with
    | some st => rfl
    | none =>
      have hdue : s.breaker.probeInFlight = false →
          ¬ Due failure_threshold cooldown_ms s.breaker now :=
        fun hprobe hdue => h ⟨hc, hprobe, hdue⟩
      simp only [enter_of_not_due hdue]
      cases (Python.policy ⟨failure_threshold, cooldown_ms, some is_eligible_failure⟩).enter
        s.breaker now with
      | none => rfl
      | some r => rfl
  · -- a success
    simp only [python, typescript, Policy.observed, Query.map, Event.map, Policy.step, Calls.map]
    cases s.inFlight c with
    | none => rfl
    | some st =>
      simp only [← onSuccess_map (f := asNumber) Int.cast_zero]
      rfl
  · -- a failure
    simp only [python, typescript, Policy.observed, Query.map, Event.map, Policy.step, Calls.map]
    cases s.inFlight c with
    | none => rfl
    | some st =>
      simp only [← onFailure_map (f := asNumber)
        (P := Python.policy ⟨failure_threshold, cooldown_ms, some is_eligible_failure⟩)
        (Q := TypeScript.policy ⟨failure_threshold, cooldown_ms, is_eligible_failure⟩) rfl]
      rfl
  · have hstate := (state_eq_iff is_eligible_failure s.breaker now).mpr h
    simp only [python, typescript, Policy.observed, Query.map, Calls.map, hstate]
    rfl

/-- At the boundary the answers differ. -/
theorem step_of_atBoundary (s : Calls ℤ) (e : Query ℤ Err)
    (h : AtBoundary failure_threshold cooldown_ms s e) :
    ((python failure_threshold cooldown_ms is_eligible_failure).step s e).map Prod.snd ≠
      ((typescript failure_threshold cooldown_ms is_eligible_failure).step
        (s.map asNumber) (e.map asNumber)).map Prod.snd := by
  rcases e with (⟨c, now⟩ | c | ⟨c, err, now⟩) | now
  · -- Python rejects the call, TypeScript admits it as a probe
    rcases h with ⟨hc, hprobe, hdue⟩
    rcases states_of_due is_eligible_failure hdue with ⟨hopen, hhalf⟩
    have hpython : (Python.policy ⟨failure_threshold, cooldown_ms,
        some is_eligible_failure⟩).enter s.breaker now = none := by
      rw [Policy.enter, hopen]
    have htypescript : (TypeScript.policy ⟨failure_threshold, cooldown_ms,
        is_eligible_failure⟩).enter (s.breaker.map asNumber) (asNumber now) =
          some ({ s.breaker.map asNumber with probeInFlight := true }, .half_open) := by
      have hflag : (s.breaker.map asNumber).probeInFlight = false := hprobe
      simp only [Policy.enter, hhalf, hflag, Bool.false_eq_true, if_false]
    simp [python, typescript, Policy.observed, Query.map, Event.map, Policy.step, Calls.map, hc,
      hpython, htypescript]
  · cases h
  · cases h
  · intro hsame
    have hstate := mt (state_eq_iff is_eligible_failure s.breaker now).mp
      (not_not_intro h)
    simp only [python, typescript, Policy.observed, Query.map, Calls.map, Option.map_some,
      Option.some.injEq, List.cons.injEq, Answer.state.injEq, and_true] at hsame
    exact hstate hsame.symm

end Agreement

/-- **Agreement of the two circuit breakers**, for every threshold, cooldown and
eligibility callback: on a schedule of calls, completions and calls of `state()`
they give the same answers after every event if and only if in Python the clock
is never read exactly at the end of the cooldown, by `state()` or by a call that
finds no probe in flight. -/
theorem agree_iff (failure_threshold cooldown_ms : ℤ) (is_eligible_failure : Err → Bool)
    (es : List (Query ℤ Err)) :
    Machine.SameAnswers (python failure_threshold cooldown_ms is_eligible_failure)
        (typescript failure_threshold cooldown_ms is_eligible_failure)
        (Query.map asNumber) es ↔
      (python failure_threshold cooldown_ms is_eligible_failure).Avoids
        (AtBoundary failure_threshold cooldown_ms) es :=
  Machine.sameAnswers_iff (Calls.map asNumber) rfl step_of_not_atBoundary
    step_of_atBoundary es

/-- One failure opens the circuit at 1000, and the cooldown of 10000 is over at
11000. -/
def boundarySchedule : List (Query ℤ Unit) :=
  [.event (.call 0 0), .event (.fail 0 () 1000), .state 11000, .event (.call 1 11000)]

/-- TypeScript answers half-open and admits the probe, Python answers open and
rejects it. -/
theorem boundary_differs :
    (python 1 10000 (fun _ : Unit => true)).answers boundarySchedule =
      some [.obs (.invoked 0), .obs (.raised 0 ()), .state .open, .obs (.circuitOpen 1)] ∧
    (typescript 1 10000 (fun _ : Unit => true)).answers
        (boundarySchedule.map (Query.map asNumber)) =
      some [.obs (.invoked 0), .obs (.raised 0 ()), .state .half_open, .obs (.invoked 1)] ∧
    ¬ Machine.SameAnswers (python 1 10000 (fun _ : Unit => true))
        (typescript 1 10000 (fun _ : Unit => true)) (Query.map asNumber)
        boundarySchedule := by
  have hpython : (python 1 10000 (fun _ : Unit => true)).answers boundarySchedule =
      some [.obs (.invoked 0), .obs (.raised 0 ()), .state .open, .obs (.circuitOpen 1)] := by
    decide +kernel
  have htypescript : (typescript 1 10000 (fun _ : Unit => true)).answers
        (boundarySchedule.map (Query.map asNumber)) =
      some [.obs (.invoked 0), .obs (.raised 0 ()), .state .half_open, .obs (.invoked 1)] := by
    decide +kernel
  refine ⟨hpython, htypescript, ?_⟩
  intro h
  have hall := h boundarySchedule List.prefix_rfl
  rw [hpython, htypescript] at hall
  cases hall

end InterviewPrep.CircuitBreaker
