import Mathlib.Algebra.Order.Group.Int
import Mathlib.Tactic.Abel
import Mathlib.Tactic.Linarith
import InterviewPrep.CircuitBreaker.Model

/-!
# An outage

What the breaker is for: while the dependency is down, few calls reach it. Once
the failures have reached the threshold, the calls that reach the dependency are
at least a cooldown apart, however many are made and however their completions
overlap (`outage_throttled`).

Between two such calls the probe of the first one must have failed, because no
call passes while it is in flight, and its failure restarts the cooldown. `Quiet`
is this in terms of the breaker alone: whenever no probe is in flight, the last
failure was counted at `t` or later.
-/

namespace InterviewPrep.CircuitBreaker

variable {τ Err : Type*}

/-! ## The dependency -/

/-- The clock reading of an event that reads the clock. -/
def Event.reading : Event τ Err → Option τ
  | .call _ now => some now
  | .succeed _ => none
  | .fail _ _ now => some now

/-- What can happen while the dependency is down: operations fail, in a way that
counts. -/
def Policy.Down (P : Policy τ Err) : Event τ Err → Prop
  | .call _ _ => True
  | .succeed _ => False
  | .fail _ err _ => P.isEligible err = true

/-- The readings at which calls reach the dependency; every event has one
observation. -/
def reached (es : List (Event τ Err)) (tr : List (Obs Err)) : List τ :=
  (es.zip tr).filterMap fun
    | (.call _ now, .invoked _) => some now
    | _ => none

/-- Of the calls that reach the dependency during an outage, any two are a cooldown
apart, and so there is at most one more of them than cooldowns fit in between. -/
structure Throttled [AddCommGroup τ] [LinearOrder τ] (cooldown : τ) (readings : List τ) :
    Prop where
  apart : readings.Pairwise fun t u => t + cooldown ≤ u
  few : ∀ a b, (∀ t ∈ readings, a ≤ t ∧ t ≤ b) → readings ≠ [] →
    (readings.length - 1) • cooldown ≤ b - a

/-- From any state in which the failures have reached the threshold, as long as the
dependency is down and the clock does not go back. -/
def Policy.ThrottlesOutages [AddCommGroup τ] [LinearOrder τ] (P : Policy τ Err)
    (cooldown : τ) : Prop :=
  ∀ s s' es tr, P.belowThreshold s.breaker.failCount = false →
    P.machine.execFrom s es = some (s', tr) → (∀ e ∈ es, P.Down e) →
    (es.filterMap Event.reading).Pairwise (fun t u => t ≤ u) → Throttled cooldown (reached es tr)

/-! ## The time between two calls -/

section Quiet

variable [AddCommGroup τ] [LinearOrder τ] {P : Policy τ Err} {s s' : Calls τ} {e : Event τ Err}
  {es : List (Event τ Err)} {tr out : List (Obs Err)} {t cooldown : τ}

/-- While no probe is in flight, the cooldown has been running since `t` at least. -/
def Quiet (t : τ) (b : Breaker τ) : Prop := b.probeInFlight = false → t ≤ b.lastFailTimestamp

/-- A step during an outage: it keeps the circuit from closing, and what it does to
`Quiet`. A call that reaches the dependency starts a quiet time of its own. -/
theorem step_down (hopen : P.belowThreshold s.breaker.failCount = false)
    (hmono : ∀ n, P.belowThreshold n = false → P.belowThreshold (n + 1) = false)
    (hs : P.machine.step s e = some (s', out)) (hdown : P.Down e) :
    P.belowThreshold s'.breaker.failCount = false ∧
    ((∃ c now, e = .call c now ∧ out = [.invoked c] ∧
        P.cooldownElapsed now s.breaker.lastFailTimestamp = true ∧
        s.breaker.probeInFlight = false ∧ s'.breaker.probeInFlight = true) ∨
      (∃ o, out = [o] ∧ (∀ es tr, reached (e :: es) (o :: tr) = reached es tr) ∧
        ∀ t, (∀ u, e.reading = some u → t ≤ u) → Quiet t s.breaker → Quiet t s'.breaker)) := by
  rcases step_cases hs with ⟨c, now, rfl, -, -, rfl, rfl⟩ |
    ⟨c, now, b, st, rfl, hc, henter, rfl, rfl⟩ | ⟨c, st, rfl, -, -, -⟩ |
    ⟨c, err, now, st, rfl, hc, rfl, rfl⟩
  · -- rejected
    exact ⟨hopen, Or.inr ⟨_, rfl, fun _ _ => rfl, fun _ _ h => h⟩⟩
  · -- let through: this can only be the probe
    rcases enter_cases P s.breaker now with ⟨hbelow, -⟩ | ⟨-, hel, hflag, hb⟩ | ⟨-, -, -, hb⟩ |
      ⟨-, -, hb⟩
    · -- the circuit is open
      rw [hopen] at hbelow
      cases hbelow
    · rw [hb] at henter
      cases henter
      exact ⟨hopen, Or.inl ⟨c, now, rfl, rfl, hel, hflag, rfl⟩⟩
    · -- a call that is turned away is not let through
      rw [hb] at henter
      cases henter
    · rw [hb] at henter
      cases henter
  · -- no operation succeeds
    exact hdown.elim
  · -- a failure counts, and restarts the cooldown
    have he : P.isEligible err = true := hdown
    refine ⟨?_, Or.inr ⟨_, rfl, fun _ _ => rfl, fun t ht _ _ => ?_⟩⟩
    · rw [onFailure_failCount, if_pos he]
      exact hmono _ hopen
    · rw [onFailure_lastFailTimestamp, if_pos he]
      exact ht now rfl

/-- What reaches the dependency comes a cooldown after the quiet time began. -/
theorem reached_quiet
    (hcooldown : ∀ now last, P.cooldownElapsed now last = true → last + cooldown ≤ now)
    (hmono : ∀ n, P.belowThreshold n = false → P.belowThreshold (n + 1) = false)
    [IsOrderedAddMonoid τ] (hopen : P.belowThreshold s.breaker.failCount = false)
    (hexec : P.machine.execFrom s es = some (s', tr)) (hdown : ∀ e ∈ es, P.Down e)
    (hclock : ∀ u ∈ es.filterMap Event.reading, t ≤ u) (hquiet : Quiet t s.breaker) :
    ∀ u ∈ reached es tr, t + cooldown ≤ u := by
  induction es generalizing s tr with
  | nil => exact fun u hu => absurd hu List.not_mem_nil
  | cons e es ih =>
    rcases Machine.execFrom_cons_cases hexec with ⟨s₁, out, tr₁, hs, hrest, rfl⟩
    -- the reading of this event, and those of the others
    have hread : ∀ u, e.reading = some u → t ≤ u := fun u hu =>
      hclock u (List.mem_filterMap.mpr ⟨e, List.mem_cons_self, hu⟩)
    have hclock' : ∀ u ∈ es.filterMap Event.reading, t ≤ u := fun u hu => by
      rcases List.mem_filterMap.mp hu with ⟨e', he', hu⟩
      exact hclock u (List.mem_filterMap.mpr ⟨e', List.mem_cons_of_mem e he', hu⟩)
    have hdown' : ∀ e ∈ es, P.Down e := fun e' he' => hdown e' (List.mem_cons_of_mem e he')
    rcases step_down hopen hmono hs (hdown e List.mem_cons_self) with
      ⟨hopen', ⟨c, now, rfl, rfl, hel, hflag, hflag'⟩ | ⟨o, rfl, hreached, hkeeps⟩⟩
    · -- the call itself came after the cooldown, and nothing passes while it is in flight
      have hfirst : t + cooldown ≤ now := calc
        t + cooldown ≤ s.breaker.lastFailTimestamp + cooldown :=
          add_le_add_left (hquiet hflag) cooldown
        _ ≤ now := hcooldown _ _ hel
      have hnone : Quiet t s₁.breaker := fun hno => by rw [hflag'] at hno; cases hno
      intro u hu
      rcases List.mem_cons.mp hu with rfl | hu
      · exact hfirst
      · exact ih hopen' hrest hdown' hclock' hnone u hu
    · -- nothing reaches the dependency here
      rw [List.singleton_append, hreached]
      exact ih hopen' hrest hdown' hclock' (hkeeps t hread hquiet)

theorem reached_apart
    (hcooldown : ∀ now last, P.cooldownElapsed now last = true → last + cooldown ≤ now)
    (hmono : ∀ n, P.belowThreshold n = false → P.belowThreshold (n + 1) = false)
    [IsOrderedAddMonoid τ] (hopen : P.belowThreshold s.breaker.failCount = false)
    (hexec : P.machine.execFrom s es = some (s', tr)) (hdown : ∀ e ∈ es, P.Down e)
    (hclock : (es.filterMap Event.reading).Pairwise fun t u => t ≤ u) :
    (reached es tr).Pairwise fun t u => t + cooldown ≤ u := by
  induction es generalizing s tr with
  | nil => exact List.Pairwise.nil
  | cons e es ih =>
    rcases Machine.execFrom_cons_cases hexec with ⟨s₁, out, tr₁, hs, hrest, rfl⟩
    have hdown' : ∀ e ∈ es, P.Down e := fun e' he' => hdown e' (List.mem_cons_of_mem e he')
    rcases step_down hopen hmono hs (hdown e List.mem_cons_self) with
      ⟨hopen', ⟨c, now, rfl, rfl, -, -, hflag'⟩ | ⟨o, rfl, hreached, -⟩⟩
    · -- the quiet time of this call begins
      rcases List.pairwise_cons.mp hclock with ⟨hlater, hclock'⟩
      have hnone : Quiet now s₁.breaker := fun hno => by rw [hflag'] at hno; cases hno
      exact List.pairwise_cons.mpr
        ⟨reached_quiet hcooldown hmono hopen' hrest hdown' hlater hnone,
          ih hopen' hrest hdown' hclock'⟩
    · have hclock' : (es.filterMap Event.reading).Pairwise fun t u => t ≤ u := by
        cases hread : e.reading with
        | none => rwa [List.filterMap_cons_none hread] at hclock
        | some u =>
          rw [List.filterMap_cons_some hread] at hclock
          exact (List.pairwise_cons.mp hclock).2
      rw [List.singleton_append, hreached]
      exact ih hopen' hrest hdown' hclock'

end Quiet

/-! ## How many calls there are -/

/-- Readings that are a cooldown apart need the cooldowns between them. -/
theorem few_of_apart [AddCommGroup τ] [LinearOrder τ] [IsOrderedAddMonoid τ] {cooldown : τ}
    {readings : List τ} (h : readings.Pairwise fun t u => t + cooldown ≤ u) (a b : τ)
    (hbetween : ∀ t ∈ readings, a ≤ t ∧ t ≤ b) (hne : readings ≠ []) :
    (readings.length - 1) • cooldown ≤ b - a := by
  induction readings generalizing a with
  | nil => exact absurd rfl hne
  | cons t readings ih =>
    rcases List.forall_mem_cons.mp hbetween with ⟨⟨hat, htb⟩, hrest⟩
    rcases List.pairwise_cons.mp h with ⟨hapart, h'⟩
    cases readings with
    | nil =>
      -- one call takes no time
      rw [List.length_singleton, Nat.sub_self, zero_nsmul]
      exact sub_nonneg.mpr (le_trans hat htb)
    | cons u readings =>
      -- the calls behind the first one have what is left of the span
      have hmore := ih h' (t + cooldown) (fun v hv => ⟨hapart v hv, (hrest v hv).2⟩)
        (List.cons_ne_nil u readings)
      simp only [List.length_cons, Nat.add_sub_cancel] at hmore ⊢
      calc (readings.length + 1) • cooldown
        _ = readings.length • cooldown + cooldown := succ_nsmul ..
        _ ≤ b - (t + cooldown) + cooldown := add_le_add_left hmore cooldown
        _ = b - t := by abel
        _ ≤ b - a := sub_le_sub_left hat b

theorem throttlesOutages [AddCommGroup τ] [LinearOrder τ] [IsOrderedAddMonoid τ]
    {P : Policy τ Err} {cooldown : τ}
    (hcooldown : ∀ now last, P.cooldownElapsed now last = true → last + cooldown ≤ now)
    (hmono : ∀ n, P.belowThreshold n = false → P.belowThreshold (n + 1) = false) :
    P.ThrottlesOutages cooldown := by
  intro s s' es tr hopen hexec hdown hclock
  have hapart := reached_apart hcooldown hmono hopen hexec hdown hclock
  exact ⟨hapart, few_of_apart hapart⟩

/-! ## The two files -/

/-- **The outage.** For both breakers, with every threshold, cooldown and eligibility
callback: from any state in which the counted failures have reached the threshold, as
long as operations fail in a way that counts and the clock does not go back, the
calls that reach the dependency are a cooldown apart, in any interleaving of calls
and completions. -/
theorem outage_throttled (o : TypeScript.CircuitBreakerOptions Err)
    (o' : Python.CircuitBreakerOptions Err) :
    (TypeScript.policy o).ThrottlesOutages o.cooldownMs ∧
      (Python.policy o').ThrottlesOutages o'.cooldown_ms := by
  constructor
  · apply throttlesOutages
    · -- TypeScript waits for `>=`, Python for `>`; both leave a cooldown behind the failure
      intro now last hel
      have hge : now - last ≥ o.cooldownMs := of_decide_eq_true hel
      linarith
    · intro n hn
      have hge : ¬ ((n : ℚ) < o.failureThreshold) := of_decide_eq_false hn
      refine decide_eq_false ?_
      push_cast
      linarith
  · apply throttlesOutages
    · intro now last hel
      have hgt : now - last > o'.cooldown_ms := of_decide_eq_true hel
      omega
    · intro n hn
      have hge : ¬ ((n : ℤ) < o'.failure_threshold) := of_decide_eq_false hn
      refine decide_eq_false ?_
      omega

/-- Three calls that fail. -/
def threeDown : List (Event ℚ Unit) :=
  [.call 0 0, .call 1 0, .call 2 0, .fail 0 () 1, .fail 1 () 1, .fail 2 () 2]

/-- Of the five calls that follow, two reach the dependency. -/
def outage : List (Event ℚ Unit) :=
  [.call 3 3, .call 4 12, .call 5 13, .fail 4 () 15, .call 6 24, .call 7 25]

theorem outage_throttled_fiveCalls :
    ∃ s s' tr tr', (TypeScript.execute ⟨3, 10, fun _ : Unit => true⟩).Run threeDown tr s ∧
      (TypeScript.execute ⟨3, 10, fun _ : Unit => true⟩).execFrom s outage = some (s', tr') ∧
      reached outage tr' = [12, 25] ∧ Throttled 10 (reached outage tr') := by
  let o : TypeScript.CircuitBreakerOptions Unit := ⟨3, 10, fun _ => true⟩
  have hexec : ((TypeScript.execute o).exec threeDown).map (fun r =>
      ((TypeScript.policy o).belowThreshold r.1.breaker.failCount,
        ((TypeScript.execute o).execFrom r.1 outage).map fun q => reached outage q.2)) =
      some (false, some [12, 25]) := by decide +kernel
  rcases Machine.Run.of_exec_map hexec with ⟨s, tr, hrun, hread⟩
  simp only [Prod.mk.injEq, Option.map_eq_some_iff] at hread
  rcases hread with ⟨hopen, ⟨s', tr'⟩, hout, hreached⟩
  have hdown : ∀ e ∈ outage, (TypeScript.policy o).Down e := by
    simp [outage, Policy.Down, TypeScript.policy, o]
  have hclock : (outage.filterMap Event.reading).Pairwise (fun t u => t ≤ u) := by
    decide +kernel
  have hthrottles := (outage_throttled o ⟨3, 10, none⟩).1
  exact ⟨s, s', tr, tr', hrun, hout, hreached, hthrottles s s' outage tr' hopen hout hdown hclock⟩

end InterviewPrep.CircuitBreaker
