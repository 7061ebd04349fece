import Mathlib.Tactic.NormNum
import InterviewPrep.CircuitBreaker.Model

/-!
# Admission

Which calls reach the dependency. The counter, the timestamp and the probe flag
of the breaker are tied to the whole history by one invariant, `Inv`:

* the counter and the timestamp are the number and the last of the eligible
  failures completed since the last success, whichever call they come from;
* the flag is up exactly while a call admitted as half-open probe is in flight,
  and there is at most one such call.

The admission law reads off the invariant: `enter` looks at nothing else.
-/

namespace InterviewPrep.CircuitBreaker

variable {τ Err : Type*}

/-! ## The history -/

/-- One event's effect on the eligible failures since the last success. -/
def Policy.recordFailure (P : Policy τ Err) (fs : List τ) : Event τ Err → List τ
  | .call _ _ => fs
  | .succeed _ => []
  | .fail _ err now => if P.isEligible err then fs ++ [now] else fs

/-- The clock readings at the eligible failures completed since the last
success, oldest first. -/
def Policy.eligibleFailures (P : Policy τ Err) (es : List (Event τ Err)) : List τ :=
  es.foldl P.recordFailure []

theorem eligibleFailures_concat (P : Policy τ Err) (es : List (Event τ Err))
    (e : Event τ Err) :
    P.eligibleFailures (es ++ [e]) = P.recordFailure (P.eligibleFailures es) e := by
  simp [Policy.eligibleFailures]

/-! ## The probe -/

/-- The flag is up exactly while a probe is in flight, and probes are alone. -/
structure ProbeInv (flag : Bool) (inFlight : ℕ → Option BreakerState) : Prop where
  flag_iff : flag = true ↔ ∃ c, inFlight c = some .half_open
  unique : ∀ c d, inFlight c = some .half_open → inFlight d = some .half_open → c = d

theorem ProbeInv.none_of_flag {flag : Bool} {f : ℕ → Option BreakerState}
    (h : ProbeInv flag f) (hf : flag = false) (c : ℕ) : f c ≠ some .half_open := by
  intro hc
  have hup : flag = true := h.flag_iff.mpr ⟨c, hc⟩
  simp [hf] at hup

/-- Admitting a call while the circuit is closed. -/
theorem ProbeInv.admit_closed {flag : Bool} {f : ℕ → Option BreakerState}
    (h : ProbeInv flag f) {c : ℕ} (hc : f c = none) :
    ProbeInv flag (Function.update f c (some .closed)) := by
  have hsame : ∀ d, Function.update f c (some .closed) d = some .half_open ↔
      f d = some .half_open := by
    intro d
    by_cases hd : d = c
    · subst hd; simp [hc]
    · simp [Function.update_of_ne hd]
  constructor
  · rw [h.flag_iff]
    simp only [hsame]
  · intro d e hd he
    rw [hsame] at hd he
    exact h.unique d e hd he

/-- Admitting the probe. -/
theorem ProbeInv.admit_probe {f : ℕ → Option BreakerState} (h : ProbeInv false f) (c : ℕ) :
    ProbeInv true (Function.update f c (some .half_open)) := by
  have honly : ∀ d, Function.update f c (some .half_open) d = some .half_open → d = c := by
    intro d hd
    by_contra hne
    rw [Function.update_of_ne hne] at hd
    exact h.none_of_flag rfl d hd
  constructor
  · exact ⟨fun _ => ⟨c, by simp⟩, fun _ => rfl⟩
  · intro d e hd he
    rw [honly d hd, honly e he]

/-- A call in flight completes: the flag falls exactly if it was the probe. -/
theorem ProbeInv.complete {flag : Bool} {f : ℕ → Option BreakerState}
    (h : ProbeInv flag f) {c : ℕ} {st : BreakerState} (hc : f c = some st) :
    ProbeInv (if st = .half_open then false else flag) (Function.update f c none) := by
  have hsub : ∀ d, Function.update f c none d = some .half_open → f d = some .half_open ∧ d ≠ c := by
    intro d hd
    by_cases hdc : d = c
    · subst hdc; simp at hd
    · rw [Function.update_of_ne hdc] at hd
      exact ⟨hd, hdc⟩
  constructor
  · split
    · -- the probe itself: it was the only one
      rename_i hst
      subst hst
      constructor
      · intro hfalse; simp at hfalse
      · rintro ⟨d, hd⟩
        obtain ⟨hd, hdc⟩ := hsub d hd
        exact absurd (h.unique d c hd hc) hdc
    · -- another call: the probes are the same as before
      rename_i hst
      rw [h.flag_iff]
      constructor
      · rintro ⟨d, hd⟩
        have hdc : d ≠ c := by
          intro hdc
          rw [hdc, hc] at hd
          exact hst (Option.some.inj hd)
        exact ⟨d, by rw [Function.update_of_ne hdc]; exact hd⟩
      · rintro ⟨d, hd⟩
        exact ⟨d, (hsub d hd).1⟩
  · intro d e hd he
    exact h.unique d e (hsub d hd).1 (hsub e he).1

/-! ## The invariant -/

/-- The fields of the breaker as functions of the history. -/
structure Inv [Zero τ] (P : Policy τ Err) (es : List (Event τ Err)) (s : Calls τ) : Prop where
  failCount : s.breaker.failCount = (P.eligibleFailures es).length
  lastFailTimestamp : s.breaker.lastFailTimestamp = (P.eligibleFailures es).getLastD 0
  probe : ProbeInv s.breaker.probeInFlight s.inFlight

theorem inv_init [Zero τ] (P : Policy τ Err) : Inv P [] init := by
  refine ⟨rfl, rfl, ⟨?_, ?_⟩⟩
  · simp [init]
  · intro c d hc
    simp [init] at hc

theorem inv_step [Zero τ] {P : Policy τ Err} {es : List (Event τ Err)} {s s' : Calls τ}
    {e : Event τ Err} {out : List (Obs Err)} (h : Inv P es s)
    (hs : P.machine.step s e = some (s', out)) : Inv P (es ++ [e]) s' := by
  rcases step_cases hs with ⟨c, now, rfl, -, -, rfl, -⟩ | ⟨c, now, b, st, rfl, hc, henter, rfl, -⟩ |
    ⟨c, st, rfl, hc, rfl, -⟩ | ⟨c, err, now, st, rfl, hc, rfl, -⟩
  · -- rejected: nothing changes
    refine ⟨?_, ?_, h.probe⟩ <;> rw [eligibleFailures_concat]
    · exact h.failCount
    · exact h.lastFailTimestamp
  · -- admitted, either while closed or as the probe
    rcases enter_cases P s.breaker now with ⟨-, hb⟩ | ⟨-, -, hflag, hb⟩ | ⟨-, -, -, hb⟩ |
      ⟨-, -, hb⟩ <;> rw [hb] at henter <;> cases henter
    · refine ⟨?_, ?_, h.probe.admit_closed hc⟩ <;> rw [eligibleFailures_concat]
      · exact h.failCount
      · exact h.lastFailTimestamp
    · have hprobe : ProbeInv false s.inFlight := hflag ▸ h.probe
      refine ⟨?_, ?_, hprobe.admit_probe c⟩ <;> rw [eligibleFailures_concat]
      · exact h.failCount
      · exact h.lastFailTimestamp
  · -- a success forgets the failures
    refine ⟨?_, ?_, ?_⟩
    · simp [eligibleFailures_concat, Policy.recordFailure]
    · simp [eligibleFailures_concat, Policy.recordFailure]
    · simpa using h.probe.complete hc
  · -- a failure is recorded if it is eligible
    refine ⟨?_, ?_, ?_⟩
    · simp only [eligibleFailures_concat, Policy.recordFailure, onFailure_failCount, h.failCount]
      split <;> simp
    · simp only [eligibleFailures_concat, Policy.recordFailure, onFailure_lastFailTimestamp,
        h.lastFailTimestamp]
      split <;> simp
    · simpa using h.probe.complete hc

/-- Every run keeps the fields in step with its history. -/
theorem inv_run [Zero τ] {P : Policy τ Err} {es : List (Event τ Err)} {tr : List (Obs Err)}
    {s : Calls τ} (h : P.machine.Run es tr s) : Inv P es s :=
  h.history_invariant (fun es _ s => Inv P es s) (inv_init P)
    (fun _ _ _ _ _ _ _ hinv hs => inv_step hinv hs)

/-! ## The admission law -/

/-- The condition under which `execute` calls the operation, in terms of the
history alone: `t` is the clock reading of the call. -/
def Policy.Admits (P : Policy τ Err) (es : List (Event τ Err)) (s : Calls τ) (t : τ) : Prop :=
  P.belowThreshold (P.eligibleFailures es).length = true ∨
    ∃ last, (P.eligibleFailures es).getLast? = some last ∧
      P.cooldownElapsed t last = true ∧ ∀ p, s.inFlight p ≠ some .half_open

/-- A call step is possible for every fresh call, invokes the operation exactly
under `Admits`, and otherwise throws and changes nothing. -/
theorem call_step [Zero τ] {P : Policy τ Err} {es : List (Event τ Err)} {s : Calls τ}
    (hP : P.belowThreshold 0 = true) (h : Inv P es s) {c : ℕ} (t : τ)
    (hc : s.inFlight c = none) :
    ∃ s' out, P.machine.step s (.call c t) = some (s', out) ∧
      (.invoked c ∈ out ↔ P.Admits es s t) ∧
      (¬ P.Admits es s t → out = [.circuitOpen c] ∧ s' = s) := by
  have hbelow := h.failCount
  have hlast : P.belowThreshold s.breaker.failCount = false →
      (P.eligibleFailures es).getLast? = some s.breaker.lastFailTimestamp := by
    intro hge
    rw [h.failCount] at hge
    cases hfs : (P.eligibleFailures es).getLast? with
    | none =>
      rw [List.getLast?_eq_none_iff] at hfs
      simp [hfs, hP] at hge
    | some last => simp [h.lastFailTimestamp, List.getLastD_eq_getLast?, hfs]
  rcases enter_cases P s.breaker t with ⟨hcl, hb⟩ | ⟨hge, hel, hflag, hb⟩ |
    ⟨hge, hel, hflag, hb⟩ | ⟨hge, hel, hb⟩
  · have hadm : P.Admits es s t := Or.inl (by rw [← hbelow]; exact hcl)
    exact ⟨_, _, call_admitted hc hb, by simp [hadm], fun hn => absurd hadm hn⟩
  · have hadm : P.Admits es s t :=
      Or.inr ⟨_, hlast hge, hel, h.probe.none_of_flag hflag⟩
    exact ⟨_, _, call_admitted hc hb, by simp [hadm], fun hn => absurd hadm hn⟩
  · -- the cooldown has elapsed, but the probe is out
    have hno : ¬ P.Admits es s t := by
      rintro (hcl | ⟨last, -, -, hp⟩)
      · rw [← hbelow, hge] at hcl; simp at hcl
      · obtain ⟨p, hprobe⟩ := h.probe.flag_iff.mp hflag
        exact hp p hprobe
    exact ⟨_, _, call_rejected hc hb, by simp [hno], fun _ => ⟨rfl, rfl⟩⟩
  · -- the cooldown has not elapsed
    have hno : ¬ P.Admits es s t := by
      rintro (hcl | ⟨last, hl, hel', -⟩)
      · rw [← hbelow, hge] at hcl; simp at hcl
      · rw [hlast hge, Option.some.injEq] at hl
        rw [← hl, hel] at hel'; simp at hel'
    exact ⟨_, _, call_rejected hc hb, by simp [hno], fun _ => ⟨rfl, rfl⟩⟩

namespace TypeScript

/-- **The admission law.** After any run, with `E` eligible failures since the
last success and `L` the reading at the latest of them: a call at `t` invokes
its operation iff `E < failureThreshold`, or `t - L ≥ cooldownMs` and no probe
is in flight, and it otherwise throws without touching the breaker; probes are
alone, and `probeInFlight` says whether one is out. -/
theorem admission_law (o : CircuitBreakerOptions Err) (ho : 1 ≤ o.failureThreshold)
    {es : List (Event ℚ Err)} {tr : List (Obs Err)} {s : Calls ℚ}
    (hrun : (execute o).Run es tr s) :
    (∀ c t, s.inFlight c = none →
      ∃ s' out, (execute o).step s (.call c t) = some (s', out) ∧
        (.invoked c ∈ out ↔
          (((policy o).eligibleFailures es).length : ℚ) < o.failureThreshold ∨
            ∃ L, ((policy o).eligibleFailures es).getLast? = some L ∧
              t - L ≥ o.cooldownMs ∧ ∀ p, s.inFlight p ≠ some .half_open) ∧
        (.invoked c ∉ out → out = [.circuitOpen c] ∧ s' = s)) ∧
    (∀ p q, s.inFlight p = some .half_open → s.inFlight q = some .half_open → p = q) ∧
    (s.breaker.probeInFlight = true ↔ ∃ p, s.inFlight p = some .half_open) := by
  have hinv : Inv (policy o) es s := inv_run hrun
  have hzero : (policy o).belowThreshold 0 = true := by
    simp only [policy, Nat.cast_zero, decide_eq_true_eq]
    exact lt_of_lt_of_le one_pos ho
  refine ⟨?_, hinv.probe.unique, hinv.probe.flag_iff⟩
  intro c t hc
  obtain ⟨s', out, hstep, hinvoked, hthrow⟩ := call_step hzero hinv t hc
  refine ⟨s', out, hstep, ?_, ?_⟩
  · rw [hinvoked]
    simp [Policy.Admits, policy]
  · intro hnot
    exact hthrow (fun hadm => hnot (hinvoked.mpr hadm))

/-- Three failures open the circuit, the next call is rejected, and the call
after the cooldown is let through as the probe. -/
def threeFailures : List (Event ℚ Unit) :=
  [.call 0 0, .fail 0 () 1, .call 1 2, .fail 1 () 3, .call 2 4, .fail 2 () 5,
    .call 3 6, .call 4 10005]

theorem admission_law_threeFailures :
    ∃ s tr, (execute ⟨3, 10000, fun _ : Unit => true⟩).Run threeFailures tr s ∧
      (s.inFlight 4 = some .half_open ∧ .circuitOpen 3 ∈ tr) ∧
      ∀ p, s.inFlight p = some .half_open → p = 4 := by
  have hexec : ((execute ⟨3, 10000, fun _ : Unit => true⟩).exec threeFailures).map
      (fun r => (r.1.inFlight 4, decide (.circuitOpen 3 ∈ r.2))) =
        some (some .half_open, true) := by decide +kernel
  obtain ⟨s, tr, hrun, hs⟩ := Machine.Run.of_exec_map hexec
  simp only [Prod.mk.injEq, decide_eq_true_eq] at hs
  refine ⟨s, tr, hrun, hs, ?_⟩
  intro p hp
  exact (admission_law ⟨3, 10000, fun _ : Unit => true⟩ (by norm_num) hrun).2.1 p 4 hp hs.1

end TypeScript

end InterviewPrep.CircuitBreaker
