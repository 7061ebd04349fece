import Mathlib.Data.List.Induction
import Mathlib.Tactic.Linarith
import InterviewPrep.CircuitBreaker.Admission

/-!
# The failed probe

"An eligible failed probe reopens the circuit and restarts the cooldown." The
code counts the failed probe like any other failure, so what happens depends on
the counter it finds. A call admitted before the circuit opened may succeed
while the probe is running; it resets the counter, and the failure of the probe
is then one failure of a closed circuit.

* `failed_probe_reopens_iff`: the probe reopens the circuit exactly if, with
  its own failure, at least `failureThreshold` eligible failures have completed
  since the last success;
* `reaches_threshold_of_no_success`: this is so whenever no call succeeds while
  the probe is in flight, in both files (`probe_reopens_of_no_success`).
-/

namespace InterviewPrep.CircuitBreaker

variable {τ Err : Type*}

/-- The requirement on one breaker: after every eligible failure of a half-open
probe, at reading `t`, the circuit is open during `[t, t + cooldown)`. -/
def Policy.ProbeReopens [Zero τ] [Add τ] [LE τ] [LT τ] (P : Policy τ Err) (cooldown : τ) :
    Prop :=
  ∀ es tr s p err t s' out, P.machine.Run es tr s → s.inFlight p = some .half_open →
    P.isEligible err = true → P.machine.step s (.fail p err t) = some (s', out) →
    ∀ u, t ≤ u → u < t + cooldown → P.state s'.breaker u = .open

/-- The state after an eligible failure, in terms of the history. -/
theorem open_after_failure [Zero τ] {P : Policy τ Err} {es : List (Event τ Err)}
    {s s' : Calls τ} {p : ℕ} {err : Err} {t : τ} {out : List (Obs Err)} (hinv : Inv P es s)
    (he : P.isEligible err = true) (hs : P.machine.step s (.fail p err t) = some (s', out))
    (u : τ) :
    P.state s'.breaker u = .open ↔
      P.belowThreshold ((P.eligibleFailures es).length + 1) = false ∧
        P.cooldownElapsed u t = false := by
  have hinv' := inv_step hinv hs
  have hfs : P.eligibleFailures (es ++ [.fail p err t]) = P.eligibleFailures es ++ [t] := by
    simp [eligibleFailures_concat, Policy.recordFailure, he]
  have hcount : s'.breaker.failCount = (P.eligibleFailures es).length + 1 := by
    rw [hinv'.failCount, hfs]; simp
  have hlast : s'.breaker.lastFailTimestamp = t := by
    rw [hinv'.lastFailTimestamp, hfs]; simp
  unfold Policy.state
  rw [hcount, hlast]
  cases P.belowThreshold ((P.eligibleFailures es).length + 1) <;>
    cases P.cooldownElapsed u t <;> simp

/-! ## When no call succeeds during the probe -/

/-- Events other than successes only add failures. -/
theorem eligibleFailures_length_mono (P : Policy τ Err) (es fs : List (Event τ Err))
    (hfs : ∀ c, .succeed c ∉ fs) :
    (P.eligibleFailures es).length ≤ (P.eligibleFailures (es ++ fs)).length := by
  induction fs using List.reverseRecOn with
  | nil => simp
  | append_singleton fs e ih =>
    have hle := ih (fun c hc => hfs c (by simp [hc]))
    rw [← List.append_assoc, eligibleFailures_concat]
    refine le_trans hle ?_
    cases e with
    | call c now => exact le_refl _
    | succeed c => exact absurd (by simp) (hfs c)
    | fail c err now =>
      simp only [Policy.recordFailure]
      split <;> simp

/-- A probe is admitted at the threshold, and the counter stays there as long
as no call succeeds. -/
theorem reaches_threshold_of_no_success [Zero τ] {P : Policy τ Err}
    (hP : ∀ n m, n ≤ m → P.belowThreshold m = true → P.belowThreshold n = true)
    {es fs : List (Event τ Err)} {tr : List (Obs Err)} {s : Calls τ} {p : ℕ} {t : τ}
    (hrun : P.machine.Run es tr s) (hprobe : P.state s.breaker t = .half_open)
    (hfs : ∀ c, .succeed c ∉ fs) :
    P.belowThreshold ((P.eligibleFailures (es ++ .call p t :: fs)).length + 1) = false := by
  have hge : P.belowThreshold (P.eligibleFailures es).length = false := by
    rw [← (inv_run hrun).failCount]
    by_contra hne
    rw [Bool.not_eq_false] at hne
    simp [Policy.state, hne] at hprobe
  have hle := eligibleFailures_length_mono P es (.call p t :: fs) (by simpa using hfs)
  by_contra hne
  rw [Bool.not_eq_false] at hne
  have hbelow := hP _ _ (Nat.le_succ_of_le hle) hne
  rw [hge] at hbelow
  exact Bool.noConfusion hbelow

theorem TypeScript.policy_antitone (o : TypeScript.CircuitBreakerOptions Err) (n m : ℕ)
    (hnm : n ≤ m) (h : (TypeScript.policy o).belowThreshold m = true) :
    (TypeScript.policy o).belowThreshold n = true := by
  simp only [TypeScript.policy, decide_eq_true_eq] at h ⊢
  have hcast : (n : ℚ) ≤ m := by exact_mod_cast hnm
  exact lt_of_le_of_lt hcast h

theorem Python.policy_antitone (o : Python.CircuitBreakerOptions Err) (n m : ℕ)
    (hnm : n ≤ m) (h : (Python.policy o).belowThreshold m = true) :
    (Python.policy o).belowThreshold n = true := by
  simp only [Python.policy, decide_eq_true_eq] at h ⊢
  omega

/-- In both files, a probe that fails reopens the circuit if no call succeeded while it
was in flight. -/
theorem probe_reopens_of_no_success :
    (∀ (o : TypeScript.CircuitBreakerOptions Err) es fs tr tr' s₀ s p err t₀ t s' out,
      (TypeScript.execute o).Run es tr s₀ → TypeScript.state o s₀.breaker t₀ = .half_open →
      (TypeScript.execute o).Run (es ++ .call p t₀ :: fs) tr' s → (∀ c, .succeed c ∉ fs) →
      o.isEligibleFailure err = true →
      (TypeScript.execute o).step s (.fail p err t) = some (s', out) →
      ∀ u, t ≤ u → u < t + o.cooldownMs → TypeScript.state o s'.breaker u = .open) ∧
    (∀ (o : Python.CircuitBreakerOptions Err) es fs tr tr' s₀ s p err t₀ t s' out,
      (Python.execute o).Run es tr s₀ → Python.state o s₀.breaker t₀ = .half_open →
      (Python.execute o).Run (es ++ .call p t₀ :: fs) tr' s → (∀ c, .succeed c ∉ fs) →
      (Python.policy o).isEligible err = true →
      (Python.execute o).step s (.fail p err t) = some (s', out) →
      ∀ u, t ≤ u → u < t + o.cooldown_ms → Python.state o s'.breaker u = .open) := by
  constructor
  · intro o es fs tr tr' s₀ s p err t₀ t s' out hrun hprobe hrun' hfs he hs u _ hu
    refine (open_after_failure (inv_run hrun') he hs u).mpr ⟨?_, ?_⟩
    · exact reaches_threshold_of_no_success (TypeScript.policy_antitone o) hrun hprobe hfs
    · simp only [TypeScript.policy, decide_eq_false_iff_not, not_le, ge_iff_le]
      linarith
  · intro o es fs tr tr' s₀ s p err t₀ t s' out hrun hprobe hrun' hfs he hs u _ hu
    refine (open_after_failure (inv_run hrun') he hs u).mpr ⟨?_, ?_⟩
    · exact reaches_threshold_of_no_success (Python.policy_antitone o) hrun hprobe hfs
    · simp only [Python.policy, decide_eq_false_iff_not, not_lt, gt_iff_lt]
      linarith

/-! ## The exact condition -/

/-- **When a failed probe reopens the circuit**, for both files: the circuit is
open throughout `[t, t + cooldown)` exactly if at least `failureThreshold`
eligible failures, the probe's included, have completed since the last success.
The run before the failure of the probe `p` is arbitrary. -/
theorem failed_probe_reopens_iff :
    (∀ (o : TypeScript.CircuitBreakerOptions Err), 1 ≤ o.failureThreshold → 0 < o.cooldownMs →
      ∀ es tr s p err t s' out, (TypeScript.execute o).Run es tr s →
        s.inFlight p = some .half_open → o.isEligibleFailure err = true →
        (TypeScript.execute o).step s (.fail p err t) = some (s', out) →
        ((∀ u, t ≤ u → u < t + o.cooldownMs → TypeScript.state o s'.breaker u = .open) ↔
          o.failureThreshold ≤ (((TypeScript.policy o).eligibleFailures es).length : ℚ) + 1)) ∧
    (∀ (o : Python.CircuitBreakerOptions Err), 1 ≤ o.failure_threshold → 0 < o.cooldown_ms →
      ∀ es tr s p err t s' out, (Python.execute o).Run es tr s →
        s.inFlight p = some .half_open → (Python.policy o).isEligible err = true →
        (Python.execute o).step s (.fail p err t) = some (s', out) →
        ((∀ u, t ≤ u → u < t + o.cooldown_ms → Python.state o s'.breaker u = .open) ↔
          o.failure_threshold ≤ (((Python.policy o).eligibleFailures es).length : ℤ) + 1)) := by
  constructor
  · intro o _ hcd es tr s p err t s' out hrun _ he hs
    have hopen := open_after_failure (inv_run hrun) he hs
    constructor
    · intro h
      have hnow := (hopen t).mp (h t le_rfl (by linarith))
      simpa [TypeScript.policy] using hnow.1
    · intro hge u _ hu
      refine (hopen u).mpr ⟨?_, ?_⟩
      · simpa [TypeScript.policy] using hge
      · simp only [TypeScript.policy, decide_eq_false_iff_not, not_le, ge_iff_le]
        linarith
  · intro o _ hcd es tr s p err t s' out hrun _ he hs
    have hopen := open_after_failure (inv_run hrun) he hs
    constructor
    · intro h
      have hnow := (hopen t).mp (h t le_rfl (by linarith))
      simpa [Python.policy] using hnow.1
    · intro hge u _ hu
      refine (hopen u).mpr ⟨?_, ?_⟩
      · simpa [Python.policy] using hge
      · simp only [Python.policy, decide_eq_false_iff_not, not_lt, gt_iff_lt]
        linarith

/-- Without a slow call the same probe reopens the circuit. -/
theorem failed_probe_reopens_without_success :
    ∃ s s' : Calls ℚ, ∃ tr out, (TypeScript.execute ⟨2, 10, fun _ : Unit => true⟩).Run
        [.call 1 0, .call 2 0, .fail 1 () 1, .fail 2 () 2, .call 3 13] tr s ∧
      (TypeScript.execute ⟨2, 10, fun _ : Unit => true⟩).step s (.fail 3 () 14) =
        some (s', out) ∧
      ∀ u, 14 ≤ u → u < 14 + 10 →
        TypeScript.state ⟨2, 10, fun _ : Unit => true⟩ s'.breaker u = .open := by
  let M := TypeScript.execute ⟨2, 10, fun _ : Unit => true⟩
  have hexec : (M.exec [.call 1 0, .call 2 0, .fail 1 () 1, .fail 2 () 2, .call 3 13]).map
      (fun r => (r.1.inFlight 3, (M.step r.1 (.fail 3 () 14)).isSome)) =
        some (some .half_open, true) := by decide +kernel
  obtain ⟨s, tr, hrun, hs⟩ := Machine.Run.of_exec_map hexec
  simp only [Prod.mk.injEq, Option.isSome_iff_exists] at hs
  obtain ⟨hprobe, ⟨s', out⟩, hstep⟩ := hs
  refine ⟨s, s', tr, out, hrun, hstep, ?_⟩
  refine (failed_probe_reopens_iff.1 ⟨2, 10, fun _ : Unit => true⟩ (by norm_num) (by norm_num)
    _ _ _ _ _ _ _ _ hrun hprobe rfl hstep).mpr ?_
  simp [Policy.eligibleFailures, Policy.recordFailure, TypeScript.policy]

/-- Call 0 is slow. Two failures open the circuit at 2, call 3 becomes the probe
at 13, call 0 succeeds, and the probe is to fail at 14. -/
def slowSuccess (τ : Type*) [NatCast τ] : List (Event τ Unit) :=
  [.call 0 (0 : ℕ), .call 1 (0 : ℕ), .call 2 (0 : ℕ), .fail 1 () (1 : ℕ), .fail 2 () (2 : ℕ),
    .call 3 (13 : ℕ), .succeed 0]

/-- A breaker that is closed when the probe of this run has failed does not meet the
requirement. -/
theorem Policy.not_probeReopens [Zero τ] [Add τ] [PartialOrder τ] [NatCast τ]
    {P : Policy τ Unit} {cooldown t : τ} (hcooldown : t < t + cooldown)
    (heligible : P.isEligible () = true)
    (hexec : (P.machine.exec (slowSuccess τ)).map (fun r => (r.1.inFlight 3,
      (P.machine.step r.1 (.fail 3 () t)).map (fun q => P.state q.1.breaker t))) =
        some (some .half_open, some .closed)) :
    ¬ P.ProbeReopens cooldown := by
  intro h
  obtain ⟨s, tr, hrun, hs⟩ := Machine.Run.of_exec_map hexec
  simp only [Prod.mk.injEq, Option.map_eq_some_iff] at hs
  obtain ⟨hprobe, ⟨s', out⟩, hstep, hclosed⟩ := hs
  have hopen := h _ _ _ _ _ _ _ _ hrun hprobe heligible hstep t le_rfl hcooldown
  rw [hclosed] at hopen
  exact BreakerState.noConfusion hopen

theorem failed_probe_leaves_circuit_closed :
    ¬ (TypeScript.policy ⟨2, 10, fun _ : Unit => true⟩).ProbeReopens 10 ∧
    ¬ (Python.policy (⟨2, 10, none⟩ : Python.CircuitBreakerOptions Unit)).ProbeReopens 10 := by
  constructor
  · exact Policy.not_probeReopens (t := 14) (by norm_num) rfl (by decide +kernel)
  · exact Policy.not_probeReopens (t := 14) (by norm_num) rfl (by decide +kernel)

end InterviewPrep.CircuitBreaker
