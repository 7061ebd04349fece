import Mathlib.Data.Rat.Cast.Order
import InterviewPrep.ToolRunner.Invariant

/-!
# The contract of the tool runner

`Contract` is what `runTools` promises, in terms of the trace: each handler is
invoked at most once, before the abort and within the bound, and the array that
is returned says of each request what happened to it. `run_contract` proves it
of every run, for every schedule and every moment of the abort.
-/

namespace InterviewPrep.ToolRunner

variable {A V E : Type}

/-! ## The property -/

/-- `runTool` resumed after the handler of request `i`, and the signal was not
aborted at that time. -/
def ResumedInTime (aborted₀ : Bool) (tr : List (Obs V E)) (i : ℕ) : Prop :=
  ∃ pre a post, tr = pre ++ .resumed i a :: post ∧ ¬ Aborted aborted₀ pre

/-- The handler of request `i` was invoked and fulfilled with `v`, in time. -/
def Succeeded (aborted₀ : Bool) (tr : List (Obs V E)) (i : ℕ) (v : V) : Prop :=
  .invoked i ∈ tr ∧ .ended i (.fulfilled v) ∈ tr ∧ ResumedInTime aborted₀ tr i

/-- The handler of request `i` was invoked and rejected or threw, in time. -/
def Failed (aborted₀ : Bool) (tr : List (Obs V E)) (i : ℕ) : Prop :=
  .invoked i ∈ tr ∧ (∃ err, .ended i (.rejected err) ∈ tr) ∧ ResumedInTime aborted₀ tr i

/-- A result that says what happened to request `i`. -/
structure ResultOk (aborted₀ : Bool) (tr : List (Obs V E)) (i : ℕ) (req : ToolRequest A)
    (r : ToolResult V) : Prop where
  id : r.id = req.id
  succeeded : ∀ v, r = .succeeded req.id v ↔ Succeeded aborted₀ tr i v
  failed : (∃ message, r = .failed req.id message) ↔ Failed aborted₀ tr i
  cancelled : r = .cancelled req.id ↔
    (∀ v, ¬ Succeeded aborted₀ tr i v) ∧ ¬ Failed aborted₀ tr i
  not_invoked : .invoked i ∉ tr → r = .cancelled req.id

/-- What `runTools` promises at every moment of a run. -/
structure Contract (requests : List (ToolRequest A)) (maxConcurrency : ℕ) (aborted₀ : Bool)
    (tr : List (Obs V E)) (s : Runner V E) : Prop where
  at_most_once : ∀ i, (about i tr).countP Obs.isInvoked ≤ 1
  not_after_abort : ∀ pre i post, tr = pre ++ .invoked i :: post → ¬ Aborted aborted₀ pre
  in_flight : ∀ pre post, tr = pre ++ post → invocations pre ≤ endings pre + maxConcurrency
  results : ∀ res, returned s = some res → res.length = requests.length ∧
    ∀ (i : ℕ) req, requests[i]? = some req →
      ∃ r, res[i]? = some (some r) ∧ ResultOk aborted₀ tr i req r

/-! ## What the invariant says about it -/

section FromInvariant

variable {errorMessage : E → Option String} {requests : List (ToolRequest A)} {pool : ℕ}
  {aborted₀ : Bool} {tr : List (Obs V E)} {s : Runner V E} {i : ℕ}

/-- `runTool` reads the signal as it is. -/
theorem resumedInTime_iff (h : Along (Lawful pool aborted₀) tr) :
    ResumedInTime aborted₀ tr i ↔ .resumed i false ∈ tr := by
  constructor
  · rintro ⟨pre, a, post, rfl, hnot⟩
    have hread : a = true ↔ Aborted aborted₀ pre := h pre (.resumed i a) post rfl
    cases a with
    | true => exact absurd (hread.mp rfl) hnot
    | false => simp
  · intro hmem
    rcases List.append_of_mem hmem with ⟨pre, post, rfl⟩
    have hread : false = true ↔ Aborted aborted₀ pre := h pre (.resumed i false) post rfl
    exact ⟨pre, false, post, rfl, fun habort => Bool.false_ne_true (hread.mpr habort)⟩

/-- What has happened to a request lists at most one invocation. -/
theorem Inv.at_most_once (h : Inv errorMessage requests pool aborted₀ tr s) (i : ℕ) :
    (about i tr).countP Obs.isInvoked ≤ 1 := by
  have hshape : about i tr = [] ∨ about i tr = [.invoked i] ∨
      (∃ o, about i tr = [.invoked i, .ended i o]) ∨
      ∃ o a, about i tr = [.invoked i, .ended i o, .resumed i a] := by
    rcases Nat.lt_or_ge i s.nextIndex with hlt | hge
    · rcases h.claimed i hlt with ⟨w, x, hw, hx⟩ | ⟨r, hr⟩
      · have hok := h.worker w x hw
        cases x with
        | atLoop => cases hx
        | finished => cases hx
        | awaitingHandler j id =>
          cases hx
          exact Or.inr (Or.inl hok.2)
        | handlerEnded j id o =>
          cases hx
          exact Or.inr (Or.inr (Or.inl ⟨o, hok.2⟩))
        | toolDone j r =>
          cases hx
          rcases hok.verdict with ⟨hnil, -⟩ | ⟨o, a, hall, -⟩
          · exact Or.inl hnil
          · exact Or.inr (Or.inr (Or.inr ⟨o, a, hall⟩))
        | rejected j =>
          cases hx
          exact Or.inr (Or.inr (Or.inr hok))
      · rcases (h.stored i r hr).2.verdict with ⟨hnil, -⟩ | ⟨o, a, hall, -⟩
        · exact Or.inl hnil
        · exact Or.inr (Or.inr (Or.inr ⟨o, a, hall⟩))
    · exact Or.inl (h.fresh i hge)
  rcases hshape with hs | hs | ⟨o, hs⟩ | ⟨o, a, hs⟩
  · rw [hs]
    exact Nat.zero_le 1
  · rw [hs]
    rfl
  · rw [hs]
    rfl
  · rw [hs]
    rfl

/-- The number of handlers in flight grows only by an invocation, and that needs
a free place. -/
theorem in_flight_of_lawful (h : Along (Lawful pool aborted₀) tr) :
    ∀ pre post, tr = pre ++ post → invocations pre ≤ endings pre + pool := by
  intro pre
  induction pre using List.reverseRecOn with
  | nil =>
    intro post _
    exact Nat.zero_le _
  | append_singleton pre o ih =>
    intro post htr
    rw [List.append_assoc] at htr
    have hpre := ih ([o] ++ post) htr
    have hlaw := h pre o post htr
    rw [invocations_concat, endings_concat]
    cases o with
    | invoked i =>
      have hfree := hlaw.2
      simp only [Obs.isInvoked, Obs.isEnded, Bool.toNat_true, Bool.toNat_false]
      omega
    | ended i o =>
      simp only [Obs.isInvoked, Bool.toNat_false]
      omega
    | resumed i a =>
      simp only [Obs.isInvoked, Bool.toNat_false]
      omega
    | aborted =>
      simp only [Obs.isInvoked, Bool.toNat_false]
      omega

/-- A request that nothing has happened to has not ended. -/
theorem not_invoked_of_about (hnil : about i tr = []) : .invoked i ∉ tr := by
  rw [mem_iff_mem_about rfl, hnil]
  exact List.not_mem_nil

/-- A request that has been resumed succeeded or failed by how its handler
ended, if it was resumed in time. -/
theorem verdict_of_about (hlaw : Along (Lawful pool aborted₀) tr) {o : Outcome V E} {a : Bool}
    (hall : about i tr = [.invoked i, .ended i o, .resumed i a]) :
    .invoked i ∈ tr ∧ (∀ v, Succeeded aborted₀ tr i v ↔ o = .fulfilled v ∧ a = false) ∧
      (Failed aborted₀ tr i ↔ (∃ err, o = .rejected err) ∧ a = false) := by
  have hinvoked : .invoked i ∈ tr := by
    rw [mem_iff_mem_about rfl, hall]
    simp
  have hended : ∀ o', .ended i o' ∈ tr ↔ o = o' := by
    intro o'
    rw [mem_iff_mem_about rfl, hall]
    simp [eq_comm]
  have hresumed : ResumedInTime aborted₀ tr i ↔ a = false := by
    rw [resumedInTime_iff hlaw, mem_iff_mem_about rfl, hall]
    simp [eq_comm]
  refine ⟨hinvoked, ?_, ?_⟩
  · intro v
    rw [Succeeded, hended, hresumed]
    simp [hinvoked]
  · rw [Failed, hresumed]
    simp [hinvoked, hended]

/-- The three results of a handler that `runTool` has resumed after. -/
theorem conclude_cases {id : String} {a : Bool} {o : Outcome V E} {r : ToolResult V}
    (h : conclude errorMessage id a o = some r) :
    (∃ v, o = .fulfilled v ∧ a = false ∧ r = .succeeded id v) ∨
    (∃ err message, o = .rejected err ∧ a = false ∧ r = .failed id message) ∨
    (a = true ∧ r = .cancelled id) := by
  cases a with
  | true =>
    cases o with
    | fulfilled v => exact Or.inr (Or.inr ⟨rfl, (Option.some.inj h).symm⟩)
    | rejected err => exact Or.inr (Or.inr ⟨rfl, (Option.some.inj h).symm⟩)
  | false =>
    cases o with
    | fulfilled v => exact Or.inl ⟨v, rfl, rfl, (Option.some.inj h).symm⟩
    | rejected err =>
      rcases Option.map_eq_some_iff.mp h with ⟨message, -, hr⟩
      exact Or.inr (Or.inl ⟨err, message, rfl, rfl, hr.symm⟩)

/-- The result of a request says what happened to it. -/
theorem Final.resultOk {r : ToolResult V} {req : ToolRequest A}
    (hfinal : Final errorMessage requests tr i r) (hreq : requests[i]? = some req)
    (hlaw : Along (Lawful pool aborted₀) tr) : ResultOk aborted₀ tr i req r := by
  have hid : r.id = req.id := by
    rcases hfinal.id with ⟨req', hreq', hid⟩
    rw [hreq] at hreq'
    cases hreq'
    exact hid
  rcases hfinal.verdict with ⟨hnil, hr⟩ | ⟨o, a, hall, hr⟩
  · -- never invoked
    have hnot := not_invoked_of_about hnil
    have hsucceeded : ∀ v, ¬ Succeeded aborted₀ tr i v := fun v h => hnot h.1
    have hfailed : ¬ Failed aborted₀ tr i := fun h => hnot h.1
    rw [hid] at hr
    subst hr
    exact {
      id := rfl
      succeeded := fun v => by simp [hsucceeded v]
      failed := by simp [hfailed]
      cancelled := by simp [hsucceeded, hfailed]
      not_invoked := fun _ => rfl }
  · rw [hid] at hr
    rcases verdict_of_about hlaw hall with ⟨hinvoked, hsucceeded, hfailed⟩
    refine ⟨hid, ?_, ?_, ?_, fun hnot => absurd hinvoked hnot⟩
    · intro v
      rw [hsucceeded v]
      rcases conclude_cases hr with ⟨v', rfl, rfl, rfl⟩ | ⟨err, m, rfl, rfl, rfl⟩ | ⟨rfl, rfl⟩
      · simp
      · simp
      · simp
    · rw [hfailed]
      rcases conclude_cases hr with ⟨v', rfl, rfl, rfl⟩ | ⟨err, m, rfl, rfl, rfl⟩ | ⟨rfl, rfl⟩
      · simp
      · simp
      · simp
    · simp only [hsucceeded, hfailed]
      rcases conclude_cases hr with ⟨v', rfl, rfl, rfl⟩ | ⟨err, m, rfl, rfl, rfl⟩ | ⟨rfl, rfl⟩
      · simp
      · simp
      · simp

end FromInvariant

/-! ## The contract -/

section Contract

variable (errorMessage : E → Option String) (requests : List (ToolRequest A))

/-- An integer bound is the number of workers, as far as there are requests. -/
theorem poolSize_nat (maxConcurrency : ℕ) :
    poolSize requests (.finite maxConcurrency) = min maxConcurrency requests.length := by
  rw [poolSize, JsNumber.min]
  by_cases hle : maxConcurrency ≤ requests.length
  · rw [if_pos (by exact_mod_cast hle), Nat.min_eq_left hle]
    simp [JsNumber.toLength]
  · rw [if_neg (by exact_mod_cast hle), Nat.min_eq_right (by omega)]
    simp [JsNumber.toLength]

/-- When all workers have finished, every slot is filled. -/
theorem Inv.filled {errorMessage : E → Option String} {requests : List (ToolRequest A)}
    {pool : ℕ} {aborted₀ : Bool} {tr : List (Obs V E)} {s : Runner V E}
    (h : Inv errorMessage requests pool aborted₀ tr s)
    (hpool : requests.length ≠ 0 → 1 ≤ pool)
    (hfinished : s.workers.all Worker.isFinished = true) {i : ℕ} (hi : i < requests.length) :
    ∃ r, s.res[i]? = some (some r) := by
  have hone : ∀ (w : ℕ) x, s.workers[w]? = some x → x = .finished := by
    intro w x hw
    have hx := List.all_eq_true.mp hfinished x (List.mem_of_getElem? hw)
    cases x <;> first | rfl | cases hx
  have hnext : s.nextIndex = requests.length := by
    have hlt : 0 < s.workers.length := by
      rw [h.workers_length]
      exact hpool (by omega)
    have hzero := List.getElem?_eq_getElem hlt
    rw [hone 0 _ hzero] at hzero
    exact h.finished 0 hzero
  rcases h.claimed i (by omega) with ⟨w, x, hw, hx⟩ | hr
  · -- a finished worker holds nothing
    rw [hone w x hw] at hx
    cases hx
  · exact hr

/-- `runTools` accepts every integer bound from 1 on, and keeps its contract in
every run. -/
theorem run_contract (maxConcurrency : ℕ) (hmax : 1 ≤ maxConcurrency) (aborted₀ : Bool) :
    ∃ M : Machine (Runner V E) (Event V E) (Obs V E),
      runTools errorMessage requests (.finite maxConcurrency) aborted₀ = .ok M ∧
      ∀ es tr s, M.Run es tr s → Contract requests maxConcurrency aborted₀ tr s := by
  have haccepted : (JsNumber.finite (maxConcurrency : ℚ)).leZero = false := by
    have hpos : (0 : ℚ) < maxConcurrency := by exact_mod_cast hmax
    exact decide_eq_false (not_le.mpr hpos)
  refine ⟨_, by rw [runTools, haccepted]; rfl, ?_⟩
  intro es tr s hrun
  have h := inv_run hrun
  rw [poolSize_nat] at h
  have hpool : (if requests.length = 0 then 0 else min maxConcurrency requests.length) ≤
      maxConcurrency := by
    split
    · exact Nat.zero_le _
    · exact Nat.min_le_left _ _
  have hone : requests.length ≠ 0 →
      1 ≤ if requests.length = 0 then 0 else min maxConcurrency requests.length := by
    intro hne
    rw [if_neg hne]
    omega
  refine ⟨h.at_most_once, ?_, ?_, ?_⟩
  · intro pre i post htr
    exact (h.lawful pre (.invoked i) post htr).1
  · intro pre post htr
    have hle := in_flight_of_lawful h.lawful pre post htr
    omega
  · intro res hres
    rw [returned] at hres
    split at hres
    · rename_i hall
      cases hres
      refine ⟨h.size, ?_⟩
      intro i req hreq
      rcases List.getElem?_eq_some_iff.mp hreq with ⟨hi, -⟩
      rcases h.filled hone hall.2 hi with ⟨r, hr⟩
      exact ⟨r, hr, (h.stored i r hr).2.resultOk hreq h.lawful⟩
    · cases hres

end Contract

/-- The requests of the question's example. -/
def abc : List (ToolRequest Unit) := [⟨"a", ()⟩, ⟨"b", ()⟩, ⟨"c", ()⟩]

/-- With two workers, b succeeds, c is started, a fails, and c succeeds. -/
def abcRun : List (Event ℕ String) :=
  [.start ⟨false, none⟩, .start ⟨false, none⟩, .handlerEnds 1 (.fulfilled 2), .resumeTool 1,
    .resumeWorker 1 ⟨false, none⟩, .handlerEnds 0 (.rejected "down"), .resumeTool 0,
    .resumeWorker 0 ⟨false, none⟩, .handlerEnds 1 (.fulfilled 3), .resumeTool 1,
    .resumeWorker 1 ⟨false, none⟩]

/-- The results as pairs of an id and a status. -/
def statuses (res : List (Option (ToolResult ℕ))) : List (String × String) :=
  res.map fun
    | none => ("", "")
    | some (.succeeded id _) => (id, "succeeded")
    | some (.failed id _) => (id, "failed")
    | some (.cancelled id) => (id, "cancelled")

theorem run_contract_abc :
    ∃ (M : Machine (Runner ℕ String) (Event ℕ String) (Obs ℕ String)) (tr : List (Obs ℕ String))
      (s : Runner ℕ String), runTools some abc (.finite 2) false = .ok M ∧ M.Run abcRun tr s ∧
      (returned s).map statuses =
        some [("a", "failed"), ("b", "succeeded"), ("c", "succeeded")] ∧
      Contract abc 2 false tr s := by
  rcases run_contract (V := ℕ) some abc 2 (by decide) false with ⟨M, hM, hcontract⟩
  have hM' : M = machine some abc (.finite 2) false := by
    have hok : runTools some abc (.finite 2) false =
        .ok (machine (V := ℕ) some abc (.finite 2) false) := rfl
    exact (Except.ok.inj (hok.symm.trans hM)).symm
  have hexec : (M.exec abcRun).map (fun r => (returned r.1).map statuses) =
      some (some [("a", "failed"), ("b", "succeeded"), ("c", "succeeded")]) := by
    rw [hM']
    decide +kernel
  rcases Machine.Run.of_exec_map hexec with ⟨s, tr, hrun, hs⟩
  exact ⟨M, tr, s, hM, hrun, hs, hcontract _ _ _ hrun⟩

end InterviewPrep.ToolRunner
