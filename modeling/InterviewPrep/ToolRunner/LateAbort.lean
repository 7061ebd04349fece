import InterviewPrep.ToolRunner.Contract

/-!
# Late aborts

`runTool` reads the signal again after its handler, and reports a request whose
handler has run as cancelled if it finds the signal aborted. `late_abort` says
that this is the only case in which a report hides what the handler did.
-/

namespace InterviewPrep.ToolRunner

variable {A V E : Type}

/-- The result says how the handler of a request ended. -/
def Tells (errorMessage : E → Option String) (id : String) : Outcome V E → ToolResult V → Prop
  | .fulfilled v, r => r = .succeeded id v
  | .rejected err, r => ∃ message, errorMessage err = some message ∧ r = .failed id message

section FromInvariant

variable {errorMessage : E → Option String} {requests : List (ToolRequest A)} {pool : ℕ}
  {aborted₀ : Bool} {tr : List (Obs V E)} {s : Runner V E} {i : ℕ}

/-- Without an abort `runTool` returns what the handler did, with one it does
not. -/
theorem tells_of_conclude {id : String} {a : Bool} {o : Outcome V E} {r : ToolResult V}
    (h : conclude errorMessage id a o = some r) :
    (Tells errorMessage id o r ↔ a = false) ∧ (a = true ↔ r = .cancelled id) := by
  cases a with
  | true =>
    have hr : r = .cancelled id := by
      cases o with
      | fulfilled v => exact (Option.some.inj h).symm
      | rejected err => exact (Option.some.inj h).symm
    subst hr
    cases o with
    | fulfilled v => simp [Tells]
    | rejected err => simp [Tells]
  | false =>
    cases o with
    | fulfilled v =>
      have hr : r = .succeeded id v := (Option.some.inj h).symm
      simp [Tells, hr]
    | rejected err =>
      rcases Option.map_eq_some_iff.mp h with ⟨message, hmessage, hr⟩
      simp [Tells, hmessage, ← hr]

/-- A request whose handler was invoked has a result when the workers have
finished. -/
theorem Inv.stored_of_invoked (h : Inv errorMessage requests pool aborted₀ tr s)
    (hfinished : s.workers.all Worker.isFinished = true) (hinvoked : .invoked i ∈ tr) :
    ∃ r, s.res[i]? = some (some r) := by
  have hlt : i < s.nextIndex := by
    by_contra hge
    exact not_invoked_of_about (h.fresh i (by omega)) hinvoked
  rcases h.claimed i hlt with ⟨w, x, hw, hx⟩ | hr
  · -- a finished worker holds nothing
    have hx' := List.all_eq_true.mp hfinished x (List.mem_of_getElem? hw)
    cases x with
    | finished => cases hx
    | atLoop => cases hx'
    | awaitingHandler j id => cases hx'
    | handlerEnded j id o => cases hx'
    | toolDone j r => cases hx'
    | rejected j => cases hx'
  · exact hr

/-- The report on a request whose handler was invoked. -/
theorem Final.tells {r : ToolResult V} {req : ToolRequest A}
    (hfinal : Final errorMessage requests tr i r) (hreq : requests[i]? = some req)
    (hlaw : Along (Lawful pool aborted₀) tr) (hinvoked : .invoked i ∈ tr) :
    ∃ o, .ended i o ∈ tr ∧ (∀ o', .ended i o' ∈ tr → o' = o) ∧
      (Tells errorMessage req.id o r ↔ ResumedInTime aborted₀ tr i) ∧
      (¬ ResumedInTime aborted₀ tr i ↔ r = .cancelled req.id) := by
  have hid : r.id = req.id := by
    rcases hfinal.id with ⟨req', hreq', hid⟩
    rw [hreq] at hreq'
    cases hreq'
    exact hid
  rcases hfinal.verdict with ⟨hnil, -⟩ | ⟨o, a, hall, hr⟩
  · exact absurd hinvoked (not_invoked_of_about hnil)
  · rw [hid] at hr
    rcases tells_of_conclude hr with ⟨htells, hcancelled⟩
    have hended : ∀ o', .ended i o' ∈ tr ↔ o' = o := by
      intro o'
      rw [mem_iff_mem_about rfl, hall]
      simp
    have hresumed : ResumedInTime aborted₀ tr i ↔ a = false := by
      rw [resumedInTime_iff hlaw, mem_iff_mem_about rfl, hall]
      simp [eq_comm]
    refine ⟨o, (hended o).mpr rfl, fun o' => (hended o').mp, ?_, ?_⟩
    · rw [htells, hresumed]
    · rw [hresumed, Bool.not_eq_false, hcancelled]

end FromInvariant

/-! ## The reports of a run -/

section Runs

variable {errorMessage : E → Option String} {requests : List (ToolRequest A)}
  {maxConcurrency : JsNumber} {aborted₀ : Bool} {M : Machine (Runner V E) (Event V E) (Obs V E)}
  {es : List (Event V E)} {tr : List (Obs V E)} {s : Runner V E}
  {res : List (Option (ToolResult V))}

/-- **Late aborts.** When `runTools` returns, a request is reported as cancelled
only if its handler was never invoked or `runTool` resumed after it with the
signal aborted. A request whose handler was invoked has a report that says how
the handler ended if and only if `runTool` resumed after it in time; otherwise it
is reported as cancelled. -/
theorem late_abort (hM : runTools errorMessage requests maxConcurrency aborted₀ = .ok M)
    (hrun : M.Run es tr s) (hres : returned s = some res) :
    ∀ (i : ℕ) req, requests[i]? = some req →
      (res[i]? = some (some (.cancelled req.id)) →
        .invoked i ∉ tr ∨ ¬ ResumedInTime aborted₀ tr i) ∧
      (.invoked i ∈ tr → ∃ o r, .ended i o ∈ tr ∧ (∀ o', .ended i o' ∈ tr → o' = o) ∧
        res[i]? = some (some r) ∧
        (Tells errorMessage req.id o r ↔ ResumedInTime aborted₀ tr i) ∧
        (¬ ResumedInTime aborted₀ tr i ↔ r = .cancelled req.id)) := by
  have hmachine : M = machine errorMessage requests maxConcurrency aborted₀ := by
    rw [runTools] at hM
    split at hM
    · cases hM
    · exact (Except.ok.inj hM).symm
  subst hmachine
  have h := inv_run hrun
  rw [returned] at hres
  split at hres
  · rename_i hall
    cases hres
    intro i req hreq
    have hreport : .invoked i ∈ tr → ∃ o r, .ended i o ∈ tr ∧
        (∀ o', .ended i o' ∈ tr → o' = o) ∧ s.res[i]? = some (some r) ∧
        (Tells errorMessage req.id o r ↔ ResumedInTime aborted₀ tr i) ∧
        (¬ ResumedInTime aborted₀ tr i ↔ r = .cancelled req.id) := by
      intro hinvoked
      rcases h.stored_of_invoked hall.2 hinvoked with ⟨r, hr⟩
      rcases (h.stored i r hr).2.tells hreq h.lawful hinvoked with ⟨o, hended, honly, htells⟩
      exact ⟨o, r, hended, honly, hr, htells⟩
    refine ⟨?_, hreport⟩
    intro hcancelled
    by_cases hinvoked : .invoked i ∈ tr
    · right
      rcases hreport hinvoked with ⟨o, r, -, -, hr, -, hlate⟩
      rw [hcancelled] at hr
      cases hr
      exact hlate.mpr rfl
    · exact Or.inl hinvoked
  · cases hres

end Runs

/-- The signal is aborted after `runTool` has returned, so that the report says
what the handler did. -/
theorem late_abort_in_time :
    ∃ (M : Machine (Runner ℕ String) (Event ℕ String) (Obs ℕ String)) (tr : List (Obs ℕ String))
      (s : Runner ℕ String) (res : List (Option (ToolResult ℕ))),
      runTools some [(⟨"a", ()⟩ : ToolRequest Unit)] (.finite 1) false = .ok M ∧
      M.Run [.start ⟨false, none⟩, .handlerEnds 0 (.fulfilled 1), .resumeTool 0, .abort,
        .resumeWorker 0 ⟨false, none⟩] tr s ∧ returned s = some res ∧
      ∃ o r, .ended 0 o ∈ tr ∧ res[0]? = some (some r) ∧ Tells some "a" o r := by
  have hrun : (machine some [(⟨"a", ()⟩ : ToolRequest Unit)] (.finite 1) false).Run
      [.start ⟨false, none⟩, .handlerEnds 0 (.fulfilled 1), .resumeTool 0, .abort,
        .resumeWorker 0 ⟨false, none⟩]
      [.invoked 0, .ended 0 (.fulfilled 1), .resumed 0 false, .aborted] _ := .of_exec rfl
  have hM : runTools some [(⟨"a", ()⟩ : ToolRequest Unit)] (.finite 1) false = .ok
      (machine (V := ℕ) some [⟨"a", ()⟩] (.finite 1) false) := rfl
  have hreport := late_abort hM hrun rfl 0 ⟨"a", ()⟩ rfl
  rcases hreport.2 (by simp) with ⟨o, r, hended, -, hr, htells, -⟩
  have htime : ResumedInTime (V := ℕ) (E := String) false
      [.invoked 0, .ended 0 (.fulfilled 1), .resumed 0 false, .aborted] 0 :=
    ⟨[.invoked 0, .ended 0 (.fulfilled 1)], false, [.aborted], rfl, by simp [Aborted]⟩
  exact ⟨_, _, _, _, rfl, hrun, rfl, o, r, hended, hr, htells.mpr htime⟩

/-- The signal is aborted while the handler of the only request runs, which then
returns a value. -/
def lateAbortRun : List (Event ℕ String) :=
  [.start ⟨false, none⟩, .abort, .handlerEnds 0 (.fulfilled 1), .resumeTool 0,
    .resumeWorker 0 ⟨false, none⟩]

/-- The request is reported as cancelled, although its handler was invoked and
fulfilled. -/
theorem late_abort_hides :
    ∃ (M : Machine (Runner ℕ String) (Event ℕ String) (Obs ℕ String)) (tr : List (Obs ℕ String))
      (s : Runner ℕ String), runTools some [(⟨"a", ()⟩ : ToolRequest Unit)] (.finite 1) false = .ok M ∧
      M.Run lateAbortRun tr s ∧ returned s = some [some (.cancelled "a")] ∧
      .invoked 0 ∈ tr ∧ .ended 0 (.fulfilled 1) ∈ tr := by
  exact ⟨_, [.invoked 0, .aborted, .ended 0 (.fulfilled 1), .resumed 0 true], _, rfl,
    .of_exec rfl, rfl, by simp, by simp⟩

end InterviewPrep.ToolRunner
