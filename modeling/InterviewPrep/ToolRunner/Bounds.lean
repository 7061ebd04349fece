import InterviewPrep.Lib.Termination
import InterviewPrep.ToolRunner.Contract

/-!
# Which bounds are usable

`runTools` throws for a `maxConcurrency` of at most 0 only. With a bound between
0 and 1, or with `NaN`, the guard lets the call pass and `Array.from` makes no
worker: the array is returned at once with all its slots empty. `usable_iff` says
that these are the only bounds with which this can happen.

Every run comes to an end (`ends`): what is left to do, `Runner.work`, counts the
workers to be started, the abort, the `await`s that are left of the requests in
progress, and the requests that nobody has claimed.
-/

namespace InterviewPrep.ToolRunner

variable {A V E : Type}

/-! ## The property -/

/-- Every slot holds a result. -/
def Filled (requests : List (ToolRequest A)) (res : List (Option (ToolResult V))) : Prop :=
  res.length = requests.length ∧ ∀ i < requests.length, ∃ r, res[i]? = some (some r)

/-- The promise of `runTools` is settled: a worker has rejected it, or all have
finished. -/
def Settled (s : Runner V E) : Prop :=
  (∃ i, .rejected i ∈ s.workers) ∨ ∃ res, returned s = some res

/-- `runTools` throws, or it settles in every run, and what it returns has a
result in every slot. -/
def Usable (V : Type) (errorMessage : E → Option String) (requests : List (ToolRequest A))
    (maxConcurrency : JsNumber) (aborted₀ : Bool) : Prop :=
  ∀ M : Machine (Runner V E) (Event V E) (Obs V E),
    runTools errorMessage requests maxConcurrency aborted₀ = .ok M →
      M.Ends (fun _ _ => True) Settled ∧
        ∀ es tr s res, M.Run es tr s → returned s = some res → Filled requests res

/-- `x >= 1` -/
def JsNumber.geOne : JsNumber → Bool
  | nan => false
  | negInfinity => false
  | finite q => decide (1 ≤ q)
  | infinity => true

/-! ## The pool -/

section Pool

variable {requests : List (ToolRequest A)} {maxConcurrency : JsNumber}

/-- A bound of at least 1 makes a worker. -/
theorem poolSize_pos (hne : requests ≠ []) (hmax : maxConcurrency.geOne = true) :
    1 ≤ poolSize requests maxConcurrency := by
  have hlength : 1 ≤ requests.length := List.length_pos_of_ne_nil hne
  have hnat : 1 ≤ (JsNumber.finite (requests.length : ℚ)).toLength := by
    simpa [JsNumber.toLength] using hlength
  unfold poolSize
  cases maxConcurrency with
  | nan => cases hmax
  | negInfinity => cases hmax
  | infinity => exact hnat
  | finite q =>
    have hq : (1 : ℚ) ≤ q := of_decide_eq_true hmax
    rw [JsNumber.min]
    split
    · have hfloor : 1 ≤ ⌊q⌋ := Int.le_floor.mpr (by exact_mod_cast hq)
      simp only [JsNumber.toLength]
      omega
    · exact hnat

/-- A bound that passes the guard and is not at least 1 makes none. -/
theorem poolSize_eq_zero (hne : requests ≠ []) (haccepted : maxConcurrency.leZero = false)
    (hmax : maxConcurrency.geOne = false) : poolSize requests maxConcurrency = 0 := by
  have hlength : 1 ≤ requests.length := List.length_pos_of_ne_nil hne
  unfold poolSize
  cases maxConcurrency with
  | nan => rfl
  | negInfinity => cases haccepted
  | infinity => cases hmax
  | finite q =>
    have hpos : 0 < q := not_le.mp (of_decide_eq_false haccepted)
    have hlt : q < 1 := not_le.mp (of_decide_eq_false hmax)
    have hle : q ≤ requests.length := by
      have hone : (1 : ℚ) ≤ requests.length := by exact_mod_cast hlength
      exact (hlt.trans_le hone).le
    have hfloor : ⌊q⌋ = 0 := by
      rw [Int.floor_eq_iff]
      constructor
      · exact_mod_cast hpos.le
      · simpa using hlt
    rw [JsNumber.min, if_pos hle, JsNumber.toLength, hfloor]
    rfl

/-- Without a worker the array is returned as it was made. -/
theorem returned_init (aborted₀ : Bool) (hpool : poolSize requests maxConcurrency = 0) :
    returned (init requests maxConcurrency aborted₀ : Runner V E) =
      some (List.replicate requests.length none) := by
  simp [returned, init, hpool]

end Pool

/-! ## What is left to do -/

/-- The steps that a worker will make for the request it has claimed. -/
def Worker.work : Worker V E → ℕ
  | atLoop => 0
  | awaitingHandler _ _ => 3
  | handlerEnded _ _ _ => 2
  | toolDone _ _ => 1
  | rejected _ => 0
  | finished => 0

section Work

variable (errorMessage : E → Option String) (requests : List (ToolRequest A))

def Runner.work (s : Runner V E) : ℕ :=
  (s.workers.length - s.started) + (if s.aborted then 0 else 1) +
    (s.workers.map Worker.work).sum + 4 * (requests.length - s.nextIndex)

/-- What worker `w` does up to its next `await`: it makes up for the work it adds,
beyond `k`, by claiming requests. -/
structure Stretch (w k : ℕ) (s s' : Runner V E) : Prop where
  started : s'.started = s.started
  aborted : s.aborted = true → s'.aborted = true
  claims : s.nextIndex ≤ s'.nextIndex
  worker : ∃ x : Worker V E, x ≠ .atLoop ∧ s'.workers = s.workers.set w x ∧
    x.work + 4 * s.nextIndex ≤ 4 * s'.nextIndex + k

variable {errorMessage requests} {w i k : ℕ} {s s' : Runner V E} {x y : Worker V E}

theorem stretch_setWorker (hx : x ≠ .atLoop) (hk : x.work ≤ k) :
    Stretch w k s (s.setWorker w x) where
  started := rfl
  aborted h := h
  claims := le_refl _
  worker := ⟨x, hx, rfl, by simp only [Runner.setWorker]; omega⟩

variable (errorMessage w i) in
theorem stretch_resumeTool (id : String) (o : Outcome V E) (s : Runner V E) :
    Stretch w 1 s (resumeTool errorMessage w i id o s).1 := by
  unfold resumeTool
  cases conclude errorMessage id s.aborted o with
  | none => exact stretch_setWorker (by simp) (by simp [Worker.work])
  | some r => exact stretch_setWorker (by simp) (le_refl _)

variable (errorMessage w i) in
/-- The call of a handler. What it does synchronously is overwritten, or done
before it returns. -/
theorem stretch_invoke (id : String) (call : HandlerCall E) (s : Runner V E) :
    Stretch w 3 s (invoke errorMessage w i id call s).1 := by
  have hcalled : ∀ b : Bool, Stretch w 3 s
      { s.setWorker w (.awaitingHandler i id) with aborted := b || s.aborted } := by
    intro b
    refine ⟨rfl, ?_, le_refl _, .awaitingHandler i id, by simp, rfl, ?_⟩
    · intro h
      simp [h]
    · simp only [Worker.work, Runner.setWorker]
      omega
  have hthrown : ∀ (b : Bool) err, Stretch w 3 s (resumeTool errorMessage w i id (.rejected err)
      { s.setWorker w (.awaitingHandler i id) with aborted := b || s.aborted }).1 := by
    intro b err
    rcases stretch_resumeTool errorMessage w i id (.rejected err)
      { s.setWorker w (.awaitingHandler i id) with aborted := b || s.aborted } with
      ⟨hstarted, haborted, hclaims, x, hx, hworkers, hwork⟩
    refine ⟨hstarted, fun h => haborted (by simp [h]), hclaims, x, hx, ?_, ?_⟩
    · rw [hworkers]
      exact List.set_set ..
    · have hindex : ({ s.setWorker w (.awaitingHandler i id) with
          aborted := b || s.aborted } : Runner V E).nextIndex = s.nextIndex := rfl
      omega
  rcases call with ⟨aborts, throws⟩
  cases aborts with
  | false =>
    cases throws with
    | none => exact hcalled false
    | some err => exact hthrown false err
  | true =>
    cases throws with
    | none => exact hcalled true
    | some err => exact hthrown true err

variable (errorMessage w i) in
theorem invoke_nextIndex (id : String) (call : HandlerCall E) (s : Runner V E) :
    (invoke errorMessage w i id call s).1.nextIndex = s.nextIndex := by
  rcases call with ⟨aborts, throws⟩
  cases aborts <;> cases throws <;> rfl

variable (errorMessage w) in
/-- The loop claims at least one request for each worker it leaves waiting. -/
theorem stretch_loop (call : HandlerCall E) :
    ∀ (rest : List (ToolRequest A)) (s : Runner V E),
      Stretch w 0 s (loop errorMessage w call rest s).1 ∧
        (loop errorMessage w call rest s).1.nextIndex ≤ s.nextIndex + rest.length := by
  intro rest
  induction rest with
  | nil =>
    intro s
    exact ⟨stretch_setWorker (by simp) (le_refl _), le_refl _⟩
  | cons req rest ih =>
    intro s
    rw [loop, List.length_cons]
    by_cases haborted : s.aborted = true
    · -- the request is cancelled, and the loop goes on
      rw [if_pos haborted]
      rcases ih ({ s with nextIndex := s.nextIndex + 1 }.store s.nextIndex (.cancelled req.id)) with
        ⟨⟨hstarted, haborted', hclaims, x, hx, hworkers, hwork⟩, hlength⟩
      have hindex : ({ s with nextIndex := s.nextIndex + 1 }.store s.nextIndex
          (.cancelled req.id)).nextIndex = s.nextIndex + 1 := rfl
      rw [hindex] at hclaims hwork hlength
      exact ⟨⟨hstarted, haborted', by omega, x, hx, hworkers, by omega⟩, by omega⟩
    · rw [if_neg haborted, runTool, if_neg haborted]
      rcases stretch_invoke errorMessage w s.nextIndex req.id call
        { s with nextIndex := s.nextIndex + 1 } with
        ⟨hstarted, haborted', hclaims, x, hx, hworkers, hwork⟩
      have hindex := invoke_nextIndex errorMessage w s.nextIndex req.id call
        { s with nextIndex := s.nextIndex + 1 }
      simp only at hindex hclaims hwork
      exact ⟨⟨hstarted, haborted', by omega, x, hx, hworkers, by omega⟩, by omega⟩

/-- What a stretch leaves to do. -/
theorem Stretch.work_le (h : Stretch w k s s') (hw : s.workers[w]? = some y)
    (hbound : s'.nextIndex ≤ requests.length) :
    s'.work requests + y.work ≤ s.work requests + k := by
  rcases h with ⟨hstarted, haborted, hclaims, x, -, hworkers, hwork⟩
  have hsum := sum_map_set (a := x) Worker.work hw
  have hsignal : (if s'.aborted then 0 else 1) ≤ if s.aborted then 0 else 1 := by
    cases hs : s.aborted with
    | false => split <;> simp
    | true => simp [haborted hs]
  unfold Runner.work
  rw [hworkers, hstarted, List.length_set]
  omega

/-! ## Steps -/

/-- The workers at the head of their loop are those that are not started. -/
structure Launched (s : Runner V E) : Prop where
  bound : s.started ≤ s.workers.length
  atLoop_iff : ∀ (v : ℕ) x, s.workers[v]? = some x → (x = .atLoop ↔ s.started ≤ v)

/-- After a stretch of a started worker, if the other workers are where they
should be. -/
theorem Stretch.launched (h : Stretch w k s s') (hbound : s.started ≤ s.workers.length)
    (hw : w < s.started)
    (hother : ∀ (v : ℕ) x, v ≠ w → s.workers[v]? = some x → (x = .atLoop ↔ s.started ≤ v)) :
    Launched s' := by
  rcases h with ⟨hstarted, -, -, x, hx, hworkers, -⟩
  constructor
  · rw [hworkers, hstarted, List.length_set]
    exact hbound
  · intro v y hv
    rw [hworkers] at hv
    rw [hstarted]
    rcases getElem?_set_cases hv with ⟨rfl, rfl⟩ | ⟨hne, hold⟩
    · exact iff_of_false hx (by omega)
    · exact hother v y hne hold

theorem Launched.stretch (h : Launched s) (hst : Stretch w k s s') (hw : w < s.started) :
    Launched s' :=
  hst.launched h.bound hw (fun v x _ hv => h.atLoop_iff v x hv)

/-- Every step leaves less to do. -/
theorem step_work_lt {e : Event V E} {out : List (Obs V E)} (h : Launched s)
    (hs : step errorMessage requests s e = some (s', out))
    (hbound : s'.nextIndex ≤ requests.length) :
    Launched s' ∧ s'.work requests < s.work requests := by
  cases e with
  | start call =>
    simp only [step] at hs
    split at hs
    · rename_i hw
      rcases List.getElem?_eq_some_iff.mp hw with ⟨hlt, -⟩
      have hst := (stretch_loop errorMessage s.started call
        (requests.drop s.nextIndex) { s with started := s.started + 1 }).1
      rw [Option.some.inj hs] at hst
      dsimp only at hst
      constructor
      · refine hst.launched hlt (Nat.lt_succ_self _) ?_
        intro v x hne hv
        rw [h.atLoop_iff v x hv]
        simp only
        omega
      · have hle := hst.work_le hw hbound
        have hlaunch : ({ s with started := s.started + 1 } : Runner V E).work requests + 1 =
            s.work requests := by
          simp only [Runner.work]
          omega
        omega
    · cases hs
  | handlerEnds w o =>
    simp only [step] at hs
    split at hs
    · rename_i hstarted
      split at hs
      · rename_i i id hw
        rcases List.getElem?_eq_some_iff.mp hw with ⟨hlt, -⟩
        cases hs
        have hst : Stretch w 2 s (s.setWorker w (.handlerEnded i id o)) :=
          stretch_setWorker (by simp) (le_refl _)
        have hle := hst.work_le hw hbound
        simp only [Worker.work] at hle
        exact ⟨h.stretch hst (by omega), by omega⟩
      · cases hs
    · cases hs
  | resumeTool w =>
    simp only [step] at hs
    split at hs
    · rename_i hstarted
      split at hs
      · rename_i i id o hw
        rcases List.getElem?_eq_some_iff.mp hw with ⟨hlt, -⟩
        have hst := stretch_resumeTool errorMessage w i id o s
        rw [Option.some.inj hs] at hst
        have hle := hst.work_le hw hbound
        simp only [Worker.work] at hle
        exact ⟨h.stretch hst (by omega), by omega⟩
      · cases hs
    · cases hs
  | resumeWorker w call =>
    simp only [step] at hs
    split at hs
    · rename_i hstarted
      split at hs
      · rename_i i r hw
        rcases List.getElem?_eq_some_iff.mp hw with ⟨hlt, -⟩
        have hst := (stretch_loop errorMessage w call
          (requests.drop s.nextIndex) ((s.store i r).setWorker w .atLoop)).1
        rw [Option.some.inj hs] at hst
        dsimp only at hst
        have hw' : ((s.store i r).setWorker w .atLoop).workers[w]? = some .atLoop :=
          getElem?_set_of_some hw
        constructor
        · refine hst.launched ?_ (by rw [← hstarted] at hlt; exact hlt) ?_
          · show s.started ≤ (s.workers.set w .atLoop).length
            rw [List.length_set]
            exact h.bound
          · intro v x hne hv
            rw [setWorker_of_ne hne] at hv
            exact h.atLoop_iff v x hv
        · have hle := hst.work_le hw' hbound
          -- the worker leaves its request
          have hstored : ((s.store i r).setWorker w .atLoop).work requests + 1 =
              s.work requests := by
            have hsum := sum_map_set (a := (.atLoop : Worker V E)) Worker.work hw
            have hwork : ((s.store i r).setWorker w .atLoop).work requests =
                ((s.workers.set w .atLoop).length - s.started) + (if s.aborted then 0 else 1) +
                  ((s.workers.set w .atLoop).map Worker.work).sum +
                  4 * (requests.length - s.nextIndex) := rfl
            simp only [Worker.work] at hsum
            rw [hwork, Runner.work, List.length_set]
            omega
          omega
      · cases hs
    · cases hs
  | abort =>
    simp only [step] at hs
    split at hs
    · rename_i hcond
      cases hs
      refine ⟨⟨h.bound, h.atLoop_iff⟩, ?_⟩
      simp only [Runner.work, hcond.2, Bool.false_eq_true, if_false, if_true]
      omega
    · cases hs

/-- A call that is not settled goes on. -/
theorem exists_step [Inhabited V] (h : Launched s) (hnot : ¬ Settled s) :
    ∃ e s' out, step (V := V) errorMessage requests s e = some (s', out) := by
  rcases Nat.lt_or_eq_of_le h.bound with hlt | heq
  · -- the next worker is started
    have hw := List.getElem?_eq_getElem hlt
    rw [(h.atLoop_iff s.started _ hw).mpr (le_refl _)] at hw
    exact ⟨.start ⟨false, none⟩, _, _, by simp only [step, hw]; rfl⟩
  · have hunfinished : ∃ x ∈ s.workers, x.isFinished = false := by
      by_contra hall
      push Not at hall
      refine hnot (Or.inr ⟨s.res, ?_⟩)
      rw [returned, if_pos]
      refine ⟨heq, List.all_eq_true.mpr ?_⟩
      intro x hx
      simpa using hall x hx
    rcases hunfinished with ⟨x, hx, hfinished⟩
    rcases List.mem_iff_getElem?.mp hx with ⟨w, hw⟩
    rcases List.getElem?_eq_some_iff.mp hw with ⟨hlt, -⟩
    cases x with
    | atLoop =>
      have hle := (h.atLoop_iff w _ hw).mp rfl
      omega
    | awaitingHandler i id =>
      exact ⟨.handlerEnds w (.fulfilled default), _, _, by
        simp only [step, if_pos heq, hw]; rfl⟩
    | handlerEnded i id o =>
      exact ⟨.resumeTool w, _, _, by simp only [step, if_pos heq, hw]; rfl⟩
    | toolDone i r =>
      exact ⟨.resumeWorker w ⟨false, none⟩, _, _, by simp only [step, if_pos heq, hw]; rfl⟩
    | rejected i => exact absurd (Or.inl ⟨i, hx⟩) hnot
    | finished => cases hfinished

end Work

/-! ## Runs -/

section Runs

variable (errorMessage : E → Option String) (requests : List (ToolRequest A))
  (maxConcurrency : JsNumber) (aborted₀ : Bool)

theorem launched_run {es : List (Event V E)} {tr : List (Obs V E)} {s : Runner V E}
    (hrun : (machine errorMessage requests maxConcurrency aborted₀).Run es tr s) :
    Launched s := by
  refine hrun.history_invariant (fun _ _ s => Launched s) ?_ ?_
  · refine ⟨Nat.zero_le _, ?_⟩
    intro v x hv
    have hx : x = .atLoop := by
      simp only [machine, init] at hv
      split at hv
      · cases hv
      · exact List.eq_of_mem_replicate (List.mem_of_getElem? hv)
    exact iff_of_true hx (Nat.zero_le _)
  · intro es tr s e s' out hrun h hs
    exact (step_work_lt h hs (inv_run (hrun.step hs)).bound).1

/-- Every run comes to an end, and the call is settled then. -/
theorem ends [Inhabited V] :
    (machine (V := V) errorMessage requests maxConcurrency aborted₀).Ends (fun _ _ => True)
      Settled := by
  constructor
  · refine ⟨(init requests maxConcurrency aborted₀ : Runner V E).work requests, ?_⟩
    intro es tr s hrun
    have hle := hrun.length_add_le (Runner.work requests) ?_
    · exact Nat.le_of_add_right_le hle
    · intro es tr s e s' out hrun _ hs
      have hlaunched := launched_run errorMessage requests maxConcurrency aborted₀ hrun.run
      exact (step_work_lt hlaunched hs (inv_run (hrun.run.step hs)).bound).2
  · intro es tr s hrun hnot
    rcases exists_step (launched_run errorMessage requests maxConcurrency aborted₀ hrun.run) hnot
      with ⟨e, s', out, hs⟩
    exact ⟨e, s', out, trivial, hs⟩

/-- **Usable bounds.** `runTools` throws, or settles in every run and returns an
array without an empty slot, exactly for the bounds of at most 0, for which it
throws, and for those of at least 1, and for every bound if there are no
requests. -/
theorem usable_iff [Inhabited V] :
    Usable V errorMessage requests maxConcurrency aborted₀ ↔
      maxConcurrency.leZero = true ∨ maxConcurrency.geOne = true ∨ requests = [] := by
  unfold Usable runTools
  cases haccepted : maxConcurrency.leZero with
  | true => simp
  | false =>
    simp only [Bool.false_eq_true, if_false, false_or, Except.ok.injEq, forall_eq']
    constructor
    · rintro ⟨-, hfilled⟩
      by_contra hnot
      push Not at hnot
      rcases hnot with ⟨hmax, hne⟩
      have hpool := poolSize_eq_zero hne haccepted (by simpa using hmax)
      have hreturned := returned_init (V := V) (E := E) aborted₀ hpool
      -- the array is returned before anything happens
      rcases (hfilled [] [] _ _ .init hreturned).2 0 (List.length_pos_of_ne_nil hne) with ⟨r, hr⟩
      have hmem := List.eq_of_mem_replicate (List.mem_of_getElem? hr)
      cases hmem
    · intro husable
      refine ⟨ends errorMessage requests maxConcurrency aborted₀, ?_⟩
      intro es tr s res hrun hres
      have h := inv_run hrun
      rw [returned] at hres
      split at hres
      · rename_i hall
        cases hres
        refine ⟨h.size, ?_⟩
        intro i hi
        refine h.filled ?_ hall.2 hi
        intro hlength
        have hne : requests ≠ [] := List.ne_nil_of_length_pos (Nat.pos_of_ne_zero hlength)
        rw [if_neg hlength]
        exact poolSize_pos hne (husable.resolve_right hne)
      · cases hres

end Runs

/-- With a bound of one half, the three requests get no worker, and the array is
returned with three empty slots. -/
theorem half_unfilled :
    (∃ M : Machine (Runner ℕ String) (Event ℕ String) (Obs ℕ String),
      runTools some abc (.finite (1 / 2)) false = .ok M ∧
      ∃ tr s, M.Run [] tr s ∧ returned s = some [none, none, none]) ∧
    ¬ Usable ℕ some abc (.finite (1 / 2)) false := by
  have haccepted : runTools (V := ℕ) some abc (.finite (1 / 2)) false =
      .ok (machine some abc (.finite (1 / 2)) false) := by
    have hguard : (JsNumber.finite (1 / 2)).leZero = false := by decide +kernel
    rw [runTools, hguard]
    rfl
  have hpool : poolSize abc (.finite (1 / 2)) = 0 := by decide +kernel
  have hreturned := returned_init (V := ℕ) (E := String) false hpool
  refine ⟨⟨_, haccepted, [], _, .init, hreturned⟩, ?_⟩
  intro husable
  rcases ((husable _ haccepted).2 [] [] _ _ .init hreturned).2 0 (by decide) with ⟨r, hr⟩
  cases hr

end InterviewPrep.ToolRunner
