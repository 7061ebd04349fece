import Mathlib.Data.List.Basic

/-!
# Event-driven machines

A machine owns a state and reacts to one event at a time. A step may be
impossible (`none`), and it may emit observations: the calls it makes and the
answers it gives. Everything that is concurrent about a system lies in the
order of the events, so a statement about all runs is a statement about all
interleavings.

* `Machine.Run M es tr s`: the events `es` lead from the initial state to `s`
  and the observations emitted on the way are `tr`;
* `Machine.exec`: the same as a function, to run a schedule (`Run.of_exec`);
* `Run.invariant`, `Run.history_invariant`: the induction rules, on the state
  alone and on the state together with its history;
* `Run.history_invariant_of_events`: the rule for runs of some events only;
* `Run.emitted`: an observation in a trace was emitted by some step of the run;
* `Run.simulate`: the runs of a machine are runs of one that it refines;
* `Machine.RunWhere`: the runs whose steps satisfy a condition, with an induction
  rule and a rule of simulation of their own; `Machine.execWhere` runs a schedule
  under such a condition.
-/

namespace InterviewPrep

/-- A machine with states `σ`, events `ε` and observations `ο`. -/
structure Machine (σ ε ο : Type*) where
  init : σ
  step : σ → ε → Option (σ × List ο)

namespace Machine

variable {σ ε ο : Type*} (M : Machine σ ε ο)

/-- Run a schedule from a given state. -/
def execFrom : σ → List ε → Option (σ × List ο)
  | s, [] => some (s, [])
  | s, e :: es =>
    match M.step s e with
    | none => none
    | some (s', out) =>
      match execFrom s' es with
      | none => none
      | some (s'', tr) => some (s'', out ++ tr)

/-- Run a schedule from the initial state. -/
def exec (es : List ε) : Option (σ × List ο) := M.execFrom M.init es

/-- Finite runs from the initial state, with their observations. -/
inductive Run : List ε → List ο → σ → Prop where
  | init : Run [] [] M.init
  | step {es : List ε} {tr : List ο} {s : σ} {e : ε} {s' : σ} {out : List ο} :
      Run es tr s → M.step s e = some (s', out) → Run (es ++ [e]) (tr ++ out) s'

variable {M}

/-! ## Execution -/

theorem execFrom_cons {s s' s'' : σ} {e : ε} {fs : List ε} {out tr : List ο}
    (hs : M.step s e = some (s', out)) (h : M.execFrom s' fs = some (s'', tr)) :
    M.execFrom s (e :: fs) = some (s'', out ++ tr) := by
  simp only [execFrom, hs, h]

theorem execFrom_singleton {s s' : σ} {e : ε} {out : List ο}
    (hs : M.step s e = some (s', out)) : M.execFrom s [e] = some (s', out) := by
  simpa using execFrom_cons hs (rfl : M.execFrom s' [] = some (s', []))

/-- A schedule starts with a step. -/
theorem execFrom_cons_cases {s s'' : σ} {e : ε} {fs : List ε} {tr : List ο}
    (h : M.execFrom s (e :: fs) = some (s'', tr)) :
    ∃ s' out tr', M.step s e = some (s', out) ∧ M.execFrom s' fs = some (s'', tr') ∧
      tr = out ++ tr' := by
  simp only [execFrom] at h
  cases hs : M.step s e with
  | none => simp [hs] at h
  | some r =>
    obtain ⟨s', out⟩ := r
    cases hrest : M.execFrom s' fs with
    | none => simp [hs, hrest] at h
    | some q =>
      obtain ⟨s₁, tr'⟩ := q
      simp only [hs, hrest, Option.some.injEq, Prod.mk.injEq] at h
      obtain ⟨rfl, rfl⟩ := h
      exact ⟨s', out, tr', rfl, hrest, rfl⟩

theorem execFrom_append {s s' s'' : σ} {fs gs : List ε} {tr tr' : List ο}
    (h : M.execFrom s fs = some (s', tr)) (h' : M.execFrom s' gs = some (s'', tr')) :
    M.execFrom s (fs ++ gs) = some (s'', tr ++ tr') := by
  induction fs generalizing s tr with
  | nil =>
    simp only [execFrom, Option.some.injEq, Prod.mk.injEq] at h
    obtain ⟨rfl, rfl⟩ := h
    exact h'
  | cons e fs ih =>
    obtain ⟨s₁, out, tr₁, hs, hrest, rfl⟩ := execFrom_cons_cases h
    rw [List.cons_append, List.append_assoc]
    exact execFrom_cons hs (ih hrest)

namespace Run

/-- Invariant induction on the state together with its history. -/
theorem history_invariant (Inv : List ε → List ο → σ → Prop)
    (hinit : Inv [] [] M.init)
    (hstep : ∀ es tr s e s' out, M.Run es tr s → Inv es tr s →
      M.step s e = some (s', out) → Inv (es ++ [e]) (tr ++ out) s')
    {es : List ε} {tr : List ο} {s : σ} (h : M.Run es tr s) : Inv es tr s := by
  induction h with
  | init => exact hinit
  | step hrun hs ih => exact hstep _ _ _ _ _ _ hrun ih hs

/-- Invariant induction on the state alone. -/
theorem invariant (Inv : σ → Prop) (hinit : Inv M.init)
    (hstep : ∀ s e s' out, Inv s → M.step s e = some (s', out) → Inv s')
    {es : List ε} {tr : List ο} {s : σ} (h : M.Run es tr s) : Inv s :=
  h.history_invariant (fun _ _ s => Inv s) hinit
    (fun _ _ s e s' out _ hinv hs => hstep s e s' out hinv hs)

/-- Invariant induction for the runs whose events satisfy a condition. -/
theorem history_invariant_of_events {P : ε → Prop} (Inv : List ο → σ → Prop)
    (hinit : Inv [] M.init)
    (hstep : ∀ tr s e s' out, Inv tr s → P e → M.step s e = some (s', out) →
      Inv (tr ++ out) s')
    {es : List ε} {tr : List ο} {s : σ} (h : M.Run es tr s) (hP : ∀ e ∈ es, P e) : Inv tr s := by
  induction h with
  | init => exact hinit
  | step hrun hs ih =>
    rw [List.forall_mem_append] at hP
    exact hstep _ _ _ _ _ (ih hP.1) (hP.2 _ List.mem_cons_self) hs

/-- Runs extend by schedules. -/
theorem execFrom {es fs : List ε} {tr tr' : List ο} {s s' : σ} (h : M.Run es tr s)
    (hfs : M.execFrom s fs = some (s', tr')) : M.Run (es ++ fs) (tr ++ tr') s' := by
  induction fs generalizing es tr tr' s with
  | nil =>
    simp only [Machine.execFrom, Option.some.injEq, Prod.mk.injEq] at hfs
    obtain ⟨rfl, rfl⟩ := hfs
    simpa using h
  | cons e fs ih =>
    obtain ⟨s₁, out, tr₂, hs, hrest, rfl⟩ := execFrom_cons_cases hfs
    have hnext := ih (h.step hs) hrest
    simpa using hnext

/-- A schedule that executes is a run. -/
theorem of_exec {es : List ε} {tr : List ο} {s : σ} (h : M.exec es = some (s, tr)) :
    M.Run es tr s := by
  have h₀ : M.Run [] [] M.init := Run.init
  simpa using h₀.execFrom h

/-- A schedule whose execution has the value `x` under `f` is a run to a state
with that value; `f` is a projection that can be evaluated. -/
theorem of_exec_map {β : Type*} {f : σ × List ο → β} {es : List ε} {x : β}
    (h : (M.exec es).map f = some x) : ∃ s tr, M.Run es tr s ∧ f (s, tr) = x := by
  obtain ⟨⟨s, tr⟩, hexec, hf⟩ := Option.map_eq_some_iff.mp h
  exact ⟨s, tr, of_exec hexec, hf⟩

/-- Every observation of a trace was emitted by a step of the run, and what
stands before it in the trace was emitted before it. -/
theorem emitted {es : List ε} {tr : List ο} {s : σ} (h : M.Run es tr s)
    {pre post : List ο} {o : ο} (htr : tr = pre ++ o :: post) :
    ∃ es₀ tr₀ s₀ e s₁ out pre' post', M.Run es₀ tr₀ s₀ ∧
      M.step s₀ e = some (s₁, out) ∧ out = pre' ++ o :: post' ∧ pre = tr₀ ++ pre' ∧
      (es₀ ++ [e]) <+: es := by
  induction h generalizing post with
  | init => simp at htr
  | @step es tr s e s' out hrun hs ih =>
    rcases List.append_eq_append_iff.mp htr with ⟨mid, hpre, hout⟩ | ⟨mid, hmid, hpost⟩
    · -- the last step emitted it
      exact ⟨es, tr, s, e, s', out, mid, post, hrun, hs, hout, hpre, List.prefix_rfl⟩
    · -- an earlier step did, unless the split lies exactly before the last output
      cases mid with
      | nil =>
        refine ⟨es, tr, s, e, s', out, [], post, hrun, hs, by simpa using hpost.symm,
          by simpa using hmid.symm, List.prefix_rfl⟩
      | cons o' mid =>
        simp only [List.cons_append, List.cons.injEq] at hpost
        obtain ⟨rfl, -⟩ := hpost
        obtain ⟨es₀, tr₀, s₀, e₀, s₁, out₀, pre', post', h₁, h₂, h₃, h₄, h₅⟩ := ih hmid
        exact ⟨es₀, tr₀, s₀, e₀, s₁, out₀, pre', post', h₁, h₂, h₃, h₄,
          h₅.trans (List.prefix_append es [e])⟩

end Run

/-! ## Simulation -/

/-- If every step of `M` is, seen through `abs`, a step of `N` with the same
observations or an unobserved pause, then every run of `M` is a run of `N`. -/
theorem Run.simulate {τ ε' : Type*} {N : Machine τ ε' ο} (abs : σ → τ)
    (hinit : abs M.init = N.init)
    (hstep : ∀ s e s' out, M.step s e = some (s', out) →
      (out = [] ∧ abs s' = abs s) ∨ ∃ e', N.step (abs s) e' = some (abs s', out))
    {es : List ε} {tr : List ο} {s : σ} (h : M.Run es tr s) :
    ∃ es', N.Run es' tr (abs s) := by
  induction h with
  | init =>
    rw [hinit]
    exact ⟨[], Run.init⟩
  | step _ hs ih =>
    rcases ih with ⟨es', hrun⟩
    rcases hstep _ _ _ _ hs with ⟨rfl, habs⟩ | ⟨e', hs'⟩
    · rw [habs, List.append_nil]
      exact ⟨es', hrun⟩
    · exact ⟨es' ++ [e'], hrun.step hs'⟩

/-- If every step of `M` is, through `Rel`, a schedule of `N` with the same
observations, then every run of `M` goes along with a run of `N`. -/
theorem Run.relate {τ ε' : Type*} {N : Machine τ ε' ο} (Rel : σ → τ → Prop)
    (hinit : Rel M.init N.init)
    (hstep : ∀ gs tr s t e s' out, N.Run gs tr t → Rel s t → M.step s e = some (s', out) →
      ∃ fs t', N.execFrom t fs = some (t', out) ∧ Rel s' t')
    {es : List ε} {tr : List ο} {s : σ} (h : M.Run es tr s) :
    ∃ fs t, N.Run fs tr t ∧ Rel s t := by
  induction h with
  | init => exact ⟨[], N.init, Run.init, hinit⟩
  | step _ hs ih =>
    rcases ih with ⟨gs, t, hrun, hrel⟩
    rcases hstep _ _ _ _ _ _ _ hrun hrel hs with ⟨fs, t', hexec, hrel'⟩
    exact ⟨gs ++ fs, t', hrun.execFrom hexec, hrel'⟩

/-! ## Restricted runs -/

/-- Runs all of whose steps satisfy `P`, a condition on the event and the state
in which it comes. -/
inductive RunWhere (M : Machine σ ε ο) (P : σ → ε → Prop) : List ε → List ο → σ → Prop where
  | init : RunWhere M P [] [] M.init
  | step {es : List ε} {tr : List ο} {s : σ} {e : ε} {s' : σ} {out : List ο} :
      RunWhere M P es tr s → P s e → M.step s e = some (s', out) →
      RunWhere M P (es ++ [e]) (tr ++ out) s'

namespace RunWhere

variable {P : σ → ε → Prop}

theorem run {es : List ε} {tr : List ο} {s : σ} (h : M.RunWhere P es tr s) : M.Run es tr s := by
  induction h with
  | init => exact Run.init
  | step _ _ hs ih => exact ih.step hs

/-- Invariant induction over restricted runs. -/
theorem history_invariant (Inv : List ε → List ο → σ → Prop)
    (hinit : Inv [] [] M.init)
    (hstep : ∀ es tr s e s' out, M.Run es tr s → Inv es tr s → P s e →
      M.step s e = some (s', out) → Inv (es ++ [e]) (tr ++ out) s')
    {es : List ε} {tr : List ο} {s : σ} (h : M.RunWhere P es tr s) : Inv es tr s := by
  induction h with
  | init => exact hinit
  | step hrun hP hs ih => exact hstep _ _ _ _ _ _ hrun.run ih hP hs

/-- A restricted run goes on by events that satisfy the condition in every
state. -/
theorem execFrom {es fs : List ε} {tr tr' : List ο} {s s' : σ} (h : M.RunWhere P es tr s)
    (hP : ∀ e ∈ fs, ∀ s, P s e) (hfs : M.execFrom s fs = some (s', tr')) :
    M.RunWhere P (es ++ fs) (tr ++ tr') s' := by
  induction fs generalizing es tr tr' s with
  | nil =>
    simp only [Machine.execFrom, Option.some.injEq, Prod.mk.injEq] at hfs
    rcases hfs with ⟨rfl, rfl⟩
    simpa using h
  | cons e fs ih =>
    obtain ⟨s₁, out, tr₂, hs, hrest, rfl⟩ := execFrom_cons_cases hfs
    have hP' : ∀ e ∈ fs, ∀ s, P s e := fun e he => hP e (List.mem_cons_of_mem _ he)
    have hnext := ih (h.step (hP e (by simp) s) hs) hP' hrest
    simpa using hnext

/-- If every step of `M` under `P` is, seen through `abs`, a schedule of `N` with
the same observations, then every run of `M` under `P` is a run of `N`. -/
theorem simulate {τ ε' : Type*} {N : Machine τ ε' ο} (abs : σ → τ) (Inv : σ → Prop)
    (hinit : abs M.init = N.init) (hinv : Inv M.init)
    (hstep : ∀ s e s' out, Inv s → P s e → M.step s e = some (s', out) →
      Inv s' ∧ ∃ fs, N.execFrom (abs s) fs = some (abs s', out))
    {es : List ε} {tr : List ο} {s : σ} (h : M.RunWhere P es tr s) :
    Inv s ∧ ∃ fs, N.Run fs tr (abs s) := by
  induction h with
  | init =>
    rw [hinit]
    exact ⟨hinv, [], Run.init⟩
  | step _ hP hs ih =>
    rcases ih with ⟨hs₀, fs, hrun⟩
    rcases hstep _ _ _ _ hs₀ hP hs with ⟨hs', gs, hexec⟩
    exact ⟨hs', fs ++ gs, hrun.execFrom hexec⟩

end RunWhere

/-- A run is a run under a condition that all its steps satisfy. -/
theorem Run.restrict {P : σ → ε → Prop} (hP : ∀ s e, P s e) {es : List ε} {tr : List ο} {s : σ}
    (h : M.Run es tr s) : M.RunWhere P es tr s := by
  induction h with
  | init => exact RunWhere.init
  | step _ hs ih => exact ih.step (hP _ _) hs

section Execution

variable (M) (P : σ → ε → Prop) [∀ s e, Decidable (P s e)]

/-- Run a schedule from a given state, as long as its steps satisfy `P`. -/
def execWhere : σ → List ε → Option (σ × List ο)
  | s, [] => some (s, [])
  | s, e :: es =>
    if P s e then
      match M.step s e with
      | none => none
      | some (s', out) => (execWhere s' es).map fun r => (r.1, out ++ r.2)
    else none

variable {M P}

theorem execWhere_cons_cases {s s'' : σ} {e : ε} {fs : List ε} {tr : List ο}
    (h : M.execWhere P s (e :: fs) = some (s'', tr)) :
    P s e ∧ ∃ s' out tr', M.step s e = some (s', out) ∧ M.execWhere P s' fs = some (s'', tr') ∧
      tr = out ++ tr' := by
  simp only [Machine.execWhere] at h
  split at h
  · rename_i hP
    split at h
    · cases h
    · rename_i s' out hs
      rcases Option.map_eq_some_iff.mp h with ⟨⟨s₁, tr'⟩, hrest, heq⟩
      cases heq
      exact ⟨hP, s', out, tr', hs, hrest, rfl⟩
  · cases h

theorem RunWhere.execWhere {es fs : List ε} {tr tr' : List ο} {s s' : σ} (h : M.RunWhere P es tr s)
    (hfs : M.execWhere P s fs = some (s', tr')) : M.RunWhere P (es ++ fs) (tr ++ tr') s' := by
  induction fs generalizing es tr tr' s with
  | nil =>
    simp only [Machine.execWhere, Option.some.injEq, Prod.mk.injEq] at hfs
    rcases hfs with ⟨rfl, rfl⟩
    simpa using h
  | cons e fs ih =>
    rcases execWhere_cons_cases hfs with ⟨hP, s₁, out, tr₁, hs, hrest, rfl⟩
    have hnext := ih (h.step hP hs) hrest
    simpa using hnext

/-- As `Run.of_exec_map`, for runs under a condition. -/
theorem RunWhere.of_execWhere_map {β : Type*} {f : σ × List ο → β} {es : List ε} {x : β}
    (h : (M.execWhere P M.init es).map f = some x) :
    ∃ s tr, M.RunWhere P es tr s ∧ f (s, tr) = x := by
  obtain ⟨⟨s, tr⟩, hexec, hf⟩ := Option.map_eq_some_iff.mp h
  have hrun : M.RunWhere P [] [] M.init := RunWhere.init
  refine ⟨s, tr, ?_, hf⟩
  simpa using hrun.execWhere hexec

end Execution

end Machine

end InterviewPrep
