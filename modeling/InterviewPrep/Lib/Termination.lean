import InterviewPrep.Lib.Machine

/-!
# Runs that come to an end

* `execFrom_length_add_le`: a measure that every step lowers bounds a schedule;
* `RunWhere.length_add_le`: the same for restricted runs;
* `Machine.Ends M P Final`: the runs under `P` are bounded, and go on until
  `Final` holds. So every one of them, continued as long as possible, ends in a
  final state (`Ends.extend`).
-/

namespace InterviewPrep

namespace Machine

variable {σ ε ο : Type*} {M : Machine σ ε ο} {P : σ → ε → Prop} {s s' : σ} {tr : List ο}

/-- A measure that the steps of some events lower. -/
theorem execFrom_length_add_le (μ : σ → ℕ) (Q : ε → Prop)
    (hstep : ∀ s e s' out, Q e → M.step s e = some (s', out) → μ s' < μ s) {fs : List ε}
    (hfs : ∀ e ∈ fs, Q e) (h : M.execFrom s fs = some (s', tr)) : fs.length + μ s' ≤ μ s := by
  induction fs generalizing s tr with
  | nil =>
    simp only [execFrom, Option.some.injEq, Prod.mk.injEq] at h
    simp [h.1]
  | cons e fs ih =>
    rcases execFrom_cons_cases h with ⟨s₁, out, tr₁, hs, hrest, -⟩
    have hlt := hstep s e s₁ out (hfs e (by simp)) hs
    have hle := ih (fun f hf => hfs f (List.mem_cons_of_mem e hf)) hrest
    rw [List.length_cons]
    omega

/-- A measure that the steps under `P` lower. -/
theorem RunWhere.length_add_le (μ : σ → ℕ)
    (hstep : ∀ es tr s e s' out, M.RunWhere P es tr s → P s e → M.step s e = some (s', out) →
      μ s' < μ s) {es : List ε} (h : M.RunWhere P es tr s) : es.length + μ s ≤ μ M.init := by
  induction h with
  | init => simp
  | step hrun hP hs ih =>
    have hlt := hstep _ _ _ _ _ _ hrun hP hs
    rw [List.length_append, List.length_singleton]
    omega

/-- Every run under `P` comes to an end, in a final state. -/
structure Ends (M : Machine σ ε ο) (P : σ → ε → Prop) (Final : σ → Prop) : Prop where
  bounded : ∃ n, ∀ es tr s, M.RunWhere P es tr s → es.length ≤ n
  progress : ∀ es tr s, M.RunWhere P es tr s → ¬ Final s →
    ∃ e s' out, P s e ∧ M.step s e = some (s', out)

/-- A run goes on to a final state. -/
theorem Ends.extend {Final : σ → Prop} (h : M.Ends P Final) {es : List ε}
    (hrun : M.RunWhere P es tr s) :
    ∃ fs tr' s', M.RunWhere P (es ++ fs) (tr ++ tr') s' ∧ Final s' := by
  rcases h.bounded with ⟨n, hn⟩
  -- by induction on the number of steps that are left
  induction hk : n - es.length generalizing es tr s with
  | zero =>
    refine ⟨[], [], s, by simpa using hrun, ?_⟩
    by_contra hfinal
    rcases h.progress es tr s hrun hfinal with ⟨e, s', out, hP, hs⟩
    have hle := hn _ _ _ (hrun.step hP hs)
    rw [List.length_append, List.length_singleton] at hle
    omega
  | succ k ih =>
    by_cases hfinal : Final s
    · exact ⟨[], [], s, by simpa using hrun, hfinal⟩
    · rcases h.progress es tr s hrun hfinal with ⟨e, s₁, out, hP, hs⟩
      have hlength : n - (es ++ [e]).length = k := by
        rw [List.length_append, List.length_singleton]
        omega
      rcases ih (hrun.step hP hs) hlength with ⟨fs, tr', s', hrun', hfinal'⟩
      refine ⟨e :: fs, out ++ tr', s', ?_, hfinal'⟩
      simpa using hrun'

end Machine

end InterviewPrep
