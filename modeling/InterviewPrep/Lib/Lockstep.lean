import Mathlib.Data.List.Induction
import InterviewPrep.Lib.Machine

/-!
# Machines in lockstep

Two machines are given the same schedule, each in its own type of events. They
give the same answers as long as every step of one is matched by the other.

* `Machine.SameAnswers M N f es`: the answers are the same on every prefix;
* `sameAnswers_iff`: this fails exactly if the schedule reaches a bad step, when
  the good steps are matched and the bad ones are answered differently.
-/

namespace InterviewPrep

namespace Machine

variable {σ τ ε δ ο : Type*}

/-- A schedule with one more event. -/
theorem execFrom_concat (M : Machine σ ε ο) (s : σ) (es : List ε) (e : ε) :
    M.execFrom s (es ++ [e]) = (M.execFrom s es).bind
      fun r => (M.step r.1 e).map fun q => (q.1, r.2 ++ q.2) := by
  induction es generalizing s with
  | nil =>
    cases hs : M.step s e with
    | none => simp [execFrom, hs]
    | some q => simp [execFrom, hs]
  | cons e' es ih =>
    simp only [List.cons_append, execFrom]
    cases hs : M.step s e' with
    | none => rfl
    | some r =>
      simp only [ih]
      cases hrest : M.execFrom r.1 es with
      | none => rfl
      | some q =>
        cases hlast : M.step q.1 e with
        | none => simp [hlast]
        | some p => simp [hlast]

theorem exec_concat (M : Machine σ ε ο) (es : List ε) (e : ε) :
    M.exec (es ++ [e]) = (M.exec es).bind
      fun r => (M.step r.1 e).map fun q => (q.1, r.2 ++ q.2) :=
  M.execFrom_concat M.init es e

/-- What is observed of a schedule, if it can be executed. -/
def answers (M : Machine σ ε ο) (es : List ε) : Option (List ο) := (M.exec es).map Prod.snd

/-- `N` answers the translated schedule as `M` answers the schedule, after every
event. -/
def SameAnswers (M : Machine σ ε ο) (N : Machine τ δ ο) (f : ε → δ) (es : List ε) : Prop :=
  ∀ pre, pre <+: es → M.answers pre = N.answers (pre.map f)

/-- The schedule reaches no bad step of `M`. -/
def Avoids (M : Machine σ ε ο) (Bad : σ → ε → Prop) (es : List ε) : Prop :=
  ∀ pre e, (pre ++ [e]) <+: es → ∀ s tr, M.exec pre = some (s, tr) → ¬ Bad s e

variable {M : Machine σ ε ο} {N : Machine τ δ ο} {f : ε → δ}

/-- The answers of two last steps, behind the same answers. -/
theorem append_answers_inj (tr : List ο) (x : Option (σ × List ο)) (y : Option (τ × List ο)) :
    (x.map fun q => (q.1, tr ++ q.2)).map Prod.snd = (y.map fun q => (q.1, tr ++ q.2)).map Prod.snd ↔
      x.map Prod.snd = y.map Prod.snd := by
  cases x with
  | none => cases y <;> simp
  | some p => cases y <;> simp

theorem prefix_concat {pre es : List ε} {e : ε} :
    pre <+: es ++ [e] ↔ pre <+: es ∨ pre = es ++ [e] := by
  rw [List.prefix_concat_iff, Or.comm]

theorem sameAnswers_concat {es : List ε} {e : ε} : SameAnswers M N f (es ++ [e]) ↔
    SameAnswers M N f es ∧ M.answers (es ++ [e]) = N.answers (es.map f ++ [f e]) := by
  constructor
  · intro h
    refine ⟨fun pre hpre => h pre (hpre.trans (List.prefix_append es [e])), ?_⟩
    have hall := h (es ++ [e]) List.prefix_rfl
    rw [List.map_append] at hall
    exact hall
  · rintro ⟨hes, hlast⟩ pre hpre
    rcases prefix_concat.mp hpre with hpre | rfl
    · exact hes pre hpre
    · rw [List.map_append]
      exact hlast

theorem avoids_concat {Bad : σ → ε → Prop} {es : List ε} {e : ε} : M.Avoids Bad (es ++ [e]) ↔
    M.Avoids Bad es ∧ ∀ s tr, M.exec es = some (s, tr) → ¬ Bad s e := by
  constructor
  · intro h
    exact ⟨fun pre d hpre => h pre d (hpre.trans (List.prefix_append es [e])),
      h es e List.prefix_rfl⟩
  · rintro ⟨hes, hlast⟩ pre d hpre
    rcases prefix_concat.mp hpre with hpre | heq
    · exact hes pre d hpre
    · rcases List.append_inj' heq rfl with ⟨rfl, hd⟩
      cases hd
      exact hlast

section Matched

variable (abs : σ → τ) {Bad : σ → ε → Prop} (hinit : abs M.init = N.init)
  (hgood : ∀ s e, ¬ Bad s e → N.step (abs s) (f e) = (M.step s e).map (Prod.map abs id))
  (hbad : ∀ s e, Bad s e → (M.step s e).map Prod.snd ≠ (N.step (abs s) (f e)).map Prod.snd)

include hinit hgood

/-- As long as no bad step is reached, `N` goes through the images of the states
of `M`. -/
theorem exec_map_of_avoids {es : List ε} (h : M.Avoids Bad es) :
    N.exec (es.map f) = (M.exec es).map (Prod.map abs id) := by
  induction es using List.reverseRecOn with
  | nil =>
    show some (N.init, []) = some (abs M.init, [])
    rw [hinit]
  | append_singleton es e ih =>
    rcases avoids_concat.mp h with ⟨hes, hlast⟩
    rw [List.map_append, List.map_singleton, exec_concat, exec_concat, ih hes]
    cases hexec : M.exec es with
    | none => rfl
    | some r =>
      have hstep := hgood r.1 e (hlast r.1 r.2 hexec)
      simp only [Option.map_some, Option.bind_some, Prod.map, id_eq, hstep]
      cases M.step r.1 e with
      | none => rfl
      | some q => rfl

include hbad

/-- **Lockstep.** -/
theorem sameAnswers_iff (es : List ε) : SameAnswers M N f es ↔ M.Avoids Bad es := by
  induction es using List.reverseRecOn with
  | nil =>
    constructor
    · intro _ pre e hpre
      simp at hpre
    · intro _ pre hpre
      rw [List.prefix_nil.mp hpre]
      rfl
  | append_singleton es e ih =>
    rw [sameAnswers_concat, avoids_concat, ih]
    refine and_congr_right fun hes => ?_
    have hmap := exec_map_of_avoids abs hinit hgood hes
    simp only [answers, exec_concat, hmap]
    cases hexec : M.exec es with
    | none => simp
    | some r =>
      rcases r with ⟨s, tr⟩
      simp only [Option.map_some, Option.bind_some, Prod.map, id_eq]
      rw [append_answers_inj]
      constructor
      · rintro hsame s' tr' heq he
        cases heq
        exact hbad s e he hsame
      · intro hlast
        rw [hgood s e (hlast s tr rfl)]
        cases M.step s e with
        | none => rfl
        | some q => rfl

end Matched

end Machine

end InterviewPrep
