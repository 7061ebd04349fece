import Mathlib.Data.Nat.Basic
import Mathlib.Logic.Relation

/-!
# While loops

A loop `while guard: body` whose body may raise. `run` takes a bound on the number
of rounds and returns nothing when it is too small.

A loop ends, by itself or by an error, if some bound is enough (`Terminates`). To
show that it does, there is the rule of a variant (`returns_of_variant`), and to
show that it does not, an invariant under which it goes on (`not_terminates`). An
invariant tells what is known where a loop ends (`ended_of_invariant`), and what
holds whenever the guard is tested, that is, in the states the loop `Visits`.
-/

namespace InterviewPrep

/-- `while guard: body` -/
structure WhileLoop (σ ε : Type*) where
  guard : σ → Bool
  body : σ → Except ε σ

namespace WhileLoop

variable {σ ε : Type*}

def run (L : WhileLoop σ ε) : ℕ → σ → Option (Except ε σ)
  | 0, _ => none
  | bound + 1, s =>
    if L.guard s then
      match L.body s with
      | .error e => some (.error e)
      | .ok t => run L bound t
    else some (.ok s)

/-- Some bound is enough. -/
def Terminates (L : WhileLoop σ ε) (s : σ) : Prop := ∃ bound, (L.run bound s).isSome = true

/-- One round. -/
def Round (L : WhileLoop σ ε) (s t : σ) : Prop := L.guard s = true ∧ L.body s = .ok t

/-- The states in which the guard is tested. -/
def Visits (L : WhileLoop σ ε) : σ → σ → Prop := Relation.ReflTransGen L.Round

variable {L : WhileLoop σ ε} {s t : σ} {bound : ℕ}

theorem run_of_not_guard (h : L.guard s = false) : L.run (bound + 1) s = some (.ok s) := by
  rw [run, h]
  rfl

theorem run_of_round (h : L.Round s t) : L.run (bound + 1) s = L.run bound t := by
  rw [run, h.1, h.2]
  rfl

theorem terminates_of_not_guard (h : L.guard s = false) : L.Terminates s :=
  ⟨1, by rw [run_of_not_guard h]; rfl⟩

/-- After a round the loop goes on as from the new state. -/
theorem terminates_iff_of_round (h : L.Round s t) : L.Terminates s ↔ L.Terminates t := by
  constructor
  · rintro ⟨bound, hbound⟩
    cases bound with
    | zero => simp [run] at hbound
    | succ bound =>
      rw [run_of_round h] at hbound
      exact ⟨bound, hbound⟩
  · rintro ⟨bound, hbound⟩
    exact ⟨bound + 1, by rw [run_of_round h]; exact hbound⟩

/-- What every round keeps holds whenever the guard is tested. -/
theorem invariant_of_visits {I : σ → Prop}
    (hround : ∀ s, I s → L.guard s = true → ∃ t, L.body s = .ok t ∧ I t) (hs : I s)
    (h : L.Visits s t) : I t := by
  induction h with
  | refl => exact hs
  | tail _ hstep ih =>
    rcases hround _ ih hstep.1 with ⟨u, hbody, hu⟩
    rw [hstep.2] at hbody
    exact Except.ok.inj hbody ▸ hu

/-- A loop that keeps an invariant: where it ends, it has not raised, the invariant holds
and the guard is false. -/
theorem ended_of_invariant {I : σ → Prop}
    (hround : ∀ s, I s → L.guard s = true → ∃ t, L.body s = .ok t ∧ I t) (hs : I s)
    {r : Except ε σ} (h : L.run bound s = some r) :
    ∃ t, r = .ok t ∧ I t ∧ L.guard t = false := by
  induction bound generalizing s with
  | zero => cases h
  | succ bound ih =>
    cases hguard : L.guard s with
    | false =>
      rw [run_of_not_guard hguard] at h
      exact ⟨s, (Option.some.inj h).symm, hs, hguard⟩
    | true =>
      rcases hround s hs hguard with ⟨t, hbody, ht⟩
      rw [run_of_round ⟨hguard, hbody⟩] at h
      exact ih ht h

/-- A loop that keeps an invariant and lowers a variant ends, and so within as many
rounds as the variant says, with the guard false. -/
theorem returns_of_variant {I : σ → Prop} {variant : σ → ℕ}
    (hround : ∀ s, I s → L.guard s = true →
      ∃ t, L.body s = .ok t ∧ I t ∧ variant t < variant s)
    (hs : I s) (hbound : variant s < bound) :
    ∃ t, L.run bound s = some (.ok t) ∧ I t ∧ L.guard t = false := by
  induction bound generalizing s with
  | zero => omega
  | succ bound ih =>
    cases hguard : L.guard s with
    | false => exact ⟨s, run_of_not_guard hguard, hs, hguard⟩
    | true =>
      rcases hround s hs hguard with ⟨t, hbody, ht, hlt⟩
      rw [run_of_round ⟨hguard, hbody⟩]
      exact ih ht (by omega)

/-- A loop whose guard holds under an invariant does not end. -/
theorem not_terminates {I : σ → Prop} (hround : ∀ s, I s → ∃ t, L.Round s t ∧ I t) (hs : I s) :
    ¬ L.Terminates s := by
  rintro ⟨bound, hbound⟩
  induction bound generalizing s with
  | zero => simp [run] at hbound
  | succ bound ih =>
    rcases hround s hs with ⟨t, hstep, ht⟩
    rw [run_of_round hstep] at hbound
    exact ih ht hbound

end WhileLoop

end InterviewPrep
