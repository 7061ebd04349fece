import Mathlib.Data.List.Induction

/-!
# Traces

Two ways to read a trace, and how they change when it grows at its end.

* `Along P tr`: every element of `tr` stands in the relation `P` to what comes
  before it;
* `labelled label i tr`: the elements of `tr` that carry the label `i`, that is,
  what the trace says about one request, key or thread.
-/

namespace InterviewPrep

universe u

variable {β : Type u}

/-! ## Positions -/

/-- `P` holds of every position of the trace: of what was there before, and of
the element itself. -/
def Along (P : List β → β → Prop) (tr : List β) : Prop :=
  ∀ pre x post, tr = pre ++ x :: post → P pre x

theorem along_nil (P : List β → β → Prop) : Along P [] := by
  intro pre x post h
  simp at h

/-- A position of a longer trace is an old one or the new end. -/
theorem along_concat {P : List β → β → Prop} {tr : List β} {x : β} :
    Along P (tr ++ [x]) ↔ Along P tr ∧ P tr x := by
  constructor
  · intro h
    constructor
    · intro pre y post htr
      apply h pre y (post ++ [x])
      rw [htr, List.append_assoc, List.cons_append]
    · exact h tr x [] rfl
  · rintro ⟨htr, hx⟩ pre y post h
    rcases List.eq_nil_or_concat post with rfl | ⟨post, z, rfl⟩
    · have heq := List.append_inj' h rfl
      rcases heq with ⟨rfl, heq⟩
      cases heq
      exact hx
    · rw [List.concat_eq_append, ← List.cons_append, ← List.append_assoc] at h
      exact htr pre y post (List.append_inj' h rfl).1

/-- What is added holds at each of its positions, behind what was there before. -/
theorem along_append {P : List β → β → Prop} {tr out : List β} (h : Along P tr)
    (hout : ∀ pre x, x ∈ out → P (tr ++ pre) x) : Along P (tr ++ out) := by
  intro pre x post heq
  rcases List.append_eq_append_iff.mp heq with ⟨pre', rfl, hout'⟩ | ⟨post', htr, hpost⟩
  · apply hout pre' x
    rw [hout']
    simp
  · cases post' with
    | nil =>
      rw [List.append_nil] at htr
      subst htr
      have hx := hout [] x (by rw [← List.nil_append out, ← hpost]; simp)
      rwa [List.append_nil] at hx
    | cons y post' =>
      rw [List.cons_append, List.cons.injEq] at hpost
      rcases hpost with ⟨rfl, -⟩
      exact h pre x post' htr

/-! ## Labels -/

section Labels

variable {ι : Type*} [DecidableEq ι] (label : β → Option ι) {i : ι} {x : β}

/-- The part of a trace with the label `i`. -/
def labelled (i : ι) (tr : List β) : List β :=
  tr.filter (fun x => decide (label x = some i))

theorem mem_iff_mem_labelled {tr : List β} (hx : label x = some i) :
    x ∈ tr ↔ x ∈ labelled label i tr := by
  simp [labelled, hx]

theorem labelled_concat_self (tr : List β) (hx : label x = some i) :
    labelled label i (tr ++ [x]) = labelled label i tr ++ [x] := by
  simp [labelled, hx]

theorem labelled_concat_of_ne (tr : List β) (hx : label x ≠ some i) :
    labelled label i (tr ++ [x]) = labelled label i tr := by
  simp [labelled, hx]

end Labels

end InterviewPrep
