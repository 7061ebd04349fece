import Mathlib.Data.List.Basic

/-!
# Delimited concatenation

Parts that are joined with a separator cannot always be told apart again: the
separator may occur inside a part. `joined_eq_iff` says when two lists of parts
are joined to the same list: exactly if they have the same sequence of
separator-free pieces. And cutting gives the parts back exactly if no part has the
separator in it (`length_pieces_eq_iff`, `pieces_eq_self`).
-/

namespace InterviewPrep

namespace Delimited

variable {α : Type*} [DecidableEq α]

/-- The parts with the separator between them. -/
def joined (sep : α) : List (List α) → List α
  | [] => []
  | [part] => part
  | part :: parts => part ++ sep :: joined sep parts

/-- The parts, each cut at the separators inside it. -/
def pieces (sep : α) (parts : List (List α)) : List (List α) :=
  parts.flatMap (List.splitOn sep)

/-- Cutting what was joined gives the pieces. -/
theorem splitOn_joined (sep : α) :
    ∀ {parts : List (List α)}, parts ≠ [] → (joined sep parts).splitOn sep = pieces sep parts
  | [], h => absurd rfl h
  | [part], _ => by simp [joined, pieces]
  | part :: next :: parts, _ => by
    have ih := splitOn_joined sep (List.cons_ne_nil next parts)
    rw [joined, List.splitOn_append_cons_self, ih]
    · rfl
    · simp

/-- Two lists of parts are joined to the same list exactly if they have the same
pieces. -/
theorem joined_eq_iff (sep : α) {parts parts' : List (List α)} (h : parts ≠ [])
    (h' : parts' ≠ []) :
    joined sep parts = joined sep parts' ↔ pieces sep parts = pieces sep parts' := by
  rw [← splitOn_joined sep h, ← splitOn_joined sep h']
  constructor
  · intro heq
    rw [heq]
  · intro heq
    -- what was cut is restored by joining the pieces
    have hback := congrArg (List.intercalate [sep]) heq
    rwa [List.intercalate_splitOn, List.intercalate_splitOn] at hback

/-- A list is cut into one piece more than it has separators. -/
theorem length_splitOn (sep : α) (l : List α) : (l.splitOn sep).length = l.count sep + 1 := by
  induction l with
  | nil => simp
  | cons a l ih =>
    rw [List.splitOn_cons_eq_if_modifyHead, List.count_cons]
    split
    · simp [ih]
    · simp [ih]

/-- What a list is cut into has no separator in it. -/
theorem sep_notMem_of_mem_splitOn {sep : α} {l part : List α} (h : part ∈ l.splitOn sep) :
    sep ∉ part := by
  induction l generalizing part with
  | nil =>
    rw [List.splitOn_nil, List.mem_singleton] at h
    simp [h]
  | cons a l ih =>
    rw [List.splitOn_cons_eq_if_modifyHead] at h
    split at h
    · rcases List.mem_cons.mp h with rfl | hmem
      · simp
      · exact ih hmem
    · -- the element is put in front of the first part
      rename_i hne
      cases hcut : l.splitOn sep with
      | nil => exact absurd hcut (List.splitOn_ne_nil sep l)
      | cons first rest =>
        rw [hcut] at ih h
        rcases List.mem_cons.mp h with rfl | hmem
        · have hfirst := ih (List.mem_cons_self)
          simp only [List.mem_cons, not_or]
          exact ⟨fun heq => hne (beq_iff_eq.mpr heq.symm), hfirst⟩
        · exact ih (List.mem_cons_of_mem first hmem)

theorem length_pieces_cons (sep : α) (part : List α) (parts : List (List α)) :
    (pieces sep (part :: parts)).length = part.count sep + 1 + (pieces sep parts).length := by
  simp [pieces, length_splitOn]

theorem length_le_length_pieces (sep : α) (parts : List (List α)) :
    parts.length ≤ (pieces sep parts).length := by
  induction parts with
  | nil => simp
  | cons part parts ih =>
    rw [length_pieces_cons, List.length_cons]
    omega

/-- There are no more pieces than parts exactly if no part is cut. -/
theorem length_pieces_eq_iff {sep : α} {parts : List (List α)} :
    (pieces sep parts).length = parts.length ↔ ∀ part ∈ parts, sep ∉ part := by
  induction parts with
  | nil => simp [pieces]
  | cons part parts ih =>
    have hle := length_le_length_pieces sep parts
    rw [List.forall_mem_cons, ← ih, length_pieces_cons, List.length_cons, ← List.count_eq_zero]
    omega

theorem pieces_eq_self {sep : α} {parts : List (List α)} (h : ∀ part ∈ parts, sep ∉ part) :
    pieces sep parts = parts := by
  induction parts with
  | nil => rfl
  | cons part parts ih =>
    obtain ⟨hpart, hparts⟩ := List.forall_mem_cons.mp h
    have hcut := ih hparts
    unfold pieces at hcut ⊢
    rw [List.flatMap_cons, List.splitOn_eq_singleton hpart, hcut]
    rfl

/-! ## Coded parts -/

omit [DecidableEq α] in
/-- A list coded element by element and closed by a mark can be read back from in
front of anything, if no code is a prefix of another and none starts with the
mark. -/
theorem flatMap_cons_inj {β : Type*} {code : α → List β} {mark : β}
    (hcode : ∀ a b r r', code a ++ r = code b ++ r' → a = b ∧ r = r')
    (hmark : ∀ a r r', code a ++ r ≠ mark :: r') {l l' : List α} {r r' : List β}
    (h : l.flatMap code ++ mark :: r = l'.flatMap code ++ mark :: r') : l = l' ∧ r = r' := by
  induction l generalizing l' with
  | nil =>
    cases l' with
    | nil => simpa using h
    | cons b l' =>
      rw [List.flatMap_cons, List.append_assoc] at h
      exact absurd h.symm (hmark b _ _)
  | cons a l ih =>
    cases l' with
    | nil =>
      rw [List.flatMap_cons, List.append_assoc] at h
      exact absurd h (hmark a _ _)
    | cons b l' =>
      rw [List.flatMap_cons, List.flatMap_cons, List.append_assoc, List.append_assoc] at h
      obtain ⟨rfl, hrest⟩ := hcode a b _ _ h
      obtain ⟨rfl, rfl⟩ := ih hrest
      exact ⟨rfl, rfl⟩

end Delimited

end InterviewPrep
