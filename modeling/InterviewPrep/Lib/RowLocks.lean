import Mathlib.Data.Nat.Notation
import Mathlib.Logic.Function.Basic

/-!
# Stores with row locks

What a program may rely on when it works on a database in transactions: a store has
rows under keys, and a log to which entries are added. Nothing is said of how it does
its work. `Store` lists its operations and what can be observed of it, and
`Store.Lawful` is what is assumed of them:

* a row that a transaction has read for update is held by it alone until it ends;
* what it writes is its own until it commits, and then the whole of it is saved at
  once;
* after a rollback nothing of it is left;
* whoever else replaces a row has waited until nobody held it.

`Store.Serves` is what is assumed of waiting: a row that nobody holds can be read.
From the laws follows `Store.Undisturbed`, what a transaction can count on whatever
the others do. `lockTable` is a store of this kind.
-/

namespace InterviewPrep

universe u v w

/-! ## Contents and writes -/

/-- What is committed: the rows by their keys, and the log. -/
structure Contents (κ : Type u) (ν : Type v) (ι : Type w) where
  row : κ → Option ν
  log : List ι

/-- What a transaction has written, the oldest first. -/
structure Writes (κ : Type u) (ν : Type v) (ι : Type w) where
  updates : List (κ × (ν → ν))
  inserts : List ι

variable {κ : Type u} {ν : Type v} {ι : Type w}

namespace Contents

/-- Nothing is there. -/
def empty : Contents κ ν ι := ⟨fun _ => none, []⟩

variable [DecidableEq κ]

/-- A row is replaced, or a new one put in its place. -/
def setRow (c : Contents κ ν ι) (k : κ) (v : ν) : Contents κ ν ι :=
  { c with row := Function.update c.row k (some v) }

@[simp] theorem setRow_row_self (c : Contents κ ν ι) (k : κ) (v : ν) :
    (c.setRow k v).row k = some v := Function.update_self ..

theorem setRow_row_of_ne (c : Contents κ ν ι) {k k' : κ} (h : k' ≠ k) (v : ν) :
    (c.setRow k v).row k' = c.row k' := Function.update_of_ne h ..

end Contents

namespace Writes

/-- Nothing is written yet. -/
def none : Writes κ ν ι := ⟨[], []⟩

/-- A row is changed; where there is no row, there is nothing to change. -/
def update (w : Writes κ ν ι) (k : κ) (f : ν → ν) : Writes κ ν ι :=
  { w with updates := w.updates ++ [(k, f)] }

/-- An entry is added to the log. -/
def insert (w : Writes κ ν ι) (i : ι) : Writes κ ν ι := { w with inserts := w.inserts ++ [i] }

variable [DecidableEq κ]

/-- A row after the writes. -/
def row (w : Writes κ ν ι) (k : κ) (x : Option ν) : Option ν :=
  w.updates.foldl (fun x u => if u.1 = k then x.map u.2 else x) x

/-- The contents after the writes. -/
def save (w : Writes κ ν ι) (c : Contents κ ν ι) : Contents κ ν ι :=
  ⟨fun k => w.row k (c.row k), c.log ++ w.inserts⟩

@[simp] theorem none_row (k : κ) (x : Option ν) : (none : Writes κ ν ι).row k x = x := rfl

@[simp] theorem none_save (c : Contents κ ν ι) : (none : Writes κ ν ι).save c = c := by
  simp [save, none, row]

theorem row_of_not_mem {w : Writes κ ν ι} {k : κ} (h : ∀ u ∈ w.updates, u.1 ≠ k)
    (x : Option ν) : w.row k x = x := by
  rcases w with ⟨us, is⟩
  rw [row]
  induction us with
  | nil => rfl
  | cons u us ih =>
    rw [List.foldl_cons, if_neg (h u List.mem_cons_self)]
    exact ih fun u' hu' => h u' (List.mem_cons_of_mem _ hu')

/-- One row was changed. -/
theorem save_singleton {k : κ} {f : ν → ν} {c : Contents κ ν ι} {v : ν} (h : c.row k = some v)
    (is : List ι) :
    (⟨[(k, f)], is⟩ : Writes κ ν ι).save c = ⟨(c.setRow k (f v)).row, c.log ++ is⟩ := by
  have hrow : (fun k' => (⟨[(k, f)], is⟩ : Writes κ ν ι).row k' (c.row k')) =
      (c.setRow k (f v)).row := by
    funext k'
    by_cases hk : k' = k
    · subst hk
      simp [row, h]
    · rw [Contents.setRow_row_of_ne _ hk, row_of_not_mem]
      intro u hu
      rw [List.mem_singleton.mp hu]
      exact Ne.symm hk
  rw [save, hrow]

end Writes

/-! ## Stores -/

/-- A store with the states `σ`. Transactions have numbers. -/
structure Store (σ : Type*) (κ : Type u) (ν : Type v) (ι : Type w) where
  init : σ
  contents : σ → Contents κ ν ι
  /-- the transaction that holds the row of a key -/
  holder : σ → κ → Option ℕ
  /-- what a transaction has written and not committed -/
  written : σ → ℕ → Writes κ ν ι
  /-- read a row and hold it, or go on waiting for it -/
  getForUpdate : σ → ℕ → κ → Option (Option ν × σ)
  update : σ → ℕ → κ → (ν → ν) → σ
  insert : σ → ℕ → ι → σ
  commit : σ → ℕ → σ
  rollback : σ → ℕ → σ
  /-- somebody else replaces a row, or goes on waiting for it -/
  put : σ → κ → ν → Option σ

namespace Store

variable {σ : Type*} {D : Store σ κ ν ι}

/-- The end of a transaction: it holds nothing any more, and nothing is left to
commit. -/
structure Released (D : Store σ κ ν ι) (t : ℕ) (s s' : σ) : Prop where
  holder : ∀ k d, D.holder s' k = some d ↔ D.holder s k = some d ∧ d ≠ t
  written : D.written s' = Function.update (D.written s) t Writes.none

/-- What is assumed of a store. -/
structure Lawful [DecidableEq κ] (D : Store σ κ ν ι) : Prop where
  init_contents : D.contents D.init = Contents.empty
  init_holder : ∀ k, D.holder D.init k = none
  init_written : ∀ t, D.written D.init t = Writes.none
  /-- a read sees the committed row under the transaction's own writes -/
  get_reads : ∀ {s t k x s'}, D.getForUpdate s t k = some (x, s') →
    x = (D.written s t).row k ((D.contents s).row k)
  /-- and changes nothing -/
  get_contents : ∀ {s t k x s'}, D.getForUpdate s t k = some (x, s') →
    D.contents s' = D.contents s ∧ D.written s' = D.written s
  /-- a row that is read is exclusive: nobody else holds it -/
  get_exclusive : ∀ {s t k v s'}, D.getForUpdate s t k = some (some v, s') →
    (∀ d, D.holder s k = some d → d = t) ∧
      D.holder s' = Function.update (D.holder s) k (some t)
  get_absent : ∀ {s t k s'}, D.getForUpdate s t k = some (none, s') → D.holder s' = D.holder s
  /-- writes are private -/
  update_private : ∀ {s t k}, D.holder s k = some t → ∀ f,
    D.contents (D.update s t k f) = D.contents s ∧ D.holder (D.update s t k f) = D.holder s ∧
      D.written (D.update s t k f) =
        Function.update (D.written s) t ((D.written s t).update k f)
  insert_private : ∀ s t i,
    D.contents (D.insert s t i) = D.contents s ∧ D.holder (D.insert s t i) = D.holder s ∧
      D.written (D.insert s t i) = Function.update (D.written s) t ((D.written s t).insert i)
  /-- a commit is atomic -/
  commit_atomic : ∀ s t, D.contents (D.commit s t) = (D.written s t).save (D.contents s)
  commit_released : ∀ s t, D.Released t s (D.commit s t)
  /-- a rollback leaves nothing -/
  rollback_contents : ∀ s t, D.contents (D.rollback s t) = D.contents s
  rollback_released : ∀ s t, D.Released t s (D.rollback s t)
  /-- somebody else has waited for the row -/
  put_waits : ∀ {s k v s'}, D.put s k v = some s' → D.holder s k = none
  put_row : ∀ {s k v s'}, D.put s k v = some s' → D.contents s' = (D.contents s).setRow k v ∧
    D.holder s' = D.holder s ∧ D.written s' = D.written s

/-- What is assumed of waiting: nobody waits for a row that is free. -/
def Serves (D : Store σ κ ν ι) : Prop :=
  ∀ s t k, D.holder s k = none → ∃ x s', D.getForUpdate s t k = some (x, s')

/-! ## What a transaction can count on -/

/-- The transaction `d` still holds what it held, as it was, and has written what it
had written. -/
structure Undisturbed (D : Store σ κ ν ι) (d : ℕ) (s s' : σ) : Prop where
  holder : ∀ k, D.holder s' k = some d ↔ D.holder s k = some d
  row : ∀ k, D.holder s k = some d → (D.contents s').row k = (D.contents s).row k
  written : D.written s' d = D.written s d

theorem Undisturbed.of_eq {d : ℕ} {s s' : σ} (hcontents : D.contents s' = D.contents s)
    (hholder : ∀ k, D.holder s' k = some d ↔ D.holder s k = some d)
    (hwritten : D.written s' d = D.written s d) : D.Undisturbed d s s' :=
  ⟨hholder, fun k _ => by rw [hcontents], hwritten⟩

theorem Undisturbed.trans {d : ℕ} {s s' s'' : σ} (h : D.Undisturbed d s s')
    (h' : D.Undisturbed d s' s'') : D.Undisturbed d s s'' :=
  ⟨fun k => (h'.holder k).trans (h.holder k),
    fun k hk => (h'.row k ((h.holder k).mpr hk)).trans (h.row k hk),
    h'.written.trans h.written⟩

namespace Lawful

variable [DecidableEq κ] (hD : D.Lawful) {s s' : σ} {t d : ℕ} {k : κ}

include hD

theorem get_undisturbed {x : Option ν} (h : D.getForUpdate s t k = some (x, s')) (hd : d ≠ t) :
    D.Undisturbed d s s' := by
  rcases hD.get_contents h with ⟨hcontents, hwritten⟩
  refine .of_eq hcontents (fun k' => ?_) (by rw [hwritten])
  cases x with
  | none => rw [hD.get_absent h]
  | some v =>
    rcases hD.get_exclusive h with ⟨hfree, hholder⟩
    rw [hholder]
    by_cases hk : k' = k
    · -- the row that was read was not held by `d`, and is not now
      subst hk
      rw [Function.update_self]
      constructor
      · intro heq
        exact absurd (Option.some.inj heq).symm hd
      · intro heq
        exact absurd (hfree d heq) hd
    · rw [Function.update_of_ne hk]

theorem update_undisturbed (h : D.holder s k = some t) (f : ν → ν) (hd : d ≠ t) :
    D.Undisturbed d s (D.update s t k f) := by
  rcases hD.update_private h f with ⟨hcontents, hholder, hwritten⟩
  refine .of_eq hcontents (fun k' => by rw [hholder]) ?_
  rw [hwritten, Function.update_of_ne hd]

theorem insert_undisturbed (i : ι) (hd : d ≠ t) : D.Undisturbed d s (D.insert s t i) := by
  rcases hD.insert_private s t i with ⟨hcontents, hholder, hwritten⟩
  refine .of_eq hcontents (fun k' => by rw [hholder]) ?_
  rw [hwritten, Function.update_of_ne hd]

/-- A transaction that has written only rows that it holds changes no row of
another. -/
theorem commit_undisturbed (h : ∀ u ∈ (D.written s t).updates, D.holder s u.1 = some t)
    (hd : d ≠ t) : D.Undisturbed d s (D.commit s t) := by
  have hreleased := hD.commit_released s t
  refine ⟨fun k => ?_, fun k hk => ?_, ?_⟩
  · rw [hreleased.holder, and_iff_left hd]
  · rw [hD.commit_atomic]
    refine Writes.row_of_not_mem (fun u hu heq => ?_) _
    -- a row that both would hold
    have hheld := h u hu
    rw [heq, hk] at hheld
    exact hd (Option.some.inj hheld)
  · rw [hreleased.written, Function.update_of_ne hd]

theorem rollback_undisturbed (hd : d ≠ t) : D.Undisturbed d s (D.rollback s t) := by
  have hreleased := hD.rollback_released s t
  refine .of_eq (hD.rollback_contents s t) (fun k => ?_) ?_
  · rw [hreleased.holder, and_iff_left hd]
  · rw [hreleased.written, Function.update_of_ne hd]

theorem put_undisturbed {v : ν} (h : D.put s k v = some s') (d : ℕ) : D.Undisturbed d s s' := by
  rcases hD.put_row h with ⟨hcontents, hholder, hwritten⟩
  refine ⟨fun k' => by rw [hholder], fun k' hk' => ?_, by rw [hwritten]⟩
  rw [hcontents]
  refine Contents.setRow_row_of_ne _ ?_ _
  rintro rfl
  -- nobody holds the row that is replaced
  rw [hD.put_waits h] at hk'
  cases hk'

end Lawful

end Store

/-! ## A store of this kind -/

/-- Contents with a table of locks and the writes of each transaction. -/
structure LockTable (κ : Type u) (ν : Type v) (ι : Type w) where
  contents : Contents κ ν ι
  holder : κ → Option ℕ
  written : ℕ → Writes κ ν ι

namespace LockTable

variable [DecidableEq κ]

/-- A transaction ends, with these contents. -/
def release (s : LockTable κ ν ι) (t : ℕ) (contents : Contents κ ν ι) : LockTable κ ν ι where
  contents := contents
  holder k := if s.holder k = some t then none else s.holder k
  written := Function.update s.written t Writes.none

def getForUpdate (s : LockTable κ ν ι) (t : ℕ) (k : κ) : Option (Option ν × LockTable κ ν ι) :=
  match (s.written t).row k (s.contents.row k) with
  | none => some (none, s)
  | some v =>
    if s.holder k = none ∨ s.holder k = some t then
      some (some v, { s with holder := Function.update s.holder k (some t) })
    else none

end LockTable

/-- A store that keeps a table of locks. -/
def lockTable (κ : Type u) (ν : Type v) (ι : Type w) [DecidableEq κ] :
    Store (LockTable κ ν ι) κ ν ι where
  init := ⟨Contents.empty, fun _ => none, fun _ => Writes.none⟩
  contents := LockTable.contents
  holder := LockTable.holder
  written := LockTable.written
  getForUpdate := LockTable.getForUpdate
  update s t k f := { s with written := Function.update s.written t ((s.written t).update k f) }
  insert s t i := { s with written := Function.update s.written t ((s.written t).insert i) }
  commit s t := s.release t ((s.written t).save s.contents)
  rollback s t := s.release t s.contents
  put s k v := if s.holder k = none then some { s with contents := s.contents.setRow k v } else none

section LockTable

variable [DecidableEq κ]

theorem LockTable.released (s : LockTable κ ν ι) (t : ℕ) (contents : Contents κ ν ι) :
    (lockTable κ ν ι).Released t s (s.release t contents) := by
  refine ⟨fun k d => ?_, rfl⟩
  show (if s.holder k = some t then none else s.holder k) = some d ↔ s.holder k = some d ∧ d ≠ t
  split
  · rename_i hheld
    rw [hheld]
    simp [eq_comm]
  · rename_i hheld
    refine ⟨fun h => ⟨h, ?_⟩, And.left⟩
    rintro rfl
    exact hheld h

/-- What a read finds, and what it leaves. -/
theorem LockTable.getForUpdate_cases {s s' : LockTable κ ν ι} {t : ℕ} {k : κ} {x : Option ν}
    (h : s.getForUpdate t k = some (x, s')) :
    x = (s.written t).row k (s.contents.row k) ∧
      ((x = none ∧ s' = s) ∨ ((s.holder k = none ∨ s.holder k = some t) ∧ x.isSome ∧
        s' = { s with holder := Function.update s.holder k (some t) })) := by
  rw [getForUpdate] at h
  split at h
  · rename_i hrow
    cases h
    exact ⟨hrow.symm, Or.inl ⟨rfl, rfl⟩⟩
  · rename_i v hrow
    split at h
    · rename_i hfree
      cases h
      exact ⟨hrow.symm, Or.inr ⟨hfree, rfl, rfl⟩⟩
    · cases h

theorem lockTable_lawful : (lockTable κ ν ι).Lawful where
  init_contents := rfl
  init_holder _ := rfl
  init_written _ := rfl
  get_reads h := (LockTable.getForUpdate_cases h).1
  get_contents h := by
    rcases (LockTable.getForUpdate_cases h).2 with ⟨-, rfl⟩ | ⟨-, -, rfl⟩
    · exact ⟨rfl, rfl⟩
    · exact ⟨rfl, rfl⟩
  get_exclusive h := by
    rcases (LockTable.getForUpdate_cases h).2 with ⟨hnone, -⟩ | ⟨hfree, -, rfl⟩
    · cases hnone
    · refine ⟨fun d hd => ?_, rfl⟩
      have hd : LockTable.holder _ _ = some d := hd
      rcases hfree with hfree | hfree
      · rw [hfree] at hd
        cases hd
      · rw [hfree] at hd
        exact (Option.some.inj hd).symm
  get_absent h := by
    rcases (LockTable.getForUpdate_cases h).2 with ⟨-, rfl⟩ | ⟨-, hsome, -⟩
    · rfl
    · cases hsome
  update_private _ _ := ⟨rfl, rfl, rfl⟩
  insert_private _ _ _ := ⟨rfl, rfl, rfl⟩
  commit_atomic _ _ := rfl
  commit_released s t := s.released t _
  rollback_contents _ _ := rfl
  rollback_released s t := s.released t _
  put_waits h := (Option.ite_none_right_eq_some.mp h).1
  put_row h := by
    cases (Option.ite_none_right_eq_some.mp h).2
    exact ⟨rfl, rfl, rfl⟩

theorem lockTable_serves : (lockTable κ ν ι).Serves := by
  intro s t k hfree
  have hfree : s.holder k = none := hfree
  show ∃ x s', s.getForUpdate t k = some (x, s')
  rw [LockTable.getForUpdate]
  split
  · exact ⟨_, _, rfl⟩
  · rw [if_pos (Or.inl hfree)]
    exact ⟨_, _, rfl⟩

end LockTable

end InterviewPrep
