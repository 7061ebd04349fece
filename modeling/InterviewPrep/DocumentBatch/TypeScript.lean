import Mathlib.Data.Rat.Floor
import Mathlib.Data.Set.List
import InterviewPrep.Lib.BoundedBatch
import InterviewPrep.Lib.JavaScript
import InterviewPrep.Lib.Termination

/-!
# Document batch

`extractBatch` of `technical/concurrent_document_batch/question.md`, the TypeScript
version. The workers share the index `next` and the array `results`; a worker runs
without interruption until an `extract` returns a promise, and goes on when that
promise has settled.
-/

namespace InterviewPrep.DocumentBatch

structure Doc where
  id : String
  text : String

/-- `Outcome<T>` -/
inductive Outcome (T : Type) where
  | succeeded (id : String) (value : T)
  | failed (id error : String)
deriving DecidableEq

namespace TypeScript

/-- What an extraction comes to. -/
inductive Extraction (T : Type) where
  | fulfilled (value : T)
  | threw
deriving DecidableEq

variable {T : Type}

/-- What a worker stores for a document. -/
def outcome (doc : Doc) : Extraction T → Outcome T
  | .fulfilled value => .succeeded doc.id value
  | .threw => .failed doc.id "extraction failed"

/-- `limit < 1` -/
def ltOne : JavaScript.Number → Bool
  | .finite q => q < 1
  | .negInfinity => true
  | _ => false

/-- The number of workers, if `limit` is accepted. -/
def poolSize (limit : JavaScript.Number) (n : ℕ) : Option ℕ :=
  if limit.isInteger = false ∨ ltOne limit = true then none
  else
    match limit with
    | .finite q => some (min ⌊q⌋.toNat n)
    -- no other number is an integer
    | _ => none

/-- Where a worker stands. -/
inductive Worker (T : Type) where
  /-- at the head of its loop, or not started yet -/
  | atLoop
  /-- `await extract(doc.text)` -/
  | awaiting (index : ℕ)
  /-- the promise has settled -/
  | settled (index : ℕ) (r : Extraction T)
  | finished

structure Batch (T : Type) where
  /-- the worker that runs at the moment -/
  current : Option ℕ
  /-- the number of workers that `Array.from` has started -/
  started : ℕ
  next : ℕ
  workers : List (Worker T)
  results : List (Option (Outcome T))

inductive Event (T : Type) where
  /-- `Array.from` starts the next worker -/
  | startWorker
  /-- the running worker takes the next document, whose `extract` may throw at once,
  or it is done -/
  | loop (throws : Bool)
  /-- the promise of an extraction settles -/
  | settle (w : ℕ) (r : Extraction T)
  /-- a worker resumes, and stores the outcome -/
  | resume (w : ℕ)

abbrev Obs (T : Type) := BoundedBatch.Obs (Extraction T)

section Program

variable (docs : List Doc)

def step (s : Batch T) : Event T → Option (Batch T × List (Obs T))
  | .startWorker =>
    if s.current = none ∧ s.started < s.workers.length then
      some ({ s with current := some s.started, started := s.started + 1 }, [])
    else none
  | .loop throws =>
    match s.current with
    | none => none
    | some w =>
      match docs[s.next]? with
      | none =>
        -- `while (next < docs.length)` ends
        some ({ s with current := none, workers := s.workers.set w .finished }, [])
      | some doc =>
        -- `extract` throws before it returns a promise, and the worker goes on
        if throws then
          some
            ({ s with
                next := s.next + 1
                results := s.results.set s.next (some (outcome doc .threw)) },
              [.started s.next, .settled s.next .threw])
        else
          some
            ({ s with
                current := none
                next := s.next + 1
                workers := s.workers.set w (.awaiting s.next) },
              [.started s.next])
  | .settle w r =>
    match s.workers[w]? with
    | some (.awaiting index) =>
      some ({ s with workers := s.workers.set w (.settled index r) }, [.settled index r])
    | _ => none
  | .resume w =>
    match s.current, s.workers[w]? with
    | none, some (.settled index r) =>
      -- `Array.from` runs to its end before any callback
      if s.started = s.workers.length then
        match docs[index]? with
        | some doc =>
          some
            ({ s with
                current := some w
                workers := s.workers.set w .atLoop
                results := s.results.set index (some (outcome doc r)) },
              [])
        | none => none
      else none
    | _, _ => none

/-- A call with `pool` workers. -/
def machine (T : Type) (pool : ℕ) : Machine (Batch T) (Event T) (Obs T) where
  init := ⟨none, 0, 0, List.replicate pool .atLoop, List.replicate docs.length none⟩
  step := step docs

end Program

def Worker.isFinished : Worker T → Bool
  | finished => true
  | _ => false

/-- `return results`, once all workers are done. -/
def Batch.returned (s : Batch T) : Option (List (Option (Outcome T))) :=
  if s.started = s.workers.length ∧ s.workers.all Worker.isFinished then some s.results else none

/-! ## What a step does -/

/-- The changes of one step. -/
inductive Step (docs : List Doc) (s : Batch T) : Event T → Batch T → List (Obs T) → Prop where
  | startWorker : s.current = none → s.started < s.workers.length →
      Step docs s .startWorker { s with current := some s.started, started := s.started + 1 } []
  | finish {w : ℕ} {throws : Bool} : s.current = some w → docs[s.next]? = none →
      Step docs s (.loop throws)
        { s with current := none, workers := s.workers.set w .finished } []
  | throw {w : ℕ} {doc : Doc} : s.current = some w → docs[s.next]? = some doc →
      Step docs s (.loop true)
        { s with
          next := s.next + 1
          results := s.results.set s.next (some (outcome doc .threw)) }
        [.started s.next, .settled s.next .threw]
  | take {w : ℕ} {doc : Doc} : s.current = some w → docs[s.next]? = some doc →
      Step docs s (.loop false)
        { s with
          current := none
          next := s.next + 1
          workers := s.workers.set w (.awaiting s.next) }
        [.started s.next]
  | settle {w index : ℕ} {r : Extraction T} : s.workers[w]? = some (.awaiting index) →
      Step docs s (.settle w r) { s with workers := s.workers.set w (.settled index r) }
        [.settled index r]
  | resume {w index : ℕ} {r : Extraction T} {doc : Doc} : s.current = none →
      s.workers[w]? = some (.settled index r) → s.started = s.workers.length →
      docs[index]? = some doc →
      Step docs s (.resume w)
        { s with
          current := some w
          workers := s.workers.set w .atLoop
          results := s.results.set index (some (outcome doc r)) }
        []

theorem step_cases {docs : List Doc} {s s' : Batch T} {e : Event T} {out : List (Obs T)}
    (h : step docs s e = some (s', out)) : Step docs s e s' out := by
  cases e with
  | startWorker =>
    simp only [step] at h
    split at h
    · rename_i hstart
      cases h
      exact .startWorker hstart.1 hstart.2
    · cases h
  | loop throws =>
    simp only [step] at h
    split at h
    · cases h
    · rename_i w hcurrent
      split at h
      · rename_i hdoc
        cases h
        exact .finish hcurrent hdoc
      · rename_i doc hdoc
        split at h
        · rename_i hthrows
          cases h
          rw [hthrows]
          exact .throw hcurrent hdoc
        · rename_i hthrows
          cases h
          rw [Bool.eq_false_iff.mpr hthrows]
          exact .take hcurrent hdoc
  | settle w r =>
    simp only [step] at h
    split at h
    · rename_i hw
      cases h
      exact .settle hw
    · cases h
  | resume w =>
    simp only [step] at h
    split at h
    · rename_i hcurrent hw
      split at h
      · rename_i hstarted
        split at h
        · rename_i hdoc
          cases h
          exact .resume hcurrent hw hstarted hdoc
        · cases h
      · cases h
    · cases h

theorem Step.eq {docs : List Doc} {pool : ℕ} {s s' : Batch T} {e : Event T} {out : List (Obs T)}
    (h : Step docs s e s' out) : (machine docs T pool).step s e = some (s', out) := by
  cases h with
  | startWorker hcurrent hstarted => exact if_pos ⟨hcurrent, hstarted⟩
  | finish hcurrent hdoc => simp [machine, step, hcurrent, hdoc]
  | throw hcurrent hdoc => simp [machine, step, hcurrent, hdoc]
  | take hcurrent hdoc => simp [machine, step, hcurrent, hdoc]
  | settle hw => simp [machine, step, hw]
  | resume hcurrent hw hstarted hdoc => simp [machine, step, hcurrent, hw, hstarted, hdoc]

/-! ## The bounded batch -/

/-- The index that a worker has taken and not stored yet. -/
def Worker.index? : Worker T → Option ℕ
  | awaiting i => some i
  | settled i _ => some i
  | _ => none

def Worker.holds (x : Worker T) : Bool := x.index?.isSome

/-- The document of a worker stands as the worker does. -/
def Worker.Ok (slots : List (BoundedBatch.Status (Extraction T))) : Worker T → Prop
  | awaiting i => slots[i]? = some .running
  | settled i r => slots[i]? = some (.settled r)
  | _ => True

/-- The workers process a bounded batch. -/
structure Rel (docs : List Doc) (pool : ℕ) (s : Batch T)
    (t : BoundedBatch.State (Extraction T)) : Prop where
  width : s.workers.length = pool
  next : t.next = s.next
  length : s.results.length = docs.length
  workers : ∀ (w : ℕ) x, s.workers[w]? = some x → x.Ok t.slots
  distinct : ∀ (v w : ℕ) x y i, s.workers[v]? = some x → s.workers[w]? = some y →
    x.index? = some i → y.index? = some i → v = w
  held : t.held = s.workers.countP Worker.holds
  started : s.started ≤ pool
  current : ∀ w, s.current = some w ↔ w < s.started ∧ s.workers[w]? = some .atLoop
  waiting : ∀ w, s.started ≤ w → w < pool → s.workers[w]? = some .atLoop
  finished : ∀ w : ℕ, s.workers[w]? = some .finished → docs.length ≤ s.next
  stored : ∀ (i : ℕ) doc r, docs[i]? = some doc → t.slots[i]? = some (.stored r) →
    s.results[i]? = some (some (outcome doc r))

section Refinement

variable {docs : List Doc} {pool : ℕ} {s s' : Batch T} {t : BoundedBatch.State (Extraction T)}
  {tr : List (Obs T)} {w : ℕ} {doc : Doc}

theorem Worker.Ok.set {slots : List (BoundedBatch.Status (Extraction T))} {x : Worker T}
    (h : x.Ok slots) {i : ℕ} (hi : x.index? ≠ some i) (y : BoundedBatch.Status (Extraction T)) :
    x.Ok (slots.set i y) := by
  cases x with
  | awaiting j => exact (List.getElem?_set_ne fun hij => hi (congrArg some hij.symm)).trans h
  | settled j r => exact (List.getElem?_set_ne fun hij => hi (congrArg some hij.symm)).trans h
  | atLoop => trivial
  | finished => trivial

/-- What a worker holds is running or settled. -/
theorem Worker.Ok.held {slots : List (BoundedBatch.Status (Extraction T))} {x : Worker T}
    (h : x.Ok slots) {i : ℕ} (hi : x.index? = some i) :
    ∃ y, slots[i]? = some y ∧ y.held = true := by
  cases x with
  | awaiting j =>
    cases hi
    exact ⟨_, h, rfl⟩
  | settled j r =>
    cases hi
    exact ⟨_, h, rfl⟩
  | atLoop => cases hi
  | finished => cases hi

/-- A worker takes another place in its loop, and holds nothing new. -/
theorem Rel.distinct_set (h : Rel docs pool s t) {w : ℕ} {x' : Worker T}
    (hfresh : ∀ (v : ℕ) y i, v ≠ w → s.workers[v]? = some y → x'.index? = some i →
      y.index? ≠ some i) :
    ∀ (u v : ℕ) x y i, (s.workers.set w x')[u]? = some x → (s.workers.set w x')[v]? = some y →
      x.index? = some i → y.index? = some i → u = v := by
  intro u v x y i hx hy hxi hyi
  rcases getElem?_set_cases hx with ⟨hu, hxw⟩ | ⟨hu, hx⟩
  · -- both are the worker that goes on
    rcases getElem?_set_cases hy with ⟨hv, -⟩ | ⟨hv, hy⟩
    · exact hu.trans hv.symm
    · rw [hxw] at hxi
      exact absurd hyi (hfresh v y i hv hy hxi)
  · rcases getElem?_set_cases hy with ⟨hv, hyw⟩ | ⟨hv, hy⟩
    · rw [hyw] at hyi
      exact absurd hxi (hfresh u x i hu hx hyi)
    · exact h.distinct u v x y i hx hy hxi hyi

theorem Rel.lt_started (h : Rel docs pool s t) {x : Worker T} (hw : s.workers[w]? = some x)
    (hx : x ≠ .atLoop) : w < s.started := by
  by_contra hle
  have hlt := (List.getElem?_eq_some_iff.mp hw).1
  rw [h.width] at hlt
  rw [h.waiting w (Nat.not_lt.mp hle) hlt] at hw
  cases hw
  exact hx rfl

/-- The workers that are not started are not touched. -/
theorem Rel.waiting_set (h : Rel docs pool s t) (hw : w < s.started) (x' : Worker T) :
    ∀ v, s.started ≤ v → v < pool → (s.workers.set w x')[v]? = some .atLoop := by
  intro v hv hlt
  rw [List.getElem?_set_ne (hw.trans_le hv).ne]
  exact h.waiting v hv hlt

/-- The running worker leaves the head of its loop. -/
theorem Rel.current_set (h : Rel docs pool s t) (hcurrent : s.current = some w) {x' : Worker T}
    (hx' : x' ≠ .atLoop) (v : ℕ) :
    none = some v ↔ v < s.started ∧ (s.workers.set w x')[v]? = some .atLoop := by
  constructor
  · rintro ⟨⟩
  · rintro ⟨hlt, hv⟩
    rcases getElem?_set_cases hv with ⟨-, heq⟩ | ⟨hne, hv⟩
    · exact absurd heq.symm hx'
    · have hcurrent' := (h.current v).mpr ⟨hlt, hv⟩
      rw [hcurrent] at hcurrent'
      exact absurd (Option.some.inj hcurrent').symm hne

theorem Rel.startWorker (h : Rel docs pool s t) (hcurrent : s.current = none)
    (hstarted : s.started < s.workers.length) :
    Rel docs pool { s with current := some s.started, started := s.started + 1 } t := by
  refine ⟨h.width, h.next, h.length, h.workers, h.distinct, h.held, ?_, ?_, ?_, h.finished,
    h.stored⟩
  · rw [← h.width]
    exact hstarted
  · intro w
    constructor
    · rintro ⟨⟩
      exact ⟨Nat.lt_succ_self _, h.waiting s.started (Nat.le_refl _) (h.width ▸ hstarted)⟩
    · rintro ⟨hlt, hw⟩
      -- if another worker stood at the head of its loop, it would be running
      rcases Nat.lt_succ_iff_lt_or_eq.mp hlt with hlt | rfl
      · have hcurrent' := (h.current w).mpr ⟨hlt, hw⟩
        rw [hcurrent] at hcurrent'
        cases hcurrent'
      · rfl
  · intro v hv hlt
    exact h.waiting v ((Nat.le_succ _).trans hv) hlt

/-- The next document has not been started, and no worker holds it. -/
theorem Rel.next_idle (h : Rel docs pool s t) (ht : BoundedBatch.Inv docs.length pool tr t)
    (hdoc : docs[s.next]? = some doc) : t.slots[s.next]? = some .idle := by
  rcases List.getElem?_eq_some_iff.mp hdoc with ⟨hlt, -⟩
  rw [← ht.length] at hlt
  have hget := List.getElem?_eq_getElem hlt
  rw [hget, (ht.idle s.next _ hget).mpr h.next.le]

theorem Rel.next_free (h : Rel docs pool s t) (hidle : t.slots[s.next]? = some .idle)
    {v : ℕ} {y : Worker T} (hy : s.workers[v]? = some y) : y.index? ≠ some s.next := by
  intro hi
  rcases (h.workers v y hy).held hi with ⟨z, hz, hheld⟩
  rw [hidle] at hz
  cases hz
  cases hheld

/-- What a worker holds no other one does. -/
theorem Rel.other_free (h : Rel docs pool s t) {x : Worker T} {i : ℕ}
    (hw : s.workers[w]? = some x) (hx : x.index? = some i) (v : ℕ) (y : Worker T) (hv : v ≠ w)
    (hy : s.workers[v]? = some y) : y.index? ≠ some i :=
  fun hi => hv (h.distinct v w y x i hy hw hi hx)

/-- There is an entry for every document. -/
theorem Rel.results_set (h : Rel docs pool s t) {i : ℕ} (hdoc : docs[i]? = some doc)
    (x : Option (Outcome T)) : (s.results.set i x)[i]? = some x := by
  rw [List.getElem?_set_self]
  rw [h.length]
  exact (List.getElem?_eq_some_iff.mp hdoc).1

/-- The running worker holds nothing, so that there is a place for another document. -/
theorem Rel.held_lt (h : Rel docs pool s t) (hcurrent : s.current = some w) : t.held < pool := by
  -- with another document in the place of the running worker, `pool` is not exceeded
  have hcount := countP_set_add (a := .awaiting 0) Worker.holds ((h.current w).mp hcurrent).2
  have hle := List.countP_le_length (p := Worker.holds) (l := s.workers.set w (.awaiting 0))
  simp only [Worker.holds, Worker.index?, Option.isSome_none, Option.isSome_some, if_true,
    Bool.false_eq_true, if_false, Nat.add_zero] at hcount
  rw [List.length_set, h.width] at hle
  rw [h.held]
  exact (Nat.lt_of_lt_of_eq (Nat.lt_succ_self _) hcount.symm).trans_le hle

theorem Rel.take (h : Rel docs pool s t) (hidle : t.slots[s.next]? = some .idle)
    (hcurrent : s.current = some w) :
    Rel docs pool
      { s with
        current := none
        next := s.next + 1
        workers := s.workers.set w (.awaiting s.next) }
      ⟨s.next + 1, t.slots.set s.next .running⟩ := by
  rcases (h.current w).mp hcurrent with ⟨hlt, hw⟩
  refine ⟨?_, rfl, h.length, ?_, ?_, ?_, h.started, h.current_set hcurrent (by simp),
    h.waiting_set hlt _, ?_, ?_⟩
  · rw [List.length_set]
    exact h.width
  · intro v y hy
    rcases getElem?_set_cases hy with ⟨-, rfl⟩ | ⟨-, hy⟩
    · exact getElem?_set_of_some hidle
    · exact (h.workers v y hy).set (h.next_free hidle hy) _
  · refine h.distinct_set ?_
    rintro v y i - hy ⟨⟩
    exact h.next_free hidle hy
  · -- one more is held on both sides
    have hcount := countP_set_add (a := .awaiting s.next) Worker.holds hw
    have hslots := countP_set_add (a := .running) BoundedBatch.Status.held hidle
    simp only [Worker.holds, Worker.index?, Option.isSome_none, Option.isSome_some, if_true,
      BoundedBatch.Status.held, Bool.false_eq_true, if_false, Nat.add_zero] at hcount hslots
    exact (hslots.trans (congrArg Nat.succ h.held)).trans hcount.symm
  · intro v hv
    rcases getElem?_set_cases hv with ⟨-, heq⟩ | ⟨-, hv⟩
    · cases heq
    · exact (h.finished v hv).trans (Nat.le_succ _)
  · intro i doc r hdoc hi
    rcases getElem?_set_cases hi with ⟨-, heq⟩ | ⟨-, hi⟩
    · cases heq
    · exact h.stored i doc r hdoc hi

theorem Rel.throw (h : Rel docs pool s t) (hidle : t.slots[s.next]? = some .idle)
    (hdoc : docs[s.next]? = some doc) :
    Rel docs pool
      { s with next := s.next + 1, results := s.results.set s.next (some (outcome doc .threw)) }
      ⟨s.next + 1, t.slots.set s.next (.stored .threw)⟩ := by
  refine ⟨h.width, rfl, ?_, ?_, h.distinct, ?_, h.started, h.current, h.waiting, ?_, ?_⟩
  · rw [List.length_set]
    exact h.length
  · intro v y hy
    exact (h.workers v y hy).set (h.next_free hidle hy) _
  · have hslots := countP_set_add (a := .stored .threw) BoundedBatch.Status.held hidle
    simp only [BoundedBatch.Status.held, Bool.false_eq_true, if_false, Nat.add_zero] at hslots
    exact hslots.trans h.held
  · intro v hv
    exact (h.finished v hv).trans (Nat.le_succ _)
  · intro i doc' r hdoc' hi
    -- the outcome that is stored here
    rcases getElem?_set_cases hi with ⟨rfl, heq⟩ | ⟨hne, hi⟩
    · cases heq
      rw [hdoc] at hdoc'
      cases hdoc'
      exact h.results_set hdoc _
    · rw [List.getElem?_set_ne (Ne.symm hne)]
      exact h.stored i doc' r hdoc' hi

theorem Rel.finish (h : Rel docs pool s t) (hcurrent : s.current = some w)
    (hdoc : docs[s.next]? = none) :
    Rel docs pool { s with current := none, workers := s.workers.set w .finished } t := by
  rcases (h.current w).mp hcurrent with ⟨hlt, hw⟩
  refine ⟨?_, h.next, h.length, ?_, ?_, ?_, h.started, h.current_set hcurrent (by simp),
    h.waiting_set hlt _, ?_, h.stored⟩
  · rw [List.length_set]
    exact h.width
  · intro v y hy
    rcases getElem?_set_cases hy with ⟨-, rfl⟩ | ⟨-, hy⟩
    · trivial
    · exact h.workers v y hy
  · refine h.distinct_set ?_
    rintro v y i - hy ⟨⟩
  · have hcount := countP_set_add (a := .finished) Worker.holds hw
    simp only [Worker.holds, Worker.index?, Option.isSome_none, Bool.false_eq_true, if_false,
      Nat.add_zero] at hcount
    exact h.held.trans hcount.symm
  · intro v hv
    exact List.getElem?_eq_none_iff.mp hdoc

theorem Rel.settle (h : Rel docs pool s t) {index : ℕ} {r : Extraction T}
    (hw : s.workers[w]? = some (.awaiting index)) :
    Rel docs pool { s with workers := s.workers.set w (.settled index r) }
      ⟨t.next, t.slots.set index (.settled r)⟩ := by
  have hindex : t.slots[index]? = some .running := h.workers w _ hw
  have hother := h.other_free hw rfl
  refine ⟨?_, h.next, h.length, ?_, ?_, ?_, h.started, ?_, ?_, ?_, ?_⟩
  · rw [List.length_set]
    exact h.width
  · intro v y hy
    rcases getElem?_set_cases hy with ⟨-, rfl⟩ | ⟨hv, hy⟩
    · exact getElem?_set_of_some hindex
    · exact (h.workers v y hy).set (hother v y hv hy) _
  · refine h.distinct_set ?_
    rintro v y i hv hy ⟨⟩
    exact hother v y hv hy
  · have hcount := countP_set_add (a := .settled index r) Worker.holds hw
    have hslots := countP_set_add (a := .settled r) BoundedBatch.Status.held hindex
    exact (Nat.add_right_cancel hslots).trans (h.held.trans (Nat.add_right_cancel hcount).symm)
  · -- an extraction may settle while another worker runs
    intro v
    rw [h.current v]
    refine and_congr_right fun _ => ⟨fun hv => ?_, fun hv => ?_⟩
    · have hne : w ≠ v := by
        rintro rfl
        rw [hw] at hv
        cases hv
      rw [List.getElem?_set_ne hne]
      exact hv
    · rcases getElem?_set_cases hv with ⟨-, heq⟩ | ⟨-, hv⟩
      · cases heq
      · exact hv
  · exact h.waiting_set (h.lt_started hw (by simp)) _
  · intro v hv
    rcases getElem?_set_cases hv with ⟨-, heq⟩ | ⟨-, hv⟩
    · cases heq
    · exact h.finished v hv
  · intro i doc r' hdoc hi
    rcases getElem?_set_cases hi with ⟨-, heq⟩ | ⟨-, hi⟩
    · cases heq
    · exact h.stored i doc r' hdoc hi

theorem Rel.resume (h : Rel docs pool s t) {index : ℕ} {r : Extraction T}
    (hcurrent : s.current = none) (hw : s.workers[w]? = some (.settled index r))
    (hdoc : docs[index]? = some doc) :
    Rel docs pool
      { s with
        current := some w
        workers := s.workers.set w .atLoop
        results := s.results.set index (some (outcome doc r)) }
      ⟨t.next, t.slots.set index (.stored r)⟩ := by
  have hindex : t.slots[index]? = some (.settled r) := h.workers w _ hw
  have hother := h.other_free hw rfl
  have hlt := h.lt_started hw (by simp)
  refine ⟨?_, h.next, ?_, ?_, ?_, ?_, h.started, ?_, h.waiting_set hlt _, ?_, ?_⟩
  · rw [List.length_set]
    exact h.width
  · rw [List.length_set]
    exact h.length
  · intro v y hy
    rcases getElem?_set_cases hy with ⟨-, rfl⟩ | ⟨hv, hy⟩
    · trivial
    · exact (h.workers v y hy).set (hother v y hv hy) _
  · refine h.distinct_set ?_
    rintro v y i hv hy ⟨⟩
  · -- one less is held on both sides
    have hcount := countP_set_add (a := .atLoop) Worker.holds hw
    have hslots := countP_set_add (a := .stored r) BoundedBatch.Status.held hindex
    simp only [Worker.holds, Worker.index?, Option.isSome_none, Option.isSome_some, if_true,
      BoundedBatch.Status.held, Bool.false_eq_true, if_false, Nat.add_zero] at hcount hslots
    exact Nat.succ.inj (hslots.trans (h.held.trans hcount.symm))
  · intro v
    constructor
    · rintro ⟨⟩
      exact ⟨hlt, getElem?_set_of_some hw⟩
    · rintro ⟨hlt, hv⟩
      rcases getElem?_set_cases hv with ⟨rfl, -⟩ | ⟨-, hv⟩
      · rfl
      · have hcurrent' := (h.current v).mpr ⟨hlt, hv⟩
        rw [hcurrent] at hcurrent'
        cases hcurrent'
  · intro v hv
    rcases getElem?_set_cases hv with ⟨-, heq⟩ | ⟨-, hv⟩
    · cases heq
    · exact h.finished v hv
  · intro i doc' r' hdoc' hi
    rcases getElem?_set_cases hi with ⟨rfl, heq⟩ | ⟨hne, hi⟩
    · cases heq
      rw [hdoc] at hdoc'
      cases hdoc'
      exact h.results_set hdoc _
    · rw [List.getElem?_set_ne (Ne.symm hne)]
      exact h.stored i doc' r' hdoc' hi

theorem rel_step (h : Rel docs pool s t) (ht : BoundedBatch.Inv docs.length pool tr t)
    {e : Event T} {out : List (Obs T)} (hs : step docs s e = some (s', out)) :
    ∃ fs t', (BoundedBatch.machine (Extraction T) docs.length pool).execFrom t fs = some (t', out) ∧
      Rel docs pool s' t' := by
  cases step_cases hs with
  | startWorker hcurrent hstarted => exact ⟨[], t, rfl, h.startWorker hcurrent hstarted⟩
  | finish hcurrent hdoc => exact ⟨[], t, rfl, h.finish hcurrent hdoc⟩
  | @throw w doc hcurrent hdoc =>
    have hidle := h.next_idle ht hdoc
    -- the abstract batch starts, settles and stores the document at once
    have hlt := ht.length.symm ▸ (List.getElem?_eq_some_iff.mp hdoc).1
    have hstart : BoundedBatch.Step pool t .start _ _ :=
      .start (h.next.symm ▸ hlt) (h.held_lt hcurrent)
    rw [h.next] at hstart
    have hsettle : BoundedBatch.Step pool ⟨s.next + 1, t.slots.set s.next .running⟩
        (.settle s.next .threw) _ _ := .settle (getElem?_set_of_some hidle)
    rw [List.set_set] at hsettle
    have hstore : BoundedBatch.Step pool ⟨s.next + 1, t.slots.set s.next (.settled .threw)⟩
        (.store s.next) _ _ := .store (getElem?_set_of_some hidle)
    rw [List.set_set] at hstore
    exact ⟨[.start, .settle s.next .threw, .store s.next], _,
      Machine.execFrom_cons hstart.eq
        (Machine.execFrom_cons hsettle.eq (Machine.execFrom_singleton hstore.eq)),
      h.throw hidle hdoc⟩
  | @take w doc hcurrent hdoc =>
    have hidle := h.next_idle ht hdoc
    have hlt := ht.length.symm ▸ (List.getElem?_eq_some_iff.mp hdoc).1
    have hstart : BoundedBatch.Step pool t .start _ _ :=
      .start (h.next.symm ▸ hlt) (h.held_lt hcurrent)
    rw [h.next] at hstart
    exact ⟨[.start], _, Machine.execFrom_singleton hstart.eq, h.take hidle hcurrent⟩
  | @settle w index r hw =>
    have hsettle : BoundedBatch.Step pool t (.settle index r) _ _ := .settle (h.workers w _ hw)
    exact ⟨[.settle index r], _, Machine.execFrom_singleton hsettle.eq, h.settle hw⟩
  | @resume w index r doc hcurrent hw hstarted hdoc =>
    have hstore : BoundedBatch.Step pool t (.store index) _ _ := .store (h.workers w _ hw)
    exact ⟨[.store index], _, Machine.execFrom_singleton hstore.eq, h.resume hcurrent hw hdoc⟩

theorem rel_init (docs : List Doc) (pool : ℕ) :
    Rel docs pool (machine docs T pool).init
      (BoundedBatch.machine (Extraction T) docs.length pool).init := by
  have hworkers : ∀ (w : ℕ) (x : Worker T), (List.replicate pool .atLoop)[w]? = some x →
      x = .atLoop := fun w x hx => List.eq_of_mem_replicate (List.mem_of_getElem? hx)
  refine ⟨List.length_replicate, rfl, List.length_replicate, ?_, ?_, ?_, Nat.zero_le _, ?_, ?_, ?_,
    ?_⟩
  · intro w x hx
    rw [hworkers w x hx]
    trivial
  · intro v w x y i hx _ hi _
    rw [hworkers v x hx] at hi
    cases hi
  · simp [machine, BoundedBatch.machine, BoundedBatch.State.held, List.countP_replicate,
      Worker.holds, Worker.index?, BoundedBatch.Status.held]
  · intro w
    simp [machine]
  · intro w _ hlt
    exact List.getElem?_replicate_of_lt hlt
  · intro w hw
    cases hworkers w _ hw
  · intro i doc r _ hi
    cases List.eq_of_mem_replicate (List.mem_of_getElem? hi)

variable {es : List (Event T)}

theorem rel_run (hrun : (machine docs T pool).Run es tr s) :
    ∃ fs t, (BoundedBatch.machine (Extraction T) docs.length pool).Run fs tr t ∧
      Rel docs pool s t := by
  refine hrun.relate (Rel docs pool) (rel_init docs pool) ?_
  intro gs tr s t e s' out ht hrel hs
  exact rel_step hrel (BoundedBatch.inv_run ht) hs

/-! ## What a batch returns -/

theorem poolSize_pos {limit : JavaScript.Number} {n : ℕ} (h : poolSize limit n = some pool)
    (hn : 0 < n) : 0 < pool := by
  cases limit with
  | finite q =>
    simp only [poolSize] at h
    split at h
    · cases h
    · rename_i haccepted
      cases h
      rw [not_or, Bool.not_eq_true, ltOne, decide_eq_false_iff_not, not_lt] at haccepted
      have hfloor : 1 ≤ ⌊q⌋ := Int.le_floor.mpr (by exact_mod_cast haccepted.2)
      omega
  | _ => simp [poolSize, JavaScript.Number.isInteger] at h

theorem getElem?_finished {workers : List (Worker T)}
    (h : ∀ x ∈ workers, x.isFinished = true) (hw : w < workers.length) :
    workers[w]? = some .finished := by
  have hget := List.getElem?_eq_getElem hw
  have hfinished := h _ (List.mem_of_getElem? hget)
  rw [hget, Option.some.injEq]
  cases hx : workers[w] <;> rw [hx] at hfinished <;> cases hfinished

/-- Once all workers are done, every document has its outcome. -/
theorem Rel.results (h : Rel docs pool s t) (ht : BoundedBatch.Inv docs.length pool tr t)
    (hpool : 0 < docs.length → 0 < pool) {results : List (Option (Outcome T))}
    (hreturned : s.returned = some results) :
    ∃ l, results = l.map some ∧ BoundedBatch.Results tr docs outcome l := by
  rw [Batch.returned] at hreturned
  split at hreturned
  · rename_i hdone
    cases hreturned
    rw [List.all_eq_true] at hdone
    rcases hdone with ⟨-, hdone⟩
    -- a worker that is done holds nothing
    have hheld : t.held = 0 := by
      rw [h.held, List.countP_eq_zero]
      intro x hx hholds
      have hfinished := hdone x hx
      cases x <;> cases hfinished
      cases hholds
    have hget : ∀ (i : ℕ) doc, docs[i]? = some doc →
        ∃ r, .settled i r ∈ tr ∧ s.results[i]? = some (some (outcome doc r)) := by
      intro i doc hdoc
      have hlt := (List.getElem?_eq_some_iff.mp hdoc).1
      have hexists : ∃ x, t.slots[i]? = some x :=
        ⟨_, List.getElem?_eq_getElem (ht.length.symm ▸ hlt)⟩
      rcases hexists with ⟨x, hi⟩
      -- a worker is done, so that every document was started
      have hpos := hpool (Nat.zero_lt_of_lt hlt)
      rw [← h.width] at hpos
      have hnext := h.finished 0 (getElem?_finished hdone hpos)
      have hidle := ht.idle i x hi
      rw [h.next] at hidle
      have hheld' : x.held = false := by
        rw [BoundedBatch.State.held, List.countP_eq_zero] at hheld
        simpa using hheld x (List.mem_of_getElem? hi)
      cases x with
      | idle => exact absurd (hidle.mp rfl) (Nat.not_le.mpr (hlt.trans_le hnext))
      | running => cases hheld'
      | settled r => cases hheld'
      | stored r => exact ⟨r, (ht.outcome i _ hi r).mp rfl, h.stored i doc r hdoc hi⟩
    -- so no entry of the array is left open
    have hfilled : s.results ∈ Set.range (List.map some) := by
      rw [Set.range_list_map]
      intro x hx
      rcases List.getElem?_of_mem hx with ⟨i, hi⟩
      have hlt := (List.getElem?_eq_some_iff.mp hi).1
      rw [h.length] at hlt
      rcases hget i _ (List.getElem?_eq_getElem hlt) with ⟨r, -, hr⟩
      rw [hi] at hr
      exact ⟨_, (Option.some.inj hr).symm⟩
    rcases hfilled with ⟨l, hl⟩
    refine ⟨l, hl.symm, ?_, ?_⟩
    · rw [← h.length, ← hl, List.length_map]
    · intro i doc hdoc
      rcases hget i doc hdoc with ⟨r, hr, hi⟩
      rw [← hl, List.getElem?_map, Option.map_eq_some_iff] at hi
      rcases hi with ⟨o, ho, heq⟩
      cases heq
      exact ⟨r, hr, ho⟩
  · cases hreturned

/-- **Batches.** In every run of `extractBatch` each document is extracted at most
once, in input order and never more than `pool` at a time, and what is returned holds
one outcome for each document, in input order. -/
theorem extractBatch_contract {limit : JavaScript.Number}
    (hpool : poolSize limit docs.length = some pool) (hrun : (machine docs T pool).Run es tr s) :
    (∃ slots, BoundedBatch.Contract docs.length pool tr slots) ∧
      ∀ results, s.returned = some results →
        ∃ l, results = l.map some ∧ BoundedBatch.Results tr docs outcome l := by
  rcases rel_run hrun with ⟨fs, t, ht, h⟩
  exact ⟨⟨_, BoundedBatch.contract_run ht⟩,
    fun _ => h.results (BoundedBatch.inv_run ht) (poolSize_pos hpool)⟩

/-! ## Every batch returns -/

/-- The steps that a worker will make before it takes another document. -/
def Worker.work : Worker T → ℕ
  | awaiting _ => 3
  | settled _ _ => 2
  | atLoop => 1
  | finished => 0

def Batch.work (docs : List Doc) (s : Batch T) : ℕ :=
  (s.workers.length - s.started) + 4 * (docs.length - s.next) + (s.workers.map Worker.work).sum

theorem work_step (h : Rel docs pool s t) {e : Event T} {out : List (Obs T)}
    (hs : step docs s e = some (s', out)) : s'.work docs < s.work docs := by
  cases step_cases hs with
  | startWorker hcurrent hstarted =>
    simp only [Batch.work]
    omega
  | @finish w _ hcurrent hdoc =>
    -- of four for a document, three go to the worker that takes it
    have hsum := sum_map_set (a := .finished) Worker.work ((h.current w).mp hcurrent).2
    simp only [Batch.work, Worker.work, List.length_set] at hsum ⊢
    omega
  | @throw w doc hcurrent hdoc =>
    have hlt := (List.getElem?_eq_some_iff.mp hdoc).1
    simp only [Batch.work]
    omega
  | @take w doc hcurrent hdoc =>
    have hlt := (List.getElem?_eq_some_iff.mp hdoc).1
    have hsum := sum_map_set (a := .awaiting s.next) Worker.work ((h.current w).mp hcurrent).2
    simp only [Batch.work, Worker.work, List.length_set] at hsum ⊢
    omega
  | @settle w index r hw =>
    have hsum := sum_map_set (a := .settled index r) Worker.work hw
    simp only [Batch.work, Worker.work, List.length_set] at hsum ⊢
    omega
  | @resume w index r doc hcurrent hw hstarted hdoc =>
    have hsum := sum_map_set (a := .atLoop) Worker.work hw
    simp only [Batch.work, Worker.work, List.length_set] at hsum ⊢
    omega

/-- Until the batch returns, something can happen. -/
theorem exists_step (h : Rel docs pool s t) (ht : BoundedBatch.Inv docs.length pool tr t)
    (hnot : ¬ s.returned.isSome = true) :
    ∃ (e : Event T) (s' : Batch T) (out : List (Obs T)), Step docs s e s' out := by
  cases hcurrent : s.current with
  | some w =>
    -- a worker runs, and can take a document or end
    cases hdoc : docs[s.next]? with
    | none => exact ⟨.loop true, _, _, .finish hcurrent hdoc⟩
    | some doc => exact ⟨_, _, _, .throw hcurrent hdoc⟩
  | none =>
    by_cases hstarted : s.started < s.workers.length
    · exact ⟨_, _, _, .startWorker hcurrent hstarted⟩
    · have hall : s.started = s.workers.length := by
        have hle := h.started
        rw [← h.width] at hle
        omega
      -- some worker is not done
      have hexists : ∃ x ∈ s.workers, x.isFinished = false := by
        by_contra hnone
        apply hnot
        rw [Batch.returned, if_pos]
        · rfl
        · refine ⟨hall, List.all_eq_true.mpr fun x hx => ?_⟩
          by_contra hx'
          exact hnone ⟨x, hx, Bool.eq_false_iff.mpr hx'⟩
      rcases hexists with ⟨x, hx, hunfinished⟩
      rcases List.getElem?_of_mem hx with ⟨w, hw⟩
      have hok := h.workers w x hw
      cases x with
      | atLoop =>
        have hlt := (List.getElem?_eq_some_iff.mp hw).1
        -- a worker at the head of its loop would be running
        have hcurrent' := (h.current w).mpr ⟨hall.symm ▸ hlt, hw⟩
        rw [hcurrent] at hcurrent'
        cases hcurrent'
      | awaiting index => exact ⟨.settle w .threw, _, _, .settle hw⟩
      | settled index r =>
        have hlt := (List.getElem?_eq_some_iff.mp hok).1
        rw [ht.length] at hlt
        exact ⟨_, _, _, .resume hcurrent hw hall (List.getElem?_eq_getElem hlt)⟩
      | finished => cases hunfinished

/-- **Every batch returns.** Whatever the order of the steps, a batch whose
extractions settle returns one outcome for each document after a bounded number of
them. -/
theorem extractBatch_returns (T : Type) {limit : JavaScript.Number} {docs : List Doc} {pool : ℕ}
    (hpool : poolSize limit docs.length = some pool) :
    (machine docs T pool).Ends (fun _ _ => True)
      (fun s => ∃ l : List (Outcome T), s.returned = some (l.map some)) := by
  refine ⟨⟨(machine docs T pool).init.work docs, ?_⟩, ?_⟩
  · intro es tr s hrun
    -- every step takes something from the work that is left
    have hle := hrun.length_add_le (Batch.work docs) ?_
    · omega
    · intro es tr s e s' out hrun _ hs
      rcases rel_run hrun.run with ⟨fs, t, -, h⟩
      exact work_step h hs
  · intro es tr s hrun hnot
    rcases rel_run hrun.run with ⟨fs, t, ht, h⟩
    have hinv := BoundedBatch.inv_run ht
    have hpending : ¬ s.returned.isSome = true := by
      intro hsome
      rcases Option.isSome_iff_exists.mp hsome with ⟨results, hreturned⟩
      rcases h.results hinv (poolSize_pos hpool) hreturned with ⟨l, rfl, -⟩
      exact hnot ⟨l, hreturned⟩
    rcases exists_step h hinv hpending with ⟨e, s', out, hs⟩
    exact ⟨e, s', out, trivial, hs.eq⟩

end Refinement

/-! ## A batch -/

def threeDocs : List Doc := [⟨"a", "x"⟩, ⟨"b", "y"⟩, ⟨"c", "z"⟩]

/-- Two workers; the second document fails at once, and the third one is done first. -/
def threeDocsRun : List (Event ℕ) :=
  [.startWorker, .loop false, .startWorker, .loop true, .loop false, .settle 1 (.fulfilled 3),
    .resume 1, .loop false, .settle 0 (.fulfilled 1), .resume 0, .loop false]

theorem extractBatch_contract_threeDocs :
    ∃ tr s, (machine threeDocs ℕ 2).Run threeDocsRun tr s ∧
      (∃ slots, BoundedBatch.Contract 3 2 tr slots) ∧
      s.returned = some [some (.succeeded "a" 1), some (.failed "b" "extraction failed"),
        some (.succeeded "c" 3)] ∧
      ∃ l, [some (.succeeded "a" 1), some (.failed "b" "extraction failed"),
          some (.succeeded "c" 3)] = l.map some ∧
        BoundedBatch.Results tr threeDocs outcome l := by
  have hpool : poolSize (.finite 2) threeDocs.length = some 2 := by decide +kernel
  have hexec : ((machine threeDocs ℕ 2).exec threeDocsRun).map (fun r => r.1.returned) =
      some (some [some (.succeeded "a" 1), some (.failed "b" "extraction failed"),
        some (.succeeded "c" 3)]) := by decide +kernel
  rcases Machine.Run.of_exec_map hexec with ⟨s, tr, hrun, hreturned⟩
  rcases extractBatch_contract hpool hrun with ⟨hcontract, hresults⟩
  exact ⟨tr, s, hrun, hcontract, hreturned, hresults _ hreturned⟩

theorem extractBatch_returns_threeDocs :
    (machine threeDocs ℕ 3).Ends (fun _ _ => True)
      (fun s => ∃ l : List (Outcome ℕ), s.returned = some (l.map some)) := by
  have hpool : poolSize (.finite 5) threeDocs.length = some 3 := by decide +kernel
  exact extractBatch_returns ℕ hpool

end TypeScript

end InterviewPrep.DocumentBatch
