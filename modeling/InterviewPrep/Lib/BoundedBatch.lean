import Mathlib.Data.List.Range
import InterviewPrep.Lib.Machine
import InterviewPrep.Lib.Slots
import InterviewPrep.Lib.Trace

/-!
# Bounded batches

`n` items are processed, at most `limit` of them at a time. They are started in
order; an item that was started settles with some outcome, at any time and in any
order; its place is free again when the outcome has been stored.

`contract_run` is what holds of every run, whatever the order in which the items
settle. `Results` is what a batch returns; by `Results.eq_map` it does not depend on
that order either, where the outcome of an item depends on the item alone.
-/

namespace InterviewPrep

namespace BoundedBatch

variable {R : Type*}

/-! ## The machine -/

inductive Status (R : Type*) where
  | idle
  | running
  | settled (r : R)
  | stored (r : R)

/-- The item occupies one of the places. -/
def Status.held : Status R → Bool
  | running => true
  | settled _ => true
  | _ => false

/-- The outcome of the item, once it has settled. -/
def Status.outcome? : Status R → Option R
  | settled r => some r
  | stored r => some r
  | _ => none

structure State (R : Type*) where
  next : ℕ
  slots : List (Status R)

inductive Event (R : Type*) where
  | start
  | settle (i : ℕ) (r : R)
  | store (i : ℕ)

inductive Obs (R : Type*) where
  | started (i : ℕ)
  | settled (i : ℕ) (r : R)
deriving DecidableEq

/-- The number of places that are occupied. -/
def State.held (s : State R) : ℕ := s.slots.countP Status.held

def step (limit : ℕ) (s : State R) : Event R → Option (State R × List (Obs R))
  | .start =>
    if s.next < s.slots.length ∧ s.held < limit then
      some (⟨s.next + 1, s.slots.set s.next .running⟩, [.started s.next])
    else none
  | .settle i r =>
    match s.slots[i]? with
    | some .running => some (⟨s.next, s.slots.set i (.settled r)⟩, [.settled i r])
    | _ => none
  | .store i =>
    match s.slots[i]? with
    | some (.settled r) => some (⟨s.next, s.slots.set i (.stored r)⟩, [])
    | _ => none

def machine (R : Type*) (n limit : ℕ) : Machine (State R) (Event R) (Obs R) where
  init := ⟨0, List.replicate n .idle⟩
  step := step limit

/-- The changes of one step. -/
inductive Step (limit : ℕ) (s : State R) : Event R → State R → List (Obs R) → Prop where
  | start : s.next < s.slots.length → s.held < limit →
      Step limit s .start ⟨s.next + 1, s.slots.set s.next .running⟩ [.started s.next]
  | settle {i : ℕ} {r : R} : s.slots[i]? = some .running →
      Step limit s (.settle i r) ⟨s.next, s.slots.set i (.settled r)⟩ [.settled i r]
  | store {i : ℕ} {r : R} : s.slots[i]? = some (.settled r) →
      Step limit s (.store i) ⟨s.next, s.slots.set i (.stored r)⟩ []

theorem step_cases {limit : ℕ} {s s' : State R} {e : Event R} {out : List (Obs R)}
    (h : step limit s e = some (s', out)) : Step limit s e s' out := by
  cases e with
  | start =>
    simp only [step] at h
    split at h
    · rename_i hlt
      cases h
      exact .start hlt.1 hlt.2
    · cases h
  | settle i r =>
    simp only [step] at h
    split at h
    · rename_i hi
      cases h
      exact .settle hi
    · cases h
  | store i =>
    simp only [step] at h
    split at h
    · rename_i hi
      cases h
      exact .store hi
    · cases h

theorem Step.eq {n limit : ℕ} {s s' : State R} {e : Event R} {out : List (Obs R)}
    (h : Step limit s e s' out) : (machine R n limit).step s e = some (s', out) := by
  cases h with
  | start hlt hheld => exact if_pos ⟨hlt, hheld⟩
  | settle hi => simp [machine, step, hi]
  | store hi => simp [machine, step, hi]

/-! ## The contract -/

def Obs.isStarted : Obs R → Bool
  | started _ => true
  | settled _ _ => false

def Obs.isSettled (o : Obs R) : Bool := !o.isStarted

/-- The items that were started, in order. -/
def Obs.started? : Obs R → Option ℕ
  | started i => some i
  | settled _ _ => none

def starts (tr : List (Obs R)) : List ℕ := tr.filterMap Obs.started?

/-- At most `limit` items have been started and have not settled. -/
def Bounded (limit : ℕ) (tr : List (Obs R)) : Prop :=
  tr.countP Obs.isStarted ≤ tr.countP Obs.isSettled + limit

/-- What is true of a batch, when its items stand as in `slots`. -/
structure Contract (n limit : ℕ) (tr : List (Obs R)) (slots : List (Status R)) : Prop where
  /-- every item is started at most once, and in order -/
  order : ∃ k ≤ n, starts tr = List.range k
  bounded : Along (fun pre o => Bounded limit (pre ++ [o])) tr
  /-- an item settles once, after its start -/
  settles : Along (fun pre o => ∀ i r, o = .settled i r →
    .started i ∈ pre ∧ ∀ r', .settled i r' ∉ pre) tr
  length : slots.length = n
  started : ∀ i x, slots[i]? = some x → (.started i ∉ tr ↔ x = .idle)
  outcome : ∀ i x, slots[i]? = some x → ∀ r, x.outcome? = some r ↔ .settled i r ∈ tr

/-! ## The invariant -/

def Status.isRunning : Status R → Bool
  | running => true
  | _ => false

structure Inv (n limit : ℕ) (tr : List (Obs R)) (s : State R) : Prop where
  length : s.slots.length = n
  next_le : s.next ≤ n
  order : starts tr = List.range s.next
  held_le : s.held ≤ limit
  idle : ∀ i x, s.slots[i]? = some x → (x = .idle ↔ s.next ≤ i)
  outcome : ∀ i x, s.slots[i]? = some x → ∀ r, x.outcome? = some r ↔ .settled i r ∈ tr
  running : tr.countP Obs.isStarted =
    tr.countP Obs.isSettled + s.slots.countP Status.isRunning
  bounded : Along (fun pre o => Bounded limit (pre ++ [o])) tr
  settles : Along (fun pre o => ∀ i r, o = .settled i r →
    .started i ∈ pre ∧ ∀ r', .settled i r' ∉ pre) tr

section Inv

variable {n limit : ℕ} {tr out : List (Obs R)} {s s' : State R}

theorem mem_starts {i : ℕ} : i ∈ starts tr ↔ .started i ∈ tr := by
  rw [starts, List.mem_filterMap]
  constructor
  · rintro ⟨o, ho, hi⟩
    cases o with
    | started j =>
      cases hi
      exact ho
    | settled j r => cases hi
  · intro hi
    exact ⟨_, hi, rfl⟩

theorem Inv.started_iff (h : Inv n limit tr s) {i : ℕ} : .started i ∈ tr ↔ i < s.next := by
  rw [← mem_starts, h.order, List.mem_range]

theorem held_of_running (l : List (Status R)) :
    l.countP Status.isRunning ≤ l.countP Status.held := by
  refine List.countP_mono_left fun x _ hx => ?_
  cases x <;> simp_all [Status.isRunning, Status.held]

theorem bounded_of_held (hrunning : tr.countP Obs.isStarted =
    tr.countP Obs.isSettled + s.slots.countP Status.isRunning)
    (hheld : s.held ≤ limit) : Bounded limit tr := by
  have hle := held_of_running s.slots
  rw [Bounded, hrunning]
  -- what runs is held
  rw [State.held] at hheld
  omega

/-- No item settles before it is started. -/
theorem Inv.not_settled (h : Inv n limit tr s) {i : ℕ} {x : Status R} (hx : s.slots[i]? = some x)
    (hnone : x.outcome? = none) (r : R) : .settled i r ∉ tr := by
  rw [← h.outcome i x hx r, hnone]
  simp

theorem Inv.start (h : Inv n limit tr s) (hlt : s.next < s.slots.length) (hheld : s.held < limit) :
    Inv n limit (tr ++ [.started s.next]) ⟨s.next + 1, s.slots.set s.next .running⟩ := by
  -- the item that is started is idle
  have hget := List.getElem?_eq_getElem hlt
  have hidle : s.slots[s.next]? = some .idle := by
    rw [hget, (h.idle s.next _ hget).mpr (Nat.le_refl _)]
  have hcount := countP_set_add (a := .running) Status.held hidle
  have hrunning := countP_set_add (a := .running) Status.isRunning hidle
  simp only [Status.held, Status.isRunning, if_true, Bool.false_eq_true, if_false,
    Nat.add_zero] at hcount hrunning
  have hheld' : State.held ⟨s.next + 1, s.slots.set s.next .running⟩ ≤ limit := by
    rw [State.held] at hheld
    exact hcount.trans_le (Nat.succ_le_of_lt hheld)
  -- one more item runs, and one more was started
  have hrunning' : (tr ++ [Obs.started s.next]).countP Obs.isStarted =
      (tr ++ [Obs.started s.next]).countP Obs.isSettled +
        (s.slots.set s.next .running).countP Status.isRunning := by
    simp only [List.countP_append, List.countP_singleton, Obs.isStarted, Obs.isSettled]
    have hbefore := h.running
    simp only [Bool.not_true, if_true, Bool.false_eq_true, if_false]
    omega
  refine ⟨?_, ?_, ?_, hheld', ?_, ?_, hrunning', ?_, ?_⟩
  · simpa using h.length
  · rw [← h.length]
    exact hlt
  · rw [starts, List.filterMap_append, ← starts, h.order, List.range_succ]
    rfl
  · intro i x hx
    rcases getElem?_set_cases hx with ⟨rfl, rfl⟩ | ⟨hi, hx⟩
    · simp
    · rw [h.idle i x hx]
      dsimp only
      omega
  · intro i x hx r
    have hmem : .settled i r ∈ tr ++ [Obs.started s.next] ↔ .settled i r ∈ tr := by simp
    rw [hmem]
    rcases getElem?_set_cases hx with ⟨rfl, rfl⟩ | ⟨hi, hx⟩
    · exact h.outcome _ _ hidle r
    · exact h.outcome i x hx r
  · exact along_concat.mpr ⟨h.bounded, bounded_of_held hrunning' hheld'⟩
  · refine along_concat.mpr ⟨h.settles, ?_⟩
    rintro i r ⟨⟩

theorem Inv.settle (h : Inv n limit tr s) {i : ℕ} {r : R} (hi : s.slots[i]? = some .running) :
    Inv n limit (tr ++ [.settled i r]) ⟨s.next, s.slots.set i (.settled r)⟩ := by
  have hcount := countP_set_add (a := .settled r) Status.held hi
  have hrunning := countP_set_add (a := .settled r) Status.isRunning hi
  simp only [Status.held, Status.isRunning, if_true, Bool.false_eq_true, if_false,
    Nat.add_zero] at hcount hrunning
  have hheld' : State.held ⟨s.next, s.slots.set i (.settled r)⟩ ≤ limit := by
    have hle := h.held_le
    rw [State.held] at hle
    exact (Nat.succ.inj hcount).trans_le hle
  have hrunning' : (tr ++ [Obs.settled i r]).countP Obs.isStarted =
      (tr ++ [Obs.settled i r]).countP Obs.isSettled +
        (s.slots.set i (.settled r)).countP Status.isRunning := by
    simp only [List.countP_append, List.countP_singleton, Obs.isStarted, Obs.isSettled]
    have hbefore := h.running
    simp only [Bool.not_false, if_true, Bool.false_eq_true, if_false]
    omega
  -- a running item is none of those that were not started
  have hstarted : .started i ∈ tr := by
    have hidle := h.idle i _ hi
    simp only [reduceCtorEq, false_iff, Nat.not_le] at hidle
    exact h.started_iff.mpr hidle
  refine ⟨?_, h.next_le, ?_, hheld', ?_, ?_, hrunning', ?_, ?_⟩
  · simpa using h.length
  · rw [starts, List.filterMap_append, ← starts, h.order]
    simp [Obs.started?]
  · intro j x hx
    rcases getElem?_set_cases hx with ⟨rfl, rfl⟩ | ⟨hj, hx⟩
    · rw [← h.idle j _ hi]
      simp
    · exact h.idle j x hx
  · intro j x hx r'
    rw [List.mem_append, List.mem_singleton]
    rcases getElem?_set_cases hx with ⟨rfl, rfl⟩ | ⟨hj, hx⟩
    · -- the item settles for the first time
      rw [or_iff_right (h.not_settled hi rfl r')]
      simp [Status.outcome?, eq_comm]
    · rw [h.outcome j x hx r', or_iff_left]
      rintro ⟨⟩
      exact hj rfl
  · exact along_concat.mpr ⟨h.bounded, bounded_of_held hrunning' hheld'⟩
  · refine along_concat.mpr ⟨h.settles, ?_⟩
    rintro j r' ⟨⟩
    exact ⟨hstarted, h.not_settled hi rfl⟩

theorem Inv.store (h : Inv n limit tr s) {i : ℕ} {r : R} (hi : s.slots[i]? = some (.settled r)) :
    Inv n limit tr ⟨s.next, s.slots.set i (.stored r)⟩ := by
  have hcount := countP_set_add (a := .stored r) Status.held hi
  have hrunning := countP_set_add (a := .stored r) Status.isRunning hi
  simp only [Status.held, Status.isRunning, if_true, Bool.false_eq_true, if_false,
    Nat.add_zero] at hcount hrunning
  refine ⟨?_, h.next_le, h.order, ?_, ?_, ?_, ?_, h.bounded, h.settles⟩
  · simpa using h.length
  · have hle := h.held_le
    rw [State.held] at hle
    exact Nat.le_trans (Nat.le.intro hcount) hle
  · intro j x hx
    rcases getElem?_set_cases hx with ⟨rfl, rfl⟩ | ⟨hj, hx⟩
    · rw [← h.idle j _ hi]
      simp
    · exact h.idle j x hx
  · intro j x hx r'
    rcases getElem?_set_cases hx with ⟨rfl, rfl⟩ | ⟨hj, hx⟩
    · exact h.outcome j _ hi r'
    · exact h.outcome j x hx r'
  · -- a settled item does not run
    rw [h.running, hrunning]

theorem inv_run {fs : List (Event R)} (hrun : (machine R n limit).Run fs tr s) :
    Inv n limit tr s := by
  refine hrun.history_invariant (fun _ tr s => Inv n limit tr s) ?_ ?_
  · -- at the start all items are idle
    have hidle : ∀ (i : ℕ) (x : Status R), (List.replicate n .idle)[i]? = some x →
        x = .idle := by
      intro i x hx
      exact List.eq_of_mem_replicate (List.mem_of_getElem? hx)
    refine ⟨List.length_replicate, Nat.zero_le _, rfl, ?_, ?_, ?_, ?_, along_nil _, along_nil _⟩
    · simp [State.held, machine, List.countP_replicate, Status.held]
    · intro i x hx
      simp [hidle i x hx, machine]
    · intro i x hx r
      simp [hidle i x hx, Status.outcome?]
    · simp [machine, List.countP_replicate, Status.isRunning]
  · intro fs tr s e s' out _ h hs
    cases step_cases hs with
    | start hlt hheld => exact h.start hlt hheld
    | settle hi => exact h.settle hi
    | store hi =>
      rw [List.append_nil]
      exact h.store hi

/-- What holds of every run. -/
theorem contract_run {fs : List (Event R)} (hrun : (machine R n limit).Run fs tr s) :
    Contract n limit tr s.slots := by
  have h := inv_run hrun
  refine ⟨⟨s.next, h.next_le, h.order⟩, h.bounded, h.settles, h.length, ?_, h.outcome⟩
  intro i x hx
  rw [h.started_iff, h.idle i x hx, Nat.not_lt]

end Inv

/-! ## The results -/

section Results

variable {D O : Type*}

/-- One result for each item, made of the item and its outcome. -/
structure Results (tr : List (Obs R)) (docs : List D) (result : D → R → O) (l : List O) :
    Prop where
  length : l.length = docs.length
  get : ∀ (i : ℕ) doc, docs[i]? = some doc →
    ∃ r, .settled i r ∈ tr ∧ l[i]? = some (result doc r)

/-- Where each outcome depends on the item alone, so do the results. -/
theorem Results.eq_map {tr : List (Obs R)} {docs : List D} {result : D → R → O} {l : List O}
    (h : Results tr docs result l) (f : D → R)
    (hf : ∀ (i : ℕ) r doc, .settled i r ∈ tr → docs[i]? = some doc → r = f doc) :
    l = docs.map fun doc => result doc (f doc) := by
  apply List.ext_getElem?
  intro i
  rw [List.getElem?_map]
  cases hdoc : docs[i]? with
  | none =>
    rw [List.getElem?_eq_none_iff, ← h.length] at hdoc
    simpa using hdoc
  | some doc =>
    rcases h.get i doc hdoc with ⟨r, hr, hget⟩
    rw [hget, hf i r doc hr hdoc]
    rfl

end Results

end BoundedBatch

end InterviewPrep
