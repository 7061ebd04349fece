import Mathlib.Data.List.Range
import InterviewPrep.Lib.Machine

/-!
# The lock of the TypeScript job manager

The class `Mutex` of `technical/job_manager/answer.ts`. `release` hands the lock
over to the first waiter without clearing `locked`; between that and the moment
when the waiter resumes, other calls of `acquire` may come.

A step is a stretch between two `await`s:

* `acquire`: a call of `acquire`, up to its `await` or its return;
* `resumeAcquire`: `acquire` resumes after its promise was resolved, and returns;
* `resumeCaller`: the caller resumes with its release function;
* `release`: the caller calls its release function.

The calls of `acquire` are numbered in their order, so callers may be many, and
one caller may call again. `mutex_contract` is what the lock promises in every
run; the invariant behind it, `Line`, lists the calls from the first to the last.
-/

namespace InterviewPrep.Jobs

/-! ## The program -/

/-- `Mutex`, where a `resolve` function is the number of its call. -/
structure Mutex where
  locked : Bool
  waiters : List ℕ

namespace Mutex

def new : Mutex := ⟨false, []⟩

/-- `acquire` as call `c`: whether it returns without waiting. -/
def acquire (m : Mutex) (c : ℕ) : Mutex × Bool :=
  if !m.locked then ({ m with locked := true }, true)
  else ({ m with waiters := m.waiters ++ [c] }, false)

/-- `release`, with the call whose promise `next()` resolves. -/
def release (m : Mutex) : Mutex × Option ℕ :=
  match m.waiters with
  | next :: waiters => ({ m with waiters }, some next)
  | [] => ({ m with locked := false }, none)

/-- Where a call of `acquire` stands. -/
inductive Call where
  /-- at the `await` of `acquire` -/
  | suspended
  /-- its promise is resolved -/
  | resolved
  /-- `acquire` has returned a release function -/
  | returned
  /-- the caller goes on -/
  | holding
  /-- the caller has called the release function -/
  | released
deriving DecidableEq

/-- The lock and the calls of `acquire`, the first one first. -/
structure Callers where
  mutex : Mutex
  calls : List Call

inductive Event where
  | acquire
  | resumeAcquire (c : ℕ)
  | resumeCaller (c : ℕ)
  | release (c : ℕ)

inductive Obs where
  | called (c : ℕ)
  | granted (c : ℕ)
  | released (c : ℕ)
deriving DecidableEq

def step (s : Callers) : Event → Option (Callers × List Obs)
  | .acquire =>
    let c := s.calls.length
    match s.mutex.acquire c with
    | (mutex, true) => some (⟨mutex, s.calls ++ [.returned]⟩, [.called c, .granted c])
    | (mutex, false) => some (⟨mutex, s.calls ++ [.suspended]⟩, [.called c])
  | .resumeAcquire c =>
    match s.calls[c]? with
    | some .resolved => some ({ s with calls := s.calls.set c .returned }, [])
    | _ => none
  | .resumeCaller c =>
    match s.calls[c]? with
    | some .returned => some ({ s with calls := s.calls.set c .holding }, [])
    | _ => none
  | .release c =>
    match s.calls[c]? with
    | some .holding =>
      match s.mutex.release with
      | (mutex, none) => some (⟨mutex, s.calls.set c .released⟩, [.released c])
      | (mutex, some next) =>
        some (⟨mutex, (s.calls.set c .released).set next .resolved⟩,
          [.released c, .granted next])
    | _ => none

def machine : Machine Callers Event Obs where
  init := ⟨new, []⟩
  step := step

/-! ## The property -/

/-- The calls of `acquire`, in their order. -/
def arrivals (tr : List Obs) : List ℕ :=
  tr.filterMap fun
    | .called c => some c
    | _ => none

/-- The calls to which the lock was granted, in the order of the grants. -/
def grants (tr : List Obs) : List ℕ :=
  tr.filterMap fun
    | .granted c => some c
    | _ => none

/-- The calls whose release function was called. -/
def releases (tr : List Obs) : List ℕ :=
  tr.filterMap fun
    | .released c => some c
    | _ => none

/-- The lock was granted to a call and not released. -/
def Owns (tr : List Obs) (c : ℕ) : Prop := c ∈ grants tr ∧ c ∉ releases tr

/-- A call came and was not granted the lock. -/
def Waits (tr : List Obs) (c : ℕ) : Prop := c ∈ arrivals tr ∧ c ∉ grants tr

/-- What the lock promises at every moment. -/
structure Contract (tr : List Obs) (s : Callers) : Prop where
  exclusion : ∀ c d, Owns tr c → Owns tr d → c = d
  locked_iff : s.mutex.locked = true ↔ ∃ c, Owns tr c
  /-- no lost wake-up -/
  no_waiter : s.mutex.locked = false → s.mutex.waiters = [] ∧ ∀ c, ¬ Waits tr c
  /-- each call is granted the lock once at most, and the grants follow the calls -/
  in_order : grants tr <+: arrivals tr ∧ (arrivals tr).Nodup

/-! ## The invariant -/

/-- The lock has been granted to the call, and it has not released it. -/
def Call.isOwner : Call → Bool
  | resolved => true
  | returned => true
  | holding => true
  | _ => false

/-- The calls stand in a line: those that have released the lock, its owner, and
those that wait. -/
inductive Line : List Obs → Callers → Prop where
  | free {tr : List Obs} {k : ℕ} (harrivals : arrivals tr = List.range k)
      (hgrants : grants tr = List.range k) (hreleases : releases tr = List.range k) :
      Line tr ⟨⟨false, []⟩, List.replicate k .released⟩
  | owned {tr : List Obs} {k w : ℕ} {owner : Call} (howner : owner.isOwner = true)
      (harrivals : arrivals tr = List.range (k + 1 + w))
      (hgrants : grants tr = List.range (k + 1)) (hreleases : releases tr = List.range k) :
      Line tr ⟨⟨true, List.range' (k + 1) w⟩,
        List.replicate k .released ++ owner :: List.replicate w .suspended⟩

section Reading

variable {k w c : ℕ} {owner x : Call}

theorem set_owner {l : List Call} :
    (List.replicate k Call.released ++ owner :: l).set k x = List.replicate k .released ++ x :: l := by
  rw [List.set_append_right _ _ (by simp)]
  simp

/-- Who owns the lock stands behind those who have released it. -/
theorem eq_of_isOwner (hx : x.isOwner = true)
    (h : (List.replicate k .released ++ owner :: List.replicate w .suspended)[c]? = some x) :
    c = k ∧ x = owner := by
  rcases Nat.lt_trichotomy c k with hlt | heq | hgt
  · rw [List.getElem?_append_left (by simpa using hlt), List.getElem?_replicate,
      if_pos hlt] at h
    cases h
    cases hx
  · subst heq
    rw [List.getElem?_append_right (by simp)] at h
    simpa [eq_comm] using h
  · have hmem : x ∈ List.replicate w Call.suspended := by
      rw [List.getElem?_append_right (by simp; omega), List.length_replicate,
        List.getElem?_cons, if_neg (by omega)] at h
      exact List.mem_of_getElem? h
    cases List.eq_of_mem_replicate hmem
    cases hx

theorem not_isOwner_of_released (h : (List.replicate k Call.released)[c]? = some x) :
    x.isOwner = false := by
  cases List.eq_of_mem_replicate (List.mem_of_getElem? h)
  rfl

end Reading

variable {tr : List Obs} {s s' : Callers} {es : List Event} {e : Event} {out : List Obs}

theorem arrivals_append (tr out : List Obs) : arrivals (tr ++ out) = arrivals tr ++ arrivals out :=
  List.filterMap_append

theorem grants_append (tr out : List Obs) : grants (tr ++ out) = grants tr ++ grants out :=
  List.filterMap_append

theorem releases_append (tr out : List Obs) : releases (tr ++ out) = releases tr ++ releases out :=
  List.filterMap_append

/-- A call of `acquire`. -/
theorem Line.acquire (h : Line tr s) (hs : step s .acquire = some (s', out)) :
    Line (tr ++ out) s' := by
  cases h with
  | @free k harrivals hgrants hreleases =>
    simp only [step, Mutex.acquire, Bool.not_false, if_true, Option.some.injEq, Prod.mk.injEq,
      List.length_replicate] at hs
    rcases hs with ⟨rfl, rfl⟩
    refine @Line.owned _ k 0 .returned rfl ?_ ?_ ?_
    · rw [arrivals_append, harrivals]
      exact List.range_succ.symm
    · rw [grants_append, hgrants]
      exact List.range_succ.symm
    · rw [releases_append, hreleases]
      exact List.append_nil _
  | @owned k w owner howner harrivals hgrants hreleases =>
    have hlength : (List.replicate k Call.released ++ owner :: List.replicate w .suspended).length =
        k + 1 + w := by
      simp only [List.length_append, List.length_replicate, List.length_cons]
      omega
    simp only [step, Mutex.acquire, Bool.not_true, Bool.false_eq_true, if_false,
      Option.some.injEq, Prod.mk.injEq, hlength] at hs
    rcases hs with ⟨rfl, rfl⟩
    -- the call goes to the end of both lines
    have hwaiters : List.range' (k + 1) w ++ [k + 1 + w] = List.range' (k + 1) (w + 1) := by
      rw [List.range'_concat]
      simp
    have hcalls : (List.replicate k Call.released ++ owner :: List.replicate w .suspended) ++
        [.suspended] = List.replicate k .released ++ owner :: List.replicate (w + 1) .suspended := by
      rw [List.replicate_succ', List.append_assoc, List.cons_append]
    rw [hwaiters, hcalls]
    refine Line.owned howner ?_ ?_ ?_
    · rw [arrivals_append, harrivals]
      exact List.range_succ.symm
    · rw [grants_append, hgrants]
      exact List.append_nil _
    · rw [releases_append, hreleases]
      exact List.append_nil _

/-- The owner goes on. -/
theorem Line.resume (h : Line tr s) {c : ℕ} {x y : Call} (hc : s.calls[c]? = some x)
    (hx : x.isOwner = true) (hy : y.isOwner = true) :
    Line tr { s with calls := s.calls.set c y } := by
  cases h with
  | free => exact absurd (not_isOwner_of_released hc) (by simp [hx])
  | owned howner harrivals hgrants hreleases =>
    rcases eq_of_isOwner hx hc with ⟨rfl, rfl⟩
    simp only [set_owner]
    exact Line.owned hy harrivals hgrants hreleases

/-- The owner releases the lock. -/
theorem Line.release (h : Line tr s) {c : ℕ} (hs : step s (.release c) = some (s', out)) :
    Line (tr ++ out) s' := by
  have hc : s.calls[c]? = some .holding := by
    simp only [step] at hs
    split at hs
    · assumption
    · cases hs
  cases h with
  | free => cases not_isOwner_of_released hc
  | @owned k w owner _ harrivals hgrants hreleases =>
    rcases eq_of_isOwner rfl hc with ⟨rfl, rfl⟩
    simp only [step, hc] at hs
    cases w with
    | zero =>
      -- nobody waits: the lock is free
      simp only [Mutex.release, List.range'_zero, Option.some.injEq, Prod.mk.injEq,
        set_owner] at hs
      rcases hs with ⟨rfl, rfl⟩
      have hcalls : List.replicate c Call.released ++ .released :: List.replicate 0 .suspended =
          List.replicate (c + 1) .released := List.replicate_succ'.symm
      rw [hcalls]
      refine Line.free ?_ ?_ ?_
      · rw [arrivals_append, harrivals]
        exact List.append_nil _
      · rw [grants_append, hgrants]
        exact List.append_nil _
      · rw [releases_append, hreleases]
        exact List.range_succ.symm
    | succ w =>
      -- the first waiter is the next owner
      have hcalls : ((List.replicate c Call.released ++ Call.holding ::
          List.replicate (w + 1) Call.suspended).set c .released).set (c + 1) .resolved =
          List.replicate (c + 1) .released ++ .resolved :: List.replicate w .suspended := by
        rw [set_owner, List.replicate_succ, List.append_cons, ← List.replicate_succ', set_owner]
      simp only [Mutex.release, List.range'_succ, Option.some.injEq, Prod.mk.injEq, hcalls] at hs
      rcases hs with ⟨rfl, rfl⟩
      refine Line.owned rfl ?_ ?_ ?_
      · rw [arrivals_append, harrivals, Nat.add_right_comm c 1 1, Nat.add_assoc (c + 1) 1 w,
          Nat.add_comm 1 w]
        exact List.append_nil _
      · rw [grants_append, hgrants]
        exact List.range_succ.symm
      · rw [releases_append, hreleases]
        exact List.range_succ.symm

theorem Line.step (h : Line tr s) (hs : Mutex.step s e = some (s', out)) : Line (tr ++ out) s' := by
  cases e with
  | acquire => exact h.acquire hs
  | resumeAcquire c =>
    simp only [Mutex.step] at hs
    split at hs
    · rename_i hc
      simp only [Option.some.injEq, Prod.mk.injEq] at hs
      rcases hs with ⟨rfl, rfl⟩
      rw [List.append_nil]
      exact h.resume hc rfl rfl
    · cases hs
  | resumeCaller c =>
    simp only [Mutex.step] at hs
    split at hs
    · rename_i hc
      simp only [Option.some.injEq, Prod.mk.injEq] at hs
      rcases hs with ⟨rfl, rfl⟩
      rw [List.append_nil]
      exact h.resume hc rfl rfl
    · cases hs
  | release c => exact h.release hs

theorem line_run (hrun : machine.Run es tr s) : Line tr s := by
  refine hrun.history_invariant (fun _ tr s => Line tr s) ?_ ?_
  · exact Line.free (k := 0) rfl rfl rfl
  · intro es tr s e s' out _ h hs
    exact h.step hs

/-! ## The contract -/

theorem Line.contract (h : Line tr s) : Contract tr s := by
  cases h with
  | @free k harrivals hgrants hreleases =>
    have hnone : ∀ c, ¬ Owns tr c := by
      rintro c ⟨hgranted, hnot⟩
      rw [hgrants] at hgranted
      rw [hreleases] at hnot
      exact hnot hgranted
    refine ⟨fun c d hc => absurd hc (hnone c), ?_, ?_, ?_⟩
    · simp [hnone]
    · refine fun _ => ⟨rfl, ?_⟩
      rintro c ⟨hcame, hnot⟩
      rw [harrivals] at hcame
      rw [hgrants] at hnot
      exact hnot hcame
    · rw [hgrants, harrivals]
      exact ⟨List.prefix_rfl, List.nodup_range⟩
  | @owned k w owner _ harrivals hgrants hreleases =>
    have howns : ∀ c, Owns tr c ↔ c = k := by
      intro c
      rw [Owns, hgrants, hreleases, List.mem_range, List.mem_range]
      omega
    refine ⟨?_, ?_, ?_, ?_⟩
    · intro c d hc hd
      rw [(howns c).mp hc, (howns d).mp hd]
    · exact iff_of_true rfl ⟨k, (howns k).mpr rfl⟩
    · rintro ⟨⟩
    · rw [hgrants, harrivals, List.range_add (n := k + 1) (m := w)]
      refine ⟨List.prefix_append .., ?_⟩
      rw [← List.range_add]
      exact List.nodup_range

/-- **The lock.** However the calls and the resumptions are interleaved, the lock
has one owner at most; it is locked exactly while it has one; nobody waits for a
lock that is free; and it is granted in the order of the calls. -/
theorem mutex_contract (hrun : machine.Run es tr s) : Contract tr s :=
  (line_run hrun).contract

/-- Two calls wait, and a third comes after the lock was handed over to the first
of them, before that one resumes. -/
def handover : List Event :=
  [.acquire, .resumeCaller 0, .acquire, .acquire, .release 0, .acquire, .resumeAcquire 1,
    .resumeCaller 1, .release 1]

theorem mutex_contract_handover :
    ∃ tr s, machine.Run handover tr s ∧ grants tr = [0, 1, 2] ∧ arrivals tr = [0, 1, 2, 3] ∧
      Owns tr 2 ∧ s.mutex.locked = true := by
  have hexec : (machine.exec handover).map (fun r => (grants r.2, arrivals r.2, releases r.2)) =
      some ([0, 1, 2], [0, 1, 2, 3], [0, 1]) := by decide +kernel
  rcases Machine.Run.of_exec_map hexec with ⟨s, tr, hrun, htr⟩
  simp only [Prod.mk.injEq] at htr
  rcases htr with ⟨hgrants, harrivals, hreleases⟩
  have howns : Owns tr 2 := by
    rw [Owns, hgrants, hreleases]
    decide
  exact ⟨tr, s, hrun, hgrants, harrivals, howns, (mutex_contract hrun).locked_iff.mpr ⟨2, howns⟩⟩

end Mutex

end InterviewPrep.Jobs
