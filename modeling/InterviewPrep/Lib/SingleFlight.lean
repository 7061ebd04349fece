import Mathlib.Data.List.Nodup
import Mathlib.Logic.Function.Basic
import InterviewPrep.Lib.Machine
import InterviewPrep.Lib.Slots

/-!
# Work shared while it is in flight

Callers ask for keys. A caller whose key is registered joins the flight that is
registered; otherwise it opens a flight and registers it. The work of a flight
starts once and ends with a result; after that the flight leaves, and its key is
free again. A caller is answered with the result of its flight, or gives up.

* `SingleFlight.machine`: all orders of these steps, for any keys and results;
* `Contract`: what holds of every run (`contract_run`): the work of a key is never
  done twice at a time, a caller gets the result of work on its own key that had
  not left when it asked, and a key is registered as long as its flight has not
  left;
* `Step.eq`: the steps of the machine, for the programs that refine it.
-/

namespace InterviewPrep

namespace SingleFlight

/-! ## The machine -/

inductive Status (R : Type*) where
  | opened
  | running
  | ended (r : R)
  | left (r : R)
deriving DecidableEq

structure Flight (K R : Type*) where
  key : K
  status : Status R
deriving DecidableEq

inductive Caller where
  | idle
  | waiting (flight : ℕ)
  | finished
deriving DecidableEq

/-- The flights opened so far, the flight registered under each key, and the
callers. -/
@[ext]
structure Desk (K R : Type*) where
  registered : K → Option ℕ
  flights : List (Flight K R)
  callers : ℕ → Caller

inductive Event (K R : Type*) where
  | ask (c : ℕ) (k : K)
  | start (f : ℕ)
  | finish (f : ℕ) (r : R)
  | leave (f : ℕ)
  | answer (c : ℕ)
  | giveUp (c : ℕ)

/-- What is seen: a caller asks and is put on a flight, the work of a flight starts
and ends, the flight leaves, a caller is answered or gives up. -/
inductive Obs (K R : Type*) where
  | asked (c : ℕ) (k : K) (f : ℕ)
  | started (f : ℕ) (k : K)
  | ended (f : ℕ) (k : K) (r : R)
  | left (f : ℕ) (k : K)
  | answered (c : ℕ) (k : K) (r : R)
  | gaveUp (c : ℕ)
deriving DecidableEq

variable {K R : Type*}

/-- Overwrite a flight. -/
def Desk.setFlight (s : Desk K R) (f : ℕ) (k : K) (status : Status R) : Desk K R :=
  { s with flights := s.flights.set f ⟨k, status⟩ }

def Desk.setCaller (s : Desk K R) (c : ℕ) (x : Caller) : Desk K R :=
  { s with callers := Function.update s.callers c x }

/-- Open a flight for a key and register it. -/
def Desk.openFlight [DecidableEq K] (s : Desk K R) (k : K) : Desk K R :=
  { s with
    registered := Function.update s.registered k (some s.flights.length)
    flights := s.flights ++ [⟨k, .opened⟩] }

/-- Free a key, if the flight is the one registered under it. -/
def Desk.unregister [DecidableEq K] (s : Desk K R) (k : K) (f : ℕ) : Desk K R :=
  { s with
    registered :=
      if s.registered k = some f then Function.update s.registered k none else s.registered }

/-- The result of a flight whose work is over. -/
def Status.result? : Status R → Option R
  | opened => none
  | running => none
  | ended r => some r
  | left r => some r

def step [DecidableEq K] (s : Desk K R) : Event K R → Option (Desk K R × List (Obs K R))
  | .ask c k =>
    match s.callers c with
    | .idle =>
      match s.registered k with
      -- join the flight that is registered
      | some f => some (s.setCaller c (.waiting f), [.asked c k f])
      -- or open one
      | none =>
        some ((s.openFlight k).setCaller c (.waiting s.flights.length),
          [.asked c k s.flights.length])
    | _ => none
  | .start f =>
    match s.flights[f]? with
    | some ⟨k, .opened⟩ => some (s.setFlight f k .running, [.started f k])
    | _ => none
  | .finish f r =>
    match s.flights[f]? with
    | some ⟨k, .running⟩ => some (s.setFlight f k (.ended r), [.ended f k r])
    | _ => none
  | .leave f =>
    match s.flights[f]? with
    | some ⟨k, .ended r⟩ =>
      some (Desk.setFlight (s.unregister k f) f k (.left r), [.left f k])
    | _ => none
  | .answer c =>
    match s.callers c with
    | .waiting f =>
      match s.flights[f]? with
      | some ⟨k, status⟩ =>
        match status.result? with
        | some r => some (s.setCaller c .finished, [.answered c k r])
        | none => none
      | none => none
    | _ => none
  | .giveUp c =>
    match s.callers c with
    | .waiting _ => some (s.setCaller c .finished, [.gaveUp c])
    | _ => none

def machine (K R : Type*) [DecidableEq K] : Machine (Desk K R) (Event K R) (Obs K R) where
  init := ⟨fun _ => none, [], fun _ => .idle⟩
  step := step

/-! ## What a step does -/

/-- The changes of one step. -/
inductive Step [DecidableEq K] (s : Desk K R) : Event K R → Desk K R → List (Obs K R) → Prop where
  | join {c : ℕ} {k : K} {f : ℕ} : s.callers c = .idle → s.registered k = some f →
      Step s (.ask c k) (s.setCaller c (.waiting f)) [.asked c k f]
  | openNew {c : ℕ} {k : K} : s.callers c = .idle → s.registered k = none →
      Step s (.ask c k) ((s.openFlight k).setCaller c (.waiting s.flights.length))
        [.asked c k s.flights.length]
  | start {f : ℕ} {k : K} : s.flights[f]? = some ⟨k, .opened⟩ →
      Step s (.start f) (s.setFlight f k .running) [.started f k]
  | finish {f : ℕ} {k : K} (r : R) : s.flights[f]? = some ⟨k, .running⟩ →
      Step s (.finish f r) (s.setFlight f k (.ended r)) [.ended f k r]
  | leave {f : ℕ} {k : K} {r : R} : s.flights[f]? = some ⟨k, .ended r⟩ →
      Step s (.leave f) (Desk.setFlight (s.unregister k f) f k (.left r)) [.left f k]
  | answer {c f : ℕ} {k : K} {status : Status R} {r : R} : s.callers c = .waiting f →
      s.flights[f]? = some ⟨k, status⟩ → status.result? = some r →
      Step s (.answer c) (s.setCaller c .finished) [.answered c k r]
  | giveUp {c f : ℕ} : s.callers c = .waiting f →
      Step s (.giveUp c) (s.setCaller c .finished) [.gaveUp c]

theorem step_cases [DecidableEq K] {s s' : Desk K R} {e : Event K R} {out : List (Obs K R)}
    (h : step s e = some (s', out)) : Step s e s' out := by
  cases e with
  | ask c k =>
    simp only [step] at h
    split at h
    · rename_i hidle
      split at h
      · rename_i hreg
        cases h
        exact .join hidle hreg
      · rename_i hreg
        cases h
        exact .openNew hidle hreg
    · cases h
  | start f =>
    simp only [step] at h
    split at h
    · rename_i hf
      cases h
      exact .start hf
    · cases h
  | finish f r =>
    simp only [step] at h
    split at h
    · rename_i hf
      cases h
      exact .finish r hf
    · cases h
  | leave f =>
    simp only [step] at h
    split at h
    · rename_i hf
      cases h
      exact .leave hf
    · cases h
  | answer c =>
    simp only [step] at h
    split at h
    · rename_i hwaiting
      split at h
      · rename_i hf
        split at h
        · rename_i hr
          cases h
          exact .answer hwaiting hf hr
        · cases h
      · cases h
    · cases h
  | giveUp c =>
    simp only [step] at h
    split at h
    · rename_i hwaiting
      cases h
      exact .giveUp hwaiting
    · cases h

/-- Every such change is a step. -/
theorem Step.eq [DecidableEq K] {s s' : Desk K R} {e : Event K R} {out : List (Obs K R)}
    (h : Step s e s' out) : (machine K R).step s e = some (s', out) := by
  show step s e = some (s', out)
  cases h with
  | join hidle hreg => simp only [step, hidle, hreg]
  | openNew hidle hreg => simp only [step, hidle, hreg]
  | start hf => simp only [step, hf]
  | finish r hf => simp only [step, hf]
  | leave hf => simp only [step, hf]
  | answer hwaiting hf hr => simp only [step, hwaiting, hf, hr]
  | giveUp hwaiting => simp only [step, hwaiting]

/-! ## The contract -/

/-- The work of the flight is under way. -/
def Working (tr : List (Obs K R)) (f : ℕ) (k : K) : Prop :=
  .started f k ∈ tr ∧ ∀ r, .ended f k r ∉ tr

/-- The flights whose work has started, with their keys. -/
def starts (tr : List (Obs K R)) : List (ℕ × K) :=
  tr.filterMap fun
    | .started f k => some (f, k)
    | _ => none

/-- What holds of every run. -/
structure Contract (tr : List (Obs K R)) (registered : K → Option ℕ) : Prop where
  /-- the work on a key is never under way twice -/
  single : ∀ k f g, Working tr f k → Working tr g k → f = g
  /-- the work of a flight starts once -/
  once : (starts tr).Nodup
  /-- a caller gets what the work on its own key gave, from the flight it was put on -/
  own : ∀ c k r, .answered c k r ∈ tr → ∃ f, .asked c k f ∈ tr ∧ .ended f k r ∈ tr
  /-- no caller is put on a flight that has left -/
  fresh : ∀ pre c k f post, tr = pre ++ .asked c k f :: post → .left f k ∉ pre
  /-- a key is registered exactly until its flight leaves -/
  registered_iff : ∀ k f,
    registered k = some f ↔ (∃ c, .asked c k f ∈ tr) ∧ .left f k ∉ tr

/-! ## The invariant -/

/-- The observations about the work of a flight. -/
def Obs.aboutFlight (f : ℕ) : Obs K R → Bool
  | started g _ => g = f
  | ended g _ _ => g = f
  | left g _ => g = f
  | _ => false

/-- The observations about a caller. -/
def Obs.aboutCaller (c : ℕ) : Obs K R → Bool
  | asked d _ _ => d = c
  | answered d _ _ => d = c
  | gaveUp d => d = c
  | _ => false

/-- What has been observed of a flight in a given state. -/
def Flight.log (f : ℕ) (x : Flight K R) : List (Obs K R) :=
  match x.status with
  | .opened => []
  | .running => [.started f x.key]
  | .ended r => [.started f x.key, .ended f x.key r]
  | .left r => [.started f x.key, .ended f x.key r, .left f x.key]

/-- What has been observed of a caller in a given state. -/
def CallerLog (s : Desk K R) (c : ℕ) (log : List (Obs K R)) : Caller → Prop
  | .idle => log = []
  | .waiting f => ∃ k status, s.flights[f]? = some ⟨k, status⟩ ∧ log = [.asked c k f]
  | .finished => ∃ k f status o, s.flights[f]? = some ⟨k, status⟩ ∧ log = [.asked c k f, o] ∧
      (o = .gaveUp c ∨ ∃ r, status.result? = some r ∧ o = .answered c k r)

structure Inv (tr : List (Obs K R)) (s : Desk K R) : Prop where
  flights : ∀ f, tr.filter (Obs.aboutFlight f) = ((s.flights[f]?).map (Flight.log f)).getD []
  callers : ∀ c, CallerLog s c (tr.filter (Obs.aboutCaller c)) (s.callers c)
  registered : ∀ k f, s.registered k = some f ↔
    ∃ status, s.flights[f]? = some ⟨k, status⟩ ∧ ∀ r, status ≠ .left r
  opened : ∀ f k status, s.flights[f]? = some ⟨k, status⟩ → ∃ c, .asked c k f ∈ tr
  started_once : (starts tr).Nodup

section Log

variable {tr out : List (Obs K R)} {s s' : Desk K R} {f c : ℕ} {k : K} {r : R}

theorem starts_append (tr out : List (Obs K R)) : starts (tr ++ out) = starts tr ++ starts out :=
  List.filterMap_append

theorem mem_starts {tr : List (Obs K R)} {f : ℕ} {k : K} :
    (f, k) ∈ starts tr ↔ .started f k ∈ tr := by
  rw [starts, List.mem_filterMap]
  constructor
  · rintro ⟨o, ho, heq⟩
    cases o with
    | started g j =>
      simp only [Option.some.injEq, Prod.mk.injEq] at heq
      rcases heq with ⟨rfl, rfl⟩
      exact ho
    | _ => cases heq
  · intro h
    exact ⟨_, h, rfl⟩

/-- Reading the history of a flight. -/
theorem mem_flight_log {o : Obs K R} (hf : o.aboutFlight f = true) :
    o ∈ tr ↔ o ∈ tr.filter (Obs.aboutFlight f) := by
  rw [List.mem_filter]
  exact (and_iff_left hf).symm

/-- Where a flight stands, if its work has started. -/
theorem Inv.started_iff (h : Inv tr s) : .started f k ∈ tr ↔
    ∃ status, s.flights[f]? = some ⟨k, status⟩ ∧ status ≠ .opened := by
  rw [mem_flight_log (f := f) (by simp [Obs.aboutFlight]), h.flights f]
  cases hf : s.flights[f]? with
  | none => simp
  | some x =>
    rcases x with ⟨j, status⟩
    cases status <;> simp [Flight.log, eq_comm]

theorem Inv.ended_iff (h : Inv tr s) : .ended f k r ∈ tr ↔
    ∃ status, s.flights[f]? = some ⟨k, status⟩ ∧ status.result? = some r := by
  rw [mem_flight_log (f := f) (by simp [Obs.aboutFlight]), h.flights f]
  cases hf : s.flights[f]? with
  | none => simp
  | some x =>
    rcases x with ⟨j, status⟩
    cases status <;> simp [Flight.log, Status.result?, eq_comm]

theorem Inv.left_iff (h : Inv tr s) : .left f k ∈ tr ↔
    ∃ r, s.flights[f]? = some ⟨k, .left r⟩ := by
  rw [mem_flight_log (f := f) (by simp [Obs.aboutFlight]), h.flights f]
  cases hf : s.flights[f]? with
  | none => simp
  | some x =>
    rcases x with ⟨j, status⟩
    cases status <;> simp [Flight.log, eq_comm]

/-- Reading the history of a caller. -/
theorem Inv.callerCases (h : Inv tr s) (hask : .asked c k f ∈ tr) :
    ∃ status, s.flights[f]? = some ⟨k, status⟩ ∧
      (s.callers c = .waiting f ∨ .gaveUp c ∈ tr ∨ ∃ r, .answered c k r ∈ tr) := by
  have hmem : .asked c k f ∈ tr.filter (Obs.aboutCaller c) :=
    List.mem_filter.mpr ⟨hask, by simp [Obs.aboutCaller]⟩
  have hlog := h.callers c
  cases hc : s.callers c with
  | idle =>
    rw [hc, CallerLog] at hlog
    rw [hlog] at hmem
    cases hmem
  | waiting g =>
    rw [hc, CallerLog] at hlog
    rcases hlog with ⟨j, status, hg, hlog⟩
    rw [hlog, List.mem_singleton] at hmem
    cases hmem
    exact ⟨status, hg, Or.inl rfl⟩
  -- what a finished caller was told comes after the question
  | finished =>
    rw [hc, CallerLog] at hlog
    rcases hlog with ⟨j, g, status, o, hg, hlog, ho⟩
    have hlast : o ∈ tr := by
      have hin : o ∈ tr.filter (Obs.aboutCaller c) := by
        rw [hlog]
        exact List.mem_cons_of_mem _ List.mem_cons_self
      exact List.mem_of_mem_filter hin
    have hne : o ≠ .asked c k f := by rcases ho with rfl | ⟨r, -, rfl⟩ <;> simp
    rw [hlog, List.mem_cons, List.mem_singleton] at hmem
    cases hmem.resolve_right hne.symm
    refine ⟨status, hg, Or.inr ?_⟩
    rcases ho with rfl | ⟨r, -, rfl⟩
    · exact Or.inl hlast
    · exact Or.inr ⟨r, hlast⟩

theorem Inv.asked (h : Inv tr s) (hask : .asked c k f ∈ tr) :
    ∃ status, s.flights[f]? = some ⟨k, status⟩ :=
  (h.callerCases hask).imp fun _ hf => hf.1

/-- A caller that has neither given up nor been answered waits for its flight. -/
theorem Inv.waiting (h : Inv tr s) (hask : .asked c k f ∈ tr) (hgaveUp : .gaveUp c ∉ tr)
    (hanswer : ∀ r, .answered c k r ∉ tr) : s.callers c = .waiting f := by
  rcases h.callerCases hask with ⟨-, -, hwaiting | hmem | ⟨r, hmem⟩⟩
  · exact hwaiting
  · exact absurd hmem hgaveUp
  · exact absurd hmem (hanswer r)

theorem Inv.answered (h : Inv tr s) (hanswer : .answered c k r ∈ tr) :
    ∃ f, .asked c k f ∈ tr ∧ .ended f k r ∈ tr := by
  have hmem : .answered c k r ∈ tr.filter (Obs.aboutCaller c) :=
    List.mem_filter.mpr ⟨hanswer, by simp [Obs.aboutCaller]⟩
  have hlog := h.callers c
  cases hc : s.callers c with
  | idle =>
    rw [hc, CallerLog] at hlog
    rw [hlog] at hmem
    cases hmem
  | waiting g =>
    rw [hc, CallerLog] at hlog
    rcases hlog with ⟨j, status, hg, hlog⟩
    rw [hlog, List.mem_singleton] at hmem
    cases hmem
  | finished =>
    rw [hc, CallerLog] at hlog
    rcases hlog with ⟨j, g, status, o, hg, hlog, ho⟩
    have hasked : .asked c j g ∈ tr := List.mem_of_mem_filter (hlog ▸ List.mem_cons_self)
    rw [hlog, List.mem_cons, List.mem_singleton] at hmem
    rcases hmem with hmem | rfl
    · cases hmem
    · rcases ho with ho | ⟨r', hr', ho⟩
      · cases ho
      · cases ho
        exact ⟨g, hasked, h.ended_iff.mpr ⟨status, hg, hr'⟩⟩

end Log

/-! ## Every step keeps the invariant -/

section Steps

variable {tr out : List (Obs K R)} {s s' : Desk K R} {f c : ℕ} {k : K} {r : R} {o : Obs K R}

/-- Flights keep their keys and their results. -/
def Extends (s s' : Desk K R) : Prop :=
  ∀ (f : ℕ) k (status : Status R), s.flights[f]? = some ⟨k, status⟩ →
    ∃ status' : Status R, s'.flights[f]? = some ⟨k, status'⟩ ∧
      ∀ r, status.result? = some r → status'.result? = some r

theorem extends_of_flights (h : s'.flights = s.flights) : Extends s s' := by
  intro f k status hf
  rw [h]
  exact ⟨status, hf, fun _ hr => hr⟩

theorem extends_setFlight {status status' : Status R} (hf : s.flights[f]? = some ⟨k, status⟩)
    (hr : ∀ r, status.result? = some r → status'.result? = some r) :
    Extends s (s.setFlight f k status') := by
  intro g j st hg
  by_cases hgf : g = f
  · subst hgf
    rw [hf] at hg
    cases hg
    exact ⟨status', getElem?_set_of_some hf, hr⟩
  · refine ⟨st, ?_, fun _ hr => hr⟩
    show (s.flights.set f ⟨k, status'⟩)[g]? = _
    rw [List.getElem?_set_ne (Ne.symm hgf), hg]

theorem CallerLog.extend {log : List (Obs K R)} {x : Caller} (h : CallerLog s c log x)
    (hext : Extends s s') : CallerLog s' c log x := by
  cases x with
  | idle => exact h
  | waiting f =>
    rcases h with ⟨k, status, hf, hlog⟩
    rcases hext f k status hf with ⟨status', hf', -⟩
    exact ⟨k, status', hf', hlog⟩
  | finished =>
    rcases h with ⟨k, f, status, o, hf, hlog, ho⟩
    rcases hext f k status hf with ⟨status', hf', hr⟩
    exact ⟨k, f, status', o, hf', hlog,
      ho.imp_right fun ⟨r, hres, heq⟩ => ⟨r, hr r hres, heq⟩⟩

theorem filter_concat_of_false {p : Obs K R → Bool} (h : p o = false) :
    (tr ++ [o]).filter p = tr.filter p := by
  rw [List.filter_append, List.filter_singleton, h]
  exact List.append_nil _

theorem filter_concat_of_true {p : Obs K R → Bool} (h : p o = true) :
    (tr ++ [o]).filter p = tr.filter p ++ [o] := by
  rw [List.filter_append, List.filter_singleton, h]
  rfl

/-- A step of a flight. -/
theorem Inv.flightStep (h : Inv tr s) {status status' : Status R}
    (hf : s.flights[f]? = some ⟨k, status⟩) (hg : ∀ g, o.aboutFlight g = decide (f = g))
    (hc : ∀ c, o.aboutCaller c = false)
    (hlog : Flight.log f ⟨k, status'⟩ = Flight.log f ⟨k, status⟩ ++ [o])
    (hr : ∀ r, status.result? = some r → status'.result? = some r)
    (hstarts : (starts (tr ++ [o])).Nodup) {registered : K → Option ℕ}
    (hreg : ∀ j g, registered j = some g ↔
      ∃ st, (s.flights.set f ⟨k, status'⟩)[g]? = some ⟨j, st⟩ ∧ ∀ r, st ≠ .left r) :
    Inv (tr ++ [o]) (Desk.setFlight { s with registered := registered } f k status') := by
  refine ⟨?_, ?_, hreg, ?_, hstarts⟩
  · intro g
    by_cases hgf : f = g
    · subst hgf
      rw [filter_concat_of_true (by simp [hg]), h.flights, hf]
      show _ = (((s.flights.set f ⟨k, status'⟩)[f]?).map (Flight.log f)).getD []
      rw [getElem?_set_of_some hf]
      exact hlog.symm
    · rw [filter_concat_of_false (by simp [hg, hgf]), h.flights]
      show _ = (((s.flights.set f ⟨k, status'⟩)[g]?).map (Flight.log g)).getD []
      rw [List.getElem?_set_ne hgf]
  · intro c
    rw [filter_concat_of_false (hc c)]
    exact (h.callers c).extend (extends_setFlight (s := s) hf hr)
  · intro g j st hgj
    have hold : ∃ st, s.flights[g]? = some ⟨j, st⟩ := by
      rcases getElem?_set_cases hgj with ⟨rfl, heq⟩ | ⟨-, hgj⟩
      · cases heq
        exact ⟨status, hf⟩
      · exact ⟨st, hgj⟩
    rcases hold with ⟨st, hgj⟩
    rcases h.opened g j st hgj with ⟨c, hasked⟩
    exact ⟨c, List.mem_append_left _ hasked⟩

/-- A step of a flight that does not leave. -/
theorem Inv.live_set (h : Inv tr s) {status status' : Status R}
    (hf : s.flights[f]? = some ⟨k, status⟩) (hlive : ∀ r, status ≠ .left r)
    (hlive' : ∀ r, status' ≠ .left r) (j : K) (g : ℕ) : s.registered j = some g ↔
      ∃ st, (s.flights.set f ⟨k, status'⟩)[g]? = some ⟨j, st⟩ ∧ ∀ r, st ≠ .left r := by
  rw [h.registered]
  by_cases hgf : g = f
  · subst hgf
    rw [hf, getElem?_set_of_some hf]
    constructor
    · rintro ⟨st, heq, -⟩
      cases heq
      exact ⟨status', rfl, hlive'⟩
    · rintro ⟨st, heq, -⟩
      cases heq
      exact ⟨status, rfl, hlive⟩
  · rw [List.getElem?_set_ne (Ne.symm hgf)]

/-- A step of a caller. -/
theorem Inv.callerStep (h : Inv tr s) {x : Caller} (hf : ∀ f, o.aboutFlight f = false)
    (hc : ∀ d, o.aboutCaller d = decide (c = d))
    (hlog : CallerLog s c (tr.filter (Obs.aboutCaller c) ++ [o]) x)
    (hstarts : starts [o] = []) : Inv (tr ++ [o]) (s.setCaller c x) := by
  refine ⟨?_, ?_, h.registered, ?_, ?_⟩
  · intro g
    rw [filter_concat_of_false (hf g)]
    exact h.flights g
  · intro d
    by_cases hd : c = d
    · subst hd
      rw [filter_concat_of_true (by simp [hc])]
      show CallerLog _ _ _ (Function.update s.callers c x c)
      rw [Function.update_self]
      exact hlog.extend (extends_of_flights rfl)
    · rw [filter_concat_of_false (by simp [hc, hd])]
      show CallerLog _ _ _ (Function.update s.callers c x d)
      rw [Function.update_of_ne (Ne.symm hd)]
      exact (h.callers d).extend (extends_of_flights rfl)
  · intro f k st hfk
    rcases h.opened f k st hfk with ⟨d, hasked⟩
    exact ⟨d, List.mem_append_left _ hasked⟩
  · rw [starts_append, hstarts, List.append_nil]
    exact h.started_once

/-- A flight is opened. -/
theorem Inv.openFlight [DecidableEq K] (h : Inv tr s) (hidle : s.callers c = .idle)
    (hreg : s.registered k = none) : Inv (tr ++ [.asked c k s.flights.length])
      ((s.openFlight k).setCaller c (.waiting s.flights.length)) := by
  have hext : Extends s (s.openFlight k) := fun f j st hf =>
    ⟨st, getElem?_concat_of_some hf, fun _ hr => hr⟩
  have hnew : (s.openFlight k).flights[s.flights.length]? = some ⟨k, .opened⟩ :=
    List.getElem?_concat_length
  have hlog := h.callers c
  rw [hidle, CallerLog] at hlog
  refine ⟨?_, ?_, ?_, ?_, ?_⟩
  · intro g
    rw [filter_concat_of_false rfl, h.flights g]
    rcases Nat.lt_trichotomy g s.flights.length with hlt | rfl | hgt
    · show _ = (((s.flights ++ [⟨k, .opened⟩])[g]?).map (Flight.log g)).getD []
      rw [List.getElem?_append_left hlt]
    · show _ = (((s.openFlight k).flights[s.flights.length]?).map (Flight.log _)).getD []
      rw [hnew, List.getElem?_eq_none le_rfl]
      rfl
    · show _ = (((s.flights ++ [⟨k, .opened⟩])[g]?).map (Flight.log g)).getD []
      have hbeyond : (s.flights ++ [⟨k, .opened⟩] : List (Flight K R)).length ≤ g := by
        rw [List.length_append, List.length_singleton]
        omega
      rw [List.getElem?_eq_none (Nat.le_of_lt hgt), List.getElem?_eq_none hbeyond]
  · intro d
    by_cases hd : c = d
    · subst hd
      rw [filter_concat_of_true (by simp [Obs.aboutCaller]), hlog]
      show CallerLog _ _ _ (Function.update s.callers c _ c)
      rw [Function.update_self]
      exact ⟨k, .opened, hnew, rfl⟩
    · rw [filter_concat_of_false (by simp [Obs.aboutCaller, hd])]
      show CallerLog _ _ _ (Function.update s.callers c _ d)
      rw [Function.update_of_ne (Ne.symm hd)]
      exact (h.callers d).extend hext
  · intro j g
    show Function.update s.registered k _ j = some g ↔ _
    by_cases hj : j = k
    · subst hj
      rw [Function.update_self]
      constructor
      · intro hg
        cases hg
        exact ⟨.opened, hnew, fun _ => by simp⟩
      · -- the new flight is the one registered
        rintro ⟨st, hg, hlive⟩
        rcases getElem?_concat_cases hg with ⟨rfl, -⟩ | hg
        · rfl
        · -- an older flight under this key would be registered
          have hold := (h.registered j g).mpr ⟨st, hg, hlive⟩
          rw [hreg] at hold
          cases hold
    · rw [Function.update_of_ne hj, h.registered]
      constructor
      · rintro ⟨st, hg, hlive⟩
        exact ⟨st, getElem?_concat_of_some hg, hlive⟩
      · rintro ⟨st, hg, hlive⟩
        rcases getElem?_concat_cases hg with ⟨-, heq⟩ | hg
        · cases heq
          exact absurd rfl hj
        · exact ⟨st, hg, hlive⟩
  · intro f j st hf
    rcases getElem?_concat_cases hf with ⟨rfl, heq⟩ | hf
    · cases heq
      exact ⟨c, by simp⟩
    · rcases h.opened f j st hf with ⟨d, hasked⟩
      exact ⟨d, List.mem_append_left _ hasked⟩
  · rw [starts_append]
    simpa [starts] using h.started_once

/-- A flight leaves, and its key is free. -/
theorem Inv.live_leave [DecidableEq K] (h : Inv tr s) (hf : s.flights[f]? = some ⟨k, .ended r⟩)
    (j : K) (g : ℕ) : (s.unregister k f).registered j = some g ↔
      ∃ st, (s.flights.set f ⟨k, .left r⟩)[g]? = some ⟨j, st⟩ ∧ ∀ r, st ≠ .left r := by
  have hreg : s.registered k = some f := (h.registered k f).mpr ⟨_, hf, fun _ => by simp⟩
  have hleft : (s.flights.set f ⟨k, .left r⟩)[f]? = some ⟨k, .left r⟩ := getElem?_set_of_some hf
  rw [Desk.unregister, if_pos hreg]
  show Function.update s.registered k none j = some g ↔ _
  by_cases hj : j = k
  · subst hj
    rw [Function.update_self]
    constructor
    · intro hg
      cases hg
    · rintro ⟨st, hg, hlive⟩
      -- another live flight under the key would have been registered in its place
      exfalso
      by_cases hgf : g = f
      · subst hgf
        rw [hleft] at hg
        cases hg
        exact hlive r rfl
      · rw [List.getElem?_set_ne (Ne.symm hgf)] at hg
        have hg := (h.registered j g).mpr ⟨st, hg, hlive⟩
        rw [hreg] at hg
        exact hgf (Option.some.inj hg).symm
  · rw [Function.update_of_ne hj, h.registered]
    by_cases hgf : g = f
    · subst hgf
      rw [hf, hleft]
      simp [Ne.symm hj]
    · rw [List.getElem?_set_ne (Ne.symm hgf)]

theorem inv_step [DecidableEq K] {e : Event K R} (h : Inv tr s) (hs : step s e = some (s', out)) :
    Inv (tr ++ out) s' := by
  have hsilent : ∀ o : Obs K R, starts [o] = [] → (starts (tr ++ [o])).Nodup := by
    intro o ho
    rw [starts_append, ho, List.append_nil]
    exact h.started_once
  cases step_cases hs with
  | @join c k f hidle hreg =>
    -- the flight that is joined is on the desk
    rcases (h.registered k f).mp hreg with ⟨status, hf, -⟩
    have hlog := h.callers c
    rw [hidle, CallerLog] at hlog
    refine h.callerStep (fun _ => rfl) (fun _ => rfl) ?_ rfl
    rw [hlog]
    exact ⟨k, status, hf, rfl⟩
  | openNew hidle hreg => exact h.openFlight hidle hreg
  | @start f k hf =>
    -- nothing is observed of a flight that is only opened
    have hnew : (f, k) ∉ starts tr := by
      rw [mem_starts, h.started_iff, hf]
      rintro ⟨st, heq, hne⟩
      cases heq
      exact hne rfl
    refine h.flightStep hf (fun _ => rfl) (fun _ => rfl) rfl (fun _ hr => by cases hr) ?_
      (h.live_set hf (fun _ => by simp) (fun _ => by simp))
    rw [starts_append]
    refine List.nodup_append.mpr ⟨h.started_once, List.nodup_singleton _, ?_⟩
    rintro a ha b hb rfl
    cases List.mem_singleton.mp hb
    exact hnew ha
  | finish r hf =>
    exact h.flightStep hf (fun _ => rfl) (fun _ => rfl) rfl (fun _ hr => by cases hr)
      (hsilent _ rfl) (h.live_set hf (fun _ => by simp) (fun _ => by simp))
  | @leave f k r hf =>
    have hlog : Flight.log f ⟨k, .left r⟩ = Flight.log f ⟨k, .ended r⟩ ++ [.left f k] := rfl
    exact h.flightStep hf (fun _ => rfl) (fun _ => rfl) hlog (fun _ hr => hr) (hsilent _ rfl)
      (h.live_leave hf)
  | @answer c f k status r hwaiting hf hr =>
    have hlog := h.callers c
    rw [hwaiting, CallerLog] at hlog
    rcases hlog with ⟨j, st, hf', hlog⟩
    rw [hf] at hf'
    cases hf'
    refine h.callerStep (fun _ => rfl) (fun _ => rfl) ?_ rfl
    rw [hlog]
    exact ⟨k, f, status, _, hf, rfl, Or.inr ⟨r, hr, rfl⟩⟩
  | @giveUp c f hwaiting =>
    have hlog := h.callers c
    rw [hwaiting, CallerLog] at hlog
    rcases hlog with ⟨j, st, hf, hlog⟩
    refine h.callerStep (fun _ => rfl) (fun _ => rfl) ?_ rfl
    rw [hlog]
    exact ⟨j, f, st, _, hf, rfl, Or.inl rfl⟩

end Steps

/-! ## Runs -/

section Runs

variable {es : List (Event K R)} {tr : List (Obs K R)} {s : Desk K R}

theorem inv_run [DecidableEq K] (hrun : (machine K R).Run es tr s) : Inv tr s := by
  refine hrun.history_invariant (fun _ tr s => Inv tr s) ?_ ?_
  · -- at the start nothing is observed, and there are no flights
    refine ⟨fun _ => rfl, fun _ => rfl, fun _ _ => ?_, fun _ _ _ hf => ?_, List.nodup_nil⟩
    · simp [machine]
    · cases hf
  · intro es tr s e s' out _ h hs
    exact inv_step h hs

theorem Inv.working {f : ℕ} {k : K} (h : Inv tr s) (hw : Working tr f k) :
    s.registered k = some f := by
  rcases h.started_iff.mp hw.1 with ⟨status, hf, -⟩
  refine (h.registered k f).mpr ⟨status, hf, ?_⟩
  rintro r rfl
  exact hw.2 r (h.ended_iff.mpr ⟨_, hf, rfl⟩)

/-- A caller is put on a flight that is registered, or on a new one. -/
theorem asked_step [DecidableEq K] {s' : Desk K R} {e : Event K R} {pre post : List (Obs K R)}
    {c f : ℕ} {k : K} (hs : step s e = some (s', pre ++ .asked c k f :: post)) :
    pre = [] ∧ (s.registered k = some f ∨ f = s.flights.length) := by
  have hsingle : ∀ o : Obs K R, pre ++ .asked c k f :: post = [o] →
      pre = [] ∧ o = .asked c k f := by
    intro o heq
    cases pre with
    | nil => exact ⟨rfl, (List.cons.inj heq).1.symm⟩
    | cons x pre => simp at heq
  generalize hout : pre ++ .asked c k f :: post = out at hs hsingle
  cases step_cases hs with
  | join hidle hreg =>
    rcases hsingle _ rfl with ⟨hpre, heq⟩
    cases heq
    exact ⟨hpre, Or.inl hreg⟩
  | openNew hidle hreg =>
    rcases hsingle _ rfl with ⟨hpre, heq⟩
    cases heq
    exact ⟨hpre, Or.inr rfl⟩
  | start => cases (hsingle _ rfl).2
  | finish => cases (hsingle _ rfl).2
  | leave => cases (hsingle _ rfl).2
  | answer => cases (hsingle _ rfl).2
  | giveUp => cases (hsingle _ rfl).2

/-- **Single flight.** -/
theorem contract_run [DecidableEq K] (hrun : (machine K R).Run es tr s) :
    Contract tr s.registered := by
  have h := inv_run hrun
  refine ⟨?_, h.started_once, ?_, ?_, ?_⟩
  · -- both are registered under the key
    intro k f g hf hg
    have heq := (h.working hf).symm.trans (h.working hg)
    exact Option.some.inj heq
  · intro c k r hanswer
    exact h.answered hanswer
  · rintro pre c k f post rfl
    -- the moment at which the caller is put on the flight
    rcases hrun.emitted rfl with ⟨es₀, tr₀, s₀, e, s₁, out, pre', post', hrun₀, hs, rfl, rfl, -⟩
    have h₀ := inv_run hrun₀
    rcases asked_step hs with ⟨rfl, hf⟩
    rw [List.append_nil, h₀.left_iff]
    rintro ⟨r, hleft⟩
    rcases hf with hreg | rfl
    · -- a registered flight has not left
      rcases (h₀.registered k f).mp hreg with ⟨status, hf, hlive⟩
      rw [hleft] at hf
      cases hf
      exact hlive r rfl
    · -- a new one was not there
      rw [List.getElem?_eq_none le_rfl] at hleft
      cases hleft
  · intro k f
    rw [h.registered, h.left_iff]
    constructor
    · rintro ⟨status, hf, hlive⟩
      refine ⟨h.opened f k status hf, ?_⟩
      rintro ⟨r, hleft⟩
      rw [hf] at hleft
      cases hleft
      exact hlive r rfl
    · rintro ⟨⟨c, hasked⟩, hleft⟩
      rcases h.asked hasked with ⟨status, hf⟩
      refine ⟨status, hf, ?_⟩
      rintro r rfl
      exact hleft ⟨r, hf⟩

end Runs

end SingleFlight

end InterviewPrep
