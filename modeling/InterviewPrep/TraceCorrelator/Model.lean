import Mathlib.Data.Int.Notation
import InterviewPrep.Lib.Grouping
import InterviewPrep.Lib.ParentWalk

/-!
# Agent trace correlator

The data of `technical/agent_trace_correlator/answer.py` and `answer.ts`, and
what the two correlators are for: to take a list of events apart into traces.
`Partitioned` says so for a list of summaries. Both sources build their
summaries by grouping (`Lib/Grouping.lean`) and look for cycles of parents by
walks (`Lib/ParentWalk.lean`).
-/

namespace InterviewPrep.TraceCorrelator

/-! ## The data -/

/-- An event; `A` is the type of attempt numbers. -/
structure TraceEvent (A : Type) where
  tenant_id : String
  workflow_id : String
  trace_id : String
  span_id : String
  parent_span_id : Option String
  step_id : String
  attempt : A
  type : String
  timestamp_ms : ℤ
deriving DecidableEq

inductive IssueCode where
  | duplicate_span
  | missing_parent
  | parent_cycle
  | invalid_event
deriving DecidableEq

structure TraceIssue where
  code : IssueCode
  span_id : Option String
deriving DecidableEq

structure TraceSummary (A : Type) where
  tenant_id : String
  workflow_id : String
  trace_id : String
  events : List (TraceEvent A)
  issues : List TraceIssue
deriving DecidableEq

variable {A : Type}

/-- What a trace is identified by: tenant, workflow and trace id. -/
def TraceEvent.triple (e : TraceEvent A) : String × String × String :=
  (e.tenant_id, e.workflow_id, e.trace_id)

def TraceSummary.triple (s : TraceSummary A) : String × String × String :=
  (s.tenant_id, s.workflow_id, s.trace_id)

/-- The parent id, where it is truthy: neither absent nor empty. -/
def TraceEvent.parent (e : TraceEvent A) : Option String :=
  e.parent_span_id.filter (fun p => p ≠ "")

/-- The ways in which a correlator does not return. -/
inductive Error where
  | valueError
  | keyError
  | typeError
  | outOfFuel
deriving DecidableEq

/-- The issue under a condition. -/
def issueIf (p : Prop) [Decidable p] (code : IssueCode) (span_id : Option String) :
    List TraceIssue :=
  if p then [⟨code, span_id⟩] else []

@[simp] theorem mem_issueIf {p : Prop} [Decidable p] {code : IssueCode} {span_id : Option String}
    {issue : TraceIssue} : issue ∈ issueIf p code span_id ↔ p ∧ issue = ⟨code, span_id⟩ := by
  by_cases hp : p <;> simp [issueIf, hp]

/-! ## Traces -/

/-- The events of a trace. -/
def trace (t : String × String × String) (events : List (TraceEvent A)) : List (TraceEvent A) :=
  withKey TraceEvent.triple t events

theorem trace_subset {t : String × String × String} {events : List (TraceEvent A)} :
    trace t events ⊆ events := fun _ he => (mem_withKey.mp he).1

/-- The summaries take the events apart: every event is in exactly one summary,
as often as in the list; a summary carries the triple of its events; and
different summaries carry different triples. -/
structure Partitioned (events : List (TraceEvent A)) (summaries : List (TraceSummary A)) :
    Prop where
  perm : (summaries.flatMap TraceSummary.events).Perm events
  carried : ∀ s ∈ summaries, ∀ e ∈ s.events, e.triple = s.triple
  distinct : (summaries.map TraceSummary.triple).Nodup

namespace Partitioned

variable {events : List (TraceEvent A)} {summaries : List (TraceSummary A)}

theorem mem_iff (h : Partitioned events summaries) {e : TraceEvent A} :
    e ∈ events ↔ ∃ s ∈ summaries, e ∈ s.events := by
  rw [← h.perm.mem_iff, List.mem_flatMap]

/-- Two events share a summary exactly if they have the same triple. -/
theorem share_iff (h : Partitioned events summaries) {e f : TraceEvent A} (he : e ∈ events)
    (hf : f ∈ events) :
    (∃ s ∈ summaries, e ∈ s.events ∧ f ∈ s.events) ↔ e.triple = f.triple := by
  constructor
  · rintro ⟨s, hs, hes, hfs⟩
    rw [h.carried s hs e hes, h.carried s hs f hfs]
  · intro htriple
    rcases h.mem_iff.mp he with ⟨s, hs, hes⟩
    rcases h.mem_iff.mp hf with ⟨s', hs', hfs⟩
    have hsame : s.triple = s'.triple := by
      rw [← h.carried s hs e hes, ← h.carried s' hs' f hfs, htriple]
    have hss : s = s' := List.inj_on_of_nodup_map h.distinct hs hs' hsame
    rw [← hss] at hfs
    exact ⟨s, hs, hes, hfs⟩

/-- Summaries made from the groups of a key that is made from the triple. -/
theorem of_groups {γ : Type} {K : String × String × String → String}
    {entries : List (String × γ)} (hnd : (entries.map Prod.fst).Nodup)
    (hcover : ∀ e ∈ events, K e.triple ∈ entries.map Prod.fst)
    (hsum : List.Forall₂ (fun p s =>
      s.events.Perm (withKey (fun e => K e.triple) p.1 events) ∧ K s.triple = p.1)
      entries summaries)
    (hinj : ∀ s ∈ summaries, ∀ e ∈ events, K e.triple = K s.triple → e.triple = s.triple) :
    Partitioned events summaries := by
  have hkeys : summaries.map (fun s => K s.triple) = entries.map Prod.fst := by
    clear hcover hnd hinj
    induction hsum with
    | nil => rfl
    | cons hhead _ ih => rw [List.map_cons, List.map_cons, hhead.2, ih]
  constructor
  · -- the groups of the keys are the events again
    have hgroups : (summaries.flatMap TraceSummary.events).Perm
        ((entries.map Prod.fst).flatMap (fun k => withKey (fun e => K e.triple) k events)) := by
      clear hcover hnd hinj hkeys
      induction hsum with
      | nil => rfl
      | cons hhead _ ih =>
        rw [List.map_cons, List.flatMap_cons, List.flatMap_cons]
        exact hhead.1.append ih
    exact hgroups.trans (flatMap_withKey_perm hnd hcover)
  · -- an event of a summary has its key
    intro s hs e he
    rcases exists_left_of_forall₂ hsum hs with ⟨p, -, hp⟩
    rcases mem_withKey.mp (hp.1.mem_iff.mp he) with ⟨hmem, hkey⟩
    exact hinj s hs e hmem (hkey.trans hp.2.symm)
  · -- equal triples would have equal keys
    apply List.Nodup.of_map K
    rw [List.map_map]
    exact hkeys ▸ hnd

/-- What the summaries show: each trace, in the order of a sort. -/
theorem mem_shown_iff (h : Partitioned events summaries)
    {sort : List (TraceEvent A) → List (TraceEvent A)}
    (hsort : ∀ s ∈ summaries, (∃ e ∈ events, e.triple = s.triple) ∧
      s.events = sort (trace s.triple events))
    {t : String × String × String} {shown : List (TraceEvent A)} :
    (t, shown) ∈ summaries.map (fun s => (s.triple, s.events)) ↔
      (∃ e ∈ events, e.triple = t) ∧ shown = sort (trace t events) := by
  rw [List.mem_map]
  constructor
  · rintro ⟨s, hs, heq⟩
    rcases hsort s hs with ⟨hexists, hevents⟩
    rcases Prod.mk.inj heq with ⟨rfl, rfl⟩
    exact ⟨hexists, hevents⟩
  · -- the event is in a summary, which is the one of its trace
    rintro ⟨⟨e, he, rfl⟩, rfl⟩
    rcases h.mem_iff.mp he with ⟨s, hs, hes⟩
    rcases hsort s hs with ⟨-, hevents⟩
    rw [← h.carried s hs e hes] at hevents
    exact ⟨s, hs, by rw [hevents, h.carried s hs e hes]⟩

theorem nodup_shown (h : Partitioned events summaries) :
    (summaries.map (fun s => (s.triple, s.events))).Nodup := by
  apply List.Nodup.of_map Prod.fst
  rw [List.map_map]
  exact h.distinct

end Partitioned

/-! ## The spans of a trace -/

/-- The first event with a span id, the one whose parent counts. -/
def firstSpan? (events : List (TraceEvent A)) (span_id : String) : Option (TraceEvent A) :=
  events.find? (fun e => e.span_id = span_id)

/-- The first event with each span id: `span_map`, `spans` -/
def indexSpans (events : List (TraceEvent A)) : OrderedDict String (TraceEvent A) :=
  firstByKey TraceEvent.span_id events

theorem get?_indexSpans (events : List (TraceEvent A)) (span_id : String) :
    (indexSpans events).get? span_id = firstSpan? events span_id :=
  get?_firstByKey TraceEvent.span_id events span_id

theorem get?_indexSpans_isSome_iff {events : List (TraceEvent A)} {span_id : String} :
    ((indexSpans events).get? span_id).isSome = true ↔
      span_id ∈ events.map TraceEvent.span_id := by
  simp [get?_indexSpans, firstSpan?, List.find?_isSome]

theorem mem_keys_indexSpans {events : List (TraceEvent A)} {span_id : String} :
    span_id ∈ (indexSpans events).keys ↔ span_id ∈ events.map TraceEvent.span_id := by
  rw [OrderedDict.mem_keys_iff, ← Option.isSome_iff_exists, get?_indexSpans_isSome_iff]

/-! ## Cycles -/

/-- The starts of the walks that find a cycle; `parentOf` looks up a parent. -/
def cycleStarts (parentOf : String → Except Error (Option String)) (bound : ℕ)
    (starts : List String) : Except Error (List String) :=
  match ParentWalk.search parentOf bound starts [] with
  | none => .error .outOfFuel
  | some r => r.map Prod.fst

theorem cycleStarts_eq_ok_iff {parentOf : String → Except Error (Option String)} {bound : ℕ}
    {starts reported : List String} :
    cycleStarts parentOf bound starts = .ok reported ↔
      ∃ visited, ParentWalk.search parentOf bound starts [] = some (.ok (reported, visited)) := by
  unfold cycleStarts
  cases ParentWalk.search parentOf bound starts [] with
  | none => simp
  | some r => cases r <;> simp [Except.map, Prod.ext_iff]

/-- The bound is large enough when it is above the number of spans that have
parents. -/
theorem cycleStarts_ne_outOfFuel {parentOf : String → Except Error (Option String)}
    {nodes : List String} (hnodes : ∀ s t, parentOf s = .ok (some t) → s ∈ nodes) {bound : ℕ}
    (hbound : nodes.length < bound) (hparent : ∀ s, parentOf s ≠ .error .outOfFuel)
    (starts : List String) : cycleStarts parentOf bound starts ≠ .error .outOfFuel := by
  unfold cycleStarts
  rcases Option.isSome_iff_exists.mp
    (ParentWalk.search_isSome hnodes hbound starts []) with ⟨r, hr⟩
  cases r with
  | ok found => simp [hr, Except.map]
  | error e =>
    -- an error is one of a lookup
    rcases ParentWalk.exists_of_search_error hr with ⟨s, hs⟩
    simp only [hr, Except.map, ne_eq, Except.error.injEq]
    rintro rfl
    exact hparent s hs

end InterviewPrep.TraceCorrelator
