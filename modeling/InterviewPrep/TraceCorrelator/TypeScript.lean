import InterviewPrep.Lib.JavaScript
import InterviewPrep.Lib.StableSort
import InterviewPrep.TraceCorrelator.Model

/-!
# The TypeScript correlator

`correlateAgentTraces` of `technical/agent_trace_correlator/answer.ts`, over a
`localeCompare`. Its key is the JSON text of the three ids, which tells them
apart; it keeps the ids in the group instead of cutting the key, follows only
parents that are in the trace, and sorts by timestamp and then by span id. So it
returns on all telemetry, and the order of a trace depends on its events only
(`partitions_and_orders`).
-/

namespace InterviewPrep.TraceCorrelator

namespace TypeScript

open JavaScript

/-! ## The program -/

/-- A group of `grouped`. -/
structure Group where
  tenantId : String
  workflowId : String
  traceId : String
  events : List (TraceEvent Number)

/-- The group that an event starts. -/
def Group.start (event : TraceEvent Number) : Group :=
  ⟨event.tenant_id, event.workflow_id, event.trace_id, []⟩

/-- `group.events.push(event)` -/
def Group.push (group : Group) (event : TraceEvent Number) : Group :=
  { group with events := group.events ++ [event] }

/-- `JSON.stringify([event.tenantId, event.workflowId, event.traceId])` -/
def traceKey : String × String × String → String
  | (tenantId, workflowId, traceId) => stringify [tenantId, workflowId, traceId]

/-- The first loop: `grouped` -/
def grouped (events : List (TraceEvent Number)) : OrderedDict String Group :=
  groupWith (fun event => traceKey event.triple) Group.start Group.push events

/-- `spanCounts` -/
def spanCounts (events : List (TraceEvent Number)) : OrderedDict String ℕ :=
  events.foldl (fun counts event =>
    counts.setItem event.span_id ((counts.get? event.span_id).getD 0 + 1)) OrderedDict.empty

/-- The condition of `invalid_event`. -/
def invalidEvent (event : TraceEvent Number) : Bool :=
  trim event.tenant_id = "" || trim event.workflow_id = "" || trim event.trace_id = "" ||
    trim event.span_id = "" || trim event.step_id = "" || !event.attempt.isInteger ||
    event.attempt.isNegative

/-- The issues of one event. -/
def checkEvent (counts : OrderedDict String ℕ) (spans : OrderedDict String (TraceEvent Number))
    (event : TraceEvent Number) : List TraceIssue :=
  issueIf (invalidEvent event) .invalid_event
    (if event.span_id = "" then none else some event.span_id) ++
  issueIf (1 < (counts.get? event.span_id).getD 0) .duplicate_span (some event.span_id) ++
  match event.parent with
  | none => []
  | some parentSpanId =>
    issueIf (¬ spans.contains parentSpanId = true) .missing_parent (some event.span_id)

/-- The parent to which `hasParentCycle` goes on. -/
def parentOf (spans : OrderedDict String (TraceEvent Number)) (spanId : String) :
    Except Error (Option String) :=
  match spans.get? spanId with
  | none => .ok none
  | some event => .ok (event.parent.filter (fun p => spans.contains p))

/-- The loop over `hasParentCycle`. -/
def parentCycles (spans : OrderedDict String (TraceEvent Number))
    (events : List (TraceEvent Number)) : Except Error (List String) :=
  cycleStarts (parentOf spans) (spans.length + 1) (events.map TraceEvent.span_id)

/-- `a.timestampMs - b.timestampMs || a.spanId.localeCompare(b.spanId)` -/
def compareEvents (localeCompare : String → String → ℤ) (a b : TraceEvent Number) : ℤ :=
  if a.timestamp_ms - b.timestamp_ms ≠ 0 then a.timestamp_ms - b.timestamp_ms
  else localeCompare a.span_id b.span_id

/-- `[...group.events].sort(...)` -/
def sortEvents (localeCompare : String → String → ℤ) (events : List (TraceEvent Number)) :
    List (TraceEvent Number) :=
  events.insertionSort (fun a b => compareEvents localeCompare a b ≤ 0)

/-- One round of the loop over the groups. -/
def summarize (localeCompare : String → String → ℤ) (group : Group) :
    Except Error (TraceSummary Number) := do
  let spans := indexSpans group.events
  let issues := group.events.flatMap (checkEvent (spanCounts group.events) spans)
  let cycles ← parentCycles spans group.events
  return {
    tenant_id := group.tenantId
    workflow_id := group.workflowId
    trace_id := group.traceId
    events := sortEvents localeCompare group.events
    issues := issues ++ cycles.map (fun spanId => ⟨.parent_cycle, some spanId⟩) }

/-- `correlateAgentTraces` -/
def correlateAgentTraces (localeCompare : String → String → ℤ)
    (events : List (TraceEvent Number)) : Except Error (List (TraceSummary Number)) :=
  (grouped events).entries.mapM (fun p => summarize localeCompare p.2)

/-! ## One trace -/

/-- `localeCompare` orders a set of strings totally. -/
structure TotalOn (localeCompare : String → String → ℤ) (ids : Set String) : Prop where
  swap : ∀ a ∈ ids, ∀ b ∈ ids, 0 < localeCompare a b ↔ localeCompare b a < 0
  trans : ∀ a ∈ ids, ∀ b ∈ ids, ∀ c ∈ ids,
    localeCompare a b ≤ 0 → localeCompare b c ≤ 0 → localeCompare a c ≤ 0
  eq_of_eq_zero : ∀ a ∈ ids, ∀ b ∈ ids, localeCompare a b = 0 → a = b

/-- First by timestamp, then by span id. -/
def InOrder (localeCompare : String → String → ℤ) (a b : TraceEvent Number) : Prop :=
  a.timestamp_ms < b.timestamp_ms ∨
    a.timestamp_ms = b.timestamp_ms ∧ localeCompare a.span_id b.span_id ≤ 0

variable {localeCompare : String → String → ℤ}

theorem compareEvents_le_iff {a b : TraceEvent Number} :
    compareEvents localeCompare a b ≤ 0 ↔ InOrder localeCompare a b := by
  unfold compareEvents InOrder
  split
  · omega
  · have heq : a.timestamp_ms = b.timestamp_ms := by omega
    simp [heq]

/-- The span ids of a list of events. -/
def spanIds (events : List (TraceEvent Number)) : Set String :=
  {s | ∃ e ∈ events, e.span_id = s}

section Order

variable {events : List (TraceEvent Number)} (hcmp : TotalOn localeCompare (spanIds events))

include hcmp

theorem inOrder_total {a b : TraceEvent Number} (ha : a ∈ events) (hb : b ∈ events) :
    InOrder localeCompare a b ∨ InOrder localeCompare b a := by
  have hswap := hcmp.swap a.span_id ⟨a, ha, rfl⟩ b.span_id ⟨b, hb, rfl⟩
  unfold InOrder
  omega

theorem inOrder_trans {a b c : TraceEvent Number} (ha : a ∈ events) (hb : b ∈ events)
    (hc : c ∈ events) (hab : InOrder localeCompare a b) (hbc : InOrder localeCompare b c) :
    InOrder localeCompare a c := by
  have htrans := hcmp.trans a.span_id ⟨a, ha, rfl⟩ b.span_id ⟨b, hb, rfl⟩ c.span_id ⟨c, hc, rfl⟩
  unfold InOrder at *
  omega

/-- Events that go before each other have the same span id. -/
theorem inOrder_antisymm {a b : TraceEvent Number} (ha : a ∈ events) (hb : b ∈ events)
    (hab : InOrder localeCompare a b) (hba : InOrder localeCompare b a) :
    a.span_id = b.span_id := by
  have hswap := hcmp.swap b.span_id ⟨b, hb, rfl⟩ a.span_id ⟨a, ha, rfl⟩
  apply hcmp.eq_of_eq_zero a.span_id ⟨a, ha, rfl⟩ b.span_id ⟨b, hb, rfl⟩
  unfold InOrder at *
  omega

end Order

/-- No two events of one trace share a span id. -/
def DistinctSpans (events : List (TraceEvent Number)) : Prop :=
  events.Pairwise (fun e f => e.triple = f.triple → e.span_id ≠ f.span_id)

theorem DistinctSpans.nodup {events : List (TraceEvent Number)} (h : DistinctSpans events)
    (t : String × String × String) : ((trace t events).map TraceEvent.span_id).Nodup := by
  rw [List.Nodup, List.pairwise_map]
  refine (h.filter _).imp_of_mem fun he hf hne => hne ?_
  rw [(mem_withKey.mp he).2, (mem_withKey.mp hf).2]

/-- On one trace the comparison is total. -/
theorem compareEvents_total {events : List (TraceEvent Number)}
    (hcmp : TotalOn localeCompare (spanIds events)) (t : String × String × String) :
    ∀ a ∈ trace t events, ∀ b ∈ trace t events, compareEvents localeCompare a b ≤ 0 ∨
      compareEvents localeCompare b a ≤ 0 := by
  intro a ha b hb
  rw [compareEvents_le_iff, compareEvents_le_iff]
  exact inOrder_total hcmp (trace_subset ha) (trace_subset hb)

/-- On one trace the comparison is transitive. -/
theorem compareEvents_trans {events : List (TraceEvent Number)}
    (hcmp : TotalOn localeCompare (spanIds events)) (t : String × String × String) :
    ∀ a ∈ trace t events, ∀ b ∈ trace t events, ∀ c ∈ trace t events,
      compareEvents localeCompare a b ≤ 0 → compareEvents localeCompare b c ≤ 0 →
        compareEvents localeCompare a c ≤ 0 := by
  intro a ha b hb c hc
  simp only [compareEvents_le_iff]
  exact inOrder_trans hcmp (trace_subset ha) (trace_subset hb) (trace_subset hc)

/-- A sorted trace is in order. -/
theorem sortEvents_pairwise {events : List (TraceEvent Number)}
    (hcmp : TotalOn localeCompare (spanIds events)) (t : String × String × String) :
    (sortEvents localeCompare (trace t events)).Pairwise (InOrder localeCompare) := by
  have hsorted : (sortEvents localeCompare (trace t events)).Pairwise
      (fun a b => compareEvents localeCompare a b ≤ 0) := by
    apply StableSort.pairwise_insertionSort
    · exact compareEvents_total hcmp t
    · exact compareEvents_trans hcmp t
  exact hsorted.imp compareEvents_le_iff.mp

/-- With distinct span ids, the sorted trace does not depend on the order in which
the events arrive. -/
theorem sortEvents_trace_eq {events events' : List (TraceEvent Number)}
    (hcmp : TotalOn localeCompare (spanIds events)) (hdistinct : DistinctSpans events)
    (hperm : events.Perm events') (t : String × String × String) :
    sortEvents localeCompare (trace t events) = sortEvents localeCompare (trace t events') := by
  apply StableSort.insertionSort_eq_of_perm (hperm.filter _)
  · exact compareEvents_total hcmp t
  · exact compareEvents_trans hcmp t
  · -- one span id, so one event
    intro a ha b hb hab hba
    rw [compareEvents_le_iff] at hab hba
    exact List.inj_on_of_nodup_map (hdistinct.nodup t) ha hb
      (inOrder_antisymm hcmp (trace_subset ha) (trace_subset hb) hab hba)

/-- The search for cycles returns: it follows parents inside the trace only. -/
theorem parentCycles_ok (events : List (TraceEvent Number)) :
    ∃ cycles, parentCycles (indexSpans events) events = .ok cycles := by
  have hclosed : ParentWalk.Closed (parentOf (indexSpans events)) (indexSpans events).keys := by
    intro s hs
    rw [OrderedDict.mem_keys_iff] at hs
    rcases hs with ⟨event, hevent⟩
    refine ⟨event.parent.filter (fun p => (indexSpans events).contains p),
      by simp only [parentOf, hevent], ?_⟩
    intro p hp
    -- `parentOf` has asked for the parent
    have hin : (indexSpans events).contains p = true := (Option.filter_eq_some_iff.mp hp).2
    rwa [OrderedDict.contains, decide_eq_true_eq] at hin
  have hnodes : ∀ s t, parentOf (indexSpans events) s = .ok (some t) →
      s ∈ (indexSpans events).keys := by
    intro s t h
    rw [OrderedDict.mem_keys_iff]
    unfold parentOf at h
    split at h
    · simp at h
    · rename_i event hevent
      exact ⟨event, hevent⟩
  have hbound : (indexSpans events).keys.length < (indexSpans events).length + 1 := by
    rw [OrderedDict.length_keys]
    omega
  have hstarts : events.map TraceEvent.span_id ⊆ (indexSpans events).keys := fun s hs =>
    mem_keys_indexSpans.mpr hs
  rcases ParentWalk.search_ok hclosed hnodes hbound hstarts [] with ⟨reported, visited, hsearch⟩
  exact ⟨reported, cycleStarts_eq_ok_iff.mpr ⟨visited, hsearch⟩⟩

/-! ## All traces -/

theorem traceKey_injective : Function.Injective traceKey := by
  rintro ⟨tenantId, workflowId, traceId⟩ ⟨tenantId', workflowId', traceId'⟩ h
  have hids : [tenantId, workflowId, traceId] = [tenantId', workflowId', traceId'] :=
    stringify_injective h
  simpa using hids

theorem foldl_push (group : Group) (events : List (TraceEvent Number)) :
    events.foldl Group.push group = { group with events := group.events ++ events } := by
  induction events generalizing group with
  | nil => simp
  | cons event events ih => simp [ih, Group.push]

/-- A group holds the events with its key, and the ids of the first of them. -/
theorem groupOf_eq_some_iff {events : List (TraceEvent Number)} {group : Group} :
    groupOf Group.start Group.push events = some group ↔
      ∃ e, events.head? = some e ∧ group = { Group.start e with events := events } := by
  cases events with
  | nil => simp [groupOf]
  | cons e events => simp [groupOf, foldl_push, Group.start, Group.push, eq_comm]

/-- What a summary is made of. -/
theorem summarize_ok (localeCompare : String → String → ℤ) (group : Group) :
    ∃ issues, summarize localeCompare group = .ok ⟨group.tenantId, group.workflowId,
      group.traceId, sortEvents localeCompare group.events, issues⟩ := by
  rcases parentCycles_ok group.events with ⟨cycles, hcycles⟩
  simp only [summarize, hcycles]
  exact ⟨_, rfl⟩

section Run

variable {events : List (TraceEvent Number)} {summaries : List (TraceSummary Number)}

theorem returns (localeCompare : String → String → ℤ) (events : List (TraceEvent Number)) :
    ∃ summaries, correlateAgentTraces localeCompare events = .ok summaries := by
  apply exists_mapM_eq_ok_iff.mpr
  intro p _
  rcases summarize_ok localeCompare p.2 with ⟨issues, h⟩
  exact ⟨_, h⟩

/-- The events with the key of a triple are its trace. -/
theorem withKey_eq_trace (t : String × String × String) (events : List (TraceEvent Number)) :
    withKey (fun event => traceKey event.triple) (traceKey t) events = trace t events := by
  apply List.filter_congr
  intro e _
  rw [decide_eq_decide]
  exact ⟨fun h => traceKey_injective h, fun h => congrArg traceKey h⟩

/-- A group is that of the trace of an event. -/
theorem group_of_entry {p : String × Group} (hp : p ∈ (grouped events).entries) :
    ∃ e ∈ events, traceKey e.triple = p.1 ∧
      p.2 = { Group.start e with events := trace e.triple events } := by
  rcases p with ⟨key, group⟩
  rcases groupOf_eq_some_iff.mp (mem_entries_groupWith.mp hp) with ⟨e, he, hgroup⟩
  rcases mem_withKey.mp (List.mem_of_mem_head? he) with ⟨hmem, hkey⟩
  refine ⟨e, hmem, hkey, ?_⟩
  rw [← withKey_eq_trace, hkey]
  exact hgroup

/-- Each summary is that of a group, and belongs to the trace of one of the events. -/
theorem group_of_summary (h : correlateAgentTraces localeCompare events = .ok summaries) :
    List.Forall₂ (fun p s => ∃ e ∈ events, traceKey e.triple = p.1 ∧ e.triple = s.triple ∧
      p.2.events = trace s.triple events ∧ summarize localeCompare p.2 = .ok s)
      (grouped events).entries summaries := by
  have hboth : List.Forall₂ (fun p s => p ∈ (grouped events).entries ∧
      summarize localeCompare p.2 = .ok s) (grouped events).entries summaries := by
    rw [List.forall₂_and_left]
    exact ⟨fun p hp => hp, mapM_eq_ok_iff.mp h⟩
  refine hboth.imp fun p s hps => ?_
  rcases hps with ⟨hmem, hs⟩
  rcases group_of_entry hmem with ⟨e, he, hkey, hgroup⟩
  have htriple : e.triple = s.triple := by
    rcases summarize_ok localeCompare p.2 with ⟨issues, hsum⟩
    rw [hsum] at hs
    rw [← Except.ok.inj hs, hgroup]
    rfl
  exact ⟨e, he, hkey, htriple, by rw [hgroup, htriple], hs⟩

/-- Each summary belongs to the trace of one of the events. -/
theorem forall₂_of_returned (h : correlateAgentTraces localeCompare events = .ok summaries) :
    List.Forall₂ (fun p s => traceKey s.triple = p.1 ∧ (∃ e ∈ events, e.triple = s.triple) ∧
      s.events = sortEvents localeCompare (trace s.triple events))
      (grouped events).entries summaries := by
  refine (group_of_summary h).imp fun p s hps => ?_
  rcases hps with ⟨e, he, hkey, htriple, hgroup, hs⟩
  refine ⟨htriple ▸ hkey, ⟨e, he, htriple⟩, ?_⟩
  rcases summarize_ok localeCompare p.2 with ⟨issues, hsum⟩
  rw [hsum] at hs
  rw [← hgroup, ← Except.ok.inj hs]

theorem partitioned_of_returned (h : correlateAgentTraces localeCompare events = .ok summaries) :
    Partitioned events summaries := by
  apply Partitioned.of_groups (K := traceKey) (grouped events).nodup
  · intro e he
    exact mem_keys_groupWith.mpr ⟨e, he, rfl⟩
  · refine (forall₂_of_returned h).imp fun p s hps => ?_
    rcases hps with ⟨hkey, -, hevents⟩
    rw [hevents, ← hkey, withKey_eq_trace]
    exact ⟨List.perm_insertionSort _ _, rfl⟩
  · intro s _ e _ heq
    exact traceKey_injective heq

/-- The summaries show the traces of the events. -/
theorem mem_shown_iff (h : correlateAgentTraces localeCompare events = .ok summaries)
    {t : String × String × String} {shown : List (TraceEvent Number)} :
    (t, shown) ∈ summaries.map (fun s => (s.triple, s.events)) ↔
      (∃ e ∈ events, e.triple = t) ∧ shown = sortEvents localeCompare (trace t events) := by
  refine (partitioned_of_returned h).mem_shown_iff fun s hs => ?_
  rcases exists_left_of_forall₂ (forall₂_of_returned h) hs with ⟨p, -, -, hshown⟩
  exact hshown

end Run

/-- The correlator returns summaries that take the events apart by triple, each in
order. When the events of a trace have distinct span ids, reordering the events
reorders the summaries, but not the events inside one. -/
theorem partitions_and_orders {events : List (TraceEvent Number)} (hcmp : TotalOn localeCompare (spanIds events)) :
    ∃ summaries, correlateAgentTraces localeCompare events = .ok summaries ∧
      Partitioned events summaries ∧
      (∀ s ∈ summaries, s.events.Pairwise (InOrder localeCompare)) ∧
      (DistinctSpans events → ∀ events', events.Perm events' →
        ∃ summaries', correlateAgentTraces localeCompare events' = .ok summaries' ∧
          (summaries.map (fun s => (s.triple, s.events))).Perm
            (summaries'.map (fun s => (s.triple, s.events)))) := by
  rcases returns localeCompare events with ⟨summaries, h⟩
  have hpart := partitioned_of_returned h
  refine ⟨summaries, h, hpart, ?_, ?_⟩
  · intro s hs
    rcases exists_left_of_forall₂ (forall₂_of_returned h) hs with ⟨p, -, -, -, hevents⟩
    rw [hevents]
    exact sortEvents_pairwise hcmp s.triple
  · intro hdistinct events' hperm
    rcases returns localeCompare events' with ⟨summaries', h'⟩
    refine ⟨summaries', h', ?_⟩
    -- both runs show the traces of the same events, each once
    rw [List.perm_ext_iff_of_nodup hpart.nodup_shown (partitioned_of_returned h').nodup_shown]
    rintro ⟨t, shown⟩
    rw [mem_shown_iff h, mem_shown_iff h', sortEvents_trace_eq hcmp hdistinct hperm]
    simp only [hperm.mem_iff]

/-- The comparison by code points, a `localeCompare` for plain ids. -/
def codePointCompare (a b : String) : ℤ := if a < b then -1 else if a = b then 0 else 1

theorem totalOn_codePointCompare (ids : Set String) : TotalOn codePointCompare ids := by
  refine ⟨fun a _ b _ => ?_, fun a _ b _ c _ => ?_, fun a _ b _ => ?_⟩
  · rcases lt_trichotomy a b with hlt | heq | hgt
    · simp [codePointCompare, hlt, not_lt_of_gt hlt, ne_of_gt hlt]
    · simp [codePointCompare, heq]
    · simp [codePointCompare, hgt, not_lt_of_gt hgt, ne_of_gt hgt]
  · have hle : ∀ x y : String, codePointCompare x y ≤ 0 ↔ x ≤ y := by
      intro x y
      rcases lt_trichotomy x y with hlt | heq | hgt
      · simp [codePointCompare, hlt, le_of_lt hlt]
      · simp [codePointCompare, heq]
      · simp [codePointCompare, not_lt_of_gt hgt, ne_of_gt hgt, not_le_of_gt hgt]
    rw [hle, hle, hle]
    exact le_trans
  · unfold codePointCompare
    split
    · simp
    · split
      · simp [*]
      · simp

/-- A retry and a model call at one moment, and another tenant's event. -/
def telemetry : List (TraceEvent Number) :=
  [⟨"acme", "w", "t", "y", some "x", "call", .finite 2, "tool", 5⟩,
   ⟨"zeta", "w", "t", "x", none, "call", .finite 1, "tool", 9⟩,
   ⟨"acme", "w", "t", "x", none, "plan", .finite 1, "model", 5⟩]

theorem partitions_and_orders_telemetry :
    ∃ summaries, correlateAgentTraces codePointCompare telemetry = .ok summaries ∧
      Partitioned telemetry summaries ∧
      (∀ s ∈ summaries, s.events.Pairwise (InOrder codePointCompare)) ∧
      (DistinctSpans telemetry → ∀ events', telemetry.Perm events' →
        ∃ summaries', correlateAgentTraces codePointCompare events' = .ok summaries' ∧
          (summaries.map (fun s => (s.triple, s.events))).Perm
            (summaries'.map (fun s => (s.triple, s.events)))) :=
  partitions_and_orders (totalOn_codePointCompare _)

end TypeScript

end InterviewPrep.TraceCorrelator
