import InterviewPrep.Lib.Delimited
import InterviewPrep.Lib.StableSort
import InterviewPrep.TraceCorrelator.Model

/-!
# The Python correlator

`correlateAgentTraces` of `technical/agent_trace_correlator/answer.py`, with
`Dict[K, V]()` read as an empty dictionary. It makes the key of a group by
joining the three ids with `|`, and cuts the key again to fill in the summary;
it follows parents into `span_map` without asking whether they are there; and it
sorts by `timestamp_ms or span_id`, a number or a string. Each of these raises on
some telemetry: `correlates_iff_processable` says on which.

The recursion of `detect_cycle` has no depth limit here.
-/

namespace InterviewPrep.TraceCorrelator

namespace Python

/-- The order in which a set is iterated: its elements in some order. -/
structure SetOrder where
  order : List String → List String
  perm (l : List String) : (order l).Perm l

/-- One of the orders. -/
def SetOrder.inserted : SetOrder := ⟨id, fun l => List.Perm.refl l⟩

/-! ## The program -/

/-- `f"{event['tenant_id']}|{event['workflow_id']}|{event['trace_id']}"` -/
def traceKey : String × String × String → String
  | (tenant_id, workflow_id, trace_id) => tenant_id ++ "|" ++ workflow_id ++ "|" ++ trace_id

/-- `key.split("|")` -/
def splitKey (key : String) : List String := (key.toList.splitOn '|').map String.ofList

/-- `grouped_traces` -/
def groupedTraces (events : List (TraceEvent ℤ)) : OrderedDict String (List (TraceEvent ℤ)) :=
  groupWith (fun event => traceKey event.triple) (fun _ => []) (fun group event => group ++ [event])
    events

/-- One round of the first loop over a trace: `span_map` and the issues. The set
`span_ids` holds the keys of `span_map`. -/
def registerSpan (acc : OrderedDict String (TraceEvent ℤ) × List TraceIssue)
    (event : TraceEvent ℤ) : OrderedDict String (TraceEvent ℤ) × List TraceIssue :=
  if acc.1.contains event.span_id then
    (acc.1, acc.2 ++ [⟨.duplicate_span, some event.span_id⟩])
  else (acc.1.setItem event.span_id event, acc.2)

def registerSpans (trace_events : List (TraceEvent ℤ)) :
    OrderedDict String (TraceEvent ℤ) × List TraceIssue :=
  trace_events.foldl registerSpan (OrderedDict.empty, [])

def eventTypes : List String := ["workflow", "retrieval", "model", "tool", "approval"]

/-- The issues of one event in the second loop. -/
def checkEvent (span_map : OrderedDict String (TraceEvent ℤ)) (event : TraceEvent ℤ) :
    List TraceIssue :=
  issueIf (event.type ∉ eventTypes) .invalid_event (some event.span_id) ++
  issueIf (event.attempt < 0) .invalid_event (some event.span_id) ++
  match event.parent with
  | none => []
  | some parent_span_id =>
    issueIf (¬ span_map.contains parent_span_id = true) .missing_parent (some event.span_id)

/-- `span_map[span_id].get('parent_span_id')`, where it is truthy -/
def parentOf (span_map : OrderedDict String (TraceEvent ℤ)) (span_id : String) :
    Except Error (Option String) :=
  match span_map.get? span_id with
  | none => .error .keyError
  | some event => .ok event.parent

/-- The third loop: `detect_cycle` from each unvisited span. -/
def detectCycles (sets : SetOrder) (span_map : OrderedDict String (TraceEvent ℤ)) :
    Except Error (List String) :=
  cycleStarts (parentOf span_map) (span_map.length + 1) (sets.order span_map.keys)

/-- The values of `e['timestamp_ms'] or e['span_id']`. -/
inductive SortKey where
  | int (n : ℤ)
  | str (s : String)

def sortKey (e : TraceEvent ℤ) : SortKey :=
  if e.timestamp_ms ≠ 0 then .int e.timestamp_ms else .str e.span_id

/-- `<` on the sort keys -/
def SortKey.lt : SortKey → SortKey → Except Error Bool
  | .int m, .int n => .ok (m < n)
  | .str s, .str t => .ok (s < t)
  | _, _ => .error .typeError

/-- `sorted(trace_events, key=...)` -/
def sortEvents (trace_events : List (TraceEvent ℤ)) : Except Error (List (TraceEvent ℤ)) :=
  StableSort.sorted (fun a b => (sortKey a).lt (sortKey b)) trace_events

/-- One round of the loop over the groups. -/
def summarize (sets : SetOrder) (group : String × List (TraceEvent ℤ)) :
    Except Error (TraceSummary ℤ) :=
  match splitKey group.1 with
  | [tenant_id, workflow_id, trace_id] => do
    let (span_map, issues) := registerSpans group.2
    let cycles ← detectCycles sets span_map
    let sorted_trace_events ← sortEvents group.2
    return {
      tenant_id, workflow_id, trace_id
      events := sorted_trace_events
      issues := issues ++ group.2.flatMap (checkEvent span_map) ++
        cycles.map (fun span_id => ⟨.parent_cycle, some span_id⟩) }
  | _ => .error .valueError

/-- `correlateAgentTraces` -/
def correlateAgentTraces (sets : SetOrder) (events : List (TraceEvent ℤ)) :
    Except Error (List (TraceSummary ℤ)) :=
  (groupedTraces events).entries.mapM (summarize sets)

/-! ## The key -/

/-- The ids of a triple, as lists of characters. -/
def parts : String × String × String → List (List Char)
  | (tenant_id, workflow_id, trace_id) =>
    [tenant_id.toList, workflow_id.toList, trace_id.toList]

theorem toList_traceKey (t : String × String × String) :
    (traceKey t).toList = Delimited.joined '|' (parts t) := by
  rcases t with ⟨tenant_id, workflow_id, trace_id⟩
  simp [traceKey, parts, Delimited.joined, String.toList_append]

theorem splitKey_traceKey (t : String × String × String) :
    splitKey (traceKey t) = (Delimited.pieces '|' (parts t)).map String.ofList := by
  rw [splitKey, toList_traceKey, Delimited.splitOn_joined]
  simp [parts]

/-- None of the ids has the separator in it. -/
def Separable (t : String × String × String) : Prop := ∀ part ∈ parts t, '|' ∉ part

/-- A key made from three ids is cut into three ids again exactly if none of them
has the separator in it, and then these are the ids. -/
theorem splitKey_traceKey_iff {t t' : String × String × String} :
    splitKey (traceKey t) = [t'.1, t'.2.1, t'.2.2] ↔ Separable t ∧ t' = t := by
  rcases t with ⟨tenant_id, workflow_id, trace_id⟩
  rcases t' with ⟨tenant_id', workflow_id', trace_id'⟩
  rw [splitKey_traceKey]
  constructor
  · intro h
    -- three pieces for three parts: no part was cut
    have hlen : (Delimited.pieces '|' (parts (tenant_id, workflow_id, trace_id))).length =
        (parts (tenant_id, workflow_id, trace_id)).length := by
      simpa [parts] using congrArg List.length h
    have hsep := Delimited.length_pieces_eq_iff.mp hlen
    rw [Delimited.pieces_eq_self hsep] at h
    refine ⟨hsep, ?_⟩
    simpa [parts, eq_comm] using h
  · rintro ⟨hsep, heq⟩
    rw [Delimited.pieces_eq_self hsep, heq]
    simp [parts]

theorem traceKey_of_splitKey {t : String × String × String} {key : String}
    (h : splitKey key = [t.1, t.2.1, t.2.2]) : traceKey t = key := by
  -- joining what was cut restores the key
  have hcut := congrArg (List.map String.toList) h
  rw [splitKey, List.map_map] at hcut
  have hback := congrArg (List.intercalate ['|']) hcut
  rw [← String.toList_inj, toList_traceKey]
  simpa [parts, Delimited.joined, Function.comp_def] using hback.symm

/-! ## One trace -/

/-- The issues do not matter for the map. -/
theorem registerSpans_fst (trace_events : List (TraceEvent ℤ)) :
    (registerSpans trace_events).1 = indexSpans trace_events := by
  refine (List.foldl_hom Prod.fst ?_).symm
  intro acc event
  unfold registerSpan enterFirst
  split
  · rfl
  · rfl

/-- The first event of each span has its parent in the trace, or none. -/
def ParentsPresent (trace_events : List (TraceEvent ℤ)) : Prop :=
  ∀ e ∈ trace_events, firstSpan? trace_events e.span_id = some e →
    ∀ p, e.parent = some p → p ∈ trace_events.map TraceEvent.span_id

/-- The timestamps are all zero or all different from zero. -/
def OneKind (trace_events : List (TraceEvent ℤ)) : Prop :=
  ∀ e ∈ trace_events, ∀ f ∈ trace_events, (e.timestamp_ms = 0 ↔ f.timestamp_ms = 0)

section Trace

variable {sets : SetOrder} {trace_events : List (TraceEvent ℤ)}

theorem parentOf_of_first {e : TraceEvent ℤ}
    (h : firstSpan? trace_events e.span_id = some e) :
    parentOf (indexSpans trace_events) e.span_id = .ok e.parent := by
  simp [parentOf, get?_indexSpans, h]

/-- A span id that can be looked up is in the trace, and its first event is
looked up. -/
theorem exists_first_of_parentOf {span_id : String} {t : Option String}
    (h : parentOf (indexSpans trace_events) span_id = .ok t) :
    ∃ e ∈ trace_events, e.span_id = span_id ∧ firstSpan? trace_events e.span_id = some e ∧
      t = e.parent := by
  rw [parentOf, get?_indexSpans] at h
  cases hfirst : firstSpan? trace_events span_id with
  | none => simp [hfirst] at h
  | some e =>
    simp only [hfirst, Except.ok.injEq] at h
    have hspan : e.span_id = span_id := by simpa using List.find?_some hfirst
    refine ⟨e, List.mem_of_find?_eq_some hfirst, hspan, ?_, h.symm⟩
    rw [hspan]
    exact hfirst

/-- Only spans of the trace have parents. -/
theorem mem_keys_of_parentOf {s t : String}
    (h : parentOf (indexSpans trace_events) s = .ok (some t)) :
    s ∈ (indexSpans trace_events).keys := by
  rcases exists_first_of_parentOf h with ⟨e, he, hspan, -⟩
  rw [mem_keys_indexSpans, ← hspan]
  exact List.mem_map_of_mem he

/-- The search for cycles returns exactly if it meets no dangling parent. -/
theorem detectCycles_ok_iff (sets : SetOrder) :
    (∃ cycles, detectCycles sets (indexSpans trace_events) = .ok cycles) ↔
      ParentsPresent trace_events := by
  have hmem : ∀ s, s ∈ sets.order (indexSpans trace_events).keys ↔
      s ∈ trace_events.map TraceEvent.span_id := by
    intro s
    rw [(sets.perm _).mem_iff, mem_keys_indexSpans]
  constructor
  · rintro ⟨cycles, h⟩ e he hfirst p hp
    rcases cycleStarts_eq_ok_iff.mp h with ⟨visited, hsearch⟩
    rcases ParentWalk.search_closed hsearch with ⟨-, hstarts, hclosed⟩
    have hlooked : ∀ s ∈ visited, ∃ t, parentOf (indexSpans trace_events) s = .ok t ∧
        ∀ p, t = some p → p ∈ visited := fun s hs => (hclosed s hs).resolve_left (by simp)
    -- the event's own span is a start, so its parent was looked up
    rcases hlooked e.span_id
      (hstarts ((hmem _).mpr (List.mem_map_of_mem he))) with ⟨t, ht, hnext⟩
    rw [parentOf_of_first hfirst] at ht
    -- and so was the parent's parent, which only spans of the trace have
    rcases hlooked p (hnext p (by rw [← Except.ok.inj ht, hp])) with ⟨t', ht', -⟩
    rcases exists_first_of_parentOf ht' with ⟨f, hf, hspan, -⟩
    rw [← hspan]
    exact List.mem_map_of_mem hf
  · intro h
    -- a lookup in the trace leads to a span of the trace
    have hclosed : ParentWalk.Closed (parentOf (indexSpans trace_events))
        (indexSpans trace_events).keys := by
      intro s hs
      rw [OrderedDict.mem_keys_iff] at hs
      rcases hs with ⟨e, he⟩
      have hs : parentOf (indexSpans trace_events) s = .ok e.parent := by simp [parentOf, he]
      rcases exists_first_of_parentOf hs with ⟨f, hf, -, hfirst, hparent⟩
      refine ⟨e.parent, hs, fun p hp => ?_⟩
      rw [mem_keys_indexSpans]
      exact h f hf hfirst p (hparent ▸ hp)
    have hbound : (indexSpans trace_events).keys.length < (indexSpans trace_events).length + 1 := by
      rw [OrderedDict.length_keys]
      omega
    rcases ParentWalk.search_ok hclosed
      (fun s t => mem_keys_of_parentOf) hbound
      (sets.perm (indexSpans trace_events).keys).subset [] with ⟨reported, visited, hsearch⟩
    exact ⟨reported, cycleStarts_eq_ok_iff.mpr ⟨visited, hsearch⟩⟩

/-- The sort returns exactly if it compares numbers only, or strings only. -/
theorem sortEvents_ok_iff :
    (∃ sorted, sortEvents trace_events = .ok sorted) ↔ OneKind trace_events := by
  constructor
  · rintro ⟨sorted, h⟩ e he f hf
    have hkind := StableSort.kind_eq_of_sorted
      (fun e : TraceEvent ℤ => decide (e.timestamp_ms = 0)) ?_ h e he f hf
    · simpa using hkind
    · -- a number and a string
      intro a b hne
      refine ⟨.typeError, ?_⟩
      by_cases ha : a.timestamp_ms = 0 <;> by_cases hb : b.timestamp_ms = 0 <;>
        simp_all [sortKey, SortKey.lt]
  · intro h
    apply StableSort.sorted_ok
    intro a ha b hb
    have hab := h a ha b hb
    by_cases ha0 : a.timestamp_ms = 0
    · -- two strings
      exact ⟨_, by simp only [sortKey, ha0, hab.mp ha0]; rfl⟩
    · -- two numbers
      exact ⟨_, by simp only [sortKey, ne_eq, ha0, mt hab.mpr ha0, not_false_eq_true]; rfl⟩

/-- What a summary is made of. -/
theorem summarize_eq_ok_iff {key : String} {s : TraceSummary ℤ} :
    summarize sets (key, trace_events) = .ok s ↔
      splitKey key = [s.tenant_id, s.workflow_id, s.trace_id] ∧
      sortEvents trace_events = .ok s.events ∧
      ∃ cycles, detectCycles sets (indexSpans trace_events) = .ok cycles ∧
        s.issues = (registerSpans trace_events).2 ++
          trace_events.flatMap (checkEvent (indexSpans trace_events)) ++
          cycles.map (fun span_id => ⟨.parent_cycle, some span_id⟩) := by
  rcases s with ⟨tenant_id, workflow_id, trace_id, events, issues⟩
  unfold summarize
  split
  · -- the key is cut into three ids
    rename_i tenant_id' workflow_id' trace_id' hsplit
    simp only [hsplit, registerSpans_fst]
    cases hcycles : detectCycles sets (indexSpans trace_events) with
    | error e => simp [bind, Except.bind]
    | ok cycles =>
      cases hsorted : sortEvents trace_events with
      | error e => simp [bind, Except.bind]
      | ok sorted =>
        simp [bind, Except.bind, pure, Except.pure, eq_comm, and_assoc]
  · rename_i hne
    simp only [reduceCtorEq, false_iff, not_and]
    intro hsplit
    exact absurd hsplit (hne _ _ _)

end Trace

/-! ## All traces -/

theorem traceKey_inj {t t' : String × String × String} (h : Separable t)
    (heq : traceKey t = traceKey t') : t = t' := by
  have hsplit : splitKey (traceKey t') = [t.1, t.2.1, t.2.2] := by
    rw [← heq]
    exact splitKey_traceKey_iff.mpr ⟨h, rfl⟩
  exact (splitKey_traceKey_iff.mp hsplit).2

/-- The events with the key of a triple. -/
def keyed (t : String × String × String) (events : List (TraceEvent ℤ)) :
    List (TraceEvent ℤ) :=
  withKey (fun event => traceKey event.triple) (traceKey t) events

/-- The groups are those of the events' keys. -/
theorem mem_groupedTraces {events : List (TraceEvent ℤ)} {key : String}
    {group : List (TraceEvent ℤ)} :
    (key, group) ∈ (groupedTraces events).entries ↔
      group = withKey (fun event => traceKey event.triple) key events ∧
        ∃ e ∈ events, traceKey e.triple = key := by
  rw [groupedTraces, mem_entries_groupWith, groupOf_lists_eq_some_iff]
  apply and_congr_right
  rintro -
  rw [ne_eq, List.eq_nil_iff_forall_not_mem, not_forall]
  simp only [not_not, mem_withKey]

/-- Where no id has the separator in it, the groups are the traces. -/
theorem keyed_eq_trace {events : List (TraceEvent ℤ)}
    (hsep : ∀ e ∈ events, Separable e.triple) (t : String × String × String) :
    keyed t events = trace t events := by
  apply List.filter_congr
  intro f hf
  rw [decide_eq_decide]
  exact ⟨traceKey_inj (hsep f hf), fun h => congrArg traceKey h⟩

/-- The telemetry on which the correlator does not raise: no id that makes up the
key has the separator in it; in every trace the first event of a span has its
parent in the trace, or none; and the timestamps of a trace are all zero, or none
of them is. -/
structure Processable (events : List (TraceEvent ℤ)) : Prop where
  separable : ∀ e ∈ events, Separable e.triple
  parents : ∀ e ∈ events, ParentsPresent (trace e.triple events)
  timestamps : ∀ e ∈ events, OneKind (trace e.triple events)

section Run

variable {sets : SetOrder} {events : List (TraceEvent ℤ)} {summaries : List (TraceSummary ℤ)}

/-- The correlator returns exactly on the telemetry on which it does not raise. -/
theorem returns_iff (sets : SetOrder) :
    (∃ summaries, correlateAgentTraces sets events = .ok summaries) ↔ Processable events := by
  unfold correlateAgentTraces
  rw [exists_mapM_eq_ok_iff]
  constructor
  · intro h
    have hgroup : ∀ e ∈ events, ∃ s,
        summarize sets (traceKey e.triple, keyed e.triple events) = .ok s := fun e he =>
      h _ (mem_groupedTraces.mpr ⟨rfl, e, he, rfl⟩)
    -- every group was unpacked, so the groups are the traces
    have hsep : ∀ e ∈ events, Separable e.triple := by
      intro e he
      rcases hgroup e he with ⟨s, hs⟩
      have hsplit : splitKey (traceKey e.triple) = [s.triple.1, s.triple.2.1, s.triple.2.2] :=
        (summarize_eq_ok_iff.mp hs).1
      exact (splitKey_traceKey_iff.mp hsplit).1
    refine ⟨hsep, fun e he => ?_, fun e he => ?_⟩
    · rcases hgroup e he with ⟨s, hs⟩
      rcases summarize_eq_ok_iff.mp hs with ⟨-, -, cycles, hcycles, -⟩
      rw [← keyed_eq_trace hsep]
      exact (detectCycles_ok_iff sets).mp ⟨cycles, hcycles⟩
    · rcases hgroup e he with ⟨s, hs⟩
      rw [← keyed_eq_trace hsep]
      exact sortEvents_ok_iff.mp ⟨_, (summarize_eq_ok_iff.mp hs).2.1⟩
  · rintro ⟨hsep, hparents, htimes⟩ ⟨key, group⟩ hmem
    rcases mem_groupedTraces.mp hmem with ⟨rfl, e, he, rfl⟩
    have htrace := keyed_eq_trace hsep e.triple
    rcases (detectCycles_ok_iff sets).mpr (hparents e he) with ⟨cycles, hcycles⟩
    rcases sortEvents_ok_iff.mpr (htimes e he) with ⟨sorted, hsorted⟩
    rw [← htrace] at hcycles hsorted
    exact ⟨⟨_, _, _, sorted, _⟩, summarize_eq_ok_iff.mpr
      ⟨splitKey_traceKey_iff.mpr ⟨hsep e he, rfl⟩, hsorted, cycles, hcycles, rfl⟩⟩

/-- The searches for cycles end by themselves. -/
theorem correlateAgentTraces_ne_outOfFuel :
    correlateAgentTraces sets events ≠ .error .outOfFuel := by
  intro h
  rcases exists_of_mapM_eq_error h with ⟨⟨key, group⟩, -, hgroup⟩
  unfold summarize at hgroup
  split at hgroup
  · have hcycles : detectCycles sets (indexSpans group) ≠ .error .outOfFuel := by
      apply cycleStarts_ne_outOfFuel (fun s t => mem_keys_of_parentOf)
        (by rw [OrderedDict.length_keys]; omega)
      intro s hs
      unfold parentOf at hs
      split at hs <;> simp at hs
    have hsorted : sortEvents group ≠ .error .outOfFuel := by
      intro hs
      rcases StableSort.exists_of_sorted_error hs with ⟨a, b, hab⟩
      unfold SortKey.lt at hab
      split at hab <;> simp at hab
    -- what a group raises is raised by one of the two
    simp only [registerSpans_fst] at hgroup
    cases hc : detectCycles sets (indexSpans group) with
    | error e =>
      simp only [hc, bind, Except.bind, Except.error.injEq] at hgroup
      exact hcycles (hgroup ▸ hc)
    | ok cycles =>
      cases hs : sortEvents group with
      | error e =>
        simp only [hc, hs, bind, Except.bind, Except.error.injEq] at hgroup
        exact hsorted (hgroup ▸ hs)
      | ok sorted => simp [hc, hs, bind, Except.bind, pure, Except.pure] at hgroup
  · simp at hgroup

/-- The summaries and the groups they are made from. -/
theorem forall₂_of_returned (h : correlateAgentTraces sets events = .ok summaries) :
    List.Forall₂ (fun p s => p.2 = withKey (fun event => traceKey event.triple) p.1 events ∧
      summarize sets p = .ok s) (groupedTraces events).entries summaries := by
  rw [List.forall₂_and_left]
  exact ⟨fun p hp => (mem_groupedTraces.mp hp).1, mapM_eq_ok_iff.mp h⟩

theorem partitioned_of_returned (h : correlateAgentTraces sets events = .ok summaries) :
    Partitioned events summaries := by
  have hsep := ((returns_iff sets).mp ⟨summaries, h⟩).separable
  apply Partitioned.of_groups (K := traceKey) (groupedTraces events).nodup
  · intro e he
    exact mem_keys_groupWith.mpr ⟨e, he, rfl⟩
  · refine (forall₂_of_returned h).imp fun p s hps => ?_
    rcases hps with ⟨hgroup, hs⟩
    rcases summarize_eq_ok_iff.mp hs with ⟨hsplit, hsorted, -⟩
    rw [← hgroup]
    exact ⟨StableSort.sorted_perm hsorted, traceKey_of_splitKey (t := s.triple) hsplit⟩
  · intro s _ e he heq
    exact traceKey_inj (hsep e he) heq

/-- An event with a dangling parent is reported in its summary. -/
theorem missing_reported (h : correlateAgentTraces sets events = .ok summaries)
    {e : TraceEvent ℤ} (he : e ∈ events) {p : String} (hp : e.parent = some p)
    (hmissing : p ∉ (trace e.triple events).map TraceEvent.span_id) :
    ∃ s ∈ summaries, e ∈ s.events ∧ ⟨.missing_parent, some e.span_id⟩ ∈ s.issues := by
  have hsep := ((returns_iff sets).mp ⟨summaries, h⟩).separable
  rcases exists_right_of_forall₂ (forall₂_of_returned h)
    (mem_groupedTraces.mpr ⟨rfl, e, he, rfl⟩) with ⟨s, hs, -, hsum⟩
  rcases summarize_eq_ok_iff.mp hsum with ⟨-, hsorted, cycles, -, hissues⟩
  have hmem : e ∈ keyed e.triple events := mem_withKey.mpr ⟨he, rfl⟩
  refine ⟨s, hs, (StableSort.sorted_perm hsorted).mem_iff.mpr hmem, ?_⟩
  rw [hissues, List.mem_append, List.mem_append]
  refine Or.inl (Or.inr (List.mem_flatMap.mpr ⟨e, hmem, ?_⟩))
  change _ ∈ checkEvent (indexSpans (keyed e.triple events)) e
  rw [keyed_eq_trace hsep]
  have habsent : ¬ (indexSpans (trace e.triple events)).contains p = true := by
    rw [OrderedDict.contains_eq_isSome, get?_indexSpans_isSome_iff]
    exact hmissing
  unfold checkEvent
  rw [hp]
  exact List.mem_append_right _ (mem_issueIf.mpr ⟨habsent, rfl⟩)

end Run

/-- What the correlator promises of its summaries: they take the events apart by
triple, two events share a summary exactly if their triples are equal, and an
event whose parent is not in its trace is reported. -/
structure Correlated (events : List (TraceEvent ℤ)) (summaries : List (TraceSummary ℤ)) :
    Prop where
  partitioned : Partitioned events summaries
  share : ∀ e ∈ events, ∀ f ∈ events,
    (∃ s ∈ summaries, e ∈ s.events ∧ f ∈ s.events) ↔ e.triple = f.triple
  missing : ∀ e ∈ events, ∀ p, e.parent = some p →
    p ∉ (trace e.triple events).map TraceEvent.span_id →
    ∃ s ∈ summaries, e ∈ s.events ∧ ⟨.missing_parent, some e.span_id⟩ ∈ s.issues

/-- The correlator returns, with such summaries. -/
def Correlates (sets : SetOrder) (events : List (TraceEvent ℤ)) : Prop :=
  ∃ summaries, correlateAgentTraces sets events = .ok summaries ∧ Correlated events summaries

/-- The correlator does what it promises exactly on the telemetry on which it does
not raise. -/
theorem correlates_iff_processable (sets : SetOrder) (events : List (TraceEvent ℤ)) :
    Correlates sets events ↔ Processable events := by
  constructor
  · rintro ⟨summaries, h, -⟩
    exact (returns_iff sets).mp ⟨summaries, h⟩
  · intro h
    rcases (returns_iff sets).mpr h with ⟨summaries, hsum⟩
    have hpart := partitioned_of_returned hsum
    exact ⟨summaries, hsum, hpart, fun e he f hf => hpart.share_iff he hf,
      fun e he p hp hmissing => missing_reported hsum he hp hmissing⟩

/-- An event with an id that has the separator in it. -/
def piped : TraceEvent ℤ := ⟨"a|b", "w", "t", "x", none, "step", 0, "tool", 1⟩

/-- An event whose parent is not in the trace. -/
def orphan : TraceEvent ℤ := ⟨"a", "w", "t", "x", some "gone", "step", 0, "tool", 1⟩

/-- Two events, at time zero and later. -/
def early : TraceEvent ℤ := ⟨"a", "w", "t", "x", none, "step", 0, "tool", 0⟩

def late : TraceEvent ℤ := ⟨"a", "w", "t", "y", none, "step", 0, "tool", 1⟩

/-- Each kind of telemetry makes the correlator raise. -/
theorem correlator_raises :
    correlateAgentTraces .inserted [piped] = .error .valueError ∧
    correlateAgentTraces .inserted [orphan] = .error .keyError ∧
    correlateAgentTraces .inserted [early, late] = .error .typeError ∧
    ¬ Correlates .inserted [piped] ∧ ¬ Correlates .inserted [orphan] ∧
    ¬ Correlates .inserted [early, late] := by
  have hpiped : correlateAgentTraces .inserted [piped] = .error .valueError := by decide +kernel
  have horphan : correlateAgentTraces .inserted [orphan] = .error .keyError := by decide +kernel
  have hmixed : correlateAgentTraces .inserted [early, late] = .error .typeError := by
    decide +kernel
  refine ⟨hpiped, horphan, hmixed, ?_, ?_, ?_⟩
  · rintro ⟨summaries, h, -⟩
    simp [hpiped] at h
  · rintro ⟨summaries, h, -⟩
    simp [horphan] at h
  · rintro ⟨summaries, h, -⟩
    simp [hmixed] at h

end Python

end InterviewPrep.TraceCorrelator
