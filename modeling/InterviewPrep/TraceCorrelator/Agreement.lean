import InterviewPrep.TraceCorrelator.ParentCycles
import InterviewPrep.TraceCorrelator.Python

/-!
# The two correlators

On telemetry on which the Python correlator returns, both correlators make the
same traces, in the same order, and report the same about each of them
(`correlators_agree`): the same missing parents, the same duplicated span ids and
one issue for each cycle of parents, though they may name different spans of it.
About a single event they say the same where its type is known and none of its ids
is blank, because each source checks only one of the two.

The traces stand in the order of their first events, whichever key the groups have
(`keys_groupWith`); the graph of the parents is the same for both, because the
Python correlator returns only where no parent is missing from it.
-/

namespace InterviewPrep.TraceCorrelator

open JavaScript FunctionalGraph

/-! ## One event in two languages -/

/-- The event with its attempt as a JavaScript number. -/
def TraceEvent.toJavaScript (e : TraceEvent ℤ) : TraceEvent Number where
  tenant_id := e.tenant_id
  workflow_id := e.workflow_id
  trace_id := e.trace_id
  span_id := e.span_id
  parent_span_id := e.parent_span_id
  step_id := e.step_id
  attempt := .finite e.attempt
  type := e.type
  timestamp_ms := e.timestamp_ms

@[simp] theorem toJavaScript_triple (e : TraceEvent ℤ) : e.toJavaScript.triple = e.triple := rfl

@[simp] theorem toJavaScript_parent (e : TraceEvent ℤ) : e.toJavaScript.parent = e.parent := rfl

@[simp] theorem toJavaScript_span_id (e : TraceEvent ℤ) : e.toJavaScript.span_id = e.span_id := rfl

variable {group : List (TraceEvent ℤ)}

theorem trace_toJavaScript (t : String × String × String) (events : List (TraceEvent ℤ)) :
    trace t (events.map TraceEvent.toJavaScript) =
      (trace t events).map TraceEvent.toJavaScript := by
  rw [trace, withKey, List.filter_map]
  rfl

theorem span_ids_toJavaScript (group : List (TraceEvent ℤ)) :
    (group.map TraceEvent.toJavaScript).map TraceEvent.span_id =
      group.map TraceEvent.span_id := by
  rw [List.map_map]
  rfl

theorem firstSpan?_toJavaScript (group : List (TraceEvent ℤ)) (span_id : String) :
    firstSpan? (group.map TraceEvent.toJavaScript) span_id =
      (firstSpan? group span_id).map TraceEvent.toJavaScript := by
  rw [firstSpan?, List.find?_map]
  rfl

theorem contains_indexSpans_toJavaScript (group : List (TraceEvent ℤ)) (span_id : String) :
    (indexSpans (group.map TraceEvent.toJavaScript)).contains span_id =
      (indexSpans group).contains span_id := by
  rw [OrderedDict.contains_eq_isSome, OrderedDict.contains_eq_isSome, get?_indexSpans,
    get?_indexSpans, firstSpan?_toJavaScript, Option.isSome_map]

/-! ## The issues by their codes -/

open TypeScript (withCode)

theorem withCode_append (code : IssueCode) (l l' : List TraceIssue) :
    withCode code (l ++ l') = withCode code l ++ withCode code l' :=
  List.filter_append ..

theorem withCode_flatMap {α : Type} (code : IssueCode) (l : List α) (f : α → List TraceIssue) :
    withCode code (l.flatMap f) = l.flatMap (fun x => withCode code (f x)) :=
  List.filter_flatMap ..

theorem withCode_eq_self {code : IssueCode} {l : List TraceIssue}
    (h : ∀ issue ∈ l, issue.code = code) : withCode code l = l :=
  List.filter_eq_self.mpr fun issue hissue => decide_eq_true (h issue hissue)

theorem withCode_eq_nil {code : IssueCode} {l : List TraceIssue}
    (h : ∀ issue ∈ l, issue.code ≠ code) : withCode code l = [] :=
  List.filter_eq_nil_iff.mpr fun issue hissue => by simpa using h issue hissue

@[simp] theorem withCode_issueIf (code code' : IssueCode) (p : Prop) [Decidable p]
    (span_id : Option String) :
    withCode code (issueIf p code' span_id) =
      if code' = code then issueIf p code' span_id else [] := by
  by_cases hcode : code' = code
  · -- all of the issues have the code, or none
    rw [if_pos hcode]
    exact withCode_eq_self fun issue hissue => by rw [(mem_issueIf.mp hissue).2, hcode]
  · rw [if_neg hcode]
    exact withCode_eq_nil fun issue hissue => by rw [(mem_issueIf.mp hissue).2]; exact hcode

section Codes

variable {A : Type} {spans : OrderedDict String (TraceEvent A)} {e : TraceEvent A}

/-- What both correlators say about the parent of an event. -/
def parentIssue (spans : OrderedDict String (TraceEvent A)) (e : TraceEvent A) :
    List TraceIssue :=
  match e.parent with
  | none => []
  | some p => issueIf (¬ spans.contains p = true) .missing_parent (some e.span_id)

theorem code_of_mem_parentIssue {issue : TraceIssue} (h : issue ∈ parentIssue spans e) :
    issue.code = .missing_parent := by
  unfold parentIssue at h
  split at h
  · cases h
  · rw [(mem_issueIf.mp h).2]

theorem withCode_parentIssue (code : IssueCode) :
    withCode code (parentIssue spans e) =
      if code = .missing_parent then parentIssue spans e else [] := by
  split
  · subst code
    exact withCode_eq_self fun issue => code_of_mem_parentIssue
  · refine withCode_eq_nil fun issue hissue heq => ?_
    rw [code_of_mem_parentIssue hissue] at heq
    exact absurd heq.symm ‹_›

theorem withCode_cycles (code : IssueCode) (starts : List String) :
    withCode code (starts.map fun span_id => ⟨.parent_cycle, some span_id⟩) =
      if code = .parent_cycle then starts.map fun span_id => ⟨.parent_cycle, some span_id⟩
      else [] := by
  split
  · subst code
    refine withCode_eq_self fun issue hissue => ?_
    rcases List.mem_map.mp hissue with ⟨span_id, -, rfl⟩
    rfl
  · refine withCode_eq_nil fun issue hissue heq => ?_
    rcases List.mem_map.mp hissue with ⟨span_id, -, rfl⟩
    exact absurd heq.symm ‹_›

end Codes

/-- The span ids of the events so far that had come before. -/
theorem mem_registerSpans_iff {issue : TraceIssue} :
    issue ∈ (Python.registerSpans group).2 ↔
      ∃ span_id, issue = ⟨.duplicate_span, some span_id⟩ ∧
        1 < (group.map TraceEvent.span_id).count span_id := by
  induction group using List.reverseRecOn with
  | nil => simp [Python.registerSpans]
  | append_singleton group e ih =>
    have hstep : Python.registerSpans (group ++ [e]) =
        Python.registerSpan (Python.registerSpans group) e := by
      simp [Python.registerSpans]
    have hmem : (Python.registerSpans group).1.contains e.span_id = true ↔
        0 < (group.map TraceEvent.span_id).count e.span_id := by
      rw [Python.registerSpans_fst, OrderedDict.contains_eq_isSome, get?_indexSpans_isSome_iff,
        List.count_pos_iff]
    have hcount : ∀ s, ((group ++ [e]).map TraceEvent.span_id).count s =
        (group.map TraceEvent.span_id).count s + if e.span_id = s then 1 else 0 := by
      intro s
      simp [List.count_append, List.count_singleton]
    rw [hstep, Python.registerSpan]
    split
    · -- the span id was seen, and this event repeats it
      rename_i hcontains
      rw [List.mem_append, List.mem_singleton, ih]
      constructor
      · rintro (⟨s, rfl, hlt⟩ | rfl)
        · exact ⟨s, rfl, by rw [hcount]; omega⟩
        · have hpos := hmem.mp hcontains
          exact ⟨e.span_id, rfl, by rw [hcount, if_pos rfl]; omega⟩
      · rintro ⟨s, rfl, hlt⟩
        by_cases hs : e.span_id = s
        · exact Or.inr (by rw [hs])
        · rw [hcount, if_neg hs] at hlt
          exact Or.inl ⟨s, rfl, hlt⟩
    · rename_i hcontains
      rw [ih]
      apply exists_congr
      intro s
      apply and_congr_right
      rintro -
      rw [hcount]
      by_cases hs : e.span_id = s
      · -- the first event with its span id
        have hzero := mt hmem.mpr hcontains
        rw [hs] at hzero
        rw [if_pos hs]
        omega
      · rw [if_neg hs]
        omega

theorem get?_spanCounts (events : List (TraceEvent Number)) (span_id : String) :
    ((TypeScript.spanCounts events).get? span_id).getD 0 =
      (events.map TraceEvent.span_id).count span_id := by
  induction events using List.reverseRecOn with
  | nil => rfl
  | append_singleton events e ih =>
    have hstep : TypeScript.spanCounts (events ++ [e]) =
        (TypeScript.spanCounts events).setItem e.span_id
          (((TypeScript.spanCounts events).get? e.span_id).getD 0 + 1) := by
      simp [TypeScript.spanCounts]
    rw [hstep, List.map_append, List.count_append, List.map_singleton, List.count_singleton, ← ih]
    by_cases hs : span_id = e.span_id
    · subst hs
      simp
    · rw [OrderedDict.get?_setItem_of_ne _ _ hs]
      simp [Ne.symm hs]

theorem withCode_registerSpans (code : IssueCode) :
    withCode code (Python.registerSpans group).2 =
      if code = .duplicate_span then (Python.registerSpans group).2 else [] := by
  split
  · subst code
    refine withCode_eq_self fun issue hissue => ?_
    rcases mem_registerSpans_iff.mp hissue with ⟨span_id, rfl, -⟩
    rfl
  · refine withCode_eq_nil fun issue hissue heq => ?_
    rcases mem_registerSpans_iff.mp hissue with ⟨span_id, rfl, -⟩
    exact absurd heq.symm ‹_›

theorem python_checkEvent (spans : OrderedDict String (TraceEvent ℤ)) (e : TraceEvent ℤ) :
    Python.checkEvent spans e =
      issueIf (e.type ∉ Python.eventTypes) .invalid_event (some e.span_id) ++
        issueIf (e.attempt < 0) .invalid_event (some e.span_id) ++ parentIssue spans e := by
  unfold Python.checkEvent parentIssue
  cases e.parent <;> rfl

theorem typescript_checkEvent (counts : OrderedDict String ℕ)
    (spans : OrderedDict String (TraceEvent Number)) (e : TraceEvent Number) :
    TypeScript.checkEvent counts spans e =
      issueIf (TypeScript.invalidEvent e = true) .invalid_event
        (if e.span_id = "" then none else some e.span_id) ++
        issueIf (1 < (counts.get? e.span_id).getD 0) .duplicate_span (some e.span_id) ++
        parentIssue spans e := by
  unfold TypeScript.checkEvent parentIssue
  cases e.parent <;> rfl

/-- What the Python correlator reports under a code. -/
theorem withCode_python (code : IssueCode) (group : List (TraceEvent ℤ)) (starts : List String) :
    withCode code ((Python.registerSpans group).2 ++
        group.flatMap (Python.checkEvent (indexSpans group)) ++
        starts.map fun span_id => ⟨.parent_cycle, some span_id⟩) =
      match code with
      | .duplicate_span => (Python.registerSpans group).2
      | .missing_parent => group.flatMap (parentIssue (indexSpans group))
      | .parent_cycle => starts.map fun span_id => ⟨.parent_cycle, some span_id⟩
      | .invalid_event => group.flatMap fun e =>
          issueIf (e.type ∉ Python.eventTypes) .invalid_event (some e.span_id) ++
            issueIf (e.attempt < 0) .invalid_event (some e.span_id) := by
  simp only [withCode_append, withCode_flatMap, withCode_cycles, withCode_registerSpans,
    python_checkEvent, withCode_issueIf, withCode_parentIssue]
  cases code <;> simp

/-- What the TypeScript correlator reports under a code. -/
theorem withCode_typescript (code : IssueCode) (counts : OrderedDict String ℕ)
    (group : List (TraceEvent Number)) (starts : List String) :
    withCode code (group.flatMap (TypeScript.checkEvent counts (indexSpans group)) ++
        starts.map fun span_id => ⟨.parent_cycle, some span_id⟩) =
      match code with
      | .duplicate_span => group.flatMap fun e =>
          issueIf (1 < (counts.get? e.span_id).getD 0) .duplicate_span (some e.span_id)
      | .missing_parent => group.flatMap (parentIssue (indexSpans group))
      | .parent_cycle => starts.map fun span_id => ⟨.parent_cycle, some span_id⟩
      | .invalid_event => group.flatMap fun e =>
          issueIf (TypeScript.invalidEvent e = true) .invalid_event
            (if e.span_id = "" then none else some e.span_id) := by
  simp only [withCode_append, withCode_flatMap, withCode_cycles, typescript_checkEvent,
    withCode_issueIf, withCode_parentIssue]
  cases code <;> simp

/-! ## One trace -/

/-- The type is one of the five, and no id is blank: each correlator takes one of
these for granted. -/
structure Typed (e : TraceEvent ℤ) : Prop where
  type : e.type ∈ Python.eventTypes
  tenant_id : trim e.tenant_id ≠ ""
  workflow_id : trim e.workflow_id ≠ ""
  trace_id : trim e.trace_id ≠ ""
  span_id : trim e.span_id ≠ ""
  step_id : trim e.step_id ≠ ""

/-- Of a typed event, both correlators check the attempt. -/
theorem Typed.invalidEvent {e : TraceEvent ℤ} (h : Typed e) :
    TypeScript.invalidEvent e.toJavaScript = decide (e.attempt < 0) := by
  have hint : (e.attempt : ℚ).isInt = true := by simp [Rat.isInt]
  have hneg : (e.attempt : ℚ) < 0 ↔ e.attempt < 0 := Rat.intCast_neg_iff
  simp only [TypeScript.invalidEvent, TraceEvent.toJavaScript, h.tenant_id, h.workflow_id,
    h.trace_id, h.span_id, h.step_id, Number.isInteger, Number.isNegative, hint, hneg]
  simp

/-- The parents that the Python correlator follows are those of the graph, where
none of them is missing. -/
theorem python_leads (hparents : Python.ParentsPresent group) :
    ParentWalk.Leads (Python.parentOf (indexSpans group)) =
      TypeScript.ParentEdge (group.map TraceEvent.toJavaScript) := by
  funext s t
  apply propext
  unfold ParentWalk.Leads TypeScript.ParentEdge
  rw [firstSpan?_toJavaScript, span_ids_toJavaScript]
  constructor
  · intro h
    -- a parent that is found is the one of the first event with the span id
    rcases Python.exists_first_of_parentOf h with ⟨e, he, rfl, hfirst, hparent⟩
    exact ⟨e.toJavaScript, by rw [hfirst, Option.map_some], hparent.symm,
      hparents e he hfirst t hparent.symm⟩
  · rintro ⟨e', he', hparent, -⟩
    rcases Option.map_eq_some_iff.mp he' with ⟨e, hfirst, rfl⟩
    rw [Python.parentOf, get?_indexSpans, hfirst]
    exact congrArg Except.ok hparent

/-- The walks of the Python correlator that report stand for the cycles, in whatever
order the set of span ids is iterated. -/
theorem python_represents {sets : Python.SetOrder} (hparents : Python.ParentsPresent group)
    {starts : List String} (h : Python.detectCycles sets (indexSpans group) = .ok starts) :
    Represents (TypeScript.ParentEdge (group.map TraceEvent.toJavaScript)) starts := by
  rcases cycleStarts_eq_ok_iff.mp h with ⟨visited, hsearch⟩
  rw [← python_leads hparents]
  refine (ParentWalk.search_represents (fun s t hst => ?_) hsearch).2
  exact (sets.perm _).mem_iff.mpr (Python.mem_keys_of_parentOf hst)

/-- What the two summaries of a trace have in common; `telemetry` is what both
correlators were given. -/
structure SameTrace (telemetry : List (TraceEvent ℤ)) (s : TraceSummary ℤ)
    (s' : TraceSummary Number) : Prop where
  triple : s.triple = s'.triple
  events : (s.events.map TraceEvent.toJavaScript).Perm s'.events
  missing : withCode .missing_parent s.issues = withCode .missing_parent s'.issues
  /-- Python reports each event after the first, TypeScript the first one too. -/
  duplicates : ∀ issue, issue ∈ withCode .duplicate_span s.issues ↔
    issue ∈ withCode .duplicate_span s'.issues
  invalid : (∀ e ∈ s.events, Typed e) →
    withCode .invalid_event s.issues = withCode .invalid_event s'.issues
  /-- The issues name span ids that lead to the same cycles, one for each cycle. -/
  cycles : ∃ starts starts' : List String,
    withCode .parent_cycle s.issues = (starts.map fun id => ⟨.parent_cycle, some id⟩) ∧
    withCode .parent_cycle s'.issues = (starts'.map fun id => ⟨.parent_cycle, some id⟩) ∧
    (starts.map (cycleFrom (TypeScript.ParentEdge
        (trace s'.triple (telemetry.map TraceEvent.toJavaScript))))).Perm
      (starts'.map (cycleFrom (TypeScript.ParentEdge
        (trace s'.triple (telemetry.map TraceEvent.toJavaScript)))))

/-- The summaries that the two correlators make of one trace. -/
theorem sameTrace {sets : Python.SetOrder} {localeCompare : String → String → ℤ}
    {telemetry : List (TraceEvent ℤ)} {t : String × String × String}
    (hgroup : group = trace t telemetry) (hparents : Python.ParentsPresent group)
    {s : TraceSummary ℤ} {s' : TraceSummary Number} (ht : s.triple = t) (ht' : s'.triple = t)
    {key : String} (hs : Python.summarize sets (key, group) = .ok s)
    {group' : TypeScript.Group} (hgroup' : group'.events = group.map TraceEvent.toJavaScript)
    (hs' : TypeScript.summarize localeCompare group' = .ok s') : SameTrace telemetry s s' := by
  rcases Python.summarize_eq_ok_iff.mp hs with ⟨-, hsorted, starts, hstarts, hissues⟩
  have hperm := StableSort.sorted_perm hsorted
  rcases TypeScript.parentCycles_ok group'.events with ⟨starts', hstarts'⟩
  have hrepr := python_represents hparents hstarts
  have hrepr' := (TypeScript.parentCycles_represents hstarts').2
  simp only [TypeScript.summarize, hstarts'] at hs'
  have heq := Except.ok.inj hs'
  have hissues' : s'.issues = group'.events.flatMap (TypeScript.checkEvent
      (TypeScript.spanCounts group'.events) (indexSpans group'.events)) ++
      starts'.map fun span_id => ⟨.parent_cycle, some span_id⟩ := by rw [← heq]
  have hevents' : s'.events = TypeScript.sortEvents localeCompare group'.events := by rw [← heq]
  rw [hgroup'] at hissues' hevents' hrepr'
  -- both graphs are over the same events
  have htrace : group.map TraceEvent.toJavaScript =
      trace s'.triple (telemetry.map TraceEvent.toJavaScript) := by
    rw [ht', trace_toJavaScript, hgroup]
  constructor
  · rw [ht, ht']
  · rw [hevents']
    exact (hperm.map _).trans (List.perm_insertionSort _ _).symm
  · rw [hissues, hissues', withCode_python, withCode_typescript]
    -- event by event
    simp only [List.flatMap_map]
    refine List.flatMap_congr fun e _ => ?_
    unfold parentIssue
    rw [toJavaScript_parent, toJavaScript_span_id]
    simp only [contains_indexSpans_toJavaScript]
  · intro issue
    rw [hissues, hissues', withCode_python, withCode_typescript]
    simp only [mem_registerSpans_iff, List.mem_flatMap, mem_issueIf, get?_spanCounts,
      span_ids_toJavaScript]
    constructor
    · rintro ⟨span_id, rfl, hlt⟩
      -- a span id that is counted is one of an event
      rcases List.mem_map.mp (List.count_pos_iff.mp (Nat.zero_lt_one.trans hlt)) with ⟨e, he, rfl⟩
      exact ⟨e.toJavaScript, List.mem_map_of_mem he, hlt, rfl⟩
    · rintro ⟨e, -, hlt, rfl⟩
      exact ⟨e.span_id, rfl, hlt⟩
  · intro htyped
    rw [hissues, hissues', withCode_python, withCode_typescript]
    simp only [List.flatMap_map]
    refine List.flatMap_congr fun e he => ?_
    have htype := htyped e (hperm.mem_iff.mpr he)
    -- the one issue names the span id, where TypeScript leaves out an empty one
    have hspan : e.span_id ≠ "" := fun heq => htype.span_id (by rw [heq]; rfl)
    simp [htype.invalidEvent, htype.type, hspan, issueIf]
  · refine ⟨starts, starts', ?_, ?_, ?_⟩
    · rw [hissues, withCode_python]
    · rw [hissues', withCode_typescript]
    · rw [← htrace]
      have hunique : Relator.RightUnique
          (TypeScript.ParentEdge (group.map TraceEvent.toJavaScript)) := by
        rw [← TypeScript.leads_parentOf]
        exact ParentWalk.leads_rightUnique
      rw [List.perm_ext_iff_of_nodup hrepr.nodup hrepr'.nodup]
      -- each side reports every cycle once
      intro C
      rw [hrepr.mem_iff hunique, hrepr'.mem_iff hunique]

/-! ## All traces -/

/-- The triples of the traces, in the order of their first events. -/
def triples {A : Type} (events : List (TraceEvent A)) : List (String × String × String) :=
  (events.map TraceEvent.triple).eraseDups

section Runs

variable {sets : Python.SetOrder} {localeCompare : String → String → ℤ}

/-- The Python summaries are those of the traces, in their order. -/
theorem python_summaries {events : List (TraceEvent ℤ)} {summaries : List (TraceSummary ℤ)}
    (h : Python.correlateAgentTraces sets events = .ok summaries) :
    List.Forall₂ (fun t s => s.triple = t ∧
      Python.summarize sets (Python.traceKey t, trace t events) = .ok s)
      (triples events) summaries := by
  have hsep := ((Python.returns_iff sets).mp ⟨summaries, h⟩).separable
  -- keys can be told apart only if the triples are separable
  have hmem : ∀ t ∈ triples events, Python.Separable t := by
    intro t ht
    rcases List.mem_map.mp (List.mem_eraseDups.mp ht) with ⟨e, he, rfl⟩
    exact hsep e he
  have hkeys : (Python.groupedTraces events).keys = (triples events).map Python.traceKey := by
    rw [Python.groupedTraces, keys_groupWith, triples, ← eraseDups_map, List.map_map]
    · rfl
    · intro t ht t' _ heq
      exact Python.traceKey_inj (hmem t (List.mem_eraseDups.mpr ht)) heq
  have hall : List.Forall₂ (fun key s =>
      Python.summarize sets (key, withKey (fun e => Python.traceKey e.triple) key events) = .ok s)
      (Python.groupedTraces events).keys summaries := by
    refine List.forall₂_map_left_iff.mpr ((Python.forall₂_of_returned h).imp ?_)
    rintro ⟨key, group⟩ s ⟨hgroup, hs⟩
    rw [← hgroup]
    exact hs
  rw [hkeys, List.forall₂_map_left_iff] at hall
  refine ((List.forall₂_and_left _ _).mpr ⟨hmem, hall⟩).imp ?_
  rintro t s ⟨ht, hs⟩
  rw [← Python.keyed_eq_trace hsep t]
  refine ⟨?_, hs⟩
  exact (Python.splitKey_traceKey_iff.mp (Python.summarize_eq_ok_iff.mp hs).1).2

/-- The TypeScript summaries are those of the traces, in their order. -/
theorem typescript_summaries {events : List (TraceEvent Number)}
    {summaries : List (TraceSummary Number)}
    (h : TypeScript.correlateAgentTraces localeCompare events = .ok summaries) :
    List.Forall₂ (fun t s => s.triple = t ∧ ∃ group : TypeScript.Group,
      group.events = trace t events ∧ TypeScript.summarize localeCompare group = .ok s)
      (triples events) summaries := by
  have hkeys : (TypeScript.grouped events).keys = (triples events).map TypeScript.traceKey := by
    rw [TypeScript.grouped, keys_groupWith, triples, ← eraseDups_map, List.map_map]
    · rfl
    · exact fun t _ t' _ heq => TypeScript.traceKey_injective heq
  have hall : List.Forall₂ (fun key s => TypeScript.traceKey s.triple = key ∧
      ∃ group : TypeScript.Group, group.events = trace s.triple events ∧
        TypeScript.summarize localeCompare group = .ok s)
      (TypeScript.grouped events).keys summaries := by
    refine List.forall₂_map_left_iff.mpr ((TypeScript.group_of_summary h).imp ?_)
    rintro ⟨key, group⟩ s ⟨e, -, rfl, htriple, hgroup, hs⟩
    exact ⟨by rw [htriple], group, hgroup, hs⟩
  rw [hkeys, List.forall₂_map_left_iff] at hall
  refine hall.imp ?_
  rintro t s ⟨hkey, group, hgroup, hs⟩
  obtain rfl := TypeScript.traceKey_injective hkey
  exact ⟨rfl, group, hgroup, hs⟩

end Runs

/-- **The correlators agree.** On telemetry on which the Python correlator does not
raise, in whatever order it iterates its sets and whatever order `localeCompare`
gives the span ids, both return, with a summary for each trace in the order of the
first events, and the two summaries of a trace hold the same events and report the
same. -/
theorem correlators_agree {events : List (TraceEvent ℤ)} (h : Python.Processable events)
    (sets : Python.SetOrder) (localeCompare : String → String → ℤ) :
    ∃ summaries summaries',
      Python.correlateAgentTraces sets events = .ok summaries ∧
      TypeScript.correlateAgentTraces localeCompare (events.map TraceEvent.toJavaScript) =
        .ok summaries' ∧
      summaries.map TraceSummary.triple = triples events ∧
      List.Forall₂ (SameTrace events) summaries summaries' := by
  rcases (Python.returns_iff sets).mpr h with ⟨summaries, hpython⟩
  rcases TypeScript.returns localeCompare (events.map TraceEvent.toJavaScript) with
    ⟨summaries', htypescript⟩
  refine ⟨summaries, summaries', hpython, htypescript, ?_, ?_⟩
  · have htriples := (python_summaries hpython).imp fun _ _ hs => hs.1.symm
    -- the summaries carry the triples
    rw [← List.forall₂_eq_eq_eq, List.forall₂_map_left_iff]
    exact htriples.flip.imp fun _ _ hs => hs.symm
  · have htypescript' := typescript_summaries htypescript
    have hsame : triples (events.map TraceEvent.toJavaScript) = triples events := by
      rw [triples, List.map_map]
      rfl
    rw [hsame] at htypescript'
    have hmem : ∀ t ∈ triples events, ∃ e ∈ events, e.triple = t := fun t ht =>
      List.mem_map.mp (List.mem_eraseDups.mp ht)
    refine forall₂_of_common ?_
      ((List.forall₂_and_left _ _).mpr ⟨hmem, python_summaries hpython⟩) htypescript'
    rintro t s s' ⟨⟨e, he, rfl⟩, ht, hs⟩ ⟨ht', group', hgroup', hs'⟩
    -- `t` is the triple of an event `e`
    rw [trace_toJavaScript] at hgroup'
    exact sameTrace rfl (h.parents e he) ht ht' hs hgroup' hs'

/-- Two traces, of which one has two spans that are each other's parents, and a
repeated span whose parent is missing. -/
def mixedTelemetry : List (TraceEvent ℤ) :=
  [⟨"acme", "w", "t", "plan", some "call", "step", 0, "model", 5⟩,
   ⟨"zeta", "w", "t", "x", none, "step", 0, "tool", 1⟩,
   ⟨"acme", "w", "t", "call", some "plan", "step", -1, "tool", 3⟩,
   ⟨"acme", "w", "t", "plan", some "gone", "step", 1, "model", 7⟩]

theorem processable_mixedTelemetry : Python.Processable mixedTelemetry where
  separable := by
    unfold Python.Separable
    decide +kernel
  parents := by
    have hfirst : ∀ e ∈ mixedTelemetry, ∀ f ∈ trace e.triple mixedTelemetry,
        firstSpan? (trace e.triple mixedTelemetry) f.span_id = some f →
        ∀ p ∈ f.parent.toList, p ∈ (trace e.triple mixedTelemetry).map TraceEvent.span_id := by
      decide +kernel
    intro e he f hf hfirst' p hp
    exact hfirst e he f hf hfirst' p (by simp [hp])
  timestamps := by
    unfold Python.OneKind
    decide +kernel

theorem correlators_agree_mixedTelemetry :
    ∃ summaries summaries',
      Python.correlateAgentTraces .inserted mixedTelemetry = .ok summaries ∧
      TypeScript.correlateAgentTraces TypeScript.codePointCompare
        (mixedTelemetry.map TraceEvent.toJavaScript) = .ok summaries' ∧
      summaries.map TraceSummary.triple = triples mixedTelemetry ∧
      List.Forall₂ (SameTrace mixedTelemetry) summaries summaries' :=
  correlators_agree processable_mixedTelemetry .inserted TypeScript.codePointCompare

end InterviewPrep.TraceCorrelator
