import InterviewPrep.Lib.ParentCycles
import InterviewPrep.TraceCorrelator.TypeScript

/-!
# The cycles of parents in a trace

The graph of a trace points from each span id to the parent of its first event,
where that is an id of the trace. `correlateAgentTraces` of `answer.ts` reports a
`parent_cycle` for each cycle of this graph, once, under a span id that leads to
it (`parent_cycles_reported`). The search itself is `Lib/ParentCycles.lean`.
-/

namespace InterviewPrep.TraceCorrelator

namespace TypeScript

open JavaScript FunctionalGraph

/-! ## The graph -/

/-- The first event of a span id has this parent, and the trace has the parent. -/
def ParentEdge (group : List (TraceEvent Number)) (span_id parent_span_id : String) : Prop :=
  ∃ e, firstSpan? group span_id = some e ∧ e.parent = some parent_span_id ∧
    parent_span_id ∈ group.map TraceEvent.span_id

section Graph

variable {group : List (TraceEvent Number)}

/-- The recursion follows the edges of the graph. -/
theorem leads_parentOf :
    ParentWalk.Leads (parentOf (indexSpans group)) = ParentEdge group := by
  funext s t
  rw [ParentWalk.Leads, parentOf, get?_indexSpans]
  apply propext
  unfold ParentEdge
  cases hfirst : firstSpan? group s with
  | none => simp
  | some e =>
    have hcontains : (indexSpans group).contains t = true ↔ t ∈ group.map TraceEvent.span_id := by
      rw [OrderedDict.contains_eq_isSome, get?_indexSpans_isSome_iff]
    simp only [Except.ok.injEq, Option.filter_eq_some_iff, hcontains, Option.some.injEq,
      exists_eq_left']

theorem mem_span_ids_of_parentEdge {s t : String} (h : ParentEdge group s t) :
    s ∈ group.map TraceEvent.span_id := by
  rcases h with ⟨e, hfirst, -, -⟩
  rw [← get?_indexSpans_isSome_iff, get?_indexSpans, hfirst]
  rfl

/-- The walks that report stand for the cycles. -/
theorem parentCycles_represents {starts : List String}
    (h : parentCycles (indexSpans group) group = .ok starts) :
    starts ⊆ group.map TraceEvent.span_id ∧ Represents (ParentEdge group) starts := by
  rcases cycleStarts_eq_ok_iff.mp h with ⟨visited, hsearch⟩
  rw [← leads_parentOf]
  refine ParentWalk.search_represents (fun s t hst => ?_) hsearch
  rw [leads_parentOf] at hst
  exact mem_span_ids_of_parentEdge hst

end Graph

/-! ## The issues -/

/-- The issues of a code. -/
def withCode (code : IssueCode) (issues : List TraceIssue) : List TraceIssue :=
  issues.filter (fun issue => issue.code = code)

/-- The `parent_cycle` issues name one span id of the trace for each cycle, from
which its own cycle is reached. -/
structure CyclesReported (group : List (TraceEvent Number)) (issues : List TraceIssue)
    (starts : List String) : Prop where
  issues_eq : withCode .parent_cycle issues =
    starts.map (fun span_id => ⟨.parent_cycle, some span_id⟩)
  named : ∀ s ∈ starts, s ∈ group.map TraceEvent.span_id
  distinct : (starts.map (cycleFrom (ParentEdge group))).Nodup
  exact : ∀ C, C ∈ starts.map (cycleFrom (ParentEdge group)) ↔ C ∈ cycles (ParentEdge group)
  finite : (cycles (ParentEdge group)).Finite
  count : (withCode .parent_cycle issues).length = (cycles (ParentEdge group)).ncard

/-- The checks of single events do not report cycles. -/
theorem withCode_checkEvent (counts : OrderedDict String ℕ)
    (spans : OrderedDict String (TraceEvent Number)) (events : List (TraceEvent Number)) :
    withCode .parent_cycle (events.flatMap (checkEvent counts spans)) = [] := by
  rw [withCode, List.filter_eq_nil_iff]
  intro issue hissue
  rcases List.mem_flatMap.mp hissue with ⟨event, -, hissue⟩
  unfold checkEvent at hissue
  rw [List.mem_append, List.mem_append, mem_issueIf, mem_issueIf] at hissue
  rcases hissue with (⟨-, rfl⟩ | ⟨-, rfl⟩) | hissue
  · simp
  · simp
  · split at hissue
    · simp at hissue
    · rcases mem_issueIf.mp hissue with ⟨-, rfl⟩
      simp

theorem issues_of_summarize {localeCompare : String → String → ℤ} {group : Group}
    {s : TraceSummary Number} (h : summarize localeCompare group = .ok s) :
    ∃ starts, parentCycles (indexSpans group.events) group.events = .ok starts ∧
      withCode .parent_cycle s.issues =
        starts.map (fun span_id => ⟨.parent_cycle, some span_id⟩) := by
  rcases parentCycles_ok group.events with ⟨starts, hstarts⟩
  refine ⟨starts, hstarts, ?_⟩
  simp only [summarize, hstarts] at h
  rw [← Except.ok.inj h]
  change withCode .parent_cycle (_ ++ _) = _
  rw [withCode, List.filter_append]
  change withCode .parent_cycle _ ++ _ = _
  rw [withCode_checkEvent, List.nil_append, List.filter_eq_self]
  intro issue hissue
  rcases List.mem_map.mp hissue with ⟨span_id, -, rfl⟩
  rfl

/-- The correlator returns on all events, with a summary for every trace, and in
each the cycles of its parents are reported, each once. -/
theorem parent_cycles_reported (localeCompare : String → String → ℤ)
    (events : List (TraceEvent Number)) :
    ∃ summaries, correlateAgentTraces localeCompare events = .ok summaries ∧
      Partitioned events summaries ∧
      ∀ s ∈ summaries, ∃ starts, CyclesReported (trace s.triple events) s.issues starts := by
  rcases returns localeCompare events with ⟨summaries, h⟩
  refine ⟨summaries, h, partitioned_of_returned h, fun s hs => ?_⟩
  rcases exists_left_of_forall₂ (group_of_summary h) hs with ⟨p, -, e, -, -, -, hgroup, hsum⟩
  rcases issues_of_summarize hsum with ⟨starts, hstarts, hissues⟩
  rw [hgroup] at hstarts
  rcases parentCycles_represents hstarts with ⟨hnamed, hrepr⟩
  have hunique : Relator.RightUnique (ParentEdge (trace s.triple events)) := by
    rw [← leads_parentOf]
    exact ParentWalk.leads_rightUnique
  rcases hrepr.ncard hunique with ⟨hfinite, hcount⟩
  refine ⟨starts, hissues, hnamed, hrepr.nodup, hrepr.mem_iff hunique, hfinite, ?_⟩
  rw [hissues, List.length_map, hcount]

end TypeScript

end InterviewPrep.TraceCorrelator
