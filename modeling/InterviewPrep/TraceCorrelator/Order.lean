import InterviewPrep.TraceCorrelator.Python

/-!
# The order of the events in a Python trace

`correlateAgentTraces` of `answer.py` sorts by `timestamp_ms or span_id`. Where
all timestamps are positive this is the timestamp alone, so events at one moment
keep the order in which they arrived. A trace is shown by timestamp and then span
id exactly if such events arrived in the order of their ids, and whatever order
they arrive in exactly if there are none (`deterministic_iff`).
-/

namespace InterviewPrep.TraceCorrelator

namespace Python

open StableSort

/-! ## The telemetry -/

/-- Telemetry with positive timestamps, parents that are absent or in the trace, ids
without the separator, and distinct span ids in each trace. -/
structure Regular (events : List (TraceEvent ℤ)) : Prop where
  positive : ∀ e ∈ events, 0 < e.timestamp_ms
  parents : ∀ e ∈ events, ∀ p, e.parent = some p →
    p ∈ (trace e.triple events).map TraceEvent.span_id
  separable : ∀ e ∈ events, Separable e.triple
  distinct : ∀ t, ((trace t events).map TraceEvent.span_id).Nodup

theorem trace_perm {events events' : List (TraceEvent ℤ)} (h : events.Perm events')
    (t : String × String × String) : (trace t events).Perm (trace t events') :=
  h.filter _

namespace Regular

variable {events events' : List (TraceEvent ℤ)}

theorem of_perm (h : Regular events) (hperm : events.Perm events') : Regular events' where
  positive := fun e he => h.positive e (hperm.mem_iff.mpr he)
  parents := by
    intro e he p hp
    have hmem := h.parents e (hperm.mem_iff.mpr he) p hp
    exact ((trace_perm hperm e.triple).map _).mem_iff.mp hmem
  separable := fun e he => h.separable e (hperm.mem_iff.mpr he)
  distinct := fun t => ((trace_perm hperm t).map _).nodup_iff.mp (h.distinct t)

theorem processable (h : Regular events) : Processable events where
  separable := h.separable
  parents := by
    intro e _ f hf _ p hp
    rcases mem_withKey.mp hf with ⟨hmem, htriple⟩
    rw [← htriple]
    exact h.parents f hmem p hp
  timestamps := by
    intro e _ f hf g hg
    have hpos := h.positive f (trace_subset hf)
    have hpos' := h.positive g (trace_subset hg)
    omega

theorem nodup_trace (h : Regular events) (t : String × String × String) :
    (trace t events).Nodup :=
  (h.distinct t).of_map

/-- With positive timestamps the sort is one by timestamp. -/
theorem sortEvents_trace (h : Regular events) (t : String × String × String) :
    sortEvents (trace t events) = .ok (sortBy TraceEvent.timestamp_ms (trace t events)) := by
  apply sorted_eq_insertionSort
  intro a ha b hb
  have hpos := h.positive a (trace_subset ha)
  have hpos' := h.positive b (trace_subset hb)
  have ha0 : a.timestamp_ms ≠ 0 := by omega
  have hb0 : b.timestamp_ms ≠ 0 := by omega
  simp [sortKey, ha0, hb0, SortKey.lt]

/-- What the correlator shows: each trace, sorted by timestamp. -/
theorem mem_shown_iff (h : Regular events) {sets : SetOrder} {summaries : List (TraceSummary ℤ)}
    (hrun : correlateAgentTraces sets events = .ok summaries) {t : String × String × String}
    {shown : List (TraceEvent ℤ)} :
    (t, shown) ∈ summaries.map (fun s => (s.triple, s.events)) ↔
      (∃ e ∈ events, e.triple = t) ∧ shown = sortBy TraceEvent.timestamp_ms (trace t events) := by
  refine (partitioned_of_returned hrun).mem_shown_iff fun s hs => ?_
  rcases exists_left_of_forall₂ (forall₂_of_returned hrun) hs with
    ⟨⟨key, group⟩, hmem, hgroup, hsum⟩
  rcases summarize_eq_ok_iff.mp hsum with ⟨hsplit, hsorted, -⟩
  have hkey : traceKey s.triple = key := traceKey_of_splitKey hsplit
  have htrace : group = trace s.triple events := by
    rw [← keyed_eq_trace h.separable, keyed, hkey]
    exact hgroup
  rcases mem_groupedTraces.mp hmem with ⟨-, e, he, htriple⟩
  rw [htrace, h.sortEvents_trace] at hsorted
  refine ⟨⟨e, he, traceKey_inj (h.separable e he) (htriple.trans hkey.symm)⟩, ?_⟩
  exact (Except.ok.inj hsorted).symm

end Regular

/-! ## The order -/

/-- First by timestamp, then by span id. -/
def InOrder (a b : TraceEvent ℤ) : Prop :=
  a.timestamp_ms < b.timestamp_ms ∨
    a.timestamp_ms = b.timestamp_ms ∧ a.span_id ≤ b.span_id

/-- Events of one trace at one moment arrive in the order of their span ids. -/
def TiesInOrder (events : List (TraceEvent ℤ)) : Prop :=
  ∀ t, (trace t events).Pairwise (fun e f => e.timestamp_ms = f.timestamp_ms →
    e.span_id ≤ f.span_id)

/-- No two events of one trace happen at one moment. -/
def NoTies (events : List (TraceEvent ℤ)) : Prop :=
  ∀ t, (trace t events).Pairwise (fun e f => e.timestamp_ms ≠ f.timestamp_ms)

/-- The correlator returns, and shows every trace in order. -/
def ShowsInOrder (events : List (TraceEvent ℤ)) : Prop :=
  ∀ sets, ∃ summaries, correlateAgentTraces sets events = .ok summaries ∧
    ∀ s ∈ summaries, s.events.Pairwise InOrder

/-- The correlator returns, and shows the same traces in whatever order the events
arrive. -/
def OrderIndependent (events : List (TraceEvent ℤ)) : Prop :=
  ∀ sets sets' events', events.Perm events' → ∃ summaries summaries',
    correlateAgentTraces sets events = .ok summaries ∧
    correlateAgentTraces sets' events' = .ok summaries' ∧
    (summaries.map (fun s => (s.triple, s.events))).Perm
      (summaries'.map (fun s => (s.triple, s.events)))

section Regular

variable {events : List (TraceEvent ℤ)}

/-- A property of what is shown is one of every trace. -/
theorem showsInOrder_iff (h : Regular events) :
    ShowsInOrder events ↔
      ∀ t, (sortBy TraceEvent.timestamp_ms (trace t events)).Pairwise InOrder := by
  constructor
  · intro hshow t
    rcases hshow .inserted with ⟨summaries, hrun, hordered⟩
    by_cases hexists : ∃ e ∈ events, e.triple = t
    · rcases List.mem_map.mp ((h.mem_shown_iff hrun).mpr ⟨hexists, rfl⟩) with ⟨s, hs, heq⟩
      rw [← (Prod.mk.inj heq).2]
      exact hordered s hs
    · have hempty : trace t events = [] := by
        rw [List.eq_nil_iff_forall_not_mem]
        intro e he
        exact hexists ⟨e, mem_withKey.mp he⟩
      rw [hempty]
      exact List.Pairwise.nil
  · intro hordered sets
    rcases (returns_iff sets).mpr h.processable with ⟨summaries, hrun⟩
    refine ⟨summaries, hrun, fun s hs => ?_⟩
    rcases (h.mem_shown_iff hrun).mp
      (List.mem_map_of_mem (f := fun s => (s.triple, s.events)) hs) with ⟨-, hevents⟩
    rw [hevents]
    exact hordered s.triple

/-- A trace is shown in order exactly if its ties arrive in order. -/
theorem sortBy_inOrder_iff {l : List (TraceEvent ℤ)} (hnodup : l.Nodup) :
    (sortBy TraceEvent.timestamp_ms l).Pairwise InOrder ↔
      l.Pairwise (fun e f => e.timestamp_ms = f.timestamp_ms → e.span_id ≤ f.span_id) := by
  rw [List.pairwise_iff_forall_sublist, List.pairwise_iff_forall_sublist]
  constructor
  · intro hordered e f hef htie
    rcases hordered (pair_sublist_sortBy htie.le hef) with hlt | ⟨-, hle⟩
    · omega
    · exact hle
  · intro hties e f hef
    have hle := (sortBy_pairwise TraceEvent.timestamp_ms l).forall_sublist hef
    rcases lt_or_eq_of_le hle with hlt | htie
    · exact Or.inl hlt
    · exact Or.inr ⟨htie, hties (pair_sublist_of_sortBy hnodup htie hef) htie⟩

theorem orderIndependent_of_noTies (h : Regular events) (hnone : NoTies events) :
    OrderIndependent events := by
  intro sets sets' events' hperm
  have h' := h.of_perm hperm
  rcases (returns_iff sets).mpr h.processable with ⟨summaries, hrun⟩
  rcases (returns_iff sets').mpr h'.processable with ⟨summaries', hrun'⟩
  refine ⟨summaries, summaries', hrun, hrun', ?_⟩
  rw [List.perm_ext_iff_of_nodup (partitioned_of_returned hrun).nodup_shown
    (partitioned_of_returned hrun').nodup_shown]
  rintro ⟨t, shown⟩
  rw [h.mem_shown_iff hrun, h'.mem_shown_iff hrun',
    sortBy_eq_of_perm (trace_perm hperm t) (hnone t)]
  simp only [hperm.mem_iff]

/-- Turning the telemetry around shows the ties. -/
theorem noTies_of_orderIndependent (h : Regular events) (hind : OrderIndependent events) :
    NoTies events := by
  intro t
  have hperm : events.Perm events.reverse := (List.reverse_perm events).symm
  rcases hind .inserted .inserted _ hperm with ⟨summaries, summaries', hrun, hrun', hshown⟩
  by_cases hexists : ∃ e ∈ events, e.triple = t
  · have hmem := (h.mem_shown_iff hrun).mpr ⟨hexists, rfl⟩
    rw [hshown.mem_iff, (h.of_perm hperm).mem_shown_iff hrun'] at hmem
    apply pairwise_ne_of_sortBy_reverse (h.nodup_trace t)
    rw [hmem.2, trace, withKey, List.filter_reverse]
    rfl
  · rw [trace, withKey, List.filter_eq_nil_iff.mpr]
    · exact List.Pairwise.nil
    · intro e he
      simpa using fun htriple => hexists ⟨e, he, htriple⟩

end Regular

/-- On regular telemetry, the traces are shown in order exactly if the events at one
moment arrive in the order of their span ids. They are also shown alike for every
order of arrival exactly if no two events of a trace happen at one moment. -/
theorem deterministic_iff {events : List (TraceEvent ℤ)} (h : Regular events) :
    (ShowsInOrder events ↔ TiesInOrder events) ∧
    (ShowsInOrder events ∧ OrderIndependent events ↔ NoTies events) := by
  have hordered : ShowsInOrder events ↔ TiesInOrder events := by
    rw [showsInOrder_iff h]
    exact forall_congr' fun t => sortBy_inOrder_iff (h.nodup_trace t)
  refine ⟨hordered, fun hboth => noTies_of_orderIndependent h hboth.2, fun hnone => ?_⟩
  refine ⟨hordered.mpr fun t => ?_, orderIndependent_of_noTies h hnone⟩
  exact (hnone t).imp fun hne htie => absurd htie hne

/-- Two events of a trace at one moment, the later id first. -/
def simultaneous : List (TraceEvent ℤ) :=
  [⟨"a", "w", "t", "y", none, "call", 0, "tool", 5⟩,
   ⟨"a", "w", "t", "x", none, "plan", 0, "model", 5⟩]

theorem regular_simultaneous : Regular simultaneous where
  positive := by decide
  parents := by
    intro e he p hp
    have hnone : ∀ e ∈ simultaneous, e.parent = none := by decide
    rw [hnone e he] at hp
    simp at hp
  separable := by
    unfold Separable
    decide +kernel
  distinct := fun t =>
    (List.filter_sublist.map TraceEvent.span_id).nodup (by decide +kernel)

theorem deterministic_iff_simultaneous :
    (ShowsInOrder simultaneous ↔ TiesInOrder simultaneous) ∧
    (ShowsInOrder simultaneous ∧ OrderIndependent simultaneous ↔ NoTies simultaneous) :=
  deterministic_iff regular_simultaneous

/-- They are shown as they arrive: out of order, and differently when they are turned
around. -/
theorem arrival_order_shown :
    Regular simultaneous ∧ ¬ ShowsInOrder simultaneous ∧ ¬ OrderIndependent simultaneous := by
  have hrun : correlateAgentTraces .inserted simultaneous =
      .ok [⟨"a", "w", "t", simultaneous, []⟩] := by decide +kernel
  refine ⟨regular_simultaneous, ?_, ?_⟩
  · intro hshow
    rcases hshow .inserted with ⟨summaries, hsummaries, hordered⟩
    rcases Except.ok.inj (hrun.symm.trans hsummaries) with rfl
    have hpair := (hordered _ List.mem_cons_self).forall_sublist (List.Sublist.refl _)
    revert hpair
    unfold InOrder
    decide +kernel
  · intro hind
    have hnone := noTies_of_orderIndependent regular_simultaneous hind ("a", "w", "t")
    revert hnone
    decide +kernel

end Python

end InterviewPrep.TraceCorrelator
