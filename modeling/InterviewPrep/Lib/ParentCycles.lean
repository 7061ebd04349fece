import InterviewPrep.Lib.FunctionalGraph
import InterviewPrep.Lib.ParentWalk

/-!
# The cycles that walks along parents find

A walk of `Lib/ParentWalk.lean` reports a cycle when it comes back to its own
path. The walks share the visited nodes, and one that reports leaves its path
visited. Since a node leads to one cycle at most, this is right: a walk reports
exactly if it has visited a cycle for the first time (`walk_onCycle_iff`), so the
reported starts stand for the cycles, each once (`search_represents`).
-/

namespace InterviewPrep

namespace ParentWalk

open Relation FunctionalGraph

variable {κ ε : Type*} [DecidableEq κ] {next : κ → Except ε (Option κ)}

/-- The graph of the parents. -/
def Leads (next : κ → Except ε (Option κ)) (s t : κ) : Prop := next s = .ok (some t)

omit [DecidableEq κ] in
theorem leads_rightUnique : Relator.RightUnique (Leads next) := by
  intro s t u ht hu
  unfold Leads at ht hu
  rw [ht] at hu
  exact Option.some.inj (Except.ok.inj hu)

/-- With a node, the list has its parent. -/
def KeepsParents (next : κ → Except ε (Option κ)) (visited : List κ) : Prop :=
  ∀ s ∈ visited, ∀ t, Leads next s t → t ∈ visited

omit [DecidableEq κ] in
theorem KeepsParents.reach {visited : List κ} (h : KeepsParents next visited) {s t : κ}
    (hs : s ∈ visited) (hst : ReflTransGen (Leads next) s t) : t ∈ visited := by
  induction hst with
  | refl => exact hs
  | tail _ hstep ih => exact h _ ih _ hstep

omit [DecidableEq κ] in
theorem ClosedOver.keepsParents {old visited : List κ} (hold : KeepsParents next old)
    (hsub : old ⊆ visited) (h : ClosedOver next old visited) : KeepsParents next visited := by
  intro s hs t ht
  rcases h s hs with hs | ⟨p, hp, hmem⟩
  · exact hsub (hold s hs t ht)
  · unfold Leads at ht
    rw [hp] at ht
    exact hmem t (Except.ok.inj ht)

/-- A walk in progress: `old` was visited before it, and everything on its path
leads to where it stands. -/
structure Walking (next : κ → Except ε (Option κ)) (start : κ) (old path : List κ) (s : κ) :
    Prop where
  keeps : KeepsParents next old
  fresh : ∀ u ∈ path, u ∉ old
  here : ReflTransGen (Leads next) start s
  reached : ∀ u ∈ path, ReflTransGen (Leads next) start u
  leads : ∀ u ∈ path, TransGen (Leads next) u s

namespace Walking

variable {start s t : κ} {old path : List κ}

omit [DecidableEq κ] in
theorem step (h : Walking next start old path s) (hs : s ∉ old) (ht : Leads next s t) :
    Walking next start old (s :: path) t where
  keeps := h.keeps
  fresh := List.forall_mem_cons.mpr ⟨hs, h.fresh⟩
  here := h.here.tail ht
  reached := List.forall_mem_cons.mpr ⟨h.here, h.reached⟩
  leads := List.forall_mem_cons.mpr ⟨TransGen.single ht, fun u hu => (h.leads u hu).tail ht⟩

omit [DecidableEq κ] in
/-- A walk that runs into an older one has no cycle on its path: the cycle would
lead back to the path. -/
theorem not_onCycle_of_old (h : Walking next start old path s) (hs : s ∈ old) :
    ∀ u ∈ path, ¬ OnCycle (Leads next) u := by
  intro u hu hcycle
  have hback := hcycle.back leads_rightUnique (h.leads u hu).to_reflTransGen
  exact h.fresh u hu (h.keeps.reach hs hback)

omit [DecidableEq κ] in
/-- A walk that ends at a node without a parent has no cycle on its path. -/
theorem not_onCycle_of_root (h : Walking next start old path s) (hs : next s = .ok none) :
    ∀ u ∈ s :: path, ¬ OnCycle (Leads next) u := by
  have hroot : ¬ OnCycle (Leads next) s := by
    intro hcycle
    rcases hcycle.exists_successor with ⟨t, ht, -⟩
    simp [Leads, hs] at ht
  intro u hu hcycle
  rcases List.mem_cons.mp hu with rfl | hu
  · exact hroot hcycle
  · exact hroot (hcycle.of_reach leads_rightUnique (h.leads u hu).to_reflTransGen)

end Walking

/-- What a walk has visited is its path, which it adds to the nodes visited
before. It reports exactly if there is a cycle on the path. -/
theorem walk_onCycle_iff {bound : ℕ} {start s : κ} {old path visited : List κ} {found : Bool}
    (hwalking : Walking next start old path s)
    (h : walk next bound path (path ++ old) s = some (.ok (found, visited))) :
    ∃ path', visited = path' ++ old ∧ (∀ u ∈ path', u ∉ old) ∧
      (∀ u ∈ path', ReflTransGen (Leads next) start u) ∧
      (found = true ↔ ∃ u ∈ path', OnCycle (Leads next) u) := by
  induction bound generalizing path s with
  | zero => simp [walk] at h
  | succ bound ih =>
    unfold walk at h
    split at h
    · -- back on the path
      rename_i hs
      simp only [Option.some.injEq, Except.ok.injEq, Prod.mk.injEq] at h
      rcases h with ⟨rfl, rfl⟩
      exact ⟨path, rfl, hwalking.fresh, hwalking.reached,
        iff_of_true rfl ⟨s, hs, hwalking.leads s hs⟩⟩
    · rename_i hpath
      split at h
      · -- an older walk was here
        rename_i hs
        simp only [Option.some.injEq, Except.ok.injEq, Prod.mk.injEq] at h
        rcases h with ⟨rfl, rfl⟩
        have hold : s ∈ old := (List.mem_append.mp hs).resolve_left hpath
        refine ⟨path, rfl, hwalking.fresh, hwalking.reached, iff_of_false (by simp) ?_⟩
        rintro ⟨u, hu, hcycle⟩
        exact hwalking.not_onCycle_of_old hold u hu hcycle
      · rename_i hs
        have hold : s ∉ old := fun hmem => hs (List.mem_append_right _ hmem)
        split at h
        · simp at h
        · -- no parent
          rename_i hnext
          simp only [Option.some.injEq, Except.ok.injEq, Prod.mk.injEq] at h
          rcases h with ⟨rfl, rfl⟩
          refine ⟨s :: path, rfl, List.forall_mem_cons.mpr ⟨hold, hwalking.fresh⟩,
            List.forall_mem_cons.mpr ⟨hwalking.here, hwalking.reached⟩,
            iff_of_false (by simp) ?_⟩
          rintro ⟨u, hu, hcycle⟩
          exact hwalking.not_onCycle_of_root hnext u hu hcycle
        · rename_i t hnext
          exact ih (hwalking.step hold hnext) h

/-- The starts that a search reports stand for the cycles that it is the first to
visit. -/
structure Reports (next : κ → Except ε (Option κ)) (old visited reported : List κ) : Prop where
  reaches : ∀ s ∈ reported, ∃ t, ReflTransGen (Leads next) s t ∧ OnCycle (Leads next) t ∧ t ∉ old
  apart : reported.Pairwise (fun s s' => ∀ t, ReflTransGen (Leads next) s t →
    ReflTransGen (Leads next) s' t → ¬ OnCycle (Leads next) t)
  covers : ∀ t ∈ visited, t ∉ old → OnCycle (Leads next) t →
    ∃ s ∈ reported, ReflTransGen (Leads next) s t

namespace Reports

variable {old path visited reported : List κ} {s : κ}

omit [DecidableEq κ] in
/-- A walk without a cycle comes before the other walks. -/
theorem skip (h : Reports next (path ++ old) visited reported)
    (hpath : ∀ u ∈ path, ¬ OnCycle (Leads next) u) : Reports next old visited reported where
  reaches := by
    intro s hs
    rcases h.reaches s hs with ⟨t, hst, ht, hnew⟩
    exact ⟨t, hst, ht, fun hold => hnew (List.mem_append_right _ hold)⟩
  apart := h.apart
  covers := by
    intro t ht hold hcycle
    refine h.covers t ht ?_ hcycle
    rw [List.mem_append, not_or]
    exact ⟨fun hmem => hpath t hmem hcycle, hold⟩

omit [DecidableEq κ] in
/-- A walk that found a cycle comes before the other walks. -/
theorem report (h : Reports next (path ++ old) visited reported)
    (hkeeps : KeepsParents next (path ++ old)) (hfresh : ∀ u ∈ path, u ∉ old)
    (hreached : ∀ u ∈ path, ReflTransGen (Leads next) s u)
    (hcycle : ∃ u ∈ path, OnCycle (Leads next) u) : Reports next old visited (s :: reported) := by
  rcases hcycle with ⟨u, hu, hcycle⟩
  constructor
  · refine List.forall_mem_cons.mpr ⟨⟨u, hreached u hu, hcycle, hfresh u hu⟩, ?_⟩
    intro s' hs'
    rcases h.reaches s' hs' with ⟨t, hst, ht, hnew⟩
    exact ⟨t, hst, ht, fun hold => hnew (List.mem_append_right _ hold)⟩
  · refine List.pairwise_cons.mpr ⟨?_, h.apart⟩
    intro s' hs' t hst hst' ht
    -- the later cycle is not visited yet, but would be reached from the path
    rcases h.reaches s' hs' with ⟨t', hst'', ht', hnew⟩
    have hut : ReflTransGen (Leads next) u t := ht.reach_of_common leads_rightUnique
      (hreached u hu) hst
    have htt' : ReflTransGen (Leads next) t t' := ht'.reach_of_common leads_rightUnique
      hst' hst''
    exact hnew (hkeeps.reach (List.mem_append_left _ hu) (hut.trans htt'))
  · intro t ht hold hcyc
    by_cases hmem : t ∈ path
    · exact ⟨s, List.mem_cons_self, hreached t hmem⟩
    · rcases h.covers t ht (by simp [hmem, hold]) hcyc with ⟨s', hs', hst⟩
      exact ⟨s', List.mem_cons_of_mem _ hs', hst⟩

end Reports

theorem reports_of_search {bound : ℕ} {starts visited visited' reported : List κ}
    (hkeeps : KeepsParents next visited)
    (h : search next bound starts visited = some (.ok (reported, visited'))) :
    reported ⊆ starts ∧ Reports next visited visited' reported := by
  induction starts generalizing visited reported with
  | nil =>
    simp only [search, Option.some.injEq, Except.ok.injEq, Prod.mk.injEq] at h
    rcases h with ⟨rfl, rfl⟩
    exact ⟨List.Subset.refl _, by simp, List.Pairwise.nil, fun t ht hnot => absurd ht hnot⟩
  | cons s starts ih =>
    rcases search_cons_cases h with ⟨hs, hrest⟩ | ⟨hs, found, mid, reported', hwalk, hrest, rfl⟩
    · rcases ih hkeeps hrest with ⟨hsub, hreports⟩
      exact ⟨List.subset_cons_of_subset s hsub, hreports⟩
    · rcases walk_closed (List.nil_subset _) hwalk with ⟨hsub, -, hclosed⟩
      have hmid := ClosedOver.keepsParents hkeeps hsub hclosed
      have hwalking : Walking next s visited [] s :=
        ⟨hkeeps, by simp, ReflTransGen.refl, by simp, by simp⟩
      rcases walk_onCycle_iff hwalking hwalk with ⟨path, rfl, hfresh, hreached, hfound⟩
      rcases ih hmid hrest with ⟨hsub', hreports⟩
      cases found with
      | true =>
        exact ⟨List.cons_subset_cons s hsub',
          hreports.report hmid hfresh hreached (hfound.mp rfl)⟩
      | false =>
        refine ⟨List.subset_cons_of_subset s hsub', hreports.skip ?_⟩
        intro u hu hcycle
        simpa using hfound.mpr ⟨u, hu, hcycle⟩

/-- A search from all nodes that have parents reports the cycles, each once. -/
theorem search_represents {bound : ℕ} {starts visited reported : List κ}
    (hstarts : ∀ s t, Leads next s t → s ∈ starts)
    (h : search next bound starts [] = some (.ok (reported, visited))) :
    reported ⊆ starts ∧ Represents (Leads next) reported := by
  rcases reports_of_search (fun s hs => absurd hs List.not_mem_nil) h with ⟨hsub, hreports⟩
  rcases search_closed h with ⟨-, hvisited, -⟩
  refine ⟨hsub, ?_, hreports.apart, ?_⟩
  · intro s hs
    rcases hreports.reaches s hs with ⟨t, hst, ht, -⟩
    exact ⟨t, hst, ht⟩
  · intro t ht
    rcases ht.exists_successor with ⟨u, htu, -⟩
    exact hreports.covers t (hvisited (hstarts t u htu)) List.not_mem_nil ht

end ParentWalk

end InterviewPrep
