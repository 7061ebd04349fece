import Mathlib.Data.List.Basic

/-!
# Walks along parents

A graph in which every node has at most one successor, its parent, is searched
by walks: from each node that no walk has visited, follow the parents until a
node comes back on the same walk (a cycle), a visited node is met, or the
parents end. Looking up a parent may fail, which ends the search.

The walks have a bound on their length, and return nothing when it is too
small. A bound above the number of the nodes is enough (`walk_isSome`). A search
that succeeds has looked up the parent of every node it came to
(`search_closed`), and one in which no lookup can fail succeeds (`search_ok`).
-/

namespace InterviewPrep

namespace ParentWalk

variable {κ ε : Type*} [DecidableEq κ]

/-- One walk from a node; `path` holds the nodes of the walk so far. The answer
tells whether the walk met its own path, and which nodes are visited now. -/
def walk (next : κ → Except ε (Option κ)) :
    ℕ → List κ → List κ → κ → Option (Except ε (Bool × List κ))
  | 0, _, _, _ => none
  | bound + 1, path, visited, s =>
    if s ∈ path then some (.ok (true, visited))
    else if s ∈ visited then some (.ok (false, visited))
    else
      match next s with
      | .error e => some (.error e)
      | .ok none => some (.ok (false, s :: visited))
      | .ok (some t) => walk next bound (s :: path) (s :: visited) t

/-- The walks from the nodes of a list; the answer lists the starts of the walks
that met their own path. -/
def search (next : κ → Except ε (Option κ)) (bound : ℕ) :
    List κ → List κ → Option (Except ε (List κ × List κ))
  | [], visited => some (.ok ([], visited))
  | s :: starts, visited =>
    if s ∈ visited then search next bound starts visited
    else
      match walk next bound [] visited s with
      | none => none
      | some (.error e) => some (.error e)
      | some (.ok (found, visited')) =>
        match search next bound starts visited' with
        | none => none
        | some (.error e) => some (.error e)
        | some (.ok (reported, visited'')) =>
          some (.ok (if found then s :: reported else reported, visited''))

variable {next : κ → Except ε (Option κ)} {nodes : List κ}

/-! ## The bound -/

/-- The nodes that are not visited yet. -/
def unvisited (nodes visited : List κ) : List κ := nodes.filter (fun s => s ∉ visited)

theorem unvisited_cons_lt {visited : List κ} {s : κ} (hs : s ∈ nodes) (hv : s ∉ visited) :
    (unvisited nodes (s :: visited)).length < (unvisited nodes visited).length := by
  have hsub : unvisited nodes (s :: visited) =
      (unvisited nodes visited).filter (fun t => t ≠ s) := by
    rw [unvisited, unvisited, List.filter_filter]
    apply List.filter_congr
    intro t _
    simp [not_or]
  rw [hsub]
  apply List.length_filter_lt_length_iff_exists.mpr
  exact ⟨s, List.mem_filter.mpr ⟨hs, by simpa using hv⟩, by simp⟩

/-- A walk ends when only the nodes of a list have parents and the bound is above
the number of those not visited. -/
theorem walk_isSome (hnodes : ∀ s t, next s = .ok (some t) → s ∈ nodes) {bound : ℕ}
    {path visited : List κ} (hbound : (unvisited nodes visited).length < bound) (s : κ) :
    (walk next bound path visited s).isSome = true := by
  induction bound generalizing path visited s with
  | zero => omega
  | succ bound ih =>
    unfold walk
    split
    · rfl
    · split
      · rfl
      · -- a new node: fewer are unvisited now
        rename_i hv
        split
        · rfl
        · rfl
        · rename_i t hnext
          have hlt := unvisited_cons_lt (hnodes s t hnext) hv
          exact ih (by omega) t

/-- A search ends when the bound is above the number of the nodes. -/
theorem search_isSome (hnodes : ∀ s t, next s = .ok (some t) → s ∈ nodes) {bound : ℕ}
    (hbound : nodes.length < bound) (starts visited : List κ) :
    (search next bound starts visited).isSome = true := by
  induction starts generalizing visited with
  | nil => rfl
  | cons s starts ih =>
    have hwalk : (walk next bound [] visited s).isSome = true := by
      refine walk_isSome hnodes ?_ s
      exact Nat.lt_of_le_of_lt (List.length_filter_le _ _) hbound
    rcases Option.isSome_iff_exists.mp hwalk with ⟨r, hr⟩
    unfold search
    split
    · exact ih visited
    · rw [hr]
      cases r with
      | error e => rfl
      | ok found =>
        rcases Option.isSome_iff_exists.mp (ih found.2) with ⟨q, hq⟩
        simp only [hq]
        cases q <;> rfl

/-! ## What a search has seen -/

/-- The parents of the nodes of a list, other than those of `old`, were looked
up, and are in the list too. -/
def ClosedOver (next : κ → Except ε (Option κ)) (old visited : List κ) : Prop :=
  ∀ s ∈ visited, s ∈ old ∨ ∃ t, next s = .ok t ∧ ∀ p, t = some p → p ∈ visited

theorem walk_closed {bound : ℕ} {path visited visited' : List κ} {s : κ} {found : Bool}
    (hpath : path ⊆ visited) (h : walk next bound path visited s = some (.ok (found, visited'))) :
    visited ⊆ visited' ∧ s ∈ visited' ∧ ClosedOver next visited visited' := by
  induction bound generalizing path visited s with
  | zero => simp [walk] at h
  | succ bound ih =>
    unfold walk at h
    split at h
    · -- a cycle: the node is on the path
      rename_i hs
      simp only [Option.some.injEq, Except.ok.injEq, Prod.mk.injEq] at h
      rcases h with ⟨-, rfl⟩
      exact ⟨List.Subset.refl _, hpath hs, fun x hx => Or.inl hx⟩
    · split at h
      · -- met by an earlier walk
        rename_i hs
        simp only [Option.some.injEq, Except.ok.injEq, Prod.mk.injEq] at h
        rcases h with ⟨-, rfl⟩
        exact ⟨List.Subset.refl _, hs, fun x hx => Or.inl hx⟩
      · split at h
        · simp at h
        · -- no parent
          rename_i hnext
          simp only [Option.some.injEq, Except.ok.injEq, Prod.mk.injEq] at h
          rcases h with ⟨-, rfl⟩
          refine ⟨List.subset_cons_self _ _, List.mem_cons_self, ?_⟩
          intro x hx
          rcases List.mem_cons.mp hx with rfl | hx
          · exact Or.inr ⟨none, hnext, by simp⟩
          · exact Or.inl hx
        · rename_i t hnext
          rcases ih (List.cons_subset_cons s hpath) h with ⟨hsub, ht, hclosed⟩
          refine ⟨List.Subset.trans (List.subset_cons_self s visited) hsub,
            hsub List.mem_cons_self, ?_⟩
          intro x hx
          rcases hclosed x hx with hold | hnew
          · rcases List.mem_cons.mp hold with rfl | hold
            · -- the node of this step: its parent was walked to
              refine Or.inr ⟨some t, hnext, fun p hp => ?_⟩
              rw [← Option.some.inj hp]
              exact ht
            · exact Or.inl hold
          · exact Or.inr hnew

omit [DecidableEq κ] in
theorem ClosedOver.trans {old mid visited : List κ} (h : ClosedOver next old mid)
    (h' : ClosedOver next mid visited) (hsub : mid ⊆ visited) :
    ClosedOver next old visited := by
  intro s hs
  rcases h' s hs with hmid | hnew
  · rcases h s hmid with hold | ⟨t, ht, hp⟩
    · exact Or.inl hold
    · exact Or.inr ⟨t, ht, fun p hpt => hsub (hp p hpt)⟩
  · exact Or.inr hnew

/-- What a search from one more node does when it succeeds. -/
theorem search_cons_cases {bound : ℕ} {s : κ} {starts visited visited' reported : List κ}
    (h : search next bound (s :: starts) visited = some (.ok (reported, visited'))) :
    s ∈ visited ∧ search next bound starts visited = some (.ok (reported, visited')) ∨
      s ∉ visited ∧ ∃ found mid reported',
        walk next bound [] visited s = some (.ok (found, mid)) ∧
        search next bound starts mid = some (.ok (reported', visited')) ∧
        reported = if found then s :: reported' else reported' := by
  unfold search at h
  split at h
  · rename_i hs
    exact Or.inl ⟨hs, h⟩
  · rename_i hs
    split at h
    · simp at h
    · simp at h
    · rename_i found mid hwalk
      split at h
      · simp at h
      · simp at h
      · rename_i reported' visited'' hrest
        simp only [Option.some.injEq, Except.ok.injEq, Prod.mk.injEq] at h
        rcases h with ⟨hreported, rfl⟩
        exact Or.inr ⟨hs, found, mid, reported', hwalk, hrest, hreported.symm⟩

/-- A search that succeeds has visited its starts, and the parents of all it has
visited. -/
theorem search_closed {bound : ℕ} {starts visited visited' reported : List κ}
    (h : search next bound starts visited = some (.ok (reported, visited'))) :
    visited ⊆ visited' ∧ starts ⊆ visited' ∧ ClosedOver next visited visited' := by
  induction starts generalizing visited reported with
  | nil =>
    simp only [search, Option.some.injEq, Except.ok.injEq, Prod.mk.injEq] at h
    rcases h with ⟨-, rfl⟩
    exact ⟨List.Subset.refl _, List.nil_subset _, fun x hx => Or.inl hx⟩
  | cons s starts ih =>
    rcases search_cons_cases h with ⟨hs, hrest⟩ | ⟨-, found, mid, reported', hwalk, hrest, rfl⟩
    · -- a start that is visited is skipped
      rcases ih hrest with ⟨hsub, hstarts, hclosed⟩
      exact ⟨hsub, List.cons_subset.mpr ⟨hsub hs, hstarts⟩, hclosed⟩
    · rcases walk_closed (List.nil_subset _) hwalk with ⟨hsub, hs, hclosed⟩
      rcases ih hrest with ⟨hsub', hstarts, hclosed'⟩
      exact ⟨List.Subset.trans hsub hsub', List.cons_subset.mpr ⟨hsub' hs, hstarts⟩,
        hclosed.trans hclosed' hsub'⟩

/-! ## Failures -/

theorem exists_of_walk_error {bound : ℕ} {path visited : List κ} {s : κ} {e : ε}
    (h : walk next bound path visited s = some (.error e)) : ∃ t, next t = .error e := by
  induction bound generalizing path visited s with
  | zero => simp [walk] at h
  | succ bound ih =>
    unfold walk at h
    split at h
    · simp at h
    · split at h
      · simp at h
      · split at h
        · rename_i e' hnext
          simp only [Option.some.injEq, Except.error.injEq] at h
          exact ⟨s, by rw [hnext, h]⟩
        · simp at h
        · exact ih h

/-- A search that fails does so with the error of a lookup. -/
theorem exists_of_search_error {bound : ℕ} {starts visited : List κ} {e : ε}
    (h : search next bound starts visited = some (.error e)) : ∃ t, next t = .error e := by
  induction starts generalizing visited with
  | nil => simp [search] at h
  | cons s starts ih =>
    unfold search at h
    split at h
    · exact ih h
    · split at h
      · simp at h
      · rename_i e' hwalk
        simp only [Option.some.injEq, Except.error.injEq] at h
        rw [h] at hwalk
        exact exists_of_walk_error hwalk
      · split at h
        · simp at h
        · rename_i e' hrest
          simp only [Option.some.injEq, Except.error.injEq] at h
          rw [h] at hrest
          exact ih hrest
        · simp at h

/-! ## Searches without failures -/

/-- Every node of the list has its parent in the list, or none. -/
def Closed (next : κ → Except ε (Option κ)) (nodes : List κ) : Prop :=
  ∀ s ∈ nodes, ∃ t, next s = .ok t ∧ ∀ p, t = some p → p ∈ nodes

theorem walk_no_error (hclosed : Closed next nodes) {bound : ℕ} {path visited : List κ} {s : κ}
    (hs : s ∈ nodes) {e : ε} : walk next bound path visited s ≠ some (.error e) := by
  induction bound generalizing path visited s with
  | zero => simp [walk]
  | succ bound ih =>
    rcases hclosed s hs with ⟨t, ht, hp⟩
    unfold walk
    split
    · simp
    · split
      · simp
      · rw [ht]
        cases t with
        | none => simp
        | some p => exact ih (hp p rfl)

/-- When no lookup fails, a search with a bound above the number of the nodes
succeeds. -/
theorem search_ok (hclosed : Closed next nodes)
    (hnodes : ∀ s t, next s = .ok (some t) → s ∈ nodes) {bound : ℕ}
    (hbound : nodes.length < bound) {starts : List κ} (hstarts : starts ⊆ nodes)
    (visited : List κ) :
    ∃ reported visited', search next bound starts visited = some (.ok (reported, visited')) := by
  induction starts generalizing visited with
  | nil => exact ⟨[], visited, rfl⟩
  | cons s starts ih =>
    rcases List.cons_subset.mp hstarts with ⟨hs, hstarts⟩
    unfold search
    split
    · exact ih hstarts visited
    · have hwalk : (walk next bound [] visited s).isSome = true := by
        refine walk_isSome hnodes ?_ s
        exact Nat.lt_of_le_of_lt (List.length_filter_le _ _) hbound
      rcases Option.isSome_iff_exists.mp hwalk with ⟨r, hr⟩
      cases r with
      | error e => exact absurd hr (walk_no_error hclosed hs)
      | ok found =>
        rcases ih hstarts found.2 with ⟨reported, visited', hrest⟩
        refine ⟨if found.1 then s :: reported else reported, visited', ?_⟩
        rw [hr]
        simp only [hrest]

end ParentWalk

end InterviewPrep
