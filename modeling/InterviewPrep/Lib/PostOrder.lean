import InterviewPrep.Lib.DepthFirst
import InterviewPrep.Lib.OrderedSet

/-!
# Post-order

A depth-first search that keeps the finished vertices in the order in which they
were finished, and answers whether it met no cycle. Without the order it is the
search of `Lib/DepthFirst.lean` (`visit_unordered`), so its answer is right by
`search_spec`. When it met no cycle, every vertex is finished after its
successors: `PostOrdered` is kept by each visit (`visit_extends`).
-/

namespace InterviewPrep.DepthFirst

variable {V : Type*}

/-! ## The search -/

/-- The two sets of a search, the finished vertices in order. -/
structure OrderedMarks (V : Type*) where
  visiting : Finset V
  visited : OrderedSet V

/-- The marks of a search that has not begun. -/
def OrderedMarks.start : OrderedMarks V := ⟨∅, OrderedSet.empty⟩

/-- Visit the vertices of a list until one visit meets a cycle. -/
def visitAll (visit : V → OrderedMarks V → Option (Bool × OrderedMarks V)) :
    List V → OrderedMarks V → Option (Bool × OrderedMarks V)
  | [], m => some (true, m)
  | w :: ws, m =>
    match visit w m with
    | none => none
    | some (false, m') => some (false, m')
    | some (true, m') => visitAll visit ws m'

/-- Visit `v` along the edges `succ`. -/
def visit [DecidableEq V] (succ : V → List V) :
    ℕ → V → OrderedMarks V → Option (Bool × OrderedMarks V)
  | 0, _, _ => none
  | fuel + 1, v, m =>
    if v ∈ m.visiting then some (false, m)
    else if v ∈ m.visited.elems then some (true, m)
    else
      match visitAll (visit succ fuel) (succ v) ⟨insert v m.visiting, m.visited⟩ with
      | none => none
      | some (false, m') => some (false, m')
      | some (true, m') => some (true, ⟨m'.visiting.erase v, m'.visited.add v⟩)

variable [DecidableEq V] {succ : V → List V}

/-! ## Without the order -/

def OrderedMarks.unordered (m : OrderedMarks V) : Marks V := ⟨m.visiting, m.visited.toFinset⟩

/-- The answer of a visit as the answer of a search: whether it met a cycle. -/
def unorderedAnswer (r : Bool × OrderedMarks V) : Bool × Marks V := (!r.1, r.2.unordered)

theorem visitAll_unordered {step : V → OrderedMarks V → Option (Bool × OrderedMarks V)}
    {find : V → Marks V → Option (Bool × Marks V)}
    (h : ∀ w m, (step w m).map unorderedAnswer = find w m.unordered) (ws : List V)
    (m : OrderedMarks V) :
    (visitAll step ws m).map unorderedAnswer = searchAny find ws m.unordered := by
  induction ws generalizing m with
  | nil => rfl
  | cons w ws ih =>
    rw [visitAll, searchAny, ← h w m]
    cases step w m with
    | none => rfl
    | some r =>
      rcases r with ⟨ok, m'⟩
      cases ok with
      | false => rfl
      | true => exact ih m'

/-- Without the order, a visit is a search. -/
theorem visit_unordered (fuel : ℕ) (v : V) (m : OrderedMarks V) :
    (visit succ fuel v m).map unorderedAnswer = search succ fuel v m.unordered := by
  induction fuel generalizing v m with
  | zero => rfl
  | succ fuel ih =>
    rw [visit, search]
    by_cases hvisiting : v ∈ m.visiting
    · simp [OrderedMarks.unordered, unorderedAnswer, hvisiting]
    · by_cases hvisited : v ∈ m.visited.elems
      · simp [OrderedMarks.unordered, unorderedAnswer, hvisiting, hvisited]
      · have hall := visitAll_unordered ih (succ v) ⟨insert v m.visiting, m.visited⟩
        change _ = searchAny _ _ ⟨insert v m.unordered.visiting, m.unordered.visited⟩ at hall
        have hv : ¬ v ∈ m.unordered.visiting := hvisiting
        have hv' : ¬ v ∈ m.unordered.visited := by
          simpa [OrderedMarks.unordered] using hvisited
        rw [if_neg hvisiting, if_neg hvisited, if_neg hv, if_neg hv', ← hall]
        cases visitAll (visit succ fuel) (succ v) ⟨insert v m.visiting, m.visited⟩ with
        | none => rfl
        | some r =>
          rcases r with ⟨ok, m'⟩
          cases ok with
          | false => rfl
          | true => simp [unorderedAnswer, OrderedMarks.unordered, OrderedSet.toFinset_add]

/-! ## The order -/

/-- Every vertex of the list comes after its successors. -/
def PostOrdered (succ : V → List V) (l : List V) : Prop :=
  ∀ before v after, l = before ++ v :: after → ∀ w ∈ succ v, w ∈ before

omit [DecidableEq V] in
theorem PostOrdered.nil : PostOrdered succ [] := by
  intro before v after h
  simp at h

omit [DecidableEq V] in
/-- A vertex may come last when its successors are there. -/
theorem PostOrdered.concat {l : List V} {v : V} (h : PostOrdered succ l)
    (hv : ∀ w ∈ succ v, w ∈ l) : PostOrdered succ (l ++ [v]) := by
  intro before u after heq
  rcases List.eq_nil_or_concat after with rfl | ⟨after, last, rfl⟩
  · rcases List.append_inj' heq rfl with ⟨rfl, hu⟩
    rw [List.singleton_inj] at hu
    exact hu ▸ hv
  · have hsplit : l ++ [v] = (before ++ u :: after) ++ [last] := by simpa using heq
    exact h before u after (List.append_inj' hsplit rfl).1

theorem PostOrdered.add {s : OrderedSet V} {v : V} (h : PostOrdered succ s.elems)
    (hv : ∀ w ∈ succ v, w ∈ s.elems) : PostOrdered succ (s.add v).elems := by
  by_cases hmem : v ∈ s.elems
  · rwa [OrderedSet.add_of_mem hmem]
  · rw [OrderedSet.elems_add_of_notMem hmem]
    exact h.concat hv

/-- A successor comes first. -/
theorem PostOrdered.idxOf_lt {l : List V} (h : PostOrdered succ l) {v w : V} (hv : v ∈ l)
    (hw : w ∈ succ v) : l.idxOf w < l.idxOf v := by
  rcases List.eq_append_cons_of_mem hv with ⟨before, after, rfl, hnot⟩
  have hmem : w ∈ before := h before v after rfl w hw
  rw [List.idxOf_append_of_mem hmem, List.idxOf_append_of_notMem hnot]
  exact Nat.lt_add_right _ (List.idxOf_lt_length_iff.mpr hmem)

/-- What visits of the vertices `ws` in `U` do to the finished vertices. -/
structure Extends (succ : V → List V) (U : Finset V) (ws : List V) (old new : OrderedSet V) :
    Prop where
  ordered : PostOrdered succ old.elems → PostOrdered succ new.elems
  keeps : old.elems ⊆ new.elems
  covers : ws ⊆ new.elems
  within : ∀ u ∈ new.elems, u ∈ old.elems ∨ u ∈ U

namespace Extends

variable {U : Finset V} {v : V} {ws : List V} {old mid new : OrderedSet V}

omit [DecidableEq V] in
theorem refl (h : ws ⊆ old.elems) : Extends succ U ws old old :=
  ⟨id, List.Subset.refl _, h, fun _ hu => Or.inl hu⟩

omit [DecidableEq V] in
theorem cons (hv : Extends succ U [v] old mid) (hws : Extends succ U ws mid new) :
    Extends succ U (v :: ws) old new where
  ordered := fun h => hws.ordered (hv.ordered h)
  keeps := List.Subset.trans hv.keeps hws.keeps
  covers := List.cons_subset.mpr ⟨hws.keeps (hv.covers List.mem_cons_self), hws.covers⟩
  within := by
    intro u hu
    rcases hws.within u hu with hmid | hU
    · exact hv.within u hmid
    · exact Or.inr hU

/-- After its successors, the vertex itself is finished. -/
theorem finish (h : Extends succ U (succ v) old new) (hv : v ∈ U) :
    Extends succ U [v] old (new.add v) where
  ordered := fun hold => (h.ordered hold).add h.covers
  keeps := fun _ hu => OrderedSet.mem_add.mpr (Or.inl (h.keeps hu))
  covers := by simp
  within := by
    intro u hu
    rcases OrderedSet.mem_add.mp hu with hu | rfl
    · exact h.within u hu
    · exact Or.inr hv

end Extends

omit [DecidableEq V] in
theorem visitAll_extends {step : V → OrderedMarks V → Option (Bool × OrderedMarks V)}
    {U : Finset V} {ws : List V} {m m' : OrderedMarks V}
    (hstep : ∀ w ∈ ws, ∀ m m', step w m = some (true, m') →
      Extends succ U [w] m.visited m'.visited)
    (h : visitAll step ws m = some (true, m')) : Extends succ U ws m.visited m'.visited := by
  induction ws generalizing m with
  | nil =>
    simp only [visitAll, Option.some.injEq, Prod.mk.injEq, true_and] at h
    rw [h]
    exact Extends.refl (List.nil_subset _)
  | cons w ws ih =>
    unfold visitAll at h
    split at h
    · simp at h
    · simp at h
    · rename_i mid hw
      have hrest := ih (fun u hu => hstep u (List.mem_cons_of_mem w hu)) h
      exact (hstep w List.mem_cons_self m mid hw).cons hrest

/-- A visit that met no cycle has finished its vertex, in order. -/
theorem visit_extends {U : Finset V} (hU : ∀ v ∈ U, ∀ w ∈ succ v, w ∈ U) {fuel : ℕ} {v : V}
    {m m' : OrderedMarks V} (hv : v ∈ U) (h : visit succ fuel v m = some (true, m')) :
    Extends succ U [v] m.visited m'.visited := by
  induction fuel generalizing v m m' with
  | zero => simp [visit] at h
  | succ fuel ih =>
    unfold visit at h
    split at h
    · simp at h
    · split at h
      · -- finished before
        rename_i hvisited
        simp only [Option.some.injEq, Prod.mk.injEq, true_and] at h
        rw [← h]
        exact Extends.refl (by simpa using hvisited)
      · split at h
        · simp at h
        · simp at h
        · rename_i mid hall
          simp only [Option.some.injEq, Prod.mk.injEq, true_and] at h
          rw [← h]
          have hsucc := visitAll_extends (fun w hw m m' => ih (hU v hv w hw)) hall
          exact hsucc.finish hv

/-! ## A whole search -/

/-- The visits of the vertices of a list from no marks return, if there is fuel for
all vertices. They tell whether a cycle can be reached from the list; if not, the
finished vertices are in post-order. -/
theorem visitAll_spec {U : Finset V} (hU : ∀ v ∈ U, ∀ w ∈ succ v, w ∈ U) {ws : List V}
    (hws : ∀ w ∈ ws, w ∈ U) {fuel : ℕ} (hfuel : U.card < fuel) :
    ∃ ok m, visitAll (visit succ fuel) ws OrderedMarks.start = some (ok, m) ∧
      (ok = true ↔ ∀ w ∈ ws, ¬ Cyclic (Edge succ) w) ∧
      (ok = true → PostOrdered succ m.visited.elems ∧ ws ⊆ m.visited.elems ∧
        ∀ u ∈ m.visited.elems, u ∈ U) := by
  have hfinds : Finds succ (∃ w ∈ ws, Cyclic (Edge succ) w) OrderedMarks.start.unordered
      ((visitAll (visit succ fuel) ws OrderedMarks.start).map unorderedAnswer) := by
    have hfind : ∀ w ∈ ws, ∀ m : Marks V, m.visiting = ∅ → m.Sound succ →
        Finds succ (Cyclic (Edge succ) w) m (search succ fuel w m) := by
      intro w hw m hm hsound
      refine search_spec hU fuel w m (hws w hw) (by simpa [hm] using hfuel) hsound ?_
      intro u hu
      simp [hm] at hu
    rw [visitAll_unordered (visit_unordered fuel)]
    refine searchAny_spec hfind _ rfl ?_
    simp [Marks.Sound, OrderedMarks.start, OrderedMarks.unordered]
  cases hrun : visitAll (visit succ fuel) ws OrderedMarks.start with
  | none =>
    rw [hrun] at hfinds
    cases hfinds
  | some r =>
    rcases r with ⟨ok, m⟩
    rw [hrun] at hfinds
    refine ⟨ok, m, rfl, ?_, ?_⟩
    · cases ok with
      | false =>
        cases hfinds with
        | cycle hcyclic => simpa using hcyclic
      | true =>
        cases hfinds with
        | none hnot => simpa using hnot
    · rintro rfl
      have h := visitAll_extends (fun w hw m m' => visit_extends hU (hws w hw)) hrun
      exact ⟨h.ordered PostOrdered.nil, h.covers, fun u hu =>
        (h.within u hu).resolve_left List.not_mem_nil⟩

end InterviewPrep.DepthFirst
