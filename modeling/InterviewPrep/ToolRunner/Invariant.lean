import InterviewPrep.Lib.Slots
import InterviewPrep.Lib.Trace
import InterviewPrep.ToolRunner.Model

/-!
# The invariant of the tool runner

What has happened to a request is the part of the trace that is about it,
`about i tr`: nothing, an invocation, its end, the return of `runTool` to it.
The invariant says where each worker and each slot of the result array stands in
this sequence. It is kept by each small change of the state (claiming an index,
invoking a handler, a handler's end, ..), and a step is made of these.
-/

namespace InterviewPrep.ToolRunner

variable {A V E : Type}

/-! ## Reading a trace -/

namespace Obs

/-- The request that an observation is about. -/
def index : Obs V E → Option ℕ
  | invoked i => some i
  | ended i _ => some i
  | resumed i _ => some i
  | aborted => none

def isInvoked : Obs V E → Bool
  | invoked _ => true
  | _ => false

def isEnded : Obs V E → Bool
  | ended _ _ => true
  | _ => false

end Obs

/-- What a trace says about request `i`. -/
def about (i : ℕ) (tr : List (Obs V E)) : List (Obs V E) := labelled Obs.index i tr

/-- The handlers invoked so far, and those among them that have ended. -/
def invocations (tr : List (Obs V E)) : ℕ := tr.countP Obs.isInvoked

def endings (tr : List (Obs V E)) : ℕ := tr.countP Obs.isEnded

/-- The signal was aborted before the call, or has been since. -/
def Aborted (aborted₀ : Bool) (tr : List (Obs V E)) : Prop := aborted₀ = true ∨ .aborted ∈ tr

theorem mem_iff_mem_about {i : ℕ} {o : Obs V E} {tr : List (Obs V E)} (ho : o.index = some i) :
    o ∈ tr ↔ o ∈ about i tr := mem_iff_mem_labelled Obs.index ho

theorem about_concat_self {i : ℕ} {o : Obs V E} (tr : List (Obs V E)) (ho : o.index = some i) :
    about i (tr ++ [o]) = about i tr ++ [o] := labelled_concat_self Obs.index tr ho

theorem about_concat_of_ne {i : ℕ} {o : Obs V E} (tr : List (Obs V E)) (ho : o.index ≠ some i) :
    about i (tr ++ [o]) = about i tr := labelled_concat_of_ne Obs.index tr ho

/-- What is allowed at a position: a handler is invoked before the abort and
with a place free, and `runTool` reads the signal as it is. -/
def Lawful (pool : ℕ) (aborted₀ : Bool) (pre : List (Obs V E)) : Obs V E → Prop
  | .invoked _ => ¬ Aborted aborted₀ pre ∧ invocations pre < endings pre + pool
  | .resumed _ aborted => aborted = true ↔ Aborted aborted₀ pre
  | _ => True

/-! ## The invariant -/

section Invariant

variable (errorMessage : E → Option String) (requests : List (ToolRequest A)) (pool : ℕ)
  (aborted₀ : Bool)

/-- A result that is right for what happened to request `i`. -/
structure Final (tr : List (Obs V E)) (i : ℕ) (r : ToolResult V) : Prop where
  id : ∃ req, requests[i]? = some req ∧ r.id = req.id
  verdict : (about i tr = [] ∧ r = .cancelled r.id) ∨
    ∃ o a, about i tr = [.invoked i, .ended i o, .resumed i a] ∧
      conclude errorMessage r.id a o = some r

/-- Where a worker stands. -/
def WorkerOk (tr : List (Obs V E)) : Worker V E → Prop
  | .atLoop => True
  | .awaitingHandler i id =>
    (∃ req, requests[i]? = some req ∧ id = req.id) ∧ about i tr = [.invoked i]
  | .handlerEnded i id o =>
    (∃ req, requests[i]? = some req ∧ id = req.id) ∧ about i tr = [.invoked i, .ended i o]
  | .toolDone i r => Final errorMessage requests tr i r
  | .rejected i => ∃ o a, about i tr = [.invoked i, .ended i o, .resumed i a]
  | .finished => True

structure Inv (tr : List (Obs V E)) (s : Runner V E) : Prop where
  aborted_iff : Aborted aborted₀ tr ↔ s.aborted = true
  lawful : Along (Lawful pool aborted₀) tr
  size : s.res.length = requests.length
  workers_length : s.workers.length = pool
  bound : s.nextIndex ≤ requests.length
  fresh : ∀ i, s.nextIndex ≤ i → about i tr = []
  worker : ∀ (w : ℕ) x, s.workers[w]? = some x → WorkerOk errorMessage requests tr x
  held : ∀ (w : ℕ) x i, s.workers[w]? = some x → x.index = some i →
    i < s.nextIndex ∧ s.res[i]? = some none
  distinct : ∀ (w w' : ℕ) x x' i, s.workers[w]? = some x → s.workers[w']? = some x' →
    x.index = some i → x'.index = some i → w = w'
  claimed : ∀ i < s.nextIndex, (∃ (w : ℕ) (x : Worker V E), s.workers[w]? = some x ∧ x.index = some i) ∨
    ∃ r, s.res[i]? = some (some r)
  stored : ∀ (i : ℕ) r, s.res[i]? = some (some r) →
    i < s.nextIndex ∧ Final errorMessage requests tr i r
  finished : ∀ w : ℕ, s.workers[w]? = some .finished → s.nextIndex = requests.length
  counts : invocations tr = endings tr + s.workers.countP Worker.isAwaiting

variable {errorMessage requests pool aborted₀}
variable {tr : List (Obs V E)} {s : Runner V E} {w i : ℕ} {x x' : Worker V E}

/-! ## Small changes -/

/-- Reading a worker after one of them has changed. -/
theorem workers_setWorker {v : ℕ} {y : Worker V E}
    (h : (s.setWorker w x).workers[v]? = some y) :
    (v = w ∧ y = x) ∨ (v ≠ w ∧ s.workers[v]? = some y) := getElem?_set_cases h

theorem setWorker_self (hw : s.workers[w]? = some x) :
    (s.setWorker w x').workers[w]? = some x' := getElem?_set_of_some hw

theorem setWorker_of_ne {v : ℕ} (hv : v ≠ w) :
    (s.setWorker w x').workers[v]? = s.workers[v]? :=
  List.getElem?_set_ne (fun h => hv h.symm)

theorem length_setWorker : (s.setWorker w x').workers.length = s.workers.length :=
  List.length_set

/-- The holder of another request stays. -/
theorem holder_setWorker {v j : ℕ} {y : Worker V E} (hw : s.workers[w]? = some x)
    (hx : x.index ≠ some j) (hv : s.workers[v]? = some y) (hy : y.index = some j) :
    ∃ (u : ℕ) (z : Worker V E),
      (s.setWorker w x').workers[u]? = some z ∧ z.index = some j := by
  have hvw : v ≠ w := by
    rintro rfl
    rw [hw] at hv
    cases hv
    exact hx hy
  exact ⟨v, y, by rw [setWorker_of_ne hvw]; exact hv, hy⟩

/-- The other workers stay as they should be. -/
theorem Inv.worker_setWorker (h : Inv errorMessage requests pool aborted₀ tr s)
    (hx' : WorkerOk errorMessage requests tr x') {v : ℕ} {y : Worker V E}
    (hv : (s.setWorker w x').workers[v]? = some y) : WorkerOk errorMessage requests tr y := by
  rcases workers_setWorker hv with ⟨-, rfl⟩ | ⟨-, hold⟩
  · exact hx'
  · exact h.worker v y hold

/-- No worker has finished that had not, unless it is the one that changed. -/
theorem finished_setWorker {v : ℕ} (hx' : x' ≠ .finished)
    (h : (s.setWorker w x').workers[v]? = some .finished) : s.workers[v]? = some .finished := by
  rcases workers_setWorker h with ⟨-, hy⟩ | ⟨-, hold⟩
  · exact absurd hy.symm hx'
  · exact hold

/-- The workers keep distinct requests if the one that changes takes no request of
another. -/
theorem Inv.distinct_setWorker (h : Inv errorMessage requests pool aborted₀ tr s)
    (hnew : ∀ i (v : ℕ) y, x'.index = some i → v ≠ w → s.workers[v]? = some y →
      y.index ≠ some i) {v v' j : ℕ} {y y' : Worker V E}
    (hv : (s.setWorker w x').workers[v]? = some y)
    (hv' : (s.setWorker w x').workers[v']? = some y') (hj : y.index = some j)
    (hj' : y'.index = some j) : v = v' := by
  rcases workers_setWorker hv with ⟨rfl, rfl⟩ | ⟨hne, hold⟩
  · rcases workers_setWorker hv' with ⟨rfl, rfl⟩ | ⟨hne', hold'⟩
    · rfl
    · exact absurd hj' (hnew j v' y' hj hne' hold')
  · rcases workers_setWorker hv' with ⟨rfl, rfl⟩ | ⟨hne', hold'⟩
    · exact absurd hj (hnew j v y hj' hne hold)
    · exact h.distinct v v' y y' j hold hold' hj hj'

/-- How the number of awaiting workers changes. -/
theorem countP_setWorker (x' : Worker V E) (hw : s.workers[w]? = some x) :
    (s.setWorker w x').workers.countP Worker.isAwaiting + x.isAwaiting.toNat =
      s.workers.countP Worker.isAwaiting + x'.isAwaiting.toNat := by
  have hset := countP_set_add (a := x') Worker.isAwaiting hw
  show (s.workers.set w x').countP Worker.isAwaiting + _ = _
  cases hx : x.isAwaiting <;> cases hx' : x'.isAwaiting <;> simpa [hx, hx'] using hset

theorem invocations_concat (tr : List (Obs V E)) (o : Obs V E) :
    invocations (tr ++ [o]) = invocations tr + o.isInvoked.toNat := by
  rw [invocations, List.countP_append, invocations]
  cases h : o.isInvoked <;> simp [h]

theorem endings_concat (tr : List (Obs V E)) (o : Obs V E) :
    endings (tr ++ [o]) = endings tr + o.isEnded.toNat := by
  rw [endings, List.countP_append, endings]
  cases h : o.isEnded <;> simp [h]

/-- An observation about another request, or about none, changes nothing for a
worker. -/
theorem WorkerOk.concat {o : Obs V E} (h : WorkerOk errorMessage requests tr x)
    (ho : ∀ i, x.index = some i → o.index ≠ some i) :
    WorkerOk errorMessage requests (tr ++ [o]) x := by
  cases x with
  | atLoop => trivial
  | awaitingHandler i id =>
    refine ⟨h.1, ?_⟩
    rw [about_concat_of_ne tr (ho i rfl)]
    exact h.2
  | handlerEnded i id o' =>
    refine ⟨h.1, ?_⟩
    rw [about_concat_of_ne tr (ho i rfl)]
    exact h.2
  | toolDone i r =>
    refine ⟨h.id, ?_⟩
    rw [about_concat_of_ne tr (ho i rfl)]
    exact h.verdict
  | rejected i =>
    rcases h with ⟨o', a, h⟩
    refine ⟨o', a, ?_⟩
    rw [about_concat_of_ne tr (ho i rfl)]
    exact h
  | finished => trivial

theorem Final.concat {o : Obs V E} {r : ToolResult V} (h : Final errorMessage requests tr i r)
    (ho : o.index ≠ some i) : Final errorMessage requests (tr ++ [o]) i r := by
  refine ⟨h.id, ?_⟩
  rw [about_concat_of_ne tr ho]
  exact h.verdict

/-- A worker moves on with its request. -/
theorem Inv.advance (h : Inv errorMessage requests pool aborted₀ tr s) {o : Obs V E}
    (hw : s.workers[w]? = some x) (hx : x.index = some i) (hx' : x'.index = some i)
    (ho : o.index = some i) (hok : WorkerOk errorMessage requests (tr ++ [o]) x')
    (hlaw : Lawful pool aborted₀ tr o)
    (hinvoked : o.isInvoked = false)
    (hended : o.isEnded.toNat + x'.isAwaiting.toNat = x.isAwaiting.toNat) :
    Inv errorMessage requests pool aborted₀ (tr ++ [o]) (s.setWorker w x') := by
  have hother : ∀ j, j ≠ i → o.index ≠ some j := by
    intro j hj hoj
    rw [ho] at hoj
    exact hj (Option.some.inj hoj).symm
  have hpos := h.held w x i hw hx
  refine
    { aborted_iff := ?_, lawful := along_concat.mpr ⟨h.lawful, hlaw⟩, size := h.size,
      workers_length := ?_, bound := h.bound, fresh := ?_, worker := ?_, held := ?_,
      distinct := ?_, claimed := ?_, stored := ?_, finished := ?_, counts := ?_ }
  · show Aborted aborted₀ (tr ++ [o]) ↔ s.aborted = true
    have hne : o ≠ .aborted := by
      rintro rfl
      cases ho
    rw [← h.aborted_iff, Aborted, Aborted, List.mem_append, List.mem_singleton]
    simp [hne.symm]
  · exact length_setWorker.trans h.workers_length
  · intro j hj
    have hji : j ≠ i := by
      have hj : s.nextIndex ≤ j := hj
      omega
    rw [about_concat_of_ne tr (hother j hji)]
    exact h.fresh j hj
  · intro v y hv
    rcases workers_setWorker hv with ⟨-, rfl⟩ | ⟨hne, hv⟩
    · exact hok
    · apply (h.worker v y hv).concat
      intro j hj
      -- another worker has another request
      apply hother j
      rintro rfl
      exact hne (h.distinct v w y x j hv hw hj hx)
  · intro v y j hv hj
    rcases workers_setWorker hv with ⟨-, rfl⟩ | ⟨-, hv⟩
    · rw [hx'] at hj
      rw [← Option.some.inj hj]
      exact hpos
    · exact h.held v y j hv hj
  · intro v v' y y' j hv hv' hj hj'
    refine h.distinct_setWorker ?_ hv hv' hj hj'
    -- it has the request that it had
    intro k u z hk hne hold hz
    rw [hx'] at hk
    exact hne (h.distinct u w z x k hold hw hz (hx.trans hk))
  · intro j hj
    rcases h.claimed j hj with ⟨v, y, hv, hy⟩ | hr
    · left
      by_cases hvw : v = w
      · subst hvw
        have hji : some j = some i := by
          rw [← hy, ← hx, Option.some.inj (hv.symm.trans hw)]
        exact ⟨v, x', setWorker_self hw, by rw [hji]; exact hx'⟩
      · exact ⟨v, y, by rw [setWorker_of_ne hvw]; exact hv, hy⟩
    · exact Or.inr hr
  · intro j r hr
    have hstored := h.stored j r hr
    refine ⟨hstored.1, hstored.2.concat (hother j ?_)⟩
    -- the slot of a claimed index is empty
    rintro rfl
    have hr : s.res[j]? = some (some r) := hr
    rw [hpos.2] at hr
    cases hr
  · intro v hv
    refine h.finished v (finished_setWorker ?_ hv)
    rintro rfl
    cases hx'
  · have hcount := countP_setWorker x' hw
    have hcounts := h.counts
    rw [invocations_concat, endings_concat, hinvoked]
    simp only [Bool.toNat_false]
    omega

/-- A worker invokes the handler of the next request. -/
theorem Inv.invoke (h : Inv errorMessage requests pool aborted₀ tr s) {req : ToolRequest A}
    (hw : s.workers[w]? = some .atLoop) (hreq : requests[s.nextIndex]? = some req)
    (haborted : s.aborted = false) :
    Inv errorMessage requests pool aborted₀ (tr ++ [.invoked s.nextIndex])
      ({ s with nextIndex := s.nextIndex + 1 }.setWorker w
        (.awaitingHandler s.nextIndex req.id)) := by
  have hfresh := h.fresh s.nextIndex (le_refl _)
  have hlt : s.nextIndex < requests.length := by
    rcases List.getElem?_eq_some_iff.mp hreq with ⟨hlt, -⟩
    exact hlt
  have hother : ∀ j, j ≠ s.nextIndex → (Obs.invoked s.nextIndex : Obs V E).index ≠ some j := by
    intro j hj hoj
    exact hj (Option.some.inj hoj).symm
  -- the slot of the next index is empty
  have hempty : s.res[s.nextIndex]? = some none := by
    have hsize : s.nextIndex < s.res.length := by rw [h.size]; exact hlt
    rw [List.getElem?_eq_getElem hsize]
    cases hr : s.res[s.nextIndex] with
    | none => rfl
    | some r =>
      have hstored := h.stored s.nextIndex r (by rw [List.getElem?_eq_getElem hsize, hr])
      omega
  have hpool : s.workers.countP Worker.isAwaiting < pool := by
    rw [← h.workers_length]
    refine lt_of_le_of_ne List.countP_le_length ?_
    intro hall
    -- this worker is not awaiting
    have hawaiting := List.countP_eq_length.mp hall _ (List.mem_of_getElem? hw)
    cases hawaiting
  refine
    { aborted_iff := ?_, lawful := along_concat.mpr ⟨h.lawful, ?_⟩, size := h.size,
      workers_length := ?_, bound := hlt, fresh := ?_, worker := ?_, held := ?_,
      distinct := ?_, claimed := ?_, stored := ?_, finished := ?_, counts := ?_ }
  · show Aborted aborted₀ (tr ++ [.invoked s.nextIndex]) ↔ s.aborted = true
    rw [← h.aborted_iff, Aborted, Aborted]
    simp
  · refine ⟨?_, ?_⟩
    · rw [h.aborted_iff, haborted]
      exact Bool.false_ne_true
    · have hcounts := h.counts
      omega
  · exact length_setWorker.trans h.workers_length
  · intro j hj
    have hj : s.nextIndex + 1 ≤ j := hj
    rw [about_concat_of_ne tr (hother j (by omega))]
    exact h.fresh j (by omega)
  · intro v y hv
    rcases workers_setWorker hv with ⟨-, rfl⟩ | ⟨-, hold⟩
    · refine ⟨⟨req, hreq, rfl⟩, ?_⟩
      rw [about_concat_self tr rfl, hfresh]
      rfl
    · apply (h.worker v y hold).concat
      intro j hj
      have hheld := h.held v y j hold hj
      exact hother j (by omega)
  · intro v y j hv hj
    rcases workers_setWorker hv with ⟨-, rfl⟩ | ⟨-, hold⟩
    · cases hj
      exact ⟨Nat.lt_succ_self _, hempty⟩
    · have hheld := h.held v y j hold hj
      exact ⟨Nat.lt_succ_of_lt hheld.1, hheld.2⟩
  · intro v v' y y' j hv hv' hj hj'
    refine h.distinct_setWorker ?_ hv hv' hj hj'
    -- nobody has the next index yet
    intro k u z hk _ hold hz
    cases hk
    have hheld := h.held u z _ hold hz
    omega
  · intro j hj
    have hj : j < s.nextIndex + 1 := hj
    by_cases hjn : j = s.nextIndex
    · subst hjn
      exact Or.inl ⟨w, _, setWorker_self hw, rfl⟩
    · rcases h.claimed j (by omega) with ⟨v, y, hv, hy⟩ | hr
      · exact Or.inl (holder_setWorker hw (by simp [Worker.index]) hv hy)
      · exact Or.inr hr
  · intro j r hr
    have hstored := h.stored j r hr
    exact ⟨Nat.lt_succ_of_lt hstored.1, hstored.2.concat (hother j (by omega))⟩
  · intro v hv
    have hall := h.finished v (finished_setWorker (by simp) hv)
    omega
  · have hcount := countP_setWorker (.awaitingHandler s.nextIndex req.id) hw
    have hcounts := h.counts
    rw [invocations_concat, endings_concat]
    simp only [Obs.isInvoked, Obs.isEnded, Worker.isAwaiting, Bool.toNat_true,
      Bool.toNat_false] at hcount ⊢
    show _ = _ + (s.setWorker w _).workers.countP Worker.isAwaiting
    omega

/-- A worker stores the result of its request. -/
theorem Inv.store (h : Inv errorMessage requests pool aborted₀ tr s) {r : ToolResult V}
    (hw : s.workers[w]? = some (.toolDone i r)) :
    Inv errorMessage requests pool aborted₀ tr ((s.store i r).setWorker w .atLoop) := by
  have hpos := h.held w _ i hw rfl
  have hi : i < s.res.length := by
    rcases List.getElem?_eq_some_iff.mp hpos.2 with ⟨hlt, -⟩
    exact hlt
  have hw' : (s.store i r).workers[w]? = some (.toolDone i r) := hw
  refine
    { aborted_iff := h.aborted_iff, lawful := h.lawful, size := ?_, workers_length := ?_,
      bound := h.bound, fresh := h.fresh, worker := ?_, held := ?_, distinct := ?_,
      claimed := ?_, stored := ?_, finished := ?_, counts := ?_ }
  · show (s.res.set i _).length = requests.length
    rw [List.length_set]
    exact h.size
  · exact length_setWorker.trans h.workers_length
  · intro v y hv
    exact h.worker_setWorker (by trivial) hv
  · intro v y j hv hj
    rcases workers_setWorker hv with ⟨-, rfl⟩ | ⟨hne, hold⟩
    · cases hj
    · have hheld := h.held v y j hold hj
      refine ⟨hheld.1, ?_⟩
      have hij : i ≠ j := by
        rintro rfl
        exact hne (h.distinct v w y _ i hold hw hj rfl)
      show (s.res.set i (some r))[j]? = some none
      rw [List.getElem?_set_ne hij]
      exact hheld.2
  · intro v v' y y' j hv hv' hj hj'
    refine h.distinct_setWorker ?_ hv hv' hj hj'
    intro k u z hk
    cases hk
  · intro j hj
    by_cases hij : i = j
    · subst hij
      exact Or.inr ⟨r, List.getElem?_set_self hi⟩
    · rcases h.claimed j hj with ⟨v, y, hv, hy⟩ | ⟨r', hr⟩
      · -- the holder of another request is another worker
        exact Or.inl (holder_setWorker hw (fun hi => hij (Option.some.inj hi)) hv hy)
      · refine Or.inr ⟨r', ?_⟩
        show (s.res.set i (some r))[j]? = some (some r')
        rw [List.getElem?_set_ne hij]
        exact hr
  · intro j r' hr
    have hr : (s.res.set i (some r))[j]? = some (some r') := hr
    by_cases hij : i = j
    · subst hij
      rw [List.getElem?_set_self hi] at hr
      cases hr
      exact ⟨hpos.1, h.worker w _ hw⟩
    · rw [List.getElem?_set_ne hij] at hr
      exact h.stored j r' hr
  · exact fun v hv => h.finished v (finished_setWorker (by simp) hv)
  · have hcount : ((s.store i r).setWorker w .atLoop).workers.countP Worker.isAwaiting =
        s.workers.countP Worker.isAwaiting := countP_setWorker .atLoop hw'
    rw [h.counts, hcount]

/-- A worker takes the next request after the abort, and stores its result at
once. -/
theorem Inv.skip (h : Inv errorMessage requests pool aborted₀ tr s) {req : ToolRequest A}
    (hreq : requests[s.nextIndex]? = some req) :
    Inv errorMessage requests pool aborted₀ tr
      ({ s with nextIndex := s.nextIndex + 1 }.store s.nextIndex (.cancelled req.id)) := by
  have hlt : s.nextIndex < requests.length := by
    rcases List.getElem?_eq_some_iff.mp hreq with ⟨hlt, -⟩
    exact hlt
  have hsize : s.nextIndex < s.res.length := by rw [h.size]; exact hlt
  refine
    { aborted_iff := h.aborted_iff, lawful := h.lawful, size := ?_,
      workers_length := h.workers_length, bound := hlt, fresh := ?_, worker := h.worker,
      held := ?_, distinct := h.distinct, claimed := ?_, stored := ?_, finished := ?_,
      counts := h.counts }
  · show (s.res.set s.nextIndex _).length = requests.length
    rw [List.length_set]
    exact h.size
  · intro j hj
    have hj : s.nextIndex + 1 ≤ j := hj
    exact h.fresh j (by omega)
  · intro v y j hv hj
    have hheld := h.held v y j hv hj
    refine ⟨Nat.lt_succ_of_lt hheld.1, ?_⟩
    show (s.res.set s.nextIndex _)[j]? = some none
    rw [List.getElem?_set_ne (by omega)]
    exact hheld.2
  · intro j hj
    have hj : j < s.nextIndex + 1 := hj
    by_cases hjn : s.nextIndex = j
    · subst hjn
      exact Or.inr ⟨_, List.getElem?_set_self hsize⟩
    · rcases h.claimed j (by omega) with hheld | ⟨r, hr⟩
      · exact Or.inl hheld
      · refine Or.inr ⟨r, ?_⟩
        show (s.res.set s.nextIndex _)[j]? = some (some r)
        rw [List.getElem?_set_ne hjn]
        exact hr
  · intro j r hr
    have hr : (s.res.set s.nextIndex (some (.cancelled req.id)))[j]? = some (some r) := hr
    by_cases hjn : s.nextIndex = j
    · subst hjn
      rw [List.getElem?_set_self hsize] at hr
      cases hr
      -- nothing has happened to this request
      exact ⟨Nat.lt_succ_self _, ⟨req, hreq, rfl⟩, Or.inl ⟨h.fresh _ (le_refl _), rfl⟩⟩
    · rw [List.getElem?_set_ne hjn] at hr
      have hstored := h.stored j r hr
      exact ⟨Nat.lt_succ_of_lt hstored.1, hstored.2⟩
  · intro v hv
    have hall := h.finished v hv
    omega

/-- A worker leaves its loop. -/
theorem Inv.finish (h : Inv errorMessage requests pool aborted₀ tr s)
    (hw : s.workers[w]? = some .atLoop) (hall : s.nextIndex = requests.length) :
    Inv errorMessage requests pool aborted₀ tr (s.setWorker w .finished) := by
  refine
    { aborted_iff := h.aborted_iff, lawful := h.lawful, size := h.size, workers_length := ?_,
      bound := h.bound, fresh := h.fresh, worker := ?_, held := ?_, distinct := ?_,
      claimed := ?_, stored := h.stored, finished := fun _ _ => hall, counts := ?_ }
  · exact length_setWorker.trans h.workers_length
  · intro v y hv
    exact h.worker_setWorker (by trivial) hv
  · intro v y j hv hj
    rcases workers_setWorker hv with ⟨-, rfl⟩ | ⟨-, hold⟩
    · cases hj
    · exact h.held v y j hold hj
  · intro v v' y y' j hv hv' hj hj'
    refine h.distinct_setWorker ?_ hv hv' hj hj'
    intro k u z hk
    cases hk
  · intro j hj
    rcases h.claimed j hj with ⟨v, y, hv, hy⟩ | hr
    · exact Or.inl (holder_setWorker hw (by simp [Worker.index]) hv hy)
    · exact Or.inr hr
  · have hcount : (s.setWorker w .finished).workers.countP Worker.isAwaiting =
        s.workers.countP Worker.isAwaiting := countP_setWorker .finished hw
    rw [h.counts, hcount]

/-- The signal is aborted. -/
theorem Inv.abort (h : Inv errorMessage requests pool aborted₀ tr s) :
    Inv errorMessage requests pool aborted₀ (tr ++ [.aborted]) { s with aborted := true } := by
  have hnone : ∀ j, (Obs.aborted : Obs V E).index ≠ some j := by
    intro j hj
    cases hj
  refine
    { aborted_iff := ?_, lawful := along_concat.mpr ⟨h.lawful, trivial⟩, size := h.size,
      workers_length := h.workers_length, bound := h.bound, fresh := ?_, worker := ?_,
      held := h.held, distinct := h.distinct, claimed := h.claimed, stored := ?_,
      finished := h.finished, counts := ?_ }
  · simp [Aborted]
  · intro j hj
    rw [about_concat_of_ne tr (hnone j)]
    exact h.fresh j hj
  · intro v y hv
    exact (h.worker v y hv).concat (fun j _ => hnone j)
  · intro j r hr
    have hstored := h.stored j r hr
    exact ⟨hstored.1, hstored.2.concat (hnone j)⟩
  · rw [invocations_concat, endings_concat]
    exact h.counts

/-! ## Steps -/

/-- A result carries the id of its request. -/
theorem conclude_id {id : String} {a : Bool} {o : Outcome V E} {r : ToolResult V}
    (h : conclude errorMessage id a o = some r) : r.id = id := by
  cases o with
  | fulfilled v =>
    rw [conclude, Option.some.injEq] at h
    rw [← h]
    cases a <;> rfl
  | rejected e =>
    rw [conclude] at h
    cases a with
    | true =>
      rw [if_pos rfl, Option.some.injEq] at h
      rw [← h]
      rfl
    | false =>
      rw [if_neg Bool.false_ne_true] at h
      rcases Option.map_eq_some_iff.mp h with ⟨m, -, rfl⟩
      rfl

/-- `runTool` resumes. -/
theorem Inv.resumeTool (h : Inv errorMessage requests pool aborted₀ tr s) {id : String}
    {o : Outcome V E} (hw : s.workers[w]? = some (.handlerEnded i id o)) :
    Inv errorMessage requests pool aborted₀
      (tr ++ (ToolRunner.resumeTool errorMessage w i id o s).2)
      (ToolRunner.resumeTool errorMessage w i id o s).1 := by
  have hok := h.worker w _ hw
  have habout : about i (tr ++ [.resumed i s.aborted]) =
      [.invoked i, .ended i o, .resumed i s.aborted] := by
    rw [about_concat_self tr rfl, hok.2]
    rfl
  have hlaw : Lawful pool aborted₀ tr (.resumed i s.aborted : Obs V E) := h.aborted_iff.symm
  rw [ToolRunner.resumeTool]
  cases hconclude : conclude errorMessage id s.aborted o with
  | none => exact h.advance hw rfl rfl rfl ⟨o, s.aborted, habout⟩ hlaw rfl rfl
  | some r =>
    have hid := conclude_id hconclude
    refine h.advance hw rfl rfl rfl ?_ hlaw rfl rfl
    refine ⟨?_, Or.inr ⟨o, s.aborted, habout, ?_⟩⟩
    · rw [hid]
      exact hok.1
    · rw [hid]
      exact hconclude

/-- The promise of a handler settles, or the handler throws. -/
theorem Inv.handlerEnds (h : Inv errorMessage requests pool aborted₀ tr s) {id : String}
    (hw : s.workers[w]? = some (.awaitingHandler i id)) (o : Outcome V E) :
    Inv errorMessage requests pool aborted₀ (tr ++ [.ended i o])
      (s.setWorker w (.handlerEnded i id o)) := by
  have hok := h.worker w _ hw
  refine h.advance hw rfl rfl rfl ⟨hok.1, ?_⟩ trivial rfl rfl
  rw [about_concat_self tr rfl, hok.2]
  rfl

/-- A worker that is awaiting its handler, whose call throws. -/
theorem Inv.throws (h : Inv errorMessage requests pool aborted₀ tr s) {id : String}
    (hw : s.workers[w]? = some (.awaitingHandler i id)) (err : E) :
    Inv errorMessage requests pool aborted₀
      (tr ++ .ended i (.rejected err) ::
        (ToolRunner.resumeTool errorMessage w i id (.rejected err) s).2)
      (ToolRunner.resumeTool errorMessage w i id (.rejected err) s).1 := by
  have hended := h.handlerEnds hw (.rejected err)
  have hresumed := hended.resumeTool (setWorker_self hw)
  -- the state in between is overwritten
  have hstate : (ToolRunner.resumeTool errorMessage w i id (.rejected err)
      (s.setWorker w (.handlerEnded i id (.rejected err)))).1 =
      (ToolRunner.resumeTool errorMessage w i id (.rejected err) s).1 := by
    simp [ToolRunner.resumeTool, Runner.setWorker]
  rw [hstate, List.append_assoc] at hresumed
  exact hresumed

/-- The call of a handler, with all that it does before its promise. -/
theorem Inv.call (h : Inv errorMessage requests pool aborted₀ tr s) {req : ToolRequest A}
    (hw : s.workers[w]? = some .atLoop) (hreq : requests[s.nextIndex]? = some req)
    (haborted : s.aborted = false) (call : HandlerCall E) :
    Inv errorMessage requests pool aborted₀
      (tr ++ (ToolRunner.invoke errorMessage w s.nextIndex req.id call
        { s with nextIndex := s.nextIndex + 1 }).2)
      (ToolRunner.invoke errorMessage w s.nextIndex req.id call
        { s with nextIndex := s.nextIndex + 1 }).1 := by
  have hinvoked := h.invoke hw hreq haborted
  have hw₁ : ({ s with nextIndex := s.nextIndex + 1 }.setWorker w
      (.awaitingHandler s.nextIndex req.id)).workers[w]? =
      some (.awaitingHandler s.nextIndex req.id) := setWorker_self hw
  rw [ToolRunner.invoke]
  cases haborts : call.aborts with
  | false =>
    cases hthrows : call.throws with
    | none => exact hinvoked
    | some err =>
      have hthrown := hinvoked.throws hw₁ err
      rw [List.append_assoc] at hthrown
      exact hthrown
  | true =>
    have habort := hinvoked.abort
    rw [List.append_assoc] at habort
    cases hthrows : call.throws with
    | none => exact habort
    | some err =>
      have hthrown := habort.throws hw₁ err
      rw [List.append_assoc] at hthrown
      exact hthrown

/-- The loop of a worker, up to its next `await`. -/
theorem Inv.loop (call : HandlerCall E) :
    ∀ (rest : List (ToolRequest A)) (s : Runner V E), rest = requests.drop s.nextIndex →
      Inv errorMessage requests pool aborted₀ tr s → s.workers[w]? = some .atLoop →
      Inv errorMessage requests pool aborted₀ (tr ++ (ToolRunner.loop errorMessage w call rest s).2)
        (ToolRunner.loop errorMessage w call rest s).1 := by
  intro rest
  induction rest with
  | nil =>
    intro s hrest h hw
    have hall : s.nextIndex = requests.length := by
      have hle := List.drop_eq_nil_iff.mp hrest.symm
      have hbound := h.bound
      omega
    rw [ToolRunner.loop, List.append_nil]
    exact h.finish hw hall
  | cons req rest ih =>
    intro s hrest h hw
    have hreq : requests[s.nextIndex]? = some req := by
      have hhead : (requests.drop s.nextIndex)[0]? = some req := by rw [← hrest]; rfl
      rw [List.getElem?_drop, Nat.add_zero] at hhead
      exact hhead
    have htail : rest = requests.drop (s.nextIndex + 1) := by
      rw [← List.drop_drop, ← hrest]
      rfl
    rw [ToolRunner.loop]
    by_cases haborted : s.aborted = true
    · -- the request is cancelled, and the loop goes on
      rw [if_pos haborted]
      exact ih _ htail (h.skip hreq) hw
    · rw [if_neg haborted, ToolRunner.runTool, if_neg haborted]
      rw [Bool.not_eq_true] at haborted
      exact h.call hw hreq haborted call

/-- Every step keeps the invariant. -/
theorem Inv.step (h : Inv errorMessage requests pool aborted₀ tr s) {e : Event V E}
    {s' : Runner V E} {out : List (Obs V E)}
    (hs : ToolRunner.step errorMessage requests s e = some (s', out)) :
    Inv errorMessage requests pool aborted₀ (tr ++ out) s' := by
  cases e with
  | start call =>
    simp only [ToolRunner.step] at hs
    split at hs
    · rename_i hw
      -- the invariant does not read the number of started workers
      have h' : Inv errorMessage requests pool aborted₀ tr { s with started := s.started + 1 } :=
        { h with }
      have hloop := Inv.loop call _ _ rfl h' hw
      rw [Option.some.inj hs] at hloop
      exact hloop
    · cases hs
  | handlerEnds w o =>
    simp only [ToolRunner.step] at hs
    split at hs
    · split at hs
      · rename_i hw
        cases hs
        exact h.handlerEnds hw o
      · cases hs
    · cases hs
  | resumeTool w =>
    simp only [ToolRunner.step] at hs
    split at hs
    · split at hs
      · rename_i hw
        have hresumed := h.resumeTool hw
        rw [Option.some.inj hs] at hresumed
        exact hresumed
      · cases hs
    · cases hs
  | resumeWorker w call =>
    simp only [ToolRunner.step] at hs
    split at hs
    · split at hs
      · rename_i i r hw
        have hw' : (s.store i r).workers[w]? = some (.toolDone i r) := hw
        have hloop := Inv.loop call (requests.drop s.nextIndex)
          ((s.store i r).setWorker w .atLoop) rfl (h.store hw) (setWorker_self hw')
        rw [Option.some.inj hs] at hloop
        exact hloop
      · cases hs
    · cases hs
  | abort =>
    simp only [ToolRunner.step] at hs
    split at hs
    · cases hs
      exact h.abort
    · cases hs

end Invariant

/-! ## Runs -/

theorem inv_init (errorMessage : E → Option String) (requests : List (ToolRequest A))
    (maxConcurrency : JsNumber) (aborted₀ : Bool) :
    Inv (V := V) errorMessage requests
      (if requests.length = 0 then 0 else poolSize requests maxConcurrency) aborted₀ []
      (init requests maxConcurrency aborted₀) := by
  have hatLoop : ∀ (w : ℕ) x, (init (V := V) (E := E) requests maxConcurrency
      aborted₀).workers[w]? = some x → x = .atLoop := by
    intro w x hw
    simp only [init] at hw
    split at hw
    · cases hw
    · exact List.eq_of_mem_replicate (List.mem_of_getElem? hw)
  refine
    { aborted_iff := ?_, lawful := along_nil _, size := List.length_replicate,
      workers_length := ?_, bound := Nat.zero_le _, fresh := fun _ _ => rfl, worker := ?_,
      held := ?_, distinct := ?_, claimed := ?_, stored := ?_, finished := ?_, counts := ?_ }
  · simp [Aborted, init]
  · simp only [init]
    split
    · rfl
    · exact List.length_replicate
  · intro w x hw
    rw [hatLoop w x hw]
    trivial
  · intro w x i hw hi
    rw [hatLoop w x hw] at hi
    cases hi
  · intro w w' x x' i hw _ hi
    rw [hatLoop w x hw] at hi
    cases hi
  · intro i hi
    exact absurd hi (Nat.not_lt_zero i)
  · intro i r hr
    have hmem := List.mem_of_getElem? hr
    have hnone := List.eq_of_mem_replicate hmem
    cases hnone
  · intro w hw
    have hx := hatLoop w _ hw
    cases hx
  · have hzero : (init (V := V) (E := E) requests maxConcurrency aborted₀).workers.countP
        Worker.isAwaiting = 0 := by
      rw [List.countP_eq_zero]
      intro x hx
      rcases List.mem_iff_getElem?.mp hx with ⟨w, hw⟩
      rw [hatLoop w x hw]
      exact Bool.false_ne_true
    rw [hzero]
    rfl

theorem inv_run {errorMessage : E → Option String} {requests : List (ToolRequest A)}
    {maxConcurrency : JsNumber} {aborted₀ : Bool} {es : List (Event V E)} {tr : List (Obs V E)}
    {s : Runner V E}
    (hrun : (machine errorMessage requests maxConcurrency aborted₀).Run es tr s) :
    Inv errorMessage requests
      (if requests.length = 0 then 0 else poolSize requests maxConcurrency) aborted₀ tr s :=
  hrun.history_invariant (fun _ tr s => Inv errorMessage requests _ aborted₀ tr s)
    (inv_init errorMessage requests maxConcurrency aborted₀)
    (fun _ _ _ _ _ _ _ hinv hs => hinv.step hs)

end InterviewPrep.ToolRunner
