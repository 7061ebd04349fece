import Mathlib.Data.Nat.Find
import InterviewPrep.IdempotentExecutor.AtMostOnce

/-!
# The scope of the lock

`execute` awaits an existing task inside `async with self.lock`, so a duplicate
of a call whose handler is running keeps everyone else out until that handler
ends. `unrelated_keys` says that this is the only obstacle: as long as no call is
made for a key whose handler is still to run or to end, every call gets its
handler started without waiting for any other.

An `asyncio.Lock` is fair: the caller that waited first takes it (`firstInLine`).
The proof serves the callers in line one after the other (`exists_drained`).
-/

namespace InterviewPrep.IdempotentExecutor.Python

variable {A V : Type}

/-! ## The fair lock -/

def Caller.isWaiting (caller : Caller A V) : Bool :=
  match caller.state with
  | .waiting => true
  | _ => false

/-- Nobody who came earlier still waits for the lock. -/
def firstInLine (s : Executor A V) : Event A V → Bool
  | .acquire c => (s.callers.take c).all (fun caller => !caller.isWaiting)
  | _ => true

/-- The executor with a lock that is taken in the order of the calls. -/
def fairMachine (A V : Type) : Machine (Executor A V) (Event A V) (Obs A V) where
  init := init
  step s e := if firstInLine s e then step s e else none

/-! ## The property -/

/-- The handler for a key can be started although no handler of another key ends
and no caller is cancelled. -/
def CanStart (s : Executor A V) (key : String) : Prop :=
  ∃ fs s' tr', (fairMachine A V).execFrom s fs = some (s', tr') ∧ (∀ c, .cancel c ∉ fs) ∧
    (∀ call o, .ended call o ∈ tr' → _make_key call = key) ∧
    ∃ call, .invoked call ∈ tr' ∧ _make_key call = key

/-- The handler of task `t` has called `execute` for another key, and that call
waits for the lock, which a duplicate of the handler's own call holds until the
task has finished. -/
def CircularWait (s : Executor A V) (t c : ℕ) : Prop :=
  ∃ (own nested dup : ToolCall A) (d : ℕ), s.tasks[t]? = some ⟨own, .running⟩ ∧
    s.callers[c]? = some ⟨nested, .waiting⟩ ∧ _make_key nested ≠ _make_key own ∧
    s.lock = some d ∧ s.callers[d]? = some ⟨dup, .joined t true⟩

/-- Calls for unrelated keys do not wait for each other's handlers. -/
structure Unrelated (s : Executor A V) : Prop where
  /-- a call whose key has no task yet gets its handler started -/
  starts : ∀ (c : ℕ) call, s.callers[c]? = some ⟨call, .waiting⟩ →
    s.executions.get? (_make_key call) = none → CanStart s (_make_key call)
  /-- nobody holds the lock while suspended on the outcome of a handler -/
  lock : ∀ (c : ℕ) call t, s.callers[c]? = some ⟨call, .joined t true⟩ → Finished s t
  acyclic : ∀ t c, ¬ CircularWait s t c

/-- A call is made for a key whose task has not finished, or will be created by a
caller in line. -/
def ConcurrentDuplicate (s : Executor A V) (e : Event A V) : Prop :=
  ∃ call, e = .execute call ∧
    ((∃ t, s.executions.get? (_make_key call) = some t ∧ ¬ Finished s t) ∨
      (s.executions.get? (_make_key call) = none ∧ ∃ (c : ℕ) (other : ToolCall A),
        s.callers[c]? = some ⟨other, .waiting⟩ ∧ _make_key other = _make_key call))

/-! ## The line -/

section Callers

variable {callers : List (Caller A V)} {c d : ℕ} {call call' : ToolCall A}
  {old state : CallerState V}

theorem isWaiting_iff {caller : Caller A V} :
    caller.isWaiting = true ↔ caller.state = .waiting := by
  rcases caller with ⟨call, state⟩
  cases state <;> simp [Caller.isWaiting]

/-- Who waits after the step of a caller that does not wait is another one, and
waited before. -/
theorem waiting_of_set (hstate : state ≠ .waiting)
    (h : (callers.set c ⟨call, state⟩)[d]? = some ⟨call', .waiting⟩) :
    d ≠ c ∧ callers[d]? = some ⟨call', .waiting⟩ := by
  rcases getElem?_set_cases h with ⟨-, heq⟩ | hother
  · cases heq
    exact absurd rfl hstate
  · exact hother

theorem waiting_set_of_ne (hne : d ≠ c) (h : callers[d]? = some ⟨call', .waiting⟩) :
    (callers.set c ⟨call, state⟩)[d]? = some ⟨call', .waiting⟩ := by
  rw [List.getElem?_set_ne hne.symm]
  exact h

/-- The step takes the caller off the count of those who wait. -/
theorem countP_isWaiting_set (hstate : state ≠ .waiting)
    (h : callers[c]? = some ⟨call, old⟩) :
    (callers.set c ⟨call, state⟩).countP Caller.isWaiting +
        (if (⟨call, old⟩ : Caller A V).isWaiting then 1 else 0) =
      callers.countP Caller.isWaiting := by
  have hadd := countP_set_add (a := (⟨call, state⟩ : Caller A V)) Caller.isWaiting h
  have hnot : ¬ (⟨call, state⟩ : Caller A V).isWaiting = true := by
    rw [isWaiting_iff]
    exact hstate
  rw [if_neg hnot] at hadd
  exact hadd

end Callers

/-- Among the first `n` callers nobody waits for a task that has not finished,
and each key without a task has one caller at most. -/
structure Orderly (n : ℕ) (s : Executor A V) : Prop where
  held : LockHeld s
  lock : ∀ (c : ℕ) call t, s.callers[c]? = some ⟨call, .joined t true⟩ → Finished s t
  finished : ∀ c < n, ∀ call t, s.callers[c]? = some ⟨call, .waiting⟩ →
    s.executions.get? (_make_key call) = some t → Finished s t
  distinct : ∀ c < n, ∀ d < n, ∀ call call', s.callers[c]? = some ⟨call, .waiting⟩ →
    s.callers[d]? = some ⟨call', .waiting⟩ → _make_key call = _make_key call' →
    s.executions.get? (_make_key call) = none → c = d

variable {n : ℕ} {s s' : Executor A V}

/-- A step of a task. -/
theorem Orderly.setTask (h : Orderly n s) {e : Event A V} {out : List (Obs A V)}
    (hs : Step s e s' out) (hcallers : s'.callers = s.callers)
    (hexec : s'.executions = s.executions) : Orderly n s' := by
  refine ⟨h.held.step hs, ?_, ?_, ?_⟩
  · intro c call t hc
    rw [hcallers] at hc
    exact hs.finished (h.lock c call t hc)
  · intro c hcn call t hc ht
    rw [hcallers] at hc
    rw [hexec] at ht
    exact hs.finished (h.finished c hcn call t hc ht)
  · rw [hcallers, hexec]
    exact h.distinct

/-- A caller leaves. -/
theorem Orderly.leave (h : Orderly n s) {e : Event A V} {out : List (Obs A V)}
    (hs : Step s e s' out) {c : ℕ} {call : ToolCall A} {state : CallerState V}
    (hcallers : s'.callers = s.callers.set c ⟨call, state⟩) (hexec : s'.executions = s.executions)
    (hwaiting : state ≠ .waiting) (hjoined : ∀ t, state ≠ .joined t true) : Orderly n s' := by
  have hold : ∀ (d : ℕ) call', s'.callers[d]? = some ⟨call', .waiting⟩ →
      s.callers[d]? = some ⟨call', .waiting⟩ := by
    intro d call' hd
    rw [hcallers] at hd
    exact (waiting_of_set hwaiting hd).2
  refine ⟨h.held.step hs, ?_, ?_, ?_⟩
  · intro d call' t hd
    rw [hcallers] at hd
    rcases getElem?_set_cases hd with ⟨-, heq⟩ | ⟨-, hold⟩
    · cases heq
      exact absurd rfl (hjoined t)
    · exact hs.finished (h.lock d call' t hold)
  · intro d hdn call' t hd ht
    rw [hexec] at ht
    exact hs.finished (h.finished d hdn call' t (hold d call' hd) ht)
  · intro d hdn d' hdn' call₁ call₂ hd hd' hkey hnone
    rw [hexec] at hnone
    exact h.distinct d hdn d' hdn' call₁ call₂ (hold d call₁ hd) (hold d' call₂ hd') hkey hnone

/-- A caller joins the finished task of its key. -/
theorem Orderly.acquireExisting (h : Orderly n s) {c : ℕ} {call : ToolCall A} {t : ℕ}
    (hlock : s.lock = none) (hcaller : s.callers[c]? = some ⟨call, .waiting⟩)
    (hget : s.executions.get? (_make_key call) = some t) (ht : Finished s t) :
    Orderly n (setCaller { s with lock := some c } c call (.joined t true)) := by
  have hs : Step s (.acquire c) _ [] := .acquireExisting hlock hcaller hget
  have hold : ∀ (d : ℕ) call', (s.callers.set c ⟨call, .joined t true⟩)[d]? =
      some ⟨call', .waiting⟩ → s.callers[d]? = some ⟨call', .waiting⟩ := by
    intro d call' hd
    exact (waiting_of_set (by simp) hd).2
  refine ⟨h.held.step hs, ?_, ?_, ?_⟩
  · intro d call' u hd
    rcases getElem?_set_cases hd with ⟨-, heq⟩ | ⟨-, hold⟩
    · cases heq
      exact hs.finished ht
    · exact hs.finished (h.lock d call' u hold)
  · intro d hdn call' u hd hu
    exact hs.finished (h.finished d hdn call' u (hold d call' hd) hu)
  · intro d hdn d' hdn' call₁ call₂ hd hd'
    exact h.distinct d hdn d' hdn' call₁ call₂ (hold d call₁ hd) (hold d' call₂ hd')

/-- A caller in line creates the task of its key. -/
theorem Orderly.acquireNew (h : Orderly n s) {c : ℕ} (hcn : c < n) {call : ToolCall A}
    (hlock : s.lock = none) (hcaller : s.callers[c]? = some ⟨call, .waiting⟩)
    (hget : s.executions.get? (_make_key call) = none) :
    Orderly n (setCaller
      { s with
        tasks := s.tasks ++ [⟨call, .created⟩]
        executions := s.executions.setItem (_make_key call) s.tasks.length }
      c call (.joined s.tasks.length false)) := by
  have hs : Step s (.acquire c) _ [] := .acquireNew hlock hcaller hget
  -- the others in line have other keys
  have hother : ∀ d < n, ∀ call', (s.callers.set c ⟨call, .joined s.tasks.length false⟩)[d]? =
      some ⟨call', .waiting⟩ → s.callers[d]? = some ⟨call', .waiting⟩ ∧
        (s.executions.setItem (_make_key call) s.tasks.length).get? (_make_key call') =
          s.executions.get? (_make_key call') := by
    intro d hdn call' hd
    rcases waiting_of_set (by simp) hd with ⟨hne, hold⟩
    have hkey : _make_key call' ≠ _make_key call := by
      intro hkey
      exact hne (h.distinct c hcn d hdn call call' hcaller hold hkey.symm hget).symm
    exact ⟨hold, OrderedDict.get?_setItem_of_ne _ _ hkey⟩
  refine ⟨h.held.step hs, ?_, ?_, ?_⟩
  · intro d call' u hd
    rcases getElem?_set_cases hd with ⟨-, heq⟩ | ⟨-, hold⟩
    · cases heq
    · exact hs.finished (h.lock d call' u hold)
  · intro d hdn call' u hd hu
    rcases hother d hdn call' hd with ⟨hold, hsame⟩
    have hu : (s.executions.setItem (_make_key call) s.tasks.length).get? (_make_key call') =
        some u := hu
    rw [hsame] at hu
    exact hs.finished (h.finished d hdn call' u hold hu)
  · intro d hdn d' hdn' call₁ call₂ hd hd' hkey hnone
    rcases hother d hdn call₁ hd with ⟨hold, hsame⟩
    rcases hother d' hdn' call₂ hd' with ⟨hold', -⟩
    have hnone : (s.executions.setItem (_make_key call) s.tasks.length).get? (_make_key call₁) =
        none := hnone
    rw [hsame] at hnone
    exact h.distinct d hdn d' hdn' call₁ call₂ hold hold' hkey hnone

/-- A call behind the first `n` changes nothing for them. -/
theorem Orderly.execute (h : Orderly n s) (hn : n ≤ s.callers.length) (call : ToolCall A) :
    Orderly n { s with callers := s.callers ++ [⟨call, .waiting⟩] } := by
  have hs : Step s (.execute call) _ [] := .execute call
  have hold : ∀ d < n, ∀ caller, (s.callers ++ [⟨call, .waiting⟩])[d]? = some caller →
      s.callers[d]? = some caller := by
    intro d hdn caller hd
    rw [List.getElem?_append_left (by omega)] at hd
    exact hd
  refine ⟨h.held.step hs, ?_, ?_, ?_⟩
  · intro d call' u hd
    rcases getElem?_concat_cases hd with ⟨-, heq⟩ | hd
    · cases heq
    · exact h.lock d call' u hd
  · intro d hdn call' u hd
    exact h.finished d hdn call' u (hold d hdn _ hd)
  · intro d hdn d' hdn' call₁ call₂ hd hd'
    exact h.distinct d hdn d' hdn' call₁ call₂ (hold d hdn _ hd) (hold d' hdn' _ hd')

/-- All callers stay in order as long as no concurrent duplicate comes. -/
theorem Orderly.step (h : ∀ n, Orderly n s) {e : Event A V} {out : List (Obs A V)}
    (hs : Step s e s' out) (he : ¬ ConcurrentDuplicate s e) : ∀ n, Orderly n s' := by
  intro n
  cases hs with
  | taskStart htask => exact (h n).setTask (.taskStart htask) rfl rfl
  | taskEnds outcome htask => exact (h n).setTask (.taskEnds outcome htask) rfl rfl
  | cancelTask hcaller htask hunfinished =>
    exact (h n).setTask (.cancelTask hcaller htask hunfinished) rfl rfl
  | resumeDone hcaller htask =>
    exact (h n).leave (.resumeDone hcaller htask) rfl rfl (by simp) (by simp)
  | resumeCancelled hcaller htask =>
    exact (h n).leave (.resumeCancelled hcaller htask) rfl rfl (by simp) (by simp)
  | cancelWaiting hcaller =>
    exact (h n).leave (.cancelWaiting hcaller) rfl rfl (by simp) (by simp)
  | cancelJoined hcaller htask hunfinished =>
    exact (h n).leave (.cancelJoined hcaller htask hunfinished) rfl rfl (by simp) (by simp)
  | @acquireExisting c call t hlock hcaller hget =>
    have ht := (h (c + 1)).finished c (Nat.lt_succ_self c) call t hcaller hget
    exact (h n).acquireExisting hlock hcaller hget ht
  | @acquireNew c call hlock hcaller hget =>
    have hmax := (h (max n (c + 1))).acquireNew (by omega) hlock hcaller hget
    refine ⟨hmax.held, hmax.lock, ?_, ?_⟩
    · intro d hdn
      exact hmax.finished d (by omega)
    · intro d hdn d' hdn'
      exact hmax.distinct d (by omega) d' (by omega)
  | execute call =>
    have hlength := (h s.callers.length).execute (Nat.le_refl _) call
    -- the new caller is no duplicate of those before it
    have hfirst : ∀ (d : ℕ) call', s.callers[d]? = some ⟨call', .waiting⟩ →
        _make_key call' = _make_key call → s.executions.get? (_make_key call) ≠ none := by
      intro d call' hd hkey hnone
      exact he ⟨call, rfl, Or.inr ⟨hnone, d, call', hd, hkey⟩⟩
    have hlt : ∀ (d : ℕ) caller, s.callers[d]? = some caller → d < s.callers.length := by
      intro d caller hd
      rcases List.getElem?_eq_some_iff.mp hd with ⟨hlt, -⟩
      exact hlt
    refine ⟨hlength.held, hlength.lock, ?_, ?_⟩
    · intro d _ call' t hd ht
      rcases getElem?_concat_cases hd with ⟨-, heq⟩ | hold
      · cases heq
        by_contra hnot
        exact he ⟨call, rfl, Or.inl ⟨t, ht, hnot⟩⟩
      · exact hlength.finished d (hlt d _ hold) call' t hd ht
    · intro d _ d' _ call₁ call₂ hd hd' hkey hnone
      rcases getElem?_concat_cases hd with ⟨rfl, heq⟩ | hold
      · cases heq
        rcases getElem?_concat_cases hd' with ⟨rfl, -⟩ | hold'
        · rfl
        · exact absurd hnone (hfirst d' call₂ hold' hkey.symm)
      · rcases getElem?_concat_cases hd' with ⟨rfl, heq⟩ | hold'
        · cases heq
          rw [hkey] at hnone
          exact absurd hnone (hfirst d call₁ hold hkey)
        · exact hlength.distinct d (hlt d _ hold) d' (hlt d' _ hold') call₁ call₂ hd hd' hkey hnone

/-! ## Serving the line -/

/-- What becomes of the state while callers among the first `n` are served: the
others still wait, no task moves, and a key gets its task from one of them. -/
structure Served (n : ℕ) (s s' : Executor A V) : Prop where
  behind : ∀ c, n ≤ c → ∀ call, s.callers[c]? = some ⟨call, .waiting⟩ →
    s'.callers[c]? = some ⟨call, .waiting⟩
  tasks : ∀ (t : ℕ) task, s.tasks[t]? = some task → s'.tasks[t]? = some task
  known : ∀ k t, s.executions.get? k = some t → s'.executions.get? k = some t
  waited : ∀ (c : ℕ) call, s'.callers[c]? = some ⟨call, .waiting⟩ →
    s.callers[c]? = some ⟨call, .waiting⟩
  fresh : ∀ k, s.executions.get? k = none → s'.executions.get? k = none ∨
    (∃ c < n, ∃ call, s.callers[c]? = some ⟨call, .waiting⟩ ∧ _make_key call = k) ∧
      ∃ t call, s'.executions.get? k = some t ∧ s'.tasks[t]? = some ⟨call, .created⟩
  served : ∀ (c : ℕ) call, s.callers[c]? = some ⟨call, .waiting⟩ →
    s'.callers[c]? = some ⟨call, .waiting⟩ ∨ s'.executions.get? (_make_key call) ≠ none

theorem Served.refl (n : ℕ) (s : Executor A V) : Served n s s where
  behind _ _ _ hc := hc
  tasks _ _ ht := ht
  known _ _ hk := hk
  waited _ _ hc := hc
  fresh _ hk := Or.inl hk
  served _ _ hc := Or.inl hc

theorem Served.trans {s'' : Executor A V} (h : Served n s s') (h' : Served n s' s'') :
    Served n s s'' where
  behind c hc call hcall := h'.behind c hc call (h.behind c hc call hcall)
  tasks t task ht := h'.tasks t task (h.tasks t task ht)
  known k t hk := h'.known k t (h.known k t hk)
  waited c call hc := h.waited c call (h'.waited c call hc)
  fresh k hk := by
    rcases h.fresh k hk with hnone | ⟨hcaller, t, call, ht, htask⟩
    · rcases h'.fresh k hnone with hnone' | ⟨⟨c, hc, call, hcall, hkey⟩, hcreated⟩
      · exact Or.inl hnone'
      · exact Or.inr ⟨⟨c, hc, call, h.waited c call hcall, hkey⟩, hcreated⟩
    · exact Or.inr ⟨hcaller, t, call, h'.known k t ht, h'.tasks t _ htask⟩
  served c call hc := by
    rcases h.served c call hc with hwaits | hknown
    · exact h'.served c call hwaits
    · right
      intro hnone
      rcases Option.ne_none_iff_exists'.mp hknown with ⟨t, ht⟩
      rw [h'.known _ t ht] at hnone
      cases hnone

section Moves

variable {c : ℕ} {call : ToolCall A}

/-- The holder of the lock leaves. -/
theorem Served.leave {old state : CallerState V} (n : ℕ) (hcaller : s.callers[c]? = some ⟨call, old⟩)
    (hold : old ≠ .waiting) (hstate : state ≠ .waiting) :
    Served n s (setCaller (release true s) c call state) := by
  have hstay : ∀ (d : ℕ) call', s.callers[d]? = some ⟨call', .waiting⟩ →
      (s.callers.set c ⟨call, state⟩)[d]? = some ⟨call', .waiting⟩ := by
    intro d call' hd
    refine waiting_set_of_ne ?_ hd
    rintro rfl
    rw [hcaller] at hd
    cases hd
    exact hold rfl
  exact {
    behind := fun d _ call' hd => hstay d call' hd
    tasks := fun _ _ ht => ht
    known := fun _ _ hk => hk
    waited := fun _ _ hd => (waiting_of_set hstate hd).2
    fresh := fun _ hk => Or.inl hk
    served := fun d call' hd => Or.inl (hstay d call' hd) }

/-- A caller in line joins the task of its key. -/
theorem Served.acquireExisting {t : ℕ} (hcn : c < n)
    (hcaller : s.callers[c]? = some ⟨call, .waiting⟩)
    (hget : s.executions.get? (_make_key call) = some t) :
    Served n s (setCaller { s with lock := some c } c call (.joined t true)) where
  behind d hd call' hcall := waiting_set_of_ne (by omega) hcall
  tasks _ _ ht := ht
  known _ _ hk := hk
  waited d call' hd := (waiting_of_set (by simp) hd).2
  fresh _ hk := Or.inl hk
  served d call' hd := by
    by_cases hdc : d = c
    · subst hdc
      rw [hcaller] at hd
      cases hd
      right
      show s.executions.get? (_make_key call) ≠ none
      rw [hget]
      simp
    · exact Or.inl (waiting_set_of_ne hdc hd)

/-- A caller in line creates the task of its key. -/
theorem Served.acquireNew (hcn : c < n) (hcaller : s.callers[c]? = some ⟨call, .waiting⟩)
    (hget : s.executions.get? (_make_key call) = none) :
    Served n s (setCaller
      { s with
        tasks := s.tasks ++ [⟨call, .created⟩]
        executions := s.executions.setItem (_make_key call) s.tasks.length }
      c call (.joined s.tasks.length false)) where
  behind d hd call' hcall := waiting_set_of_ne (by omega) hcall
  tasks _ _ ht := getElem?_concat_of_some ht
  known k t hk := by
    have hne : k ≠ _make_key call := by
      rintro rfl
      rw [hget] at hk
      cases hk
    show (s.executions.setItem (_make_key call) s.tasks.length).get? k = some t
    rw [OrderedDict.get?_setItem_of_ne _ _ hne]
    exact hk
  waited d call' hd := (waiting_of_set (by simp) hd).2
  fresh k hk := by
    by_cases hkey : k = _make_key call
    · subst hkey
      exact Or.inr ⟨⟨c, hcn, call, hcaller, rfl⟩, s.tasks.length, call,
        OrderedDict.get?_setItem_self s.executions _ _, List.getElem?_concat_length⟩
    · left
      show (s.executions.setItem (_make_key call) s.tasks.length).get? k = none
      rw [OrderedDict.get?_setItem_of_ne _ _ hkey]
      exact hk
  served d call' hd := by
    by_cases hdc : d = c
    · subst hdc
      rw [hcaller] at hd
      cases hd
      right
      show (s.executions.setItem (_make_key call) s.tasks.length).get? (_make_key call) ≠ none
      rw [OrderedDict.get?_setItem_self]
      simp
    · exact Or.inl (waiting_set_of_ne hdc hd)

end Moves

/-- The events that take callers through the lock. -/
def Event.isHandover : Event A V → Bool
  | acquire _ => true
  | resume _ => true
  | _ => false

/-- From `s` the fair executor reaches `s'` by handing over the lock, while no
handler starts or ends. -/
def HandsOver (s s' : Executor A V) : Prop :=
  ∃ fs tr', (fairMachine A V).execFrom s fs = some (s', tr') ∧
    (∀ f ∈ fs, Event.isHandover f = true) ∧ ∀ call o, .ended call o ∉ tr'

theorem HandsOver.refl (s : Executor A V) : HandsOver s s :=
  ⟨[], [], rfl, by simp, by simp⟩

theorem HandsOver.trans {s'' : Executor A V} (h : HandsOver s s') (h' : HandsOver s' s'') :
    HandsOver s s'' := by
  rcases h with ⟨fs, tr, hexec, hfs, htr⟩
  rcases h' with ⟨fs', tr', hexec', hfs', htr'⟩
  refine ⟨fs ++ fs', tr ++ tr', Machine.execFrom_append hexec hexec', ?_, ?_⟩
  · intro f hf
    rcases List.mem_append.mp hf with hf | hf
    · exact hfs f hf
    · exact hfs' f hf
  · intro call o hmem
    rcases List.mem_append.mp hmem with hmem | hmem
    · exact htr call o hmem
    · exact htr' call o hmem

theorem HandsOver.single {e : Event A V} {out : List (Obs A V)}
    (hs : (fairMachine A V).step s e = some (s', out)) (he : e.isHandover = true)
    (hout : ∀ call o, .ended call o ∉ out) : HandsOver s s' :=
  ⟨[e], out, Machine.execFrom_singleton hs, by simpa using he, hout⟩

/-- How many callers wait for the lock. -/
def waitingCount (s : Executor A V) : ℕ := s.callers.countP Caller.isWaiting

/-- Who holds the lock leaves, if somebody does. -/
theorem exists_unlocked (h : Orderly n s) :
    ∃ s', HandsOver s s' ∧ Served n s s' ∧ Orderly n s' ∧ s'.lock = none ∧
      waitingCount s' ≤ waitingCount s := by
  cases hlock : s.lock with
  | none => exact ⟨s, .refl s, .refl n s, h, hlock, Nat.le_refl _⟩
  | some c =>
    rcases h.held c hlock with ⟨call, t, hcaller⟩
    rcases h.lock c call t hcaller with ⟨⟨call', status⟩, ht, hfinished⟩
    -- whatever the task came to, the caller returns or is cancelled
    have hleave : ∃ state out, (∀ u, state ≠ .joined u true) ∧ state ≠ .waiting ∧
        (∀ call o, .ended call o ∉ out) ∧
        step s (.resume c) = some (setCaller (release true s) c call state, out) := by
      cases status with
      | created => cases hfinished
      | running => cases hfinished
      | done r =>
        exact ⟨.returned t r, [.returned c call r], by simp, by simp, by simp,
          by simp [Python.step, hcaller, ht]⟩
      | cancelled =>
        exact ⟨.cancelledError, [.cancelledError c call], by simp, by simp, by simp,
          by simp [Python.step, hcaller, ht]⟩
    rcases hleave with ⟨state, out, hjoined, hwaiting, hout, hstep⟩
    have hfair : (fairMachine A V).step s (.resume c) =
        some (setCaller (release true s) c call state, out) := hstep
    refine ⟨_, .single hfair rfl hout, .leave n hcaller (by simp) hwaiting,
      h.leave (step_cases hstep) rfl rfl hwaiting hjoined, rfl, ?_⟩
    have hcount := countP_isWaiting_set hwaiting hcaller
    show (s.callers.set c _).countP Caller.isWaiting ≤ s.callers.countP Caller.isWaiting
    omega

/-- The first caller in line may take the lock. -/
theorem firstInLine_acquire {c : ℕ}
    (h : ∀ d < c, ∀ call, s.callers[d]? ≠ some ⟨call, .waiting⟩) :
    firstInLine s (.acquire c) = true := by
  simp only [firstInLine, List.all_eq_true, Bool.not_eq_true']
  intro caller hcaller
  rcases List.mem_iff_getElem?.mp hcaller with ⟨d, hd⟩
  rcases List.getElem?_eq_some_iff.mp hd with ⟨hlt, -⟩
  have hdc : d < c := by
    rw [List.length_take] at hlt
    omega
  rw [List.getElem?_take_of_lt hdc] at hd
  cases hwaiting : caller.isWaiting with
  | false => rfl
  | true =>
    rcases caller with ⟨call, state⟩
    have hstate : state = .waiting := isWaiting_iff.mp hwaiting
    subst hstate
    exact absurd hd (h d hdc call)

/-- The first caller in line takes the free lock. -/
theorem exists_served_one (h : Orderly n s) (hlock : s.lock = none) {c : ℕ} (hcn : c < n)
    {call : ToolCall A} (hcaller : s.callers[c]? = some ⟨call, .waiting⟩)
    (hfirst : ∀ d < c, ∀ call', s.callers[d]? ≠ some ⟨call', .waiting⟩) :
    ∃ s', HandsOver s s' ∧ Served n s s' ∧ Orderly n s' ∧ waitingCount s' < waitingCount s := by
  have hfair : ∀ s', step s (.acquire c) = some (s', []) → HandsOver s s' := by
    intro s' hs
    have hfair : (fairMachine A V).step s (.acquire c) = some (s', []) := by
      simp only [fairMachine, firstInLine_acquire hfirst, if_true]
      exact hs
    exact .single hfair rfl (by simp)
  have hcount : ∀ t holdsLock, (s.callers.set c ⟨call, .joined t holdsLock⟩).countP
      Caller.isWaiting < waitingCount s := by
    intro t holdsLock
    have hjoined : (.joined t holdsLock : CallerState V) ≠ .waiting := by simp
    have hadd := countP_isWaiting_set hjoined hcaller
    rw [if_pos (isWaiting_iff.mpr rfl)] at hadd
    unfold waitingCount
    omega
  cases hget : s.executions.get? (_make_key call) with
  | some t =>
    -- the task has finished, so the caller does not keep the lock
    have ht := h.finished c hcn call t hcaller hget
    exact ⟨_, hfair _ (by simp [Python.step, hlock, hcaller, enter, hget]),
      .acquireExisting hcn hcaller hget, h.acquireExisting hlock hcaller hget ht, hcount t true⟩
  | none =>
    exact ⟨_, hfair _ (by simp [Python.step, hlock, hcaller, enter, hget]),
      .acquireNew hcn hcaller hget, h.acquireNew hcn hlock hcaller hget,
      hcount s.tasks.length false⟩

/-- The first `n` callers get through the lock, by induction on those who
wait. -/
theorem exists_drained : ∀ (m : ℕ) {s : Executor A V}, Orderly n s → waitingCount s ≤ m →
    ∃ s', HandsOver s s' ∧ Served n s s' ∧ Orderly n s' ∧ s'.lock = none ∧
      ∀ c < n, ∀ call, s'.callers[c]? ≠ some ⟨call, .waiting⟩ := by
  intro m
  induction m with
  | zero =>
    intro s h hcount
    rcases exists_unlocked h with ⟨s₁, hhands, hserved, horderly, hlock, hle⟩
    refine ⟨s₁, hhands, hserved, horderly, hlock, ?_⟩
    intro c _ call hc
    -- nobody waits at all
    have hzero : s₁.callers.countP Caller.isWaiting = 0 := by
      unfold waitingCount at hle hcount
      omega
    have hnot := List.countP_eq_zero.mp hzero _ (List.mem_of_getElem? hc)
    exact hnot rfl
  | succ m ih =>
    intro s h hcount
    rcases exists_unlocked h with ⟨s₁, hhands, hserved, horderly, hlock, hle⟩
    by_cases hex : ∃ c, c < n ∧ ∃ call, s₁.callers[c]? = some ⟨call, .waiting⟩
    · -- the first of them takes the lock
      classical
      rcases Nat.find_spec hex with ⟨hcn, call, hcaller⟩
      have hfirst : ∀ d < Nat.find hex, ∀ call', s₁.callers[d]? ≠ some ⟨call', .waiting⟩ := by
        intro d hd call' hcall'
        exact Nat.find_min hex hd ⟨by omega, call', hcall'⟩
      rcases exists_served_one horderly hlock hcn hcaller hfirst with
        ⟨s₂, hhands₂, hserved₂, horderly₂, hlt⟩
      rcases ih horderly₂ (by omega) with ⟨s₃, hhands₃, hserved₃, hrest⟩
      exact ⟨s₃, (hhands.trans hhands₂).trans hhands₃, (hserved.trans hserved₂).trans hserved₃,
        hrest⟩
    · refine ⟨s₁, hhands, hserved, horderly, hlock, ?_⟩
      intro c hcn call hc
      exact hex ⟨c, hcn, call, hc⟩

/-! ## Runs without concurrent duplicates -/

section Runs

variable {es : List (Event A V)} {tr : List (Obs A V)}

theorem fair_step {e : Event A V} {out : List (Obs A V)}
    (hs : (fairMachine A V).step s e = some (s', out)) : step s e = some (s', out) := by
  simp only [fairMachine] at hs
  split at hs
  · exact hs
  · cases hs

theorem orderly_run
    (hrun : (fairMachine A V).RunWhere (fun s e => ¬ ConcurrentDuplicate s e) es tr s) :
    ∀ n, Orderly n s := by
  refine hrun.history_invariant (fun _ _ s => ∀ n, Orderly n s) ?_ ?_
  · intro n
    constructor
    · intro c hc
      cases hc
    · intro c call t hc
      cases hc
    · intro c _ call t hc
      cases hc
    · intro c _ d _ call call' hc
      cases hc
  · intro es tr s e s' out _ hinv he hs
    exact Orderly.step hinv (step_cases (fair_step hs)) he

theorem Event.not_cancel_of_isHandover {fs : List (Event A V)}
    (hfs : ∀ f ∈ fs, Event.isHandover f = true) (c : ℕ) : .cancel c ∉ fs := by
  intro hmem
  have hhandover := hfs _ hmem
  cases hhandover

/-- A caller in line whose key has no task gets its handler started. -/
theorem Orderly.canStart (h : ∀ n, Orderly n s) {c : ℕ} {call : ToolCall A}
    (hcaller : s.callers[c]? = some ⟨call, .waiting⟩)
    (hget : s.executions.get? (_make_key call) = none) : CanStart s (_make_key call) := by
  -- the callers in front are served
  rcases exists_drained (waitingCount s) (h c) (Nat.le_refl _) with
    ⟨s₁, ⟨fs, tr₁, hexec, hfs, htr₁⟩, hserved, -, hlock, hnone⟩
  have hcaller₁ := hserved.behind c (Nat.le_refl c) call hcaller
  have hget₁ : s₁.executions.get? (_make_key call) = none := by
    rcases hserved.fresh _ hget with hnone | ⟨⟨d, hd, other, hother, hkey⟩, -⟩
    · exact hnone
    · -- none of them has the same key
      have hdc := (h (c + 1)).distinct c (by omega) d (by omega) call other hcaller hother
        hkey.symm hget
      omega
  -- then the caller creates its task, which starts
  have hacquire : (fairMachine A V).step s₁ (.acquire c) = some (enter s₁ c call, []) := by
    simp only [fairMachine, firstInLine_acquire hnone, if_true]
    simp [Python.step, hlock, hcaller₁]
  have hstart : (fairMachine A V).step (enter s₁ c call) (.taskStart s₁.tasks.length) =
      some (Python.setTask (enter s₁ c call) s₁.tasks.length call .running, [.invoked call]) := by
    have htask : (enter s₁ c call).tasks[s₁.tasks.length]? = some ⟨call, .created⟩ := by
      simp [enter, hget₁, setCaller]
    show Python.step (enter s₁ c call) (.taskStart s₁.tasks.length) = _
    simp [Python.step, htask]
  have hsteps := Machine.execFrom_cons hacquire (Machine.execFrom_singleton hstart)
  refine ⟨_, _, _, Machine.execFrom_append hexec hsteps, ?_, ?_, call, by simp, rfl⟩
  · intro d hmem
    have hnot := Event.not_cancel_of_isHandover hfs d
    simp [hnot] at hmem
  · intro call' o hmem
    have hnot := htr₁ call' o
    simp [hnot] at hmem

theorem Orderly.unrelated (h : ∀ n, Orderly n s) : Unrelated s where
  starts _ _ hcaller hget := Orderly.canStart h hcaller hget
  lock := (h 0).lock
  acyclic t c := by
    rintro ⟨own, nested, dup, d, ht, -, -, -, hd⟩
    rcases (h 0).lock d dup t hd with ⟨task, htask, hfinished⟩
    rw [ht] at htask
    cases htask
    cases hfinished

/-- After a concurrent duplicate the lock can be handed over until the duplicate
holds it, suspended on an unfinished task. -/
theorem exists_not_unrelated (h : ∀ n, Orderly n s) (htasks : TasksOk tr s) {e : Event A V}
    {out : List (Obs A V)} (hs : step s e = some (s', out)) (he : ConcurrentDuplicate s e) :
    ∃ s'', HandsOver s' s'' ∧ ¬ Unrelated s'' := by
  rcases he with ⟨call, rfl, hduplicate⟩
  cases hs
  have horderly := (h s.callers.length).execute (Nat.le_refl _) call
  rcases exists_drained _ horderly (Nat.le_refl _) with ⟨s₁, hhands, hserved, -, hlock, hnone⟩
  have hcaller : s₁.callers[s.callers.length]? = some ⟨call, .waiting⟩ :=
    hserved.behind s.callers.length (Nat.le_refl _) call List.getElem?_concat_length
  -- its key has an unfinished task by now
  have htask : ∃ t, s₁.executions.get? (_make_key call) = some t ∧ ¬ Finished s₁ t := by
    rcases hduplicate with ⟨t, ht, hunfinished⟩ | ⟨hfresh, c, other, hother, hkey⟩
    · refine ⟨t, hserved.known _ t ht, ?_⟩
      rintro ⟨task, htask, hfinished⟩
      rcases htasks.lookup _ t ht with ⟨task', htask', -⟩
      have heq : task' = task := by
        rw [hserved.tasks t task' htask'] at htask
        exact Option.some.inj htask
      rw [heq] at htask'
      exact hunfinished ⟨task, htask', hfinished⟩
    · -- the caller in line has created it
      have hknown : s₁.executions.get? (_make_key call) ≠ none := by
        rcases List.getElem?_eq_some_iff.mp hother with ⟨hlt, -⟩
        rcases hserved.served c other (getElem?_concat_of_some hother) with hwaits | hknown
        · exact absurd hwaits (hnone c hlt other)
        · rw [hkey] at hknown
          exact hknown
      rcases hserved.fresh _ hfresh with hnot | ⟨-, t, call', ht, hcreated⟩
      · exact absurd hnot hknown
      · refine ⟨t, ht, ?_⟩
        rintro ⟨task, htask, hfinished⟩
        rw [hcreated] at htask
        cases htask
        cases hfinished
  rcases htask with ⟨t, ht, hunfinished⟩
  have hacquire : (fairMachine A V).step s₁ (.acquire s.callers.length) =
      some (setCaller { s₁ with lock := some s.callers.length } s.callers.length call
        (.joined t true), []) := by
    simp only [fairMachine, firstInLine_acquire hnone, if_true]
    simp [Python.step, hlock, hcaller, enter, ht]
  refine ⟨_, hhands.trans (.single hacquire rfl (by simp)), ?_⟩
  intro hunrelated
  exact hunfinished (hunrelated.lock _ call t (getElem?_set_of_some hcaller))

theorem tasksOk_of_fair (hrun : (fairMachine A V).Run es tr s) : TasksOk tr s := by
  have hsimulated : ∃ es', (machine A V).Run es' tr s := by
    refine Machine.Run.simulate (M := fairMachine A V) (N := machine A V) id rfl ?_ hrun
    intro s e s' out hs
    exact Or.inr ⟨e, fair_step hs⟩
  rcases hsimulated with ⟨es', hrun'⟩
  exact tasksOk_run hrun'

/-- **Unrelated keys.** In a run in which no call is made for a key whose task
has not finished, or is still to be created by a caller in line, no call waits
for the handler of another key, nobody holds the lock over a handler's outcome,
and no handler waits in a circle with a duplicate of its own call. The first
call that breaks the condition breaks this, as soon as its turn comes. -/
theorem unrelated_keys
    (hrun : (fairMachine A V).RunWhere (fun s e => ¬ ConcurrentDuplicate s e) es tr s) :
    Unrelated s ∧
      ∀ e s' out, (fairMachine A V).step s e = some (s', out) → ConcurrentDuplicate s e →
        ∃ s'', HandsOver s' s'' ∧ ¬ Unrelated s'' := by
  refine ⟨Orderly.unrelated (orderly_run hrun), ?_⟩
  intro e s' out hs he
  exact exists_not_unrelated (orderly_run hrun) (tasksOk_of_fair hrun.run) (fair_step hs) he

end Runs

/-- A call for another key than that of `createCase`. -/
def notifyOwner : ToolCall Unit := ⟨"acme", "notify_owner", "case-request-93", ()⟩

/-- While the handler of the first call runs, a call with another key comes, and
a duplicate of the first behind it. -/
theorem unrelated_keys_notify :
    ∃ es tr s, (fairMachine Unit String).RunWhere (fun s e => ¬ ConcurrentDuplicate s e) es tr s ∧
      s.callers[1]? = some ⟨notifyOwner, .waiting⟩ ∧ CanStart s (_make_key notifyOwner) ∧
      ∃ s' s'' : Executor Unit String, HandsOver s' s'' ∧ ¬ Unrelated s'' := by
  have hfirst : (fairMachine Unit String).RunWhere (fun s e => ¬ ConcurrentDuplicate s e)
      ([] ++ [.execute createCase]) ([] ++ []) { init with callers := [⟨createCase, .waiting⟩] } := by
    refine Machine.RunWhere.init.step ?_ rfl
    rintro ⟨call, heq, ⟨t, ht, -⟩ | ⟨-, c, other, hc, -⟩⟩
    · cases ht
    · cases hc
  have hstarted : ∃ tr s, (fairMachine Unit String).execFrom
      { init with callers := [⟨createCase, .waiting⟩] } [.acquire 0, .taskStart 0] = some (s, tr) ∧
      s.callers = [⟨createCase, .joined 0 false⟩] ∧ s.tasks = [⟨createCase, .running⟩] ∧
      s.executions.get? (_make_key notifyOwner) = none ∧
      s.executions.get? (_make_key createCase) = some 0 :=
    ⟨_, _, rfl, rfl, rfl, by decide +kernel, by decide +kernel⟩
  rcases hstarted with ⟨tr, s, hexec, hcallers, htasks, hother, hown⟩
  have hsecond := hfirst.execFrom (by
    rintro e he s ⟨call, rfl, -⟩
    simp at he) hexec
  have hthird := hsecond.step (e := .execute notifyOwner) (by
    rintro ⟨call, heq, ⟨t, ht, -⟩ | ⟨-, c, other, hc, -⟩⟩
    · cases heq
      rw [hother] at ht
      cases ht
    · rw [hcallers] at hc
      match c, hc with
      | 0, hc => cases hc) rfl
  rcases unrelated_keys hthird with ⟨hunrelated, hexact⟩
  have hcaller : (s.callers ++ [⟨notifyOwner, .waiting⟩])[1]? = some ⟨notifyOwner, .waiting⟩ := by
    simp [hcallers]
  have hduplicate : ConcurrentDuplicate
      { s with callers := s.callers ++ [⟨notifyOwner, .waiting⟩] } (.execute createCase) := by
    refine ⟨createCase, rfl, Or.inl ⟨0, hown, ?_⟩⟩
    rintro ⟨task, ht, hfinished⟩
    have ht : s.tasks[0]? = some task := ht
    rw [htasks] at ht
    cases ht
    cases hfinished
  rcases hexact (.execute createCase) _ [] rfl hduplicate with ⟨s'', hhands, hnot⟩
  exact ⟨_, _, _, hthird, hcaller, hunrelated.starts 1 notifyOwner hcaller hother, _, s'', hhands,
    hnot⟩

/-! ## A caller shut out -/

/-- The lock is held by a caller that is suspended on the unfinished task `t`,
and no task has the key. -/
structure ShutOut (key : String) (t d : ℕ) (s : Executor A V) : Prop where
  lock : s.lock = some d
  holder : ∃ call, s.callers[d]? = some ⟨call, .joined t true⟩
  only : ∀ (c : ℕ) call u, s.callers[c]? = some ⟨call, .joined u true⟩ → c = d
  unfinished : ∃ task, s.tasks[t]? = some task ∧ task.status.unfinished = true
  foreign : ∀ (u : ℕ) task, s.tasks[u]? = some task → _make_key task.call ≠ key

variable {key : String} {t d : ℕ}

/-- Another caller leaves. -/
theorem ShutOut.leave (h : ShutOut key t d s) {c : ℕ} {call : ToolCall A} {u : ℕ}
    {holdsLock : Bool} {task : Task A V} (hc : s.callers[c]? = some ⟨call, .joined u holdsLock⟩)
    (hu : s.tasks[u]? = some task) (hfinished : task.status.unfinished = false)
    {state : CallerState V} (hstate : ∀ v, state ≠ .joined v true) :
    ShutOut key t d (setCaller (release holdsLock s) c call state) := by
  rcases h.holder with ⟨dup, hdup⟩
  have hne : c ≠ d := by
    rintro rfl
    rw [hdup] at hc
    cases hc
    rcases h.unfinished with ⟨task', ht, hunfinished⟩
    rw [hu] at ht
    cases ht
    rw [hfinished] at hunfinished
    cases hunfinished
  -- so it does not hold the lock
  have hrelease : holdsLock = false := by
    cases holdsLock with
    | false => rfl
    | true => exact absurd (h.only c call u hc) hne
  subst hrelease
  refine ⟨h.lock, ⟨dup, ?_⟩, ?_, h.unfinished, h.foreign⟩
  · show (s.callers.set c _)[d]? = _
    rw [List.getElem?_set_ne hne]
    exact hdup
  · intro c' call' v hc'
    rcases getElem?_set_cases hc' with ⟨-, heq⟩ | ⟨-, hold⟩
    · cases heq
      exact absurd rfl (hstate v)
    · exact h.only c' call' v hold

/-- A task goes on; `t` stays unfinished. -/
theorem ShutOut.setTask (h : ShutOut key t d s) {u : ℕ} {call : ToolCall A}
    {status status' : TaskStatus V} (hu : s.tasks[u]? = some ⟨call, status⟩)
    (hstatus : u = t → status'.unfinished = true) :
    ShutOut key t d (Python.setTask s u call status') := by
  refine ⟨h.lock, h.holder, h.only, ?_, ?_⟩
  · rcases h.unfinished with ⟨task, ht, hunfinished⟩
    by_cases hut : u = t
    · subst hut
      exact ⟨_, getElem?_set_of_some ht, hstatus rfl⟩
    · refine ⟨task, ?_, hunfinished⟩
      show (s.tasks.set u _)[t]? = some task
      rw [List.getElem?_set_ne hut]
      exact ht
  · intro v task hv
    rcases getElem?_set_cases hv with ⟨-, rfl⟩ | ⟨-, hold⟩
    · exact h.foreign u ⟨call, status⟩ hu
    · exact h.foreign v task hold

/-- Nothing but the end of a handler or a cancellation changes this. -/
theorem ShutOut.step (h : ShutOut key t d s) {e : Event A V} {out : List (Obs A V)}
    (hs : Step s e s' out) (hcancel : ∀ c, e ≠ .cancel c)
    (hended : ∀ call o, .ended call o ∈ out → _make_key call = key) :
    ShutOut key t d s' ∧ ∀ call, .invoked call ∈ out → _make_key call ≠ key := by
  cases hs with
  | execute call =>
    rcases h.holder with ⟨dup, hdup⟩
    refine ⟨⟨h.lock, ⟨dup, getElem?_concat_of_some hdup⟩, ?_, h.unfinished, h.foreign⟩, by simp⟩
    intro c call' u hc
    rcases getElem?_concat_cases hc with ⟨-, heq⟩ | hold
    · cases heq
    · exact h.only c call' u hold
  | acquireExisting hlock hcaller hget =>
    rw [h.lock] at hlock
    cases hlock
  | acquireNew hlock hcaller hget =>
    rw [h.lock] at hlock
    cases hlock
  | @taskStart u call hu =>
    refine ⟨h.setTask hu (fun _ => rfl), ?_⟩
    intro call' hmem
    have heq : call' = call := by simpa using hmem
    rw [heq]
    exact h.foreign u ⟨call, .created⟩ hu
  | @taskEnds u call outcome hu =>
    -- a handler of the key would have to end
    have hkey : _make_key call = key := hended call outcome (by simp)
    exact absurd hkey (h.foreign u ⟨call, .running⟩ hu)
  | resumeDone hcaller hu => exact ⟨h.leave hcaller hu rfl (by simp), by simp⟩
  | resumeCancelled hcaller hu => exact ⟨h.leave hcaller hu rfl (by simp), by simp⟩
  | cancelWaiting hcaller => exact absurd rfl (hcancel _)
  | cancelTask hcaller hu hunfinished => exact absurd rfl (hcancel _)
  | cancelJoined hcaller hu hunfinished => exact absurd rfl (hcancel _)

theorem ShutOut.not_invoked : ∀ (fs : List (Event A V)) {s s' : Executor A V}
    {tr : List (Obs A V)}, ShutOut key t d s → (fairMachine A V).execFrom s fs = some (s', tr) →
    (∀ c, .cancel c ∉ fs) → (∀ call o, .ended call o ∈ tr → _make_key call = key) →
    ∀ call, .invoked call ∈ tr → _make_key call ≠ key := by
  intro fs
  induction fs with
  | nil =>
    intro s s' tr _ hexec _ _ call hmem
    cases hexec
    cases hmem
  | cons e fs ih =>
    intro s s' tr h hexec hcancel hended call hmem
    rcases Machine.execFrom_cons_cases hexec with ⟨s₁, out, tr₁, hs, hrest, rfl⟩
    have hhead : ∀ c, e ≠ .cancel c := by
      rintro c rfl
      exact hcancel c (by simp)
    rcases h.step (step_cases (fair_step hs)) hhead (fun call' o ho =>
      hended call' o (List.mem_append_left _ ho)) with ⟨h₁, hout⟩
    rcases List.mem_append.mp hmem with hmem | hmem
    · exact hout call hmem
    · exact ih h₁ hrest (fun c hc => hcancel c (List.mem_cons_of_mem _ hc))
        (fun call' o ho => hended call' o (List.mem_append_right _ ho)) call hmem

/-- Who is shut out cannot get its handler started. -/
theorem ShutOut.not_canStart (h : ShutOut key t d s) : ¬ CanStart s key := by
  rintro ⟨fs, s', tr, hexec, hcancel, hended, call, hmem, hkey⟩
  exact h.not_invoked fs hexec hcancel hended call hmem hkey

/-- A duplicate comes while the handler runs and takes the lock; then the handler
makes a call with another key. -/
def nestedRun : List (Event Unit String) :=
  [.execute createCase, .acquire 0, .taskStart 0, .execute createCase, .acquire 1,
    .execute notifyOwner]

/-- The nested call waits for the lock, which the duplicate holds until the
handler ends, which waits for the nested call. -/
theorem nested_call_shut_out :
    ∃ tr s, (fairMachine Unit String).Run nestedRun tr s ∧
      s.callers[2]? = some ⟨notifyOwner, .waiting⟩ ∧
      s.executions.get? (_make_key notifyOwner) = none ∧
      ¬ CanStart s (_make_key notifyOwner) ∧ CircularWait s 0 2 := by
  have hexec : ∃ tr s, (fairMachine Unit String).exec nestedRun = some (s, tr) ∧
      s.lock = some 1 ∧ s.tasks = [⟨createCase, .running⟩] ∧
      s.callers = [⟨createCase, .joined 0 false⟩, ⟨createCase, .joined 0 true⟩,
        ⟨notifyOwner, .waiting⟩] ∧
      s.executions.get? (_make_key notifyOwner) = none :=
    ⟨_, _, rfl, rfl, rfl, rfl, by decide +kernel⟩
  rcases hexec with ⟨tr, s, hexec, hlock, htasks, hcallers, hget⟩
  have hkey : _make_key notifyOwner ≠ _make_key createCase := by decide +kernel
  have hshut : ShutOut (_make_key notifyOwner) 0 1 s := by
    refine ⟨hlock, ⟨createCase, by simp [hcallers]⟩, ?_, ⟨⟨createCase, .running⟩, by simp [htasks], rfl⟩, ?_⟩
    · intro c call u hc
      rw [hcallers] at hc
      match c, hc with
      | 0, hc => cases hc
      | 1, _ => rfl
      | 2, hc => cases hc
    · intro u task hu
      rw [htasks] at hu
      match u, hu with
      | 0, hu =>
        cases hu
        exact hkey.symm
  refine ⟨tr, s, .of_exec hexec, by simp [hcallers], hget, hshut.not_canStart, ?_⟩
  exact ⟨createCase, notifyOwner, createCase, 1, by simp [htasks], by simp [hcallers], hkey, hlock,
    by simp [hcallers]⟩

end InterviewPrep.IdempotentExecutor.Python
