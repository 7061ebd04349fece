import InterviewPrep.TicketRetry.Contract

/-!
# Retries against an idempotent service

The ticketing service keeps one ticket for each idempotency key and answers a request
with a known key by the ticket it has. A timeout says nothing about what happened: the
request may be lost, or the answer to it. `Against` is such a service, over a whole
trace; `creates_at_most_one` is what the retries come to against it.
-/

namespace InterviewPrep.TicketRetry

variable {E V : Type}

/-- The service, with the ticket that its last successful answer was about. -/
structure Service (V : Type) where
  tickets : List (String × V)
  answered : Option (String × V)

/-- What an exchange does to the service. -/
inductive Service.Step (s : Service V) : Exchange E V → Service V → Prop where
  /-- the request is lost, or refused -/
  | lost {key body : String} {x : Fetched E} : x.isOk = false →
      Step s ⟨.fetch key body, x⟩ ⟨s.tickets, none⟩
  /-- a ticket is created; the client may never hear of it -/
  | created {key body : String} {x : Fetched E} {v : V} : (∀ v', (key, v') ∉ s.tickets) →
      Step s ⟨.fetch key body, x⟩ ⟨s.tickets ++ [(key, v)], some (key, v)⟩
  /-- the key is known -/
  | repeated {key body : String} {x : Fetched E} {v : V} : (key, v) ∈ s.tickets →
      Step s ⟨.fetch key body, x⟩ ⟨s.tickets, some (key, v)⟩
  /-- the body of the answer is the ticket -/
  | json {key : String} {v : V} : s.answered = some (key, v) → Step s ⟨.json, .ok v⟩ s
  | invalid {err : E} : Step s ⟨.json, .error err⟩ s
  | startTimer : Step s ⟨.startTimer, ()⟩ s
  | clearTimer : Step s ⟨.clearTimer, ()⟩ s
  | sleep {ms : ℕ} : Step s ⟨.sleep ms, ()⟩ s

/-- A trace is one with the service. -/
inductive Against : Service V → List (Exchange E V) → Service V → Prop where
  | nil {s : Service V} : Against s [] s
  | cons {tr : List (Exchange E V)} {s s' s'' : Service V} {e : Exchange E V} :
      s.Step e s' → Against s' tr s'' → Against s (e :: tr) s''

/-- The requests of a trace have the key `key`. -/
def Keyed (key : String) (tr : List (Exchange E V)) : Prop :=
  ∀ key' body x, ⟨.fetch key' body, x⟩ ∈ tr → key' = key

/-- At most one ticket is new, and it has the key `key`, which had none. -/
def AtMostOneNew (key : String) (s s' : Service V) : Prop :=
  s'.tickets = s.tickets ∨
    (∀ v, (key, v) ∉ s.tickets) ∧ ∃ v, s'.tickets = s.tickets ++ [(key, v)]

/-- How the service stands after requests with one key. -/
structure Kept (key : String) (s : Service V) (tr : List (Exchange E V)) (s' : Service V) :
    Prop where
  tickets : AtMostOneNew key s s'
  answered : ∀ key' v, s'.answered = some (key', v) → key' = key ∧ (key, v) ∈ s'.tickets
  json : ∀ v, ⟨.json, .ok v⟩ ∈ tr → (key, v) ∈ s'.tickets

section Kept

variable {key body : String} {s s' s'' : Service V} {tr : List (Exchange E V)}
  {r : Except (Failure E) V}

/-- An exchange other than a JSON body changes nothing but the tickets. -/
theorem Kept.concat (h : Kept key s tr s') {e : Exchange E V}
    (he : ∀ v, e ≠ ⟨.json, .ok v⟩) (htickets : AtMostOneNew key s s'')
    (hmem : ∀ t ∈ s'.tickets, t ∈ s''.tickets)
    (hanswered : ∀ key' v, s''.answered = some (key', v) → key' = key ∧ (key, v) ∈ s''.tickets) :
    Kept key s (tr ++ [e]) s'' := by
  refine ⟨htickets, hanswered, ?_⟩
  intro v hv
  rw [List.mem_append, List.mem_singleton] at hv
  rcases hv with hv | hv
  · exact hmem _ (h.json v hv)
  · exact absurd hv.symm (he v)

theorem Kept.step (h : Kept key s tr s') {e : Exchange E V} (hs : s'.Step e s'')
    (hkey : Keyed key [e]) : Kept key s (tr ++ [e]) s'' := by
  cases hs with
  | lost hok => exact h.concat (by simp) h.tickets (fun t ht => ht) (by simp)
  -- the only step that adds a ticket
  | @created key' body x v hnew =>
    cases hkey key' body x (List.mem_singleton_self _)
    refine h.concat (by simp) ?_ (fun t ht => List.mem_append_left _ ht) ?_
    · rcases h.tickets with hsame | ⟨-, v', hsame⟩
      · -- there was none of this key, in the beginning either
        rw [hsame] at hnew ⊢
        exact Or.inr ⟨hnew, v, rfl⟩
      · -- the ticket that is new already is of this key
        rw [hsame] at hnew
        exact absurd (List.mem_append_right _ (List.mem_singleton_self _)) (hnew v')
    · intro key'' v' heq
      cases heq
      exact ⟨rfl, List.mem_append_right _ (List.mem_singleton_self _)⟩
  | @repeated key' body x v hknown =>
    cases hkey key' body x (List.mem_singleton_self _)
    refine h.concat (by simp) h.tickets (fun t ht => ht) ?_
    intro key'' v' heq
    cases heq
    exact ⟨rfl, hknown⟩
  | @json key' v hanswered =>
    refine ⟨h.tickets, h.answered, ?_⟩
    intro v' hv'
    rw [List.mem_append, List.mem_singleton] at hv'
    rcases hv' with hv' | heq
    · exact h.json v' hv'
    · cases heq
      -- the answer before was about a ticket of this key
      exact (h.answered key' v hanswered).2
  | invalid => exact h.concat (by simp) h.tickets (fun t ht => ht) h.answered
  | startTimer => exact h.concat (by simp) h.tickets (fun t ht => ht) h.answered
  | clearTimer => exact h.concat (by simp) h.tickets (fun t ht => ht) h.answered
  | sleep => exact h.concat (by simp) h.tickets (fun t ht => ht) h.answered

/-- A whole trace with one key. -/
theorem Kept.against {pre : List (Exchange E V)} {s₀ : Service V} (h : Kept key s₀ pre s)
    (hagainst : Against s tr s') (hkey : Keyed key tr) : Kept key s₀ (pre ++ tr) s' := by
  induction hagainst generalizing pre with
  | nil =>
    rw [List.append_nil]
    exact h
  | @cons tr s s' s'' e hstep _ ih =>
    -- the key of the first exchange, and of the others
    have hhead : Keyed key [e] := by
      intro key' body x hmem
      rw [List.mem_singleton] at hmem
      exact hkey key' body x (hmem ▸ List.mem_cons_self)
    have htail : Keyed key tr := fun key' body x hmem =>
      hkey key' body x (List.mem_cons_of_mem _ hmem)
    have hkept := ih (h.step hstep hhead) htail
    rw [List.append_assoc] at hkept
    exact hkept

/-! ## The retries -/

theorem mem_attempts {xs : List (Fetched E)} {i : ℕ} {key' body' : String} {x : Fetched E}
    (h : ⟨.fetch key' body', x⟩ ∈ (attempts body key i xs : List (Exchange E V))) : key' = key := by
  induction xs generalizing i with
  | nil => cases h
  | cons y xs ih =>
    simp only [attempts, List.mem_cons] at h
    rcases h with h | h | h
    · cases h
      rfl
    · cases h
    · exact ih h

theorem Goes.keyed {p : Policy E} {earlier : List (Fetched E)} {last : Fetched E}
    (h : Goes p body key 0 tr r earlier last) : Keyed key tr := by
  rcases h.trace with ⟨rest, rfl, hrest⟩
  intro key' body' x hmem
  rw [List.mem_append, List.mem_cons] at hmem
  rcases hmem with hmem | heq | hmem
  · exact mem_attempts hmem
  · cases heq
    rfl
  · cases hrest <;> simp at hmem

/-- What a call returns was the body of an answer. -/
theorem Goes.json_of_ok {p : Policy E} {earlier : List (Fetched E)} {last : Fetched E} {v : V}
    (h : Goes p body key 0 tr (.ok v) earlier last) : ⟨.json, .ok v⟩ ∈ tr := by
  rcases h.trace with ⟨rest, rfl, hrest⟩
  cases hrest
  simp

/-- A call of one of the two functions. -/
def Call (key : String) (tr : List (Exchange E V)) (r : Except (Failure E) V) : Prop :=
  ∃ body, (createTicket body key).Runs tr r ∨ (create_ticket body key).Runs tr r

theorem Call.keyed (h : Call key tr r) : Keyed key tr := by
  rcases h with ⟨body, h | h⟩
  · rcases (createTicket_goes h).2 with ⟨earlier, last, hgoes⟩
    intro key' body' x hmem
    exact hgoes.keyed key' body' x (List.mem_filter.mpr ⟨hmem, rfl⟩)
  · rcases create_ticket_goes h with ⟨earlier, last, hgoes⟩
    exact hgoes.keyed

theorem Call.json_of_ok {v : V} (h : Call key tr (.ok v : Except (Failure E) V)) :
    ⟨.json, .ok v⟩ ∈ tr := by
  rcases h with ⟨body, h | h⟩
  · rcases (createTicket_goes h).2 with ⟨earlier, last, hgoes⟩
    exact (List.mem_filter.mp hgoes.json_of_ok).1
  · rcases create_ticket_goes h with ⟨earlier, last, hgoes⟩
    exact hgoes.json_of_ok

/-- Calls with one key, one after the other, and their results. -/
inductive Calls (key : String) : List (Exchange E V) → List (Except (Failure E) V) → Prop where
  | nil : Calls key [] []
  | concat {tr tr' : List (Exchange E V)} {rs : List (Except (Failure E) V)}
      {r : Except (Failure E) V} :
      Calls key tr rs → Call key tr' r → Calls key (tr ++ tr') (rs ++ [r])

theorem Calls.keyed {rs : List (Except (Failure E) V)} (h : Calls key tr rs) : Keyed key tr := by
  induction h with
  | nil =>
    intro key' body x hmem
    cases hmem
  | concat _ hcall ih =>
    intro key' body x hmem
    rcases List.mem_append.mp hmem with hmem | hmem
    · exact ih key' body x hmem
    · exact hcall.keyed key' body x hmem

theorem Calls.json_of_ok {rs : List (Except (Failure E) V)} (h : Calls key tr rs) {v : V}
    (hv : .ok v ∈ rs) : ⟨.json, .ok v⟩ ∈ tr := by
  induction h with
  | nil => cases hv
  | concat _ hcall ih =>
    rw [List.mem_append, List.mem_singleton] at hv
    rcases hv with hv | rfl
    · exact List.mem_append_left _ (ih hv)
    · exact List.mem_append_right _ hcall.json_of_ok

/-- **One ticket.** Calls with one key create at most one ticket, however many of their
requests time out or fail behind the service's back; every call that returns, returns
a ticket of that key, and if there was none before, they all return the same. -/
theorem calls_create_one {rs : List (Except (Failure E) V)} (h : Calls key tr rs)
    (hagainst : Against s tr s') (hs : s.answered = none) :
    AtMostOneNew key s s' ∧ (∀ v, .ok v ∈ rs → (key, v) ∈ s'.tickets) ∧
      ((∀ v, (key, v) ∉ s.tickets) → ∀ v v', .ok v ∈ rs → .ok v' ∈ rs → v = v') := by
  -- in the beginning nothing has been asked
  have hinit : Kept key s ([] : List (Exchange E V)) s := ⟨Or.inl rfl, by simp [hs], by simp⟩
  have hkept := hinit.against hagainst h.keyed
  have hmem : ∀ v, .ok v ∈ rs → (key, v) ∈ s'.tickets := fun v hv => hkept.json v (h.json_of_ok hv)
  refine ⟨hkept.tickets, hmem, fun hnone v v' hv hv' => ?_⟩
  have hv := hmem v hv
  have hv' := hmem v' hv'
  rcases hkept.tickets with hsame | ⟨-, v₀, hsame⟩
  · -- without a ticket, nothing can have been returned
    rw [hsame] at hv
    exact absurd hv (hnone v)
  · rw [hsame, List.mem_append, List.mem_singleton, or_iff_right (hnone _)] at hv hv'
    cases hv
    cases hv'
    rfl

end Kept

/-! ## A call that fails, and a ticket all the same -/

/-- All three requests time out, but the second one has created a ticket. -/
def lostAnswers : List (Exchange String ℕ) :=
  [⟨.fetch "k" "b", .timedOut none⟩, ⟨.sleep 100, ()⟩, ⟨.fetch "k" "b", .timedOut none⟩, ⟨.sleep 200, ()⟩,
    ⟨.fetch "k" "b", .timedOut none⟩]

/-- The caller tries again. -/
def secondCall : List (Exchange String ℕ) := [⟨.fetch "k" "b", .responded true 200⟩, ⟨.json, .ok 7⟩]

theorem calls_create_one_lostAnswers :
    Calls "k" (lostAnswers ++ secondCall) [.error (.timedOut ""), .ok 7] ∧
      Against ⟨[], none⟩ (lostAnswers ++ secondCall) ⟨[("k", 7)], some ("k", 7)⟩ ∧
      AtMostOneNew "k" (⟨[], none⟩ : Service ℕ) ⟨[("k", 7)], some ("k", 7)⟩ := by
  have hfirst : (create_ticket "b" "k").Runs lostAnswers (.error (.timedOut "")) :=
    ⟨_, _, rfl, _, _, rfl, _, _, rfl, _, _, rfl, _, _, rfl, rfl, rfl⟩
  have hsecond : (create_ticket "b" "k").Runs secondCall (.ok 7) :=
    ⟨_, _, rfl, _, _, rfl, rfl, rfl⟩
  have hcalls : Calls "k" (lostAnswers ++ secondCall) [.error (.timedOut ""), .ok 7] :=
    .concat (.concat .nil ⟨"b", Or.inr hfirst⟩) ⟨"b", Or.inr hsecond⟩
  have hlost : (.timedOut none : Fetched String).isOk = false := rfl
  have hagainst : Against ⟨[], none⟩ (lostAnswers ++ secondCall) ⟨[("k", 7)], some ("k", 7)⟩ :=
    .cons (.lost hlost) <| .cons .sleep <| .cons (.created (by simp)) <| .cons .sleep <|
      .cons (.repeated (List.mem_singleton_self _)) <|
      .cons (.repeated (List.mem_singleton_self _)) <| .cons (.json rfl) .nil
  exact ⟨hcalls, hagainst, (calls_create_one hcalls hagainst rfl).1⟩

end InterviewPrep.TicketRetry
