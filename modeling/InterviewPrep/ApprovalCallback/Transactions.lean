import InterviewPrep.ApprovalCallback.Decisions
import InterviewPrep.Lib.Slots

/-!
# Concurrent approval callbacks

`approvalCallback` of `technical/duplicate_approval_callback/answer.md`. Any number
of calls run at the same time, each in a transaction of its own. The database is not
part of the repository: it is a parameter `D`, and what the comments of the source take
it for is assumed of it, as `Store.Lawful`. `getForUpdate` "is meant to represent a
database read using a row-level lock": a row that was read so is exclusive until the
transaction ends. The "state change + outbox insert" are to be atomic: what a transaction
writes is its own until it is committed all at once, and if the transaction fails, as it
may at every `await`, nothing of it is left. A call that throws has been rolled back.

A step is what happens at one `await` of a call. `System.run_refines` shows that over
every such database the calls together do what they do one after the other, in the order
in which they commit, so that each request is decided once (`approvalCallback_decided`).
-/

namespace InterviewPrep.ApprovalCallback

/-- Where a call stands. -/
inductive CallState where
  /-- `await tx.approvals.getForUpdate(..)` -/
  | reading
  /-- the row was read at the time `now`; `await tx.approvals.update(..)` -/
  | updating (request : Approval) (now : ℤ)
  /-- `await tx.outbox.insert(..)` -/
  | inserting (request : Approval) (now : ℤ)
  /-- the function of the transaction has returned; the commit is outstanding -/
  | committing (request : Approval) (now : ℤ) (response : Response)
  | finished

/-- A call whose signature was verified. -/
structure Call where
  body : Body
  state : CallState

/-- The calls, and the database they work on; a transaction has the number of its
call. -/
structure System (σ : Type*) where
  db : σ
  calls : List Call

inductive CallEvent where
  /-- a call, up to its first `await`, if it does not throw before -/
  | call (rawBody signature : String)
  | getForUpdate (c : ℕ) (now : ℤ)
  | update (c : ℕ)
  | insert (c : ℕ)
  | commit (c : ℕ)
  /-- the transaction of a call is rolled back -/
  | fail (c : ℕ) (now : ℤ)
  | openRequest (id : String) (expiresAt : ℤ) (digest : String)
  | supersede (id : String) (digest : String)
  | withdraw (id : String) (name : String)

/-- Behind `getForUpdate`, up to the next `await`. -/
def Call.decide (call : Call) (request : Approval) (now : ℤ) : Call :=
  match check request call.body.decision now with
  | some response => { call with state := .committing request now response }
  | none => { call with state := .updating request now }

/-- Behind `tx.approvals.update(..)`, up to the next `await`. -/
def Call.updated (call : Call) (request : Approval) (now : ℤ) : Call :=
  { call with
    state :=
      if call.body.decision = .approved then .inserting request now
      else .committing request now .ok }

/-- Behind `tx.outbox.insert(..)`. -/
def Call.inserted (call : Call) (request : Approval) (now : ℤ) : Call :=
  { call with state := .committing request now .ok }

/-- The end of a call. -/
def Call.ended (call : Call) : Call := { call with state := .finished }

section Program

variable {σ : Type*} (D : Store σ String Approval String)
  (verifySignature : String → String → Bool) (parse : String → Option Body)

/-- A change of a row by somebody else, who waits for the row as well. -/
def System.elsewhere (s : System σ) (id : String) (row : Approval) (o : Obs) :
    Option (System σ × List Obs) :=
  (D.put s.db id row).map fun db => ({ s with db := db }, [o])

def System.step (s : System σ) : CallEvent → Option (System σ × List Obs)
  | .call rawBody signature =>
    if verifySignature rawBody signature then
      match parse rawBody with
      | some body => some ({ s with calls := s.calls ++ [⟨body, .reading⟩] }, [])
      -- `JSON.parse` throws before the transaction begins
      | none => some (s, [])
    -- `Invalid signature`
    else some (s, [])
  | .getForUpdate c now =>
    match s.calls[c]? with
    | some ⟨body, .reading⟩ =>
      match D.getForUpdate s.db c body.requestId with
      -- another transaction has the row, and this one waits
      | none => none
      -- the transaction rolls back at the exception
      | some (none, db) => some (⟨D.rollback db c, s.calls.set c (Call.ended ⟨body, .reading⟩)⟩,
          [.responded c body now .notFound])
      | some (some request, db) =>
        some (⟨db, s.calls.set c (Call.decide ⟨body, .reading⟩ request now)⟩, [])
    | _ => none
  | .update c =>
    match s.calls[c]? with
    | some ⟨body, .updating request now⟩ =>
      some (⟨D.update s.db c request.id body.saved,
        s.calls.set c (Call.updated ⟨body, .updating request now⟩ request now)⟩, [])
    | _ => none
  | .insert c =>
    match s.calls[c]? with
    | some ⟨body, .inserting request now⟩ =>
      some (⟨D.insert s.db c request.id,
        s.calls.set c (Call.inserted ⟨body, .inserting request now⟩ request now)⟩, [])
    | _ => none
  | .commit c =>
    match s.calls[c]? with
    | some ⟨body, .committing request now response⟩ =>
      some (⟨D.commit s.db c,
          s.calls.set c (Call.ended ⟨body, .committing request now response⟩)⟩,
        [.responded c body now response])
    | _ => none
  | .fail c now =>
    match s.calls[c]? with
    | some ⟨_, .finished⟩ => none
    | some call =>
      some (⟨D.rollback s.db c, s.calls.set c call.ended⟩, [.responded c call.body now .failed])
    | none => none
  | .openRequest id expiresAt digest =>
    match (D.contents s.db).row id with
    | none =>
      s.elsewhere D id (newApproval id expiresAt digest) (.opened id expiresAt digest)
    | some _ => none
  | .supersede id digest =>
    match (D.contents s.db).row id with
    | none => none
    | some row => s.elsewhere D id { row with currentActionDigest := digest }
        (.superseded id digest)
  | .withdraw id name =>
    match (D.contents s.db).row id with
    | none => none
    | some row =>
      if row.status = .pending then
        s.elsewhere D id { row with status := .other name } (.withdrawn id)
      else none

def System.machine : Machine (System σ) CallEvent Obs where
  init := ⟨D.init, []⟩
  step := System.step D verifySignature parse

end Program

/-! ## What a step does -/

/-- A call is answered. -/
def Obs.answers : Obs → Bool
  | responded .. => true
  | _ => false

/-- The changes of one step. -/
inductive System.Step {σ : Type*} (D : Store σ String Approval String)
    (verifySignature : String → String → Bool) (parse : String → Option Body) (s : System σ) :
    CallEvent → System σ → List Obs → Prop where
  | refused {rawBody signature : String} :
      Step D verifySignature parse s (.call rawBody signature) s []
  | called {rawBody signature : String} {body : Body} : verifySignature rawBody signature = true →
      parse rawBody = some body →
      Step D verifySignature parse s (.call rawBody signature)
        { s with calls := s.calls ++ [⟨body, .reading⟩] } []
  | notFound {c : ℕ} {now : ℤ} {call : Call} {db : σ} : s.calls[c]? = some call →
      call.state = .reading → D.getForUpdate s.db c call.body.requestId = some (none, db) →
      Step D verifySignature parse s (.getForUpdate c now)
        ⟨D.rollback db c, s.calls.set c call.ended⟩ [.responded c call.body now .notFound]
  | locked {c : ℕ} {now : ℤ} {call : Call} {request : Approval} {db : σ} :
      s.calls[c]? = some call → call.state = .reading →
      D.getForUpdate s.db c call.body.requestId = some (some request, db) →
      Step D verifySignature parse s (.getForUpdate c now)
        ⟨db, s.calls.set c (call.decide request now)⟩ []
  | update {c : ℕ} {now : ℤ} {call : Call} {request : Approval} : s.calls[c]? = some call →
      call.state = .updating request now →
      Step D verifySignature parse s (.update c)
        ⟨D.update s.db c request.id call.body.saved, s.calls.set c (call.updated request now)⟩ []
  | insert {c : ℕ} {now : ℤ} {call : Call} {request : Approval} : s.calls[c]? = some call →
      call.state = .inserting request now →
      Step D verifySignature parse s (.insert c)
        ⟨D.insert s.db c request.id, s.calls.set c (call.inserted request now)⟩ []
  | commit {c : ℕ} {now : ℤ} {call : Call} {request : Approval} {response : Response} :
      s.calls[c]? = some call → call.state = .committing request now response →
      Step D verifySignature parse s (.commit c) ⟨D.commit s.db c, s.calls.set c call.ended⟩
        [.responded c call.body now response]
  | fail {c : ℕ} {now : ℤ} {call : Call} : s.calls[c]? = some call → call.state ≠ .finished →
      Step D verifySignature parse s (.fail c now) ⟨D.rollback s.db c, s.calls.set c call.ended⟩
        [.responded c call.body now .failed]
  | elsewhere {e : CallEvent} {id : String} {row : Approval} {e' : Event} {db : σ} {o : Obs} :
      D.put s.db id row = some db →
      Ledger.step (D.contents s.db) e' = some ((D.contents s.db).setRow id row, [o]) →
      o.answers = false → Step D verifySignature parse s e { s with db := db } [o]

section Steps

variable {σ : Type*} {D : Store σ String Approval String}
  {verifySignature : String → String → Bool} {parse : String → Option Body}

theorem System.elsewhere_cases {s s' : System σ} {id : String} {row : Approval} {e : CallEvent}
    {e' : Event} {o : Obs} {out : List Obs} (h : s.elsewhere D id row o = some (s', out))
    (hs : Ledger.step (D.contents s.db) e' = some ((D.contents s.db).setRow id row, [o]))
    (ho : o.answers = false) : Step D verifySignature parse s e s' out := by
  rcases Option.map_eq_some_iff.mp h with ⟨db, hput, heq⟩
  cases heq
  exact .elsewhere hput hs ho

theorem System.step_cases {s s' : System σ} {e : CallEvent} {out : List Obs}
    (h : System.step D verifySignature parse s e = some (s', out)) :
    Step D verifySignature parse s e s' out := by
  cases e with
  | call rawBody signature =>
    simp only [System.step] at h
    split at h
    · rename_i hverified
      split at h
      · rename_i body hparse
        cases h
        exact .called hverified hparse
      · cases h
        exact .refused
    · cases h
      exact .refused
  | getForUpdate c now =>
    simp only [System.step] at h
    split at h
    · rename_i hc
      split at h
      · cases h
      · rename_i hget
        cases h
        exact .notFound hc rfl hget
      · rename_i hget
        cases h
        exact .locked hc rfl hget
    · cases h
  | update c =>
    simp only [System.step] at h
    split at h
    · rename_i hc
      cases h
      exact .update hc rfl
    · cases h
  | insert c =>
    simp only [System.step] at h
    split at h
    · rename_i hc
      cases h
      exact .insert hc rfl
    · cases h
  | commit c =>
    simp only [System.step] at h
    split at h
    · rename_i hc
      cases h
      exact .commit hc rfl
    · cases h
  | fail c now =>
    simp only [System.step] at h
    split at h
    · cases h
    · rename_i call hover hc
      cases h
      refine .fail hc ?_
      intro hstate
      rcases call with ⟨body, state⟩
      exact hover body (congrArg (Call.mk body) hstate)
    · cases h
  -- the ledger opens, replaces and takes back a request under the same conditions
  | openRequest id expiresAt digest =>
    simp only [System.step] at h
    split at h
    · rename_i hrow
      have hs : Ledger.step (D.contents s.db) (.openRequest id expiresAt digest) =
          some ((D.contents s.db).setRow id (newApproval id expiresAt digest),
            [.opened id expiresAt digest]) := by
        simp only [Ledger.step, hrow]
      exact elsewhere_cases h hs rfl
    · cases h
  | supersede id digest =>
    simp only [System.step] at h
    split at h
    · cases h
    · rename_i row hrow
      have hs : Ledger.step (D.contents s.db) (.supersede id digest) =
          some ((D.contents s.db).setRow id { row with currentActionDigest := digest },
            [.superseded id digest]) := by
        simp only [Ledger.step, hrow]
      exact elsewhere_cases h hs rfl
  | withdraw id name =>
    simp only [System.step] at h
    split at h
    · cases h
    · rename_i row hrow
      split at h
      · rename_i hpending
        have hs : Ledger.step (D.contents s.db) (.withdraw id name) =
            some ((D.contents s.db).setRow id { row with status := .other name },
              [.withdrawn id]) := by
          simp only [Ledger.step, hrow, if_pos hpending]
        exact elsewhere_cases h hs rfl
      · cases h

end Steps

/-! ## What a transaction has read and written -/

/-- The row that a call holds. -/
def CallState.held? : CallState → Option String
  | reading => none
  | updating request _ => some request.id
  | inserting request _ => some request.id
  | committing request _ _ => some request.id
  | finished => none

theorem Call.decide_held? (call : Call) (request : Approval) (now : ℤ) :
    (call.decide request now).state.held? = some request.id := by
  rw [Call.decide]
  split <;> rfl

theorem Call.updated_held? (call : Call) (request : Approval) (now : ℤ) :
    (call.updated request now).state.held? = some request.id := by
  rw [Call.updated]
  split <;> rfl

theorem Call.inserted_held? (call : Call) (request : Approval) (now : ℤ) :
    (call.inserted request now).state.held? = some request.id := rfl

/-- The row that a transaction holds is as it was read, and it has written what the
callback writes up to this point. -/
inductive Holding (db : Tables) : Call → Writes String Approval String → Prop where
  | reading {body : Body} : Holding db ⟨body, .reading⟩ Writes.none
  | updating {body : Body} {request : Approval} {now : ℤ} :
      db.row body.requestId = some request → request.id = body.requestId →
      check request body.decision now = none →
      Holding db ⟨body, .updating request now⟩ Writes.none
  | inserting {body : Body} {request : Approval} {now : ℤ} :
      db.row body.requestId = some request → request.id = body.requestId →
      check request body.decision now = none → body.decision = .approved →
      Holding db ⟨body, .inserting request now⟩ (Writes.none.update request.id body.saved)
  | answering {body : Body} {request : Approval} {now : ℤ} {response : Response} :
      db.row body.requestId = some request → request.id = body.requestId →
      check request body.decision now = some response →
      Holding db ⟨body, .committing request now response⟩ Writes.none
  | saving {body : Body} {request : Approval} {now : ℤ} :
      db.row body.requestId = some request → request.id = body.requestId →
      check request body.decision now = none →
      Holding db ⟨body, .committing request now .ok⟩ (writes request body)
  | finished {body : Body} : Holding db ⟨body, .finished⟩ Writes.none

/-- The calls are consistent with the database. -/
structure System.Inv {σ : Type*} (D : Store σ String Approval String) (s : System σ) : Prop where
  ids : ∀ id row, (D.contents s.db).row id = some row → row.id = id
  holding : ∀ (c : ℕ) call, s.calls[c]? = some call →
    Holding (D.contents s.db) call (D.written s.db c)
  /-- the rows that are held are those that a call holds -/
  holders : ∀ id c, D.holder s.db id = some c ↔
    ∃ call, s.calls[c]? = some call ∧ call.state.held? = some id
  /-- a call that is still to come has written nothing -/
  idle : ∀ c, s.calls.length ≤ c → D.written s.db c = Writes.none

section Holding

variable {db db' : Tables} {call : Call} {w : Writes String Approval String}

/-- A transaction does not see what is done to other rows. -/
theorem Holding.frame (h : Holding db call w)
    (hframe : ∀ id, call.state.held? = some id → db'.row id = db.row id) :
    Holding db' call w := by
  cases h with
  | reading => exact .reading
  | @updating body request now hget hid hcheck =>
    exact .updating ((hframe _ (congrArg some hid)).trans hget) hid hcheck
  | @inserting body request now hget hid hcheck happroved =>
    exact .inserting ((hframe _ (congrArg some hid)).trans hget) hid hcheck happroved
  | @answering body request now response hget hid hcheck =>
    exact .answering ((hframe _ (congrArg some hid)).trans hget) hid hcheck
  | @saving body request now hget hid hcheck =>
    exact .saving ((hframe _ (congrArg some hid)).trans hget) hid hcheck
  | finished => exact .finished

theorem Holding.eq_none (h : Holding db call w) (hstate : call.state = .reading) :
    w = Writes.none := by
  cases h with
  | reading => rfl
  | _ => cases hstate

/-- A transaction has written only the row that it holds. -/
theorem Holding.held_of_mem (h : Holding db call w) {u : String × (Approval → Approval)}
    (hu : u ∈ w.updates) : call.state.held? = some u.1 := by
  cases h with
  | inserting =>
    rw [List.mem_singleton.mp hu]
    rfl
  | saving =>
    rw [List.mem_singleton.mp hu]
    rfl
  | _ => cases hu

theorem Holding.decide {body : Body} {request : Approval}
    (hget : db.row body.requestId = some request) (hid : request.id = body.requestId)
    (now : ℤ) : Holding db (Call.decide ⟨body, .reading⟩ request now) Writes.none := by
  rw [Call.decide]
  cases hcheck : check request body.decision now with
  | none => exact .updating hget hid hcheck
  | some response => exact .answering hget hid hcheck

theorem Holding.updated {request : Approval} {now : ℤ} (h : Holding db call w)
    (hstate : call.state = .updating request now) :
    Holding db (call.updated request now) (w.update request.id call.body.saved) := by
  cases h with
  | @updating body request now hget hid hcheck =>
    cases hstate
    by_cases happroved : body.decision = .approved
    · simp only [Call.updated, if_pos happroved]
      exact .inserting hget hid hcheck happroved
    · -- a rejection has no intent to write
      have hwrites : writes request body = Writes.none.update request.id body.saved := by
        rw [writes, if_neg happroved]
        rfl
      simp only [Call.updated, if_neg happroved]
      rw [← hwrites]
      exact .saving hget hid hcheck
  | _ => cases hstate

theorem Holding.inserted {request : Approval} {now : ℤ} (h : Holding db call w)
    (hstate : call.state = .inserting request now) :
    Holding db (call.inserted request now) (w.insert request.id) := by
  cases h with
  | @inserting body request now hget hid hcheck happroved =>
    cases hstate
    have hwrites : writes request body =
        (Writes.none.update request.id body.saved).insert request.id := by
      rw [writes, if_pos happroved]
      rfl
    rw [← hwrites]
    exact .saving hget hid hcheck
  | _ => cases hstate

/-- A transaction commits what the callback does in one step. -/
theorem Holding.commit {request : Approval} {now : ℤ} {response : Response}
    (h : Holding db call w) (hstate : call.state = .committing request now response) :
    callback db call.body now = (w.save db, response) := by
  cases h with
  | answering hget hid hcheck =>
    cases hstate
    rw [callback, hget, Writes.none_save]
    simp only [hcheck]
  | saving hget hid hcheck =>
    cases hstate
    rw [callback, hget]
    simp only [hcheck]
  | _ => cases hstate

end Holding

section Invariant

variable {σ : Type*} {D : Store σ String Approval String} {s : System σ} {db : σ} {c : ℕ}
  {x x' : Call}

/-- A call that is disturbed by nobody. -/
theorem System.Inv.undisturbed (h : s.Inv D) (hx : s.calls[c]? = some x)
    (hothers : D.Undisturbed c s.db db) : Holding (D.contents db) x (D.written db c) := by
  rw [hothers.written]
  refine (h.holding c x hx).frame fun id hid => ?_
  exact hothers.row id ((h.holders id c).mpr ⟨x, hx, hid⟩)

/-- One call goes on, and disturbs no other. -/
theorem System.Inv.move (h : s.Inv D) (hx : s.calls[c]? = some x)
    (hids : ∀ id row, (D.contents db).row id = some row → row.id = id)
    (hothers : ∀ d, d ≠ c → D.Undisturbed d s.db db)
    (hx' : Holding (D.contents db) x' (D.written db c))
    (hholder : ∀ id, D.holder db id = some c ↔ x'.state.held? = some id) :
    System.Inv D ⟨db, s.calls.set c x'⟩ := by
  refine ⟨hids, ?_, ?_, ?_⟩
  · intro d y hy
    rcases getElem?_set_cases hy with ⟨rfl, rfl⟩ | ⟨hd, hy⟩
    · -- the call that goes on
      exact hx'
    · exact h.undisturbed hy (hothers d hd)
  · intro id d
    by_cases hd : d = c
    · subst hd
      rw [hholder, getElem?_set_of_some hx]
      simp
    · rw [(hothers d hd).holder, h.holders, List.getElem?_set_ne (Ne.symm hd)]
  · intro d hd
    rw [List.length_set] at hd
    have hne : d ≠ c := by
      rintro rfl
      rw [List.getElem?_eq_none hd] at hx
      cases hx
    rw [(hothers d hne).written]
    exact h.idle d hd

/-- A call goes on and holds what it held; nothing has been committed. -/
theorem System.Inv.write (h : s.Inv D) (hx : s.calls[c]? = some x)
    (hcontents : D.contents db = D.contents s.db) (hholder : D.holder db = D.holder s.db)
    (hothers : ∀ d, d ≠ c → D.Undisturbed d s.db db)
    (hx' : Holding (D.contents s.db) x' (D.written db c))
    (hheld : x'.state.held? = x.state.held?) : System.Inv D ⟨db, s.calls.set c x'⟩ := by
  refine h.move hx (hcontents ▸ h.ids) hothers (hcontents ▸ hx') fun id => ?_
  rw [hholder, h.holders, hx, hheld]
  simp

/-- A call ends, and with it its transaction. -/
theorem System.Inv.ended (h : s.Inv D) {db' : σ} (hx : s.calls[c]? = some x)
    (hids : ∀ id row, (D.contents db').row id = some row → row.id = id)
    (hothers : ∀ d, d ≠ c → D.Undisturbed d s.db db') (hreleased : D.Released c db db') :
    System.Inv D ⟨db', s.calls.set c x.ended⟩ := by
  refine h.move hx hids hothers ?_ fun id => ?_
  · rw [hreleased.written, Function.update_self]
    exact .finished
  · rw [hreleased.holder]
    simp [Call.ended, CallState.held?]

theorem System.Inv.concat (h : s.Inv D) (body : Body) :
    System.Inv D { s with calls := s.calls ++ [⟨body, .reading⟩] } := by
  refine ⟨h.ids, ?_, ?_, ?_⟩
  · intro c x hx
    rcases getElem?_concat_cases hx with ⟨rfl, rfl⟩ | hx
    · show Holding _ _ (D.written s.db s.calls.length)
      rw [h.idle _ (Nat.le_refl _)]
      exact .reading
    · exact h.holding c x hx
  · intro id c
    rw [h.holders]
    constructor
    · rintro ⟨x, hx, hheld⟩
      exact ⟨x, getElem?_concat_of_some hx, hheld⟩
    · rintro ⟨x, hx, hheld⟩
      rcases getElem?_concat_cases hx with ⟨-, rfl⟩ | hx
      · -- the new call holds no row yet
        cases hheld
      · exact ⟨x, hx, hheld⟩
  · intro c hc
    rw [List.length_append] at hc
    exact h.idle c (Nat.le_of_add_right_le hc)

/-- The database changes, and no call is disturbed. -/
theorem System.Inv.setDb (h : s.Inv D)
    (hids : ∀ id row, (D.contents db).row id = some row → row.id = id)
    (hothers : ∀ d, D.Undisturbed d s.db db) : System.Inv D { s with db := db } := by
  refine ⟨hids, fun c x hx => h.undisturbed hx (hothers c), fun id c => ?_, fun c hc => ?_⟩
  · rw [(hothers c).holder]
    exact h.holders id c
  · show D.written db c = _
    rw [(hothers c).written]
    exact h.idle c hc

end Invariant

/-! ## The refinement -/

/-- The ledger keeps the rows under their ids. -/
theorem Ledger.ids_step {db db' : Tables} {e : Event} {out : List Obs}
    (h : ∀ id row, db.row id = some row → row.id = id)
    (hs : Ledger.step db e = some (db', out)) :
    ∀ id row, db'.row id = some row → row.id = id := by
  have hset : ∀ (id : String) (new : Approval), new.id = id → ∀ id' row,
      (db.setRow id new).row id' = some row → row.id = id' := by
    intro id new hnew id' row hrow
    by_cases hid : id' = id
    · subst hid
      rw [Contents.setRow_row_self] at hrow
      cases hrow
      exact hnew
    · rw [Contents.setRow_row_of_ne _ hid] at hrow
      exact h id' row hrow
  cases Ledger.step_cases hs with
  | refused => exact h
  | @saved call body now row hget hcheck =>
    have hid := h _ _ hget
    rw [← hid] at hget
    rw [writes, Writes.save_singleton hget]
    exact hset row.id _ rfl
  | failed => exact h
  | opened => exact hset _ _ rfl
  | @superseded id digest row hget => exact hset id _ (show row.id = id from h _ _ hget)
  | @withdrawn id name row hget => exact hset id _ (show row.id = id from h _ _ hget)

section Refinement

variable {σ : Type*} {D : Store σ String Approval String}
  {verifySignature : String → String → Bool} {parse : String → Option Body}

/-- What a call that has done nothing yet reads is the committed row. -/
theorem System.Inv.get_reads {s : System σ} (h : s.Inv D) (hD : D.Lawful) {c : ℕ} {call : Call}
    (hc : s.calls[c]? = some call) (hreading : call.state = .reading) {id : String}
    {x : Option Approval} {db : σ} (hget : D.getForUpdate s.db c id = some (x, db)) :
    (D.contents s.db).row id = x ∧ D.contents db = D.contents s.db ∧
      D.written db c = Writes.none := by
  have hwritten := (h.holding c call hc).eq_none hreading
  have hreads := hD.get_reads hget
  rw [hwritten, Writes.none_row] at hreads
  rcases hD.get_contents hget with ⟨hcontents, hsame⟩
  exact ⟨hreads.symm, hcontents, by rw [hsame, hwritten]⟩

theorem System.step_refines (hD : D.Lawful) {s s' : System σ} {e : CallEvent} {out : List Obs}
    (h : s.Inv D) (hs : System.step D verifySignature parse s e = some (s', out)) :
    s'.Inv D ∧ ∃ fs, Ledger.machine.execFrom (D.contents s.db) fs =
      some (D.contents s'.db, out) := by
  cases System.step_cases hs with
  | refused => exact ⟨h, [], rfl⟩
  | called => exact ⟨h.concat _, [], rfl⟩
  -- the ledger answers at the same moment
  | @notFound c now call db hc hreading hget =>
    rcases h.get_reads hD hc hreading hget with ⟨hrow, hcontents, -⟩
    have hsame : D.contents (D.rollback db c) = D.contents s.db :=
      (hD.rollback_contents db c).trans hcontents
    refine ⟨h.ended hc (hsame ▸ h.ids) (fun d hd => ?_) (hD.rollback_released db c),
      [.callback c call.body now], Machine.execFrom_singleton ?_⟩
    · exact (hD.get_undisturbed hget hd).trans (hD.rollback_undisturbed hd)
    · show Ledger.step (D.contents s.db) (.callback c call.body now) = _
      rw [Ledger.step, callback, hrow, hsame]
  | @locked c now call request db hc hreading hget =>
    -- the row is read now and stays as it is, since nobody else can hold it
    rcases h.get_reads hD hc hreading hget with ⟨hrow, hcontents, hwritten⟩
    rcases hD.get_exclusive hget with ⟨hfree, hholder⟩
    have hid := h.ids _ _ hrow
    rcases call with ⟨body, state⟩
    cases hreading
    refine ⟨h.move hc (hcontents ▸ h.ids) (fun d hd => hD.get_undisturbed hget hd) ?_ ?_, [], ?_⟩
    · rw [hwritten, hcontents]
      exact .decide hrow hid now
    · intro id
      rw [Call.decide_held?, hid, hholder]
      by_cases hk : id = body.requestId
      · subst hk
        simp
      · -- the call held no row before
        rw [Function.update_of_ne hk, h.holders, hc]
        simp [CallState.held?, Ne.symm hk]
    · rw [hcontents]
      rfl
  | @update c now call request hc hstate =>
    have hheld : D.holder s.db request.id = some c :=
      (h.holders _ _).mpr ⟨call, hc, by rw [hstate]; rfl⟩
    rcases hD.update_private hheld call.body.saved with ⟨hcontents, hholder, hwritten⟩
    refine ⟨h.write hc hcontents hholder (fun d hd => hD.update_undisturbed hheld _ hd) ?_ ?_,
      [], ?_⟩
    · rw [hwritten, Function.update_self]
      exact (h.holding c call hc).updated hstate
    · rw [Call.updated_held?, hstate]
      rfl
    · rw [hcontents]
      rfl
  | @insert c now call request hc hstate =>
    rcases hD.insert_private s.db c request.id with ⟨hcontents, hholder, hwritten⟩
    refine ⟨h.write hc hcontents hholder (fun d hd => hD.insert_undisturbed _ hd) ?_ ?_, [], ?_⟩
    · rw [hwritten, Function.update_self]
      exact (h.holding c call hc).inserted hstate
    · rw [Call.inserted_held?, hstate]
      rfl
    · rw [hcontents]
      rfl
  -- the whole callback happens at the commit
  | @commit c now call request response hc hstate =>
    have hhold := h.holding c call hc
    have hcontents := hD.commit_atomic s.db c
    have hledger : Ledger.step (D.contents s.db) (.callback c call.body now) =
        some (D.contents (D.commit s.db c), [.responded c call.body now response]) := by
      rw [Ledger.step, hhold.commit hstate, hcontents]
    refine ⟨h.ended hc (Ledger.ids_step h.ids hledger) (fun d hd => ?_) (hD.commit_released s.db c),
      [.callback c call.body now], Machine.execFrom_singleton hledger⟩
    -- it has written the row that it holds, which no other transaction does
    refine hD.commit_undisturbed (fun u hu => ?_) hd
    exact (h.holders _ _).mpr ⟨call, hc, hhold.held_of_mem hu⟩
  | @fail c now call hc _ =>
    have hsame := hD.rollback_contents s.db c
    refine ⟨h.ended hc (hsame ▸ h.ids) (fun d hd => hD.rollback_undisturbed hd)
      (hD.rollback_released s.db c), [.fail c call.body now], Machine.execFrom_singleton ?_⟩
    rw [hsame]
    rfl
  -- whoever changes a row elsewhere has waited for it
  | @elsewhere _ id row e' db o hput hledger _ =>
    rw [← (hD.put_row hput).1] at hledger
    exact ⟨h.setDb (Ledger.ids_step h.ids hledger) (fun d => hD.put_undisturbed hput d),
      [e'], Machine.execFrom_singleton hledger⟩

variable {es : List CallEvent} {tr : List Obs} {s : System σ}

theorem System.inv_init (hD : D.Lawful) : System.Inv D ⟨D.init, []⟩ := by
  refine ⟨?_, ?_, ?_, fun c _ => hD.init_written c⟩
  · intro id row hrow
    rw [hD.init_contents] at hrow
    cases hrow
  · rintro c call ⟨⟩
  · intro id c
    rw [hD.init_holder]
    simp

/-- The calls do what they do one after the other, as they commit. -/
theorem System.run_refines (hD : D.Lawful)
    (hrun : (System.machine D verifySignature parse).Run es tr s) :
    s.Inv D ∧ ∃ fs, Ledger.machine.Run fs tr (D.contents s.db) := by
  have hall : ∀ (_ : System σ) (_ : CallEvent), True := fun _ _ => trivial
  have hinit : D.contents (System.machine D verifySignature parse).init.db =
      Ledger.machine.init := hD.init_contents
  refine (hrun.restrict hall).simulate (fun s => D.contents s.db) (System.Inv D) hinit
    (System.inv_init hD) ?_
  intro s e s' out h _ hs
  exact step_refines hD h hs

/-! ## Who is answered -/

/-- The calls came with a verified signature, and none is answered twice. -/
structure System.Answers (verifySignature : String → String → Bool) (parse : String → Option Body)
    (es : List CallEvent) (tr : List Obs) (s : System σ) : Prop where
  called : ∀ (c : ℕ) call, s.calls[c]? = some call → ∃ rawBody signature,
    .call rawBody signature ∈ es ∧ verifySignature rawBody signature = true ∧
      parse rawBody = some call.body
  answered : ∀ c body now response, .responded c body now response ∈ tr →
    ∃ call, s.calls[c]? = some call ∧ call.body = body ∧ call.state = .finished
  once : Along (fun pre o => ∀ c body now response, o = .responded c body now response →
    ∀ body' now' response', .responded c body' now' response' ∉ pre) tr

/-- A step answers nobody and goes on with no call that is over, or it answers one
call and ends it. -/
inductive System.Progress (s s' : System σ) : List Obs → Prop where
  | quiet {out : List Obs} : (∀ o ∈ out, o.answers = false) →
      (∀ (c : ℕ) call, s.calls[c]? = some call → call.state = .finished →
        s'.calls[c]? = some call) →
      Progress s s' out
  | answer {c : ℕ} {call : Call} {now : ℤ} {response : Response} : s.calls[c]? = some call →
      call.state ≠ .finished → s'.calls = s.calls.set c call.ended →
      Progress s s' [.responded c call.body now response]

theorem System.set_over {c : ℕ} {call : Call} (hc : s.calls[c]? = some call)
    (hstate : call.state ≠ .finished) (call' : Call) (d : ℕ) (x : Call) (hx : s.calls[d]? = some x)
    (hover : x.state = .finished) : (s.calls.set c call')[d]? = some x := by
  have hdc : c ≠ d := by
    rintro rfl
    rw [hc] at hx
    cases hx
    exact hstate hover
  rw [List.getElem?_set_ne hdc]
  exact hx

theorem System.Step.progress {s' : System σ} {e : CallEvent} {out : List Obs}
    (h : System.Step D verifySignature parse s e s' out) : System.Progress s s' out := by
  cases h with
  | refused => exact .quiet (by simp) (fun c call hc _ => hc)
  | called => exact .quiet (by simp) (fun c call hc _ => getElem?_concat_of_some hc)
  -- not a row, and so no transaction to commit
  | notFound hc hreading hget => exact .answer hc (by simp [hreading]) rfl
  | locked hc hreading => exact .quiet (by simp) (set_over hc (by simp [hreading]) _)
  | update hc hstate => exact .quiet (by simp) (set_over hc (by simp [hstate]) _)
  | insert hc hstate => exact .quiet (by simp) (set_over hc (by simp [hstate]) _)
  | commit hc hstate => exact .answer hc (by simp [hstate]) rfl
  | fail hc hstate => exact .answer hc hstate rfl
  | elsewhere hput hledger hquiet => exact .quiet (by simp [hquiet]) (fun c call hc _ => hc)

/-- Where the body of a call comes from. -/
theorem System.Step.body {s' : System σ} {e : CallEvent} {out : List Obs}
    (h : System.Step D verifySignature parse s e s' out) {c : ℕ} {x : Call}
    (hx : s'.calls[c]? = some x) :
    (∃ call, s.calls[c]? = some call ∧ call.body = x.body) ∨ ∃ rawBody signature,
      e = .call rawBody signature ∧ verifySignature rawBody signature = true ∧
        parse rawBody = some x.body := by
  -- a call keeps its body in all its states
  have hset : ∀ {d : ℕ} {call call' : Call}, s.calls[d]? = some call →
      (s.calls.set d call')[c]? = some x → call'.body = call.body →
      ∃ call, s.calls[c]? = some call ∧ call.body = x.body := by
    intro d call call' hd hx hbody
    rcases getElem?_set_cases hx with ⟨rfl, rfl⟩ | ⟨-, hx⟩
    · exact ⟨call, hd, hbody.symm⟩
    · exact ⟨x, hx, rfl⟩
  cases h with
  | refused => exact Or.inl ⟨x, hx, rfl⟩
  | @called rawBody signature body hverified hparse =>
    rcases getElem?_concat_cases hx with ⟨-, rfl⟩ | hx
    · exact Or.inr ⟨rawBody, signature, rfl, hverified, hparse⟩
    · exact Or.inl ⟨x, hx, rfl⟩
  | notFound hc => exact Or.inl (hset hc hx rfl)
  | @locked c now call request db hc =>
    refine Or.inl (hset hc hx ?_)
    rw [Call.decide]
    split <;> rfl
  | update hc => exact Or.inl (hset hc hx rfl)
  | insert hc => exact Or.inl (hset hc hx rfl)
  | commit hc => exact Or.inl (hset hc hx rfl)
  | fail hc => exact Or.inl (hset hc hx rfl)
  | elsewhere => exact Or.inl ⟨x, hx, rfl⟩

theorem System.answers_step {e : CallEvent} {s' : System σ} {out : List Obs}
    (h : System.Answers verifySignature parse es tr s)
    (hs : System.step D verifySignature parse s e = some (s', out)) :
    System.Answers verifySignature parse (es ++ [e]) (tr ++ out) s' := by
  have hstep := System.step_cases hs
  have hcalled : ∀ (c : ℕ) call, s'.calls[c]? = some call → ∃ rawBody signature,
      .call rawBody signature ∈ es ++ [e] ∧ verifySignature rawBody signature = true ∧
        parse rawBody = some call.body := by
    intro c x hx
    rcases hstep.body hx with ⟨call, hc, hbody⟩ | ⟨rawBody, signature, rfl, hverified, hparse⟩
    · rcases h.called c call hc with ⟨rawBody, signature, hmem, hverified, hparse⟩
      rw [hbody] at hparse
      exact ⟨rawBody, signature, List.mem_append_left _ hmem, hverified, hparse⟩
    · exact ⟨rawBody, signature, by simp, hverified, hparse⟩
  cases hstep.progress with
  | quiet hquiet hover =>
    -- nothing new is answered
    have hnot : ∀ c body now response, .responded c body now response ∉ out := by
      intro c body now response hmem
      cases hquiet _ hmem
    refine ⟨hcalled, ?_, along_append h.once ?_⟩
    · intro c body now response hmem
      rcases List.mem_append.mp hmem with hmem | hmem
      · -- an earlier answer is of a call that is over and stays as it is
        rcases h.answered c body now response hmem with ⟨call, hc, hbody, hstate⟩
        exact ⟨call, hover c call hc hstate, hbody, hstate⟩
      · exact absurd hmem (hnot c body now response)
    · rintro pre o hmem c body now response rfl
      exact absurd hmem (hnot c body now response)
  | @answer d call now response hd hstate hcalls =>
    refine ⟨hcalled, ?_, along_concat.mpr ⟨h.once, ?_⟩⟩
    · intro c body now' response' hmem
      rw [hcalls]
      rw [List.mem_append, List.mem_singleton] at hmem
      rcases hmem with hmem | heq
      · rcases h.answered c body now' response' hmem with ⟨x, hx, hbody, hover⟩
        exact ⟨x, set_over hd hstate _ c x hx hover, hbody, hover⟩
      · cases heq
        exact ⟨_, getElem?_set_of_some hd, rfl, rfl⟩
    · -- an earlier answer to this call would have ended it
      intro c body now' response' heq body' now'' response'' hmem
      cases heq
      rcases h.answered d body' now'' response'' hmem with ⟨x, hx, -, hover⟩
      rw [hd] at hx
      cases hx
      exact hstate hover

theorem System.answers_run (hrun : (System.machine D verifySignature parse).Run es tr s) :
    System.Answers verifySignature parse es tr s := by
  refine hrun.history_invariant (System.Answers verifySignature parse) ⟨?_, ?_, along_nil _⟩ ?_
  · rintro c call ⟨⟩
  · rintro c body now response ⟨⟩
  · intro es tr s e s' out _ h hs
    exact answers_step h hs

/-- **Concurrent callbacks.** Over every lawful database, in every run of concurrent
transactions the first valid decision on a request stands with its reviewer and every
later callback is told so, the outbox holds one intent for each approved request and no
other, and only calls with a verified signature are answered, none of them twice. -/
theorem approvalCallback_decided (hD : D.Lawful)
    (hrun : (System.machine D verifySignature parse).Run es tr s) :
    Decided tr (D.contents s.db) ∧ System.Answers verifySignature parse es tr s := by
  rcases System.run_refines hD hrun with ⟨-, fs, hledger⟩
  exact ⟨decisions_run hledger, System.answers_run hrun⟩

/-- Two callbacks for a request and a third one with another decision, in overlapping
transactions. -/
def overlapping : List CallEvent :=
  [.openRequest "r" 10 "d", .call "yes" "s", .call "yes" "s", .call "no" "s", .call "yes" "forged",
    .getForUpdate 1 5, .update 1, .insert 1, .commit 1, .getForUpdate 0 6, .commit 0,
    .getForUpdate 2 7, .commit 2]

/-- The bodies of `overlapping`. -/
def parseOverlapping : String → Option Body
  | "yes" => some ⟨"r", true, "ann"⟩
  | "no" => some ⟨"r", false, "bob"⟩
  | _ => none

/-- The calls of `overlapping`, over a database with a table of locks. -/
def overlappingCalls : Machine (System (LockTable String Approval String)) CallEvent Obs :=
  System.machine (lockTable String Approval String) (fun _ signature => signature = "s")
    parseOverlapping

theorem approvalCallback_decided_overlapping :
    ∃ tr s, overlappingCalls.Run overlapping tr s ∧ Decided tr s.db.contents ∧
      System.Answers (fun _ signature => signature = "s") parseOverlapping overlapping tr s ∧
      tr = [.opened "r" 10 "d", .responded 1 ⟨"r", true, "ann"⟩ 5 .ok,
        .responded 0 ⟨"r", true, "ann"⟩ 6 .duplicate,
        .responded 2 ⟨"r", false, "bob"⟩ 7 .decisionConflict] ∧ s.db.contents.log = ["r"] := by
  have hexec : (overlappingCalls.exec overlapping).map (fun r => (r.2, r.1.db.contents.log)) =
      some ([.opened "r" 10 "d", .responded 1 ⟨"r", true, "ann"⟩ 5 .ok,
        .responded 0 ⟨"r", true, "ann"⟩ 6 .duplicate,
        .responded 2 ⟨"r", false, "bob"⟩ 7 .decisionConflict], ["r"]) := by decide +kernel
  rcases Machine.Run.of_exec_map hexec with ⟨s, tr, hrun, hread⟩
  simp only [Prod.mk.injEq] at hread
  rcases approvalCallback_decided lockTable_lawful hrun with ⟨hdecided, hanswers⟩
  exact ⟨tr, s, hrun, hdecided, hanswers, hread.1, hread.2⟩

end Refinement

end InterviewPrep.ApprovalCallback
