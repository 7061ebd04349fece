import Mathlib.Data.Int.Notation
import Mathlib.Data.List.Nodup
import InterviewPrep.Lib.Machine
import InterviewPrep.Lib.RowLocks
import InterviewPrep.Lib.Trace

/-!
# Approval decisions

What `approvalCallback` of `technical/duplicate_approval_callback/answer.md` does
to the contents of the database, as one step: the machine `Ledger` runs whole callbacks
one after the other, between them requests are opened, their action is replaced, and
they are taken back. `Transactions.lean` shows that the callbacks, which run
concurrently as transactions of a database, refine it.

`decisions_run` is what holds of every run of the ledger: the first valid decision
on a request stands, every later callback is told so, and the outbox holds one
intent for each approved request and no other.
-/

namespace InterviewPrep.ApprovalCallback

/-! ## The data -/

inductive Decision where
  | approved
  | rejected
deriving DecidableEq

/-- `request.status` -/
inductive Status where
  | pending
  | decided (decision : Decision)
  /-- none of these strings: cancelled and the like -/
  | other (name : String)
deriving DecidableEq

/-- A row of `approvals`. -/
structure Approval where
  id : String
  status : Status
  reviewer : Option String
  expiresAt : ℤ
  actionDigest : String
  currentActionDigest : String
deriving DecidableEq

/-- What `JSON.parse(rawBody)` is read for; `approved` is its truth value. -/
structure Body where
  requestId : String
  approved : Bool
  reviewer : String
deriving DecidableEq

/-- How a call ends. -/
inductive Response where
  /-- `{ ok: true }` -/
  | ok
  /-- `{ ok: true, duplicate: true }` -/
  | duplicate
  /-- `{ ok: false, error: "decision_conflict" }`, and so on -/
  | decisionConflict
  | expired
  | superseded
  /-- `throw new Error("Not found")` -/
  | notFound
  /-- the database gave up the transaction -/
  | failed
deriving DecidableEq

/-- The rows of `approvals` by their ids, and as the log the request ids of the rows of
`outbox`, which are all of the type `execute_approved_action`. -/
abbrev Tables := Contents String Approval String

/-! ## The callback -/

/-- `const decision = body.approved ? "approved" : "rejected"` -/
def Body.decision (body : Body) : Decision := if body.approved then .approved else .rejected

/-- The checks on a request, before the decision is saved. -/
def check (request : Approval) (decision : Decision) (now : ℤ) : Option Response :=
  -- the decision came a second time
  if request.status = .decided decision then some .duplicate
  -- another decision, or the request was taken back
  else if request.status ≠ .pending then some .decisionConflict
  else if request.expiresAt < now then some .expired
  else if request.actionDigest ≠ request.currentActionDigest then some .superseded
  else none

/-- What `tx.approvals.update` is given, as a change of the row. -/
def Body.saved (body : Body) (row : Approval) : Approval :=
  { row with status := .decided body.decision, reviewer := some body.reviewer }

theorem Body.saved_id (body : Body) (row : Approval) : (body.saved row).id = row.id := rfl

/-- The writes that save a decision. -/
def writes (request : Approval) (body : Body) : Writes String Approval String where
  updates := [(request.id, body.saved)]
  inserts := if body.decision = .approved then [request.id] else []

/-- `approvalCallback` behind the signature, as one step. -/
def callback (db : Tables) (body : Body) (now : ℤ) : Tables × Response :=
  match db.row body.requestId with
  | none => (db, .notFound)
  | some request =>
    match check request body.decision now with
    | some response => (db, response)
    | none => ((writes request body).save db, .ok)

/-! ## The ledger -/

/-- The callbacks, and what else happens to the requests. -/
inductive Event where
  | callback (call : ℕ) (body : Body) (now : ℤ)
  /-- the transaction of a call is given up -/
  | fail (call : ℕ) (body : Body) (now : ℤ)
  /-- a request is opened for an action -/
  | openRequest (id : String) (expiresAt : ℤ) (digest : String)
  /-- the action of a request is changed or replaced -/
  | supersede (id : String) (digest : String)
  /-- a pending request is cancelled, or the like -/
  | withdraw (id : String) (name : String)

inductive Obs where
  | responded (call : ℕ) (body : Body) (now : ℤ) (response : Response)
  | opened (id : String) (expiresAt : ℤ) (digest : String)
  | superseded (id : String) (digest : String)
  | withdrawn (id : String)
deriving DecidableEq

/-- A request as it is opened. -/
def newApproval (id : String) (expiresAt : ℤ) (digest : String) : Approval where
  id := id
  status := .pending
  reviewer := none
  expiresAt := expiresAt
  actionDigest := digest
  currentActionDigest := digest

namespace Ledger

def step (db : Tables) : Event → Option (Tables × List Obs)
  | .callback call body now =>
    let result := ApprovalCallback.callback db body now
    some (result.1, [.responded call body now result.2])
  | .fail call body now =>
    some (db, [.responded call body now .failed])
  | .openRequest id expiresAt digest =>
    match db.row id with
    | none => some (db.setRow id (newApproval id expiresAt digest), [.opened id expiresAt digest])
    | some _ => none
  | .supersede id digest =>
    match db.row id with
    | none => none
    | some row => some (db.setRow id { row with currentActionDigest := digest },
        [.superseded id digest])
  | .withdraw id name =>
    match db.row id with
    | none => none
    | some row =>
      if row.status = .pending then
        some (db.setRow id { row with status := .other name }, [.withdrawn id])
      else none

def machine : Machine Tables Event Obs where
  init := Contents.empty
  step := step

/-! ## What a step does -/

/-- The changes of one step. -/
inductive Step (db : Tables) : Event → Tables → List Obs → Prop where
  /-- the callback changes nothing -/
  | refused {call : ℕ} {body : Body} {now : ℤ} {response : Response} : response ≠ .ok →
      (∀ row, db.row body.requestId = some row →
        check row body.decision now = some response) →
      Step db (.callback call body now) db [.responded call body now response]
  | saved {call : ℕ} {body : Body} {now : ℤ} {row : Approval} :
      db.row body.requestId = some row → check row body.decision now = none →
      Step db (.callback call body now) ((writes row body).save db)
        [.responded call body now .ok]
  | failed {call : ℕ} {body : Body} {now : ℤ} :
      Step db (.fail call body now) db [.responded call body now .failed]
  | opened {id digest : String} {expiresAt : ℤ} : db.row id = none →
      Step db (.openRequest id expiresAt digest) (db.setRow id (newApproval id expiresAt digest))
        [.opened id expiresAt digest]
  | superseded {id digest : String} {row : Approval} : db.row id = some row →
      Step db (.supersede id digest) (db.setRow id { row with currentActionDigest := digest })
        [.superseded id digest]
  | withdrawn {id name : String} {row : Approval} : db.row id = some row →
      row.status = .pending →
      Step db (.withdraw id name) (db.setRow id { row with status := .other name }) [.withdrawn id]

theorem check_ne {row : Approval} {decision : Decision} {now : ℤ} {response : Response}
    (h : check row decision now = some response) :
    response ≠ .ok ∧ response ≠ .notFound ∧ response ≠ .failed := by
  rw [check] at h
  split_ifs at h <;> cases h <;> simp

theorem step_cases {db db' : Tables} {e : Event} {out : List Obs}
    (h : step db e = some (db', out)) : Step db e db' out := by
  cases e with
  | callback call body now =>
    simp only [step, ApprovalCallback.callback] at h
    split at h
    · rename_i hget
      cases h
      exact .refused (by simp) (fun row hrow => by rw [hget] at hrow; cases hrow)
    · rename_i row hget
      split at h
      · rename_i response hcheck
        cases h
        refine .refused (check_ne hcheck).1 ?_
        intro row' hrow'
        rw [hget] at hrow'
        cases hrow'
        exact hcheck
      · rename_i hcheck
        cases h
        exact .saved hget hcheck
  | fail call body now =>
    cases h
    exact .failed
  | openRequest id expiresAt digest =>
    simp only [step] at h
    split at h
    · rename_i hget
      cases h
      exact .opened hget
    · cases h
  | supersede id digest =>
    simp only [step] at h
    split at h
    · cases h
    · rename_i row hget
      cases h
      exact .superseded hget
  | withdraw id name =>
    simp only [step] at h
    split at h
    · cases h
    · rename_i row hget
      split at h
      · rename_i hpending
        cases h
        exact .withdrawn hget hpending
      · cases h

/-- Every step is observed. -/
theorem step_single {db db' : Tables} {e : Event} {out : List Obs}
    (h : step db e = some (db', out)) : ∃ o, out = [o] := by
  cases step_cases h <;> exact ⟨_, rfl⟩

end Ledger

/-! ## What holds of every run -/

/-- The digest that an observation gives to the action of a request. -/
def Obs.digest? (id : String) : Obs → Option String
  | opened i _ digest => if i = id then some digest else none
  | superseded i digest => if i = id then some digest else none
  | _ => none

/-- The digest of the action that a request is for at present. -/
def digestOf (id : String) (tr : List Obs) : Option String :=
  (tr.filterMap (Obs.digest? id)).getLast?

/-- An answer is right after what has happened. -/
structure RightAnswer (pre : List Obs) (body : Body) (now : ℤ) (response : Response) : Prop where
  /-- a decision is saved only for a request that is open, not taken back, not
  expired, and still for the action that it was opened for -/
  valid : response = .ok → ∃ expiresAt digest, .opened body.requestId expiresAt digest ∈ pre ∧
    now ≤ expiresAt ∧ digestOf body.requestId pre = some digest ∧ .withdrawn body.requestId ∉ pre
  /-- after a decision, a callback hears that it is a duplicate of it or in conflict
  with it -/
  later : ∀ c body' now', .responded c body' now' .ok ∈ pre → body'.requestId = body.requestId →
    response = .failed ∨
      response = if body.decision = body'.decision then .duplicate else .decisionConflict

/-- What is true of the decisions after a run. -/
structure Decided (tr : List Obs) (db : Tables) : Prop where
  answers : Along (fun pre o => ∀ c body now response, o = .responded c body now response →
    RightAnswer pre body now response) tr
  /-- a decision and its reviewer stand -/
  stands : ∀ c body now, .responded c body now .ok ∈ tr →
    ∃ row, db.row body.requestId = some row ∧ row.status = .decided body.decision ∧
      row.reviewer = some body.reviewer
  /-- the outbox holds one intent for each approved request, and no other -/
  intents : db.log.Nodup ∧ ∀ id, id ∈ db.log ↔
    ∃ c body now, .responded c body now .ok ∈ tr ∧ body.requestId = id ∧ body.decision = .approved

/-! ## The invariant -/

/-- The request that an observation is about. -/
def Obs.about : Obs → String
  | responded _ body _ _ => body.requestId
  | opened id _ _ => id
  | superseded id _ => id
  | withdrawn id => id

/-- How a request stands, with its row and whether it has an intent. -/
structure RowInv (tr : List Obs) (id : String) (x : Option Approval) (intent : Prop) : Prop where
  known : ∀ row, x = some row → row.id = id ∧ .opened id row.expiresAt row.actionDigest ∈ tr ∧
    digestOf id tr = some row.currentActionDigest
  saved : ∀ row decision, x = some row → row.status = .decided decision →
    ∃ c body now, .responded c body now .ok ∈ tr ∧ body.requestId = id ∧ body.decision = decision
  stands : ∀ c body now, .responded c body now .ok ∈ tr → body.requestId = id →
    ∃ row, x = some row ∧ row.status = .decided body.decision ∧ row.reviewer = some body.reviewer
  withdrawn : .withdrawn id ∈ tr → ∃ row name, x = some row ∧ row.status = .other name
  intent_iff : intent ↔ ∃ row, x = some row ∧ row.status = .decided .approved

structure Inv (tr : List Obs) (db : Tables) : Prop where
  rows : ∀ id, RowInv tr id (db.row id) (id ∈ db.log)
  log_nodup : db.log.Nodup

section Rows

variable {tr : List Obs} {o : Obs} {id : String} {x : Option Approval} {intent : Prop}

theorem digestOf_concat (tr : List Obs) (o : Obs) (id : String) :
    digestOf id (tr ++ [o]) = (o.digest? id).or (digestOf id tr) := by
  rw [digestOf, List.filterMap_append]
  cases ho : o.digest? id with
  | none => simp [ho, digestOf]
  | some digest => simp [ho]

theorem digest?_of_about (h : o.about ≠ id) : o.digest? id = none := by
  cases o <;> simp_all [Obs.digest?, Obs.about]

/-- An observation that is not the new one is an old one. -/
theorem mem_of_mem_concat {o' : Obs} (h : o' ∈ tr ++ [o]) (hne : o' ≠ o) : o' ∈ tr := by
  rw [List.mem_append, List.mem_singleton] at h
  exact h.resolve_right hne

/-- An observation that gives no digest leaves the request for the action that it is for. -/
theorem RowInv.known_concat (h : RowInv tr id x intent) (ho : o.digest? id = none)
    (row : Approval) (hrow : x = some row) :
    row.id = id ∧ .opened id row.expiresAt row.actionDigest ∈ tr ++ [o] ∧
      digestOf id (tr ++ [o]) = some row.currentActionDigest := by
  rcases h.known row hrow with ⟨hid, hopened, hdigest⟩
  rw [digestOf_concat, ho]
  exact ⟨hid, List.mem_append_left _ hopened, hdigest⟩

theorem RowInv.saved_concat (h : RowInv tr id x intent) (o : Obs) {row : Approval}
    {decision : Decision} (hrow : x = some row) (hstatus : row.status = .decided decision) :
    ∃ c body now, .responded c body now .ok ∈ tr ++ [o] ∧ body.requestId = id ∧
      body.decision = decision := by
  rcases h.saved row decision hrow hstatus with ⟨c, body, now, hok, hbody⟩
  exact ⟨c, body, now, List.mem_append_left _ hok, hbody⟩

/-- What is observed of another request changes nothing. -/
theorem RowInv.frame (h : RowInv tr id x intent) (ho : o.about ≠ id) :
    RowInv (tr ++ [o]) id x intent := by
  have hold : ∀ {o' : Obs}, o' ∈ tr ++ [o] → o'.about = id → o' ∈ tr := by
    intro o' hmem habout
    refine mem_of_mem_concat hmem ?_
    rintro rfl
    exact ho habout
  refine ⟨?_, ?_, ?_, ?_, h.intent_iff⟩
  · exact h.known_concat (digest?_of_about ho)
  · exact fun row decision hrow hstatus => h.saved_concat o hrow hstatus
  · exact fun c body now hok hid => h.stands c body now (hold hok hid) hid
  · exact fun hwithdrawn => h.withdrawn (hold hwithdrawn rfl)

/-- Nor does an answer that saves nothing. -/
theorem RowInv.responded (h : RowInv tr id x intent) {c : ℕ} {body : Body} {now : ℤ}
    {response : Response} (hresponse : response ≠ .ok) :
    RowInv (tr ++ [.responded c body now response]) id x intent := by
  refine ⟨?_, ?_, ?_, ?_, h.intent_iff⟩
  · exact h.known_concat rfl
  · exact fun row decision hrow hstatus => h.saved_concat _ hrow hstatus
  · intro c' body' now' hok hid
    -- the answer is not the one that saves
    refine h.stands c' body' now' (mem_of_mem_concat hok ?_) hid
    rintro ⟨⟩
    exact hresponse rfl
  · exact fun hwithdrawn => h.withdrawn (mem_of_mem_concat hwithdrawn (by simp))

/-- A request that is not there has no history. -/
theorem RowInv.opened (h : RowInv tr id none intent) (expiresAt : ℤ) (digest : String) :
    RowInv (tr ++ [.opened id expiresAt digest]) id (some (newApproval id expiresAt digest))
      intent := by
  refine ⟨?_, ?_, ?_, ?_, ?_⟩
  · intro row hrow
    cases hrow
    rw [digestOf_concat]
    simp [newApproval, Obs.digest?]
  · -- a new request is pending
    intro row decision hrow hstatus
    cases hrow
    cases hstatus
  · -- no decision was saved before the request was there
    intro c body now hok hid
    rcases h.stands c body now (mem_of_mem_concat hok (by simp)) hid with ⟨row, hrow, -⟩
    cases hrow
  · intro hwithdrawn
    rcases h.withdrawn (mem_of_mem_concat hwithdrawn (by simp)) with ⟨row, name, hrow, -⟩
    cases hrow
  · rw [h.intent_iff]
    simp [newApproval]

theorem RowInv.superseded {row : Approval} (h : RowInv tr id (some row) intent) (digest : String) :
    RowInv (tr ++ [.superseded id digest]) id (some { row with currentActionDigest := digest })
      intent := by
  refine ⟨?_, ?_, ?_, ?_, ?_⟩
  · intro row' hrow
    cases hrow
    rcases h.known row rfl with ⟨hid, hopened, -⟩
    rw [digestOf_concat]
    exact ⟨hid, List.mem_append_left _ hopened, by simp [Obs.digest?]⟩
  · intro row' decision hrow hstatus
    cases hrow
    exact h.saved_concat _ rfl hstatus
  · intro c body now hok hid
    rcases h.stands c body now (mem_of_mem_concat hok (by simp)) hid with ⟨row', hrow, hstatus⟩
    cases hrow
    exact ⟨_, rfl, hstatus⟩
  · intro hwithdrawn
    rcases h.withdrawn (mem_of_mem_concat hwithdrawn (by simp)) with ⟨row', name, hrow, hstatus⟩
    cases hrow
    exact ⟨_, name, rfl, hstatus⟩
  · rw [h.intent_iff]
    simp

/-- No decision is saved on a pending request. -/
theorem RowInv.not_ok {row : Approval} (h : RowInv tr id (some row) intent)
    (hpending : row.status = .pending) {c : ℕ} {body : Body} {now : ℤ}
    (hid : body.requestId = id) : .responded c body now .ok ∉ tr := by
  intro hok
  rcases h.stands c body now hok hid with ⟨row', hrow, hstatus, -⟩
  cases hrow
  rw [hpending] at hstatus
  cases hstatus

theorem RowInv.not_withdrawn {row : Approval} (h : RowInv tr id (some row) intent)
    (hpending : row.status = .pending) : .withdrawn id ∉ tr := by
  intro hmem
  rcases h.withdrawn hmem with ⟨row', name, hrow, hstatus⟩
  cases hrow
  rw [hpending] at hstatus
  cases hstatus

theorem RowInv.withdraw {row : Approval} (h : RowInv tr id (some row) intent)
    (hpending : row.status = .pending) (name : String) :
    RowInv (tr ++ [.withdrawn id]) id (some { row with status := .other name }) intent := by
  refine ⟨?_, ?_, ?_, ?_, ?_⟩
  · intro row' hrow
    cases hrow
    exact h.known_concat rfl row rfl
  · intro row' decision hrow hstatus
    cases hrow
    cases hstatus
  · -- a request that is taken back was pending
    intro c body now hok hid
    exact absurd (mem_of_mem_concat hok (by simp)) (h.not_ok hpending hid)
  · intro _
    exact ⟨_, name, rfl, rfl⟩
  · rw [h.intent_iff]
    simp [hpending]

/-- A decision is saved on a pending request. -/
theorem RowInv.decide {row : Approval} (h : RowInv tr id (some row) intent)
    (hpending : row.status = .pending) {c : ℕ} {body : Body} {now : ℤ}
    (hid : body.requestId = id) {intent' : Prop}
    (hintent : intent' ↔ body.decision = .approved) :
    RowInv (tr ++ [.responded c body now .ok]) id
      (some { row with status := .decided body.decision, reviewer := some body.reviewer })
      intent' := by
  refine ⟨?_, ?_, ?_, ?_, ?_⟩
  · intro row' hrow
    cases hrow
    exact h.known_concat rfl row rfl
  · intro row' decision hrow hstatus
    cases hrow
    cases hstatus
    exact ⟨c, body, now, by simp, hid, rfl⟩
  · intro c' body' now' hok hid'
    rw [List.mem_append, List.mem_singleton] at hok
    rcases hok with hok | heq
    · -- the decision is the first one
      exact absurd hok (h.not_ok hpending hid')
    · cases heq
      exact ⟨_, rfl, rfl, rfl⟩
  · intro hmem
    exact absurd (mem_of_mem_concat hmem (by simp)) (h.not_withdrawn hpending)
  · rw [hintent]
    simp

end Rows

/-! ## Every step keeps the invariant -/

section Steps

variable {tr out : List Obs} {db db' : Tables}

/-- The row of a request is replaced, and perhaps an intent is added. -/
theorem Inv.replace (h : Inv tr db) {o : Obs} (row : Approval) (intents : List String)
    (ho : o.about = row.id) (hnodup : (db.log ++ intents).Nodup)
    (hintents : ∀ id ∈ intents, id = row.id)
    (hrow : RowInv (tr ++ [o]) row.id (some row) (row.id ∈ db.log ++ intents)) :
    Inv (tr ++ [o]) ⟨(db.setRow row.id row).row, db.log ++ intents⟩ := by
  refine ⟨fun id => ?_, hnodup⟩
  by_cases hid : id = row.id
  · -- the request itself
    subst hid
    rw [Contents.setRow_row_self]
    exact hrow
  · -- other requests keep their rows, and no intent of theirs is added
    have hsame : (id ∈ db.log ++ intents) = (id ∈ db.log) := by
      rw [List.mem_append, eq_iff_iff, or_iff_left]
      exact fun hmem => hid (hintents id hmem)
    rw [Contents.setRow_row_of_ne _ hid, hsame]
    refine (h.rows id).frame ?_
    rw [ho]
    exact Ne.symm hid

theorem Inv.setRow (h : Inv tr db) {o : Obs} (row : Approval) (ho : o.about = row.id)
    (hrow : RowInv (tr ++ [o]) row.id (some row) (row.id ∈ db.log)) :
    Inv (tr ++ [o]) (db.setRow row.id row) := by
  have hreplace := h.replace row [] ho (by simpa using h.log_nodup) (by simp)
    (by simpa using hrow)
  rw [List.append_nil] at hreplace
  exact hreplace

/-- The checks that a decision has passed. -/
theorem check_eq_none {row : Approval} {decision : Decision} {now : ℤ}
    (h : check row decision now = none) :
    row.status = .pending ∧ now ≤ row.expiresAt ∧ row.actionDigest = row.currentActionDigest := by
  rw [check] at h
  split_ifs at h with _ hpending hexpired hdigest
  exact ⟨not_not.mp hpending, Int.not_lt.mp hexpired, not_not.mp hdigest⟩

theorem inv_step {e : Event} (h : Inv tr db) (hs : Ledger.step db e = some (db', out)) :
    Inv (tr ++ out) db' := by
  cases Ledger.step_cases hs with
  | refused hresponse hcheck =>
    exact ⟨fun id => (h.rows id).responded hresponse, h.log_nodup⟩
  | failed => exact ⟨fun id => (h.rows id).responded (by simp), h.log_nodup⟩
  | @saved call body now row hget hcheck =>
    rcases check_eq_none hcheck with ⟨hpending, hexpiry, hdigest⟩
    have hrow := h.rows body.requestId
    rw [hget] at hrow
    have hid := (hrow.known row rfl).1
    rw [← hid] at hget hrow
    -- an intent would be of an earlier approval
    have hnot : row.id ∉ db.log := by
      rw [hrow.intent_iff]
      rintro ⟨row', heq, hstatus⟩
      cases heq
      rw [hpending] at hstatus
      cases hstatus
    rw [writes, Writes.save_singleton hget]
    refine h.replace (body.saved row) _ hid.symm ?_ ?_ ?_
    · -- the intent, if there is one, is new
      split
      · rw [List.nodup_append]
        refine ⟨h.log_nodup, List.nodup_singleton _, ?_⟩
        rintro a ha b hb rfl
        rw [List.mem_singleton.mp hb] at ha
        exact hnot ha
      · simpa using h.log_nodup
    · intro id hmem
      split at hmem
      · exact List.mem_singleton.mp hmem
      · cases hmem
    · refine hrow.decide hpending hid.symm ?_
      rw [Body.saved_id, List.mem_append, or_iff_right hnot]
      split
      · rename_i happroved
        simp [happroved]
      · rename_i hrejected
        simp [hrejected]
  | @opened id digest expiresAt hget =>
    have hrow := h.rows id
    rw [hget] at hrow
    exact h.setRow (newApproval id expiresAt digest) rfl (hrow.opened expiresAt digest)
  | @superseded id digest row hget =>
    have hrow := h.rows id
    rw [hget] at hrow
    have hid := (hrow.known row rfl).1
    subst hid
    exact h.setRow { row with currentActionDigest := digest } rfl (hrow.superseded digest)
  | @withdrawn id name row hget hpending =>
    have hrow := h.rows id
    rw [hget] at hrow
    have hid := (hrow.known row rfl).1
    subst hid
    exact h.setRow { row with status := .other name } rfl (hrow.withdraw hpending name)

end Steps

/-! ## Runs -/

section Runs

variable {es : List Event} {tr : List Obs} {db : Tables}

theorem inv_run (hrun : Ledger.machine.Run es tr db) : Inv tr db := by
  refine hrun.history_invariant (fun _ tr db => Inv tr db) ?_ ?_
  · refine ⟨fun id => ⟨?_, ?_, ?_, ?_, ?_⟩, List.nodup_nil⟩
    · rintro row ⟨⟩
    · rintro row decision ⟨⟩
    · rintro c body now ⟨⟩
    · rintro ⟨⟩
    · simp [Ledger.machine, Contents.empty]
  · intro es tr db e db' out _ h hs
    exact inv_step h hs

/-- The checks on a request that is decided. -/
theorem check_of_decided {row : Approval} {d : Decision} (h : row.status = .decided d)
    (decision : Decision) (now : ℤ) :
    check row decision now = some (if decision = d then .duplicate else .decisionConflict) := by
  rw [check, h]
  by_cases hd : decision = d
  · simp [hd]
  · simp [hd, Ne.symm hd]

theorem Inv.rightAnswer {db db' : Tables} {e : Event} {o : Obs} (h : Inv tr db)
    (hs : Ledger.step db e = some (db', [o])) {c : ℕ} {body : Body} {now : ℤ} {response : Response}
    (ho : o = .responded c body now response) : RightAnswer tr body now response := by
  subst ho
  have hrow := h.rows body.requestId
  cases Ledger.step_cases hs with
  | refused hresponse hcheck =>
    refine ⟨fun hok => absurd hok hresponse, ?_⟩
    intro c' body' now' hok hid
    -- the checks see the decision in the row
    rcases hrow.stands c' body' now' hok hid with ⟨row, hget, hstatus, -⟩
    have hanswer := (check_of_decided hstatus body.decision now).symm.trans (hcheck row hget)
    exact Or.inr (Option.some.inj hanswer).symm
  | @saved _ _ _ row hget hcheck =>
    rcases check_eq_none hcheck with ⟨hpending, hexpiry, hdigest⟩
    rw [hget] at hrow
    rcases hrow.known row rfl with ⟨hid, hopened, hcurrent⟩
    rw [← hdigest] at hcurrent
    have hwithdrawn := hrow.not_withdrawn hpending
    refine ⟨fun _ => ⟨_, _, hopened, hexpiry, hcurrent, hwithdrawn⟩, ?_⟩
    intro c' body' now' hok hid'
    exact absurd hok (hrow.not_ok hpending hid')
  | failed =>
    refine ⟨?_, fun _ _ _ _ _ => Or.inl rfl⟩
    rintro ⟨⟩

/-- **Decisions.** -/
theorem decisions_run (hrun : Ledger.machine.Run es tr db) : Decided tr db := by
  have h := inv_run hrun
  refine ⟨?_, ?_, h.log_nodup, ?_⟩
  · refine hrun.history_invariant (fun _ tr _ => Along _ tr) (along_nil _) ?_
    -- an answer is right at the moment at which it is given
    intro es tr db e db' out hrun halong hs
    rcases Ledger.step_single hs with ⟨o, rfl⟩
    exact along_concat.mpr ⟨halong, fun c body now response ho => (inv_run hrun).rightAnswer hs ho⟩
  · intro c body now hok
    exact (h.rows body.requestId).stands c body now hok rfl
  · intro id
    rw [(h.rows id).intent_iff]
    constructor
    · -- an intent is of a row that was approved, so of a saved approval
      rintro ⟨row, hget, hstatus⟩
      exact (h.rows id).saved row .approved hget hstatus
    · -- a saved approval stands in its row
      rintro ⟨c, body, now, hok, hid, happroved⟩
      rcases (h.rows id).stands c body now hok hid with ⟨row, hget, hstatus, -⟩
      rw [happroved] at hstatus
      exact ⟨row, hget, hstatus⟩

end Runs

end InterviewPrep.ApprovalCallback
