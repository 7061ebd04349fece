import InterviewPrep.ApprovalCallback.Transactions

/-!
# Nobody waits for ever

A callback waits for its row only, and whoever holds a row can go on to the end of its
transaction without waiting. So over a database that lets nobody wait for a row that is
free, each call can be brought to its answer (`approvalCallback_answers`).
-/

namespace InterviewPrep.ApprovalCallback

section Progress

variable {σ : Type*} {D : Store σ String Approval String}
  {verifySignature : String → String → Bool} {parse : String → Option Body}
  {es : List CallEvent} {tr : List Obs} {s : System σ} {t : ℤ}

/-- The steps at the `await`s of the calls, at the time `t`. -/
def CallEvent.awaited (t : ℤ) : CallEvent → Bool
  | getForUpdate _ now => now = t
  | update _ => true
  | insert _ => true
  | commit _ => true
  | _ => false

/-- At the time `t` a call can be brought to its end, without anything failing. -/
structure System.Ends (D : Store σ String Approval String)
    (verifySignature : String → String → Bool) (parse : String → Option Body) (t : ℤ)
    (s s' : System σ) (c : ℕ) (body : Body) (fs : List CallEvent) (tr : List Obs) : Prop where
  exec : (System.machine D verifySignature parse).execFrom s fs = some (s', tr)
  awaited : ∀ e ∈ fs, e.awaited t = true
  responded : ∃ now response, .responded c body now response ∈ tr ∧ response ≠ .failed
  only : ∃ call', s'.calls = s.calls.set c call' ∧ call'.state = .finished

def System.CanEnd (D : Store σ String Approval String)
    (verifySignature : String → String → Bool) (parse : String → Option Body) (t : ℤ)
    (s : System σ) (c : ℕ) (body : Body) : Prop :=
  ∃ s' fs tr, System.Ends D verifySignature parse t s s' c body fs tr

/-- A step of a call, and then the rest of it. -/
theorem System.CanEnd.after {s s₁ : System σ} {c : ℕ} {call : Call} {body : Body} {e : CallEvent}
    {out : List Obs} (hs : System.step D verifySignature parse s e = some (s₁, out))
    (he : e.awaited t = true) (hcalls : s₁.calls = s.calls.set c call)
    (h : System.CanEnd D verifySignature parse t s₁ c body) :
    System.CanEnd D verifySignature parse t s c body := by
  rcases h with ⟨s', fs, tr, hexec, hfs, ⟨now, response, hmem, hresponse⟩, call', hcalls', hover⟩
  refine ⟨s', e :: fs, out ++ tr, Machine.execFrom_cons hs hexec, ?_,
    ⟨now, response, List.mem_append_right _ hmem, hresponse⟩, call', ?_, hover⟩
  · intro e' he'
    rcases List.mem_cons.mp he' with rfl | he'
    · exact he
    · exact hfs e' he'
  · rw [hcalls', hcalls, List.set_set]

theorem System.canEnd_committing {c : ℕ} {body : Body} {request : Approval} {now : ℤ}
    {response : Response} (hc : s.calls[c]? = some ⟨body, .committing request now response⟩)
    (hresponse : response ≠ .failed) : System.CanEnd D verifySignature parse t s c body := by
  have hs : System.step D verifySignature parse s (.commit c) =
      some (⟨D.commit s.db c,
        s.calls.set c (Call.ended ⟨body, .committing request now response⟩)⟩,
          [.responded c body now response]) := by
    simp only [System.step, hc]
  exact ⟨_, [.commit c], _, Machine.execFrom_singleton hs, by simp [CallEvent.awaited],
    ⟨now, response, List.mem_singleton_self _, hresponse⟩, _, rfl, rfl⟩

theorem System.canEnd_inserting {c : ℕ} {body : Body} {request : Approval} {now : ℤ}
    (hc : s.calls[c]? = some ⟨body, .inserting request now⟩) :
    System.CanEnd D verifySignature parse t s c body := by
  have hs : System.step D verifySignature parse s (.insert c) =
      some (⟨D.insert s.db c request.id,
        s.calls.set c (Call.inserted ⟨body, .inserting request now⟩ request now)⟩, []) := by
    simp only [System.step, hc]
  exact CanEnd.after hs rfl rfl (canEnd_committing (getElem?_set_of_some hc) (by simp))

theorem System.canEnd_updating {c : ℕ} {body : Body} {request : Approval} {now : ℤ}
    (hc : s.calls[c]? = some ⟨body, .updating request now⟩) :
    System.CanEnd D verifySignature parse t s c body := by
  have hs : System.step D verifySignature parse s (.update c) =
      some (⟨D.update s.db c request.id body.saved,
        s.calls.set c (Call.updated ⟨body, .updating request now⟩ request now)⟩, []) := by
    simp only [System.step, hc]
  refine CanEnd.after hs rfl rfl ?_
  have hc' : (s.calls.set c (Call.updated ⟨body, .updating request now⟩ request now))[c]? =
      some (Call.updated ⟨body, .updating request now⟩ request now) := getElem?_set_of_some hc
  -- an approval goes on to the outbox, a rejection to the commit
  by_cases happroved : body.decision = .approved
  · have hupdated : Call.updated ⟨body, .updating request now⟩ request now =
        ⟨body, .inserting request now⟩ := by
      simp only [Call.updated, if_pos happroved]
    exact canEnd_inserting (hc'.trans (congrArg some hupdated))
  · have hupdated : Call.updated ⟨body, .updating request now⟩ request now =
        ⟨body, .committing request now .ok⟩ := by
      simp only [Call.updated, if_neg happroved]
    exact canEnd_committing (hc'.trans (congrArg some hupdated)) (by simp)

/-- A call that holds its row. -/
theorem System.canEnd_of_held (h : s.Inv D) {c : ℕ} {call : Call} (hc : s.calls[c]? = some call)
    {id : String} (hheld : call.state.held? = some id) :
    System.CanEnd D verifySignature parse t s c call.body := by
  have hhold := h.holding c call hc
  generalize D.written s.db c = w at hhold
  cases hhold with
  | reading => cases hheld
  | updating => exact canEnd_updating hc
  | inserting => exact canEnd_inserting hc
  | answering hget hid hcheck => exact canEnd_committing hc (Ledger.check_ne hcheck).2.2
  | saving => exact canEnd_committing hc (by simp)
  | finished => cases hheld

/-- A call for a row that nobody holds. -/
theorem System.canEnd_reading (hserves : D.Serves) {c : ℕ} {body : Body}
    (hc : s.calls[c]? = some ⟨body, .reading⟩) (hfree : D.holder s.db body.requestId = none) :
    System.CanEnd D verifySignature parse t s c body := by
  rcases hserves s.db c body.requestId hfree with ⟨x, db, hget⟩
  cases x with
  | none =>
    -- a request that is not there is answered at once
    have hs : System.step D verifySignature parse s (.getForUpdate c t) =
        some (⟨D.rollback db c, s.calls.set c (Call.ended ⟨body, .reading⟩)⟩,
          [.responded c body t .notFound]) := by
      simp only [System.step, hc, hget]
    exact ⟨_, [.getForUpdate c t], _, Machine.execFrom_singleton hs, by simp [CallEvent.awaited],
      ⟨t, .notFound, List.mem_singleton_self _, by simp⟩, _, rfl, rfl⟩
  | some request =>
    have hs : System.step D verifySignature parse s (.getForUpdate c t) =
        some (⟨db, s.calls.set c (Call.decide ⟨body, .reading⟩ request t)⟩, []) := by
      simp only [System.step, hc, hget]
    have hc' : (s.calls.set c (Call.decide ⟨body, .reading⟩ request t))[c]? =
        some (Call.decide ⟨body, .reading⟩ request t) := getElem?_set_of_some hc
    refine CanEnd.after hs (by simp [CallEvent.awaited]) rfl ?_
    cases hcheck : check request body.decision t with
    | none =>
      have hdecide : Call.decide ⟨body, .reading⟩ request t = ⟨body, .updating request t⟩ := by
        simp only [Call.decide, hcheck]
      exact canEnd_updating (hc'.trans (congrArg some hdecide))
    | some response =>
      have hdecide : Call.decide ⟨body, .reading⟩ request t =
          ⟨body, .committing request t response⟩ := by
        simp only [Call.decide, hcheck]
      exact canEnd_committing (hc'.trans (congrArg some hdecide)) (Ledger.check_ne hcheck).2.2

theorem System.canEnd_free (h : s.Inv D) (hserves : D.Serves) {c : ℕ} {call : Call}
    (hc : s.calls[c]? = some call) (hstate : call.state ≠ .finished)
    (hfree : D.holder s.db call.body.requestId = none) :
    System.CanEnd D verifySignature parse t s c call.body := by
  rcases call with ⟨body, state⟩
  cases state with
  | reading => exact canEnd_reading hserves hc hfree
  | finished => exact absurd rfl hstate
  | updating request now => exact canEnd_of_held h hc rfl
  | inserting request now => exact canEnd_of_held h hc rfl
  | committing request now response => exact canEnd_of_held h hc rfl

/-- **No call waits for ever.** In every reachable state, at any time, each call that
is not over can be brought to a proper answer by steps at the `await`s alone. -/
theorem approvalCallback_answers (hD : D.Lawful) (hserves : D.Serves)
    (hrun : (System.machine D verifySignature parse).Run es tr s) {c : ℕ} {call : Call}
    (hc : s.calls[c]? = some call) (hstate : call.state ≠ .finished) (t : ℤ) :
    ∃ fs s' tr' now response,
      (System.machine D verifySignature parse).execFrom s fs = some (s', tr') ∧
      (∀ e ∈ fs, e.awaited t = true) ∧ .responded c call.body now response ∈ tr' ∧
      response ≠ .failed := by
  have h := (System.run_refines hD hrun).1
  cases hholder : D.holder s.db call.body.requestId with
  | none =>
    rcases System.canEnd_free h hserves hc hstate hholder with
      ⟨s', fs, tr', hexec, hfs, ⟨now, response, hmem, hresponse⟩, -⟩
    exact ⟨fs, s', tr', now, response, hexec, hfs, hmem, hresponse⟩
  | some d =>
    -- the holder `d` of the row ends first, and if that is not the call itself, the row is free
    rcases (h.holders _ _).mp hholder with ⟨x, hd, hheld⟩
    have hend : System.CanEnd D verifySignature parse t s d x.body :=
      System.canEnd_of_held h hd hheld
    rcases hend with
      ⟨s₁, gs, out, hexec, hgs, ⟨now, response, hmem, hresponse⟩, x', hcalls, hover⟩
    -- the call itself holds its row
    by_cases hdc : d = c
    · subst hdc
      rw [hc] at hd
      cases hd
      exact ⟨gs, s₁, out, now, response, hexec, hgs, hmem, hresponse⟩
    · have h₁ := (System.run_refines hD (hrun.execFrom hexec)).1
      have hc₁ : s₁.calls[c]? = some call := by
        rw [hcalls, List.getElem?_set_ne hdc]
        exact hc
      -- a row has one holder, so nobody else held the row that was set free
      have hfree : D.holder s₁.db call.body.requestId = none := by
        rw [Option.eq_none_iff_forall_ne_some]
        intro e he
        rcases (h₁.holders _ _).mp he with ⟨y, hy, hheld'⟩
        rw [hcalls] at hy
        rcases getElem?_set_cases hy with ⟨-, rfl⟩ | ⟨hed, hy⟩
        · rw [hover] at hheld'
          cases hheld'
        · have hholder' := (h.holders _ _).mpr ⟨y, hy, hheld'⟩
          rw [hholder] at hholder'
          exact hed (Option.some.inj hholder').symm
      rcases System.canEnd_free h₁ hserves hc₁ hstate hfree with
        ⟨s', fs, tr', hexec', hfs, ⟨now', response', hmem', hresponse'⟩, -⟩
      refine ⟨gs ++ fs, s', out ++ tr', now', response', Machine.execFrom_append hexec hexec', ?_,
        List.mem_append_right _ hmem', hresponse'⟩
      intro e he
      rcases List.mem_append.mp he with he | he
      · exact hgs e he
      · exact hfs e he

/-- The first call waits for the row that the second one holds. -/
theorem approvalCallback_answers_overlapping :
    ∃ tr s fs s' tr' now response, overlappingCalls.Run (overlapping.take 7) tr s ∧
      overlappingCalls.step s (.getForUpdate 0 6) = none ∧
      overlappingCalls.execFrom s fs = some (s', tr') ∧ (∀ e ∈ fs, e.awaited 6 = true) ∧
      .responded 0 ⟨"r", true, "ann"⟩ now response ∈ tr' ∧ response ≠ .failed := by
  have hexec : (overlappingCalls.exec (overlapping.take 7)).map (fun r => (r.1.calls[0]?,
      (overlappingCalls.step r.1 (.getForUpdate 0 6)).isNone)) =
        some (some ⟨⟨"r", true, "ann"⟩, .reading⟩, true) := rfl
  rcases Machine.Run.of_exec_map hexec with ⟨s, tr, hrun, hread⟩
  simp only [Prod.mk.injEq] at hread
  rcases approvalCallback_answers lockTable_lawful lockTable_serves hrun hread.1 (by simp) 6 with
    ⟨fs, s', tr', now, response, hfs, hawaited, hmem, hresponse⟩
  exact ⟨tr, s, fs, s', tr', now, response, hrun, Option.isNone_iff_eq_none.mp hread.2, hfs,
    hawaited, hmem, hresponse⟩

end Progress

end InterviewPrep.ApprovalCallback
