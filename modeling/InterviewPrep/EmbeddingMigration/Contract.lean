import InterviewPrep.EmbeddingMigration.Groups
import InterviewPrep.EmbeddingMigration.Pool

/-!
# The contract of the migration

What every run of `migrate_batch` and of `migrateBatch` keeps, whatever the
dependencies return, in whatever order the tasks go on, and whenever the
migration is cancelled.
-/

namespace InterviewPrep.EmbeddingMigration

variable {R : Type}

/-- What a run up to the state `s` has done; `returned` says that it is over. -/
structure Contract (target_version : String) (expected_dimension : ℤ) (claimed : List Chunk)
    (cancelled₀ : Bool) (tr : List (Obs R)) (s : Migration R) (returned : Bool) : Prop where
  /-- every write carries the vector of its chunk, and every mark comes after its
  own write -/
  lawful : Along (Lawful target_version expected_dimension) tr
  pending : (pendingOf tr).Sublist claimed
  /-- the batches in order are the pending chunks -/
  partition : ∀ batches, s.batches = some batches →
    (batches.map Batch.chunks).flatten = pendingOf tr
  size : ∀ b batch, s.batch? b = some batch →
    1 ≤ batch.chunks.length ∧ batch.chunks.length ≤ embed_batch_size
  /-- an embed call is for a batch, with the texts of its chunks -/
  called : ∀ b texts, .embedCall b texts ∈ tr →
    ∃ batch, s.batch? b = some batch ∧ texts = batch.chunks.map Chunk.text
  at_most_once : ∀ b, (embedCalls b tr).length ≤ 1
  exactly_once : cancelled₀ = false → .cancelled ∉ tr → returned = true →
    ∀ b batch, s.batch? b = some batch → embedCalls b tr = [batch.call b]
  inFlight : InFlight tr

section Calls

variable {claimed : List Chunk} {cancelled₀ : Bool} {target_version : String}
  {expected_dimension : ℤ} {tr : List (Obs R)} {s : Migration R} {b : ℕ} {batch : Batch R}

/-- A batch has no call or its own. -/
theorem BatchOk.calls {cancelled : Bool} (h : BatchOk target_version tr cancelled b batch) :
    embedCalls b tr = [] ∨ embedCalls b tr = [batch.call b] := by
  unfold BatchOk at h
  split at h
  · exact Or.inl h
  · exact Or.inr h
  · exact Or.inr h.1
  · exact h.imp_left And.right

theorem Inv.at_most_once (h : Inv claimed cancelled₀ target_version tr s) (b : ℕ) :
    (embedCalls b tr).length ≤ 1 := by
  cases hb : s.batch? b with
  | none =>
    rw [h.noBatch b hb]
    exact Nat.zero_le 1
  | some batch => rcases (h.batchOk b batch hb).calls with hcalls | hcalls <;> simp [hcalls]

theorem Inv.called (h : Inv claimed cancelled₀ target_version tr s) {texts : List String}
    (hmem : .embedCall b texts ∈ tr) :
    ∃ batch, s.batch? b = some batch ∧ texts = batch.chunks.map Chunk.text := by
  have hmem := mem_embedCalls_iff.mp hmem
  cases hb : s.batch? b with
  | none =>
    rw [h.noBatch b hb] at hmem
    cases hmem
  | some batch =>
    refine ⟨batch, rfl, ?_⟩
    rcases (h.batchOk b batch hb).calls with hcalls | hcalls
    · rw [hcalls] at hmem
      cases hmem
    · rw [hcalls, List.mem_singleton] at hmem
      cases hmem
      rfl

/-- A finished batch of a migration that was never cancelled has its call. -/
theorem Inv.called_of_finished (h : Inv claimed cancelled₀ target_version tr s)
    (hcancelled₀ : cancelled₀ = false) (hcancelled : .cancelled ∉ tr)
    (hb : s.batch? b = some batch) (hfinished : batch.isFinished = true) :
    embedCalls b tr = [batch.call b] := by
  have hok := h.batchOk b batch hb
  unfold Batch.isFinished at hfinished
  unfold BatchOk at hok
  split at hfinished
  · rename_i hstatus
    rw [hstatus] at hok
    rcases hok with ⟨hs, -⟩ | hcall
    · rcases h.cancelled hs with h₀ | hmem
      · rw [hcancelled₀] at h₀
        cases h₀
      · exact absurd hmem hcancelled
    · exact hcall
  · cases hfinished

/-- The contract of a run under a scheduler that bounds the calls in flight. -/
theorem contract_of_run {catchChunk : Bool → Counter} {es : List (Event R)} {returned : Bool}
    (h : (core target_version expected_dimension catchChunk R claimed cancelled₀).Run es tr s)
    (hinFlight : InFlight tr) (hreturned : returned = true → s.finished = true) :
    Contract target_version expected_dimension claimed cancelled₀ tr s returned := by
  rcases lawful_run h with ⟨hinv, hlawful⟩
  constructor
  · exact hlawful
  · rw [← hinv.pending]
    exact (List.sublist_append_left _ s.todo).trans hinv.claimed
  · intro batches hbatches
    rw [(hinv.sliced batches hbatches).2, hinv.pending]
    exact slices_flatten (by decide) _
  · intro b batch hb
    exact length_of_mem_slices (by decide) (List.mem_of_getElem? (hinv.slice hb))
  · exact fun b texts => hinv.called
  · exact hinv.at_most_once
  · intro hcancelled₀ hcancelled hret b batch hb
    rcases Migration.finished_iff.mp (hreturned hret) with ⟨batches, hbatches, hall⟩
    rw [Migration.batch?_eq hbatches] at hb
    refine hinv.called_of_finished hcancelled₀ hcancelled ?_ (hall batch (List.mem_of_getElem? hb))
    rw [Migration.batch?_eq hbatches, hb]
  · exact hinFlight

end Calls

/-! ## The two workers -/

theorem migration_contract (target_version : String) (expected_dimension : ℤ)
    (claimed : List Chunk) (cancelled₀ : Bool) :
    (∀ es tr s,
      (Python.machine target_version expected_dimension R claimed cancelled₀).Run es tr s →
        Contract target_version expected_dimension claimed cancelled₀ tr s
          (Python.returned s)) ∧
      ∀ es tr p,
        (TypeScript.machine target_version expected_dimension R claimed cancelled₀).Run es tr p →
          Contract target_version expected_dimension claimed cancelled₀ tr p.migration
            (TypeScript.returned p) := by
  constructor
  · intro es tr s hrun
    rcases Python.core_run hrun with ⟨es', hcore⟩
    exact contract_of_run hcore (Python.inFlight_run hrun) id
  · intro es tr p hrun
    rcases TypeScript.core_run hrun with ⟨es', hcore⟩
    exact contract_of_run hcore (TypeScript.inFlight_run hrun)
      (TypeScript.poolOk_run hrun).finished

/-! ### A run of each -/

def refund : Chunk := ⟨"acme", "policy", "c1", 3, "d1", "Refunds take ten days."⟩

def returns : Chunk := ⟨"acme", "policy", "c2", 3, "d2", "Returns are free."⟩

/-- The first chunk is up to date, the second is written and marked. -/
def checks : List (Event ℕ) := [.checkReturns (.returned true), .checkReturns (.returned false)]

def writes : List (Event ℕ) :=
  [.embedReturns 0 (.returned [[7, 9]]), .chunkStart 0 0,
    .writeReturns 0 0 (.returned .written), .markReturns 0 0 (.returned ())]

theorem migration_contract_refund :
    (∃ tr s, (Python.machine "v2" 2 ℕ [refund, returns] false).Run
        (checks ++ .batchStart 0 :: writes) tr s ∧
      Python.returned s = true ∧ s.summary = ⟨1, 1, 0, 0⟩ ∧
      Contract "v2" 2 [refund, returns] false tr s (Python.returned s)) ∧
    ∃ tr p, (TypeScript.machine "v2" 2 ℕ [refund, returns] false).Run
        (checks.map .other ++
          .createWorkers :: .workerTurn 0 :: writes.map .other ++ [.workerTurn 0]) tr p ∧
      TypeScript.returned p = true ∧ p.migration.summary = ⟨1, 1, 0, 0⟩ ∧
      Contract "v2" 2 [refund, returns] false tr p.migration (TypeScript.returned p) := by
  have hcontract := migration_contract (R := ℕ) "v2" 2 [refund, returns] false
  have hpython : ((Python.machine "v2" 2 ℕ [refund, returns] false).exec
      (checks ++ .batchStart 0 :: writes)).map (fun r => (Python.returned r.1, r.1.summary)) =
        some (true, ⟨1, 1, 0, 0⟩) := by decide +kernel
  have htypescript : ((TypeScript.machine "v2" 2 ℕ [refund, returns] false).exec
      (checks.map .other ++
        .createWorkers :: .workerTurn 0 :: writes.map .other ++ [.workerTurn 0])).map
        (fun r => (TypeScript.returned r.1, r.1.migration.summary)) =
          some (true, ⟨1, 1, 0, 0⟩) := by decide +kernel
  constructor
  · rcases Machine.Run.of_exec_map hpython with ⟨s, tr, hrun, hs⟩
    rcases Prod.mk.inj hs with ⟨hreturned, hsummary⟩
    exact ⟨tr, s, hrun, hreturned, hsummary, hcontract.1 _ _ _ hrun⟩
  · rcases Machine.Run.of_exec_map htypescript with ⟨p, tr, hrun, hp⟩
    rcases Prod.mk.inj hp with ⟨hreturned, hsummary⟩
    exact ⟨tr, p, hrun, hreturned, hsummary, hcontract.2 _ _ _ hrun⟩

end InterviewPrep.EmbeddingMigration
