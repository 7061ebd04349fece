import InterviewPrep.EmbeddingMigration.Concurrency

/-!
# TypeScript: a worker for each batch

The batches from the next index on are new, and each of the others is finished
or has a worker of its own, of which there are at most four.
-/

namespace InterviewPrep.EmbeddingMigration.TypeScript

variable {R : Type} {claimed : List Chunk} {aborted₀ : Bool} {targetVersion : String}
  {expectedDimension : ℤ} {tr out : List (Obs R)} {p p' : Pool R} {e : PoolEvent R}

/-- The changes of one step of the pool. -/
inductive PoolStep (targetVersion : String) (expectedDimension : ℤ) (p : Pool R) :
    PoolEvent R → Pool R → List (Obs R) → Prop where
  | createWorkers {batches : List (Batch R)} : p.workers = none →
      p.migration.batches = some batches →
      PoolStep targetVersion expectedDimension p .createWorkers
        { p with
          workers := some (List.replicate (min max_concurrent_batches batches.length) .started) }
        []
  | batchStarts {w : ℕ} {workers : List Worker} {worker : Worker} {batches : List (Batch R)}
      {migration : Migration R} {out : List (Obs R)} : p.workers = some workers →
      p.migration.batches = some batches → workers[w]? = some worker →
      atLoop p.migration worker = true → p.nextBatchIndex < batches.length →
      EmbeddingMigration.step targetVersion expectedDimension catchChunk p.migration
        (.batchStart p.nextBatchIndex) = some (migration, out) →
      PoolStep targetVersion expectedDimension p (.workerTurn w)
        ⟨migration, p.nextBatchIndex + 1, some (workers.set w (.processing p.nextBatchIndex))⟩
        out
  | workerEnds {w : ℕ} {workers : List Worker} {worker : Worker} {batches : List (Batch R)} :
      p.workers = some workers → p.migration.batches = some batches →
      workers[w]? = some worker → atLoop p.migration worker = true →
      batches.length ≤ p.nextBatchIndex →
      PoolStep targetVersion expectedDimension p (.workerTurn w)
        { p with workers := some (workers.set w .finished) } []
  | other {e : Event R} {migration : Migration R} {out : List (Obs R)} :
      (∀ b, e ≠ .batchStart b) →
      EmbeddingMigration.step targetVersion expectedDimension catchChunk p.migration e =
        some (migration, out) →
      PoolStep targetVersion expectedDimension p (.other e) { p with migration := migration } out

theorem step_other {e : Event R} (hstart : ∀ b, e ≠ .batchStart b) :
    TypeScript.step targetVersion expectedDimension p (.other e) =
      match EmbeddingMigration.step targetVersion expectedDimension catchChunk p.migration e with
      | some (migration, out) => some ({ p with migration := migration }, out)
      | none => none := by
  cases e with
  | batchStart b => exact absurd rfl (hstart b)
  | _ => rfl

theorem step_cases (h : TypeScript.step targetVersion expectedDimension p e = some (p', out)) :
    PoolStep targetVersion expectedDimension p e p' out := by
  cases e with
  | createWorkers =>
    simp only [TypeScript.step] at h
    split at h
    · rename_i hworkers hbatches
      cases h
      exact .createWorkers hworkers hbatches
    · cases h
  | workerTurn w =>
    simp only [TypeScript.step] at h
    split at h
    · rename_i hworkers hbatches
      split at h
      · rename_i hworker
        split at h
        · rename_i hloop
          split at h
          · rename_i hlt
            split at h
            · rename_i hstep
              cases h
              exact .batchStarts hworkers hbatches hworker hloop hlt hstep
            · cases h
          · rename_i hge
            cases h
            exact .workerEnds hworkers hbatches hworker hloop (Nat.le_of_not_lt hge)
        · cases h
      · cases h
    · cases h
  | other e =>
    by_cases hstart : ∃ b, e = .batchStart b
    · rcases hstart with ⟨b, rfl⟩
      cases h
    · have hstart : ∀ b, e ≠ .batchStart b := fun b hb => hstart ⟨b, hb⟩
      rw [step_other hstart] at h
      split at h
      · rename_i hstep
        cases h
        exact .other hstart hstep
      · cases h

theorem core_run {es : List (PoolEvent R)}
    (h : (machine targetVersion expectedDimension R claimed aborted₀).Run es tr p) :
    ∃ es', (core targetVersion expectedDimension catchChunk R claimed aborted₀).Run es' tr
      p.migration := by
  refine Machine.Run.simulate (M := machine targetVersion expectedDimension R claimed aborted₀)
    (N := core targetVersion expectedDimension catchChunk R claimed aborted₀) Pool.migration rfl
    ?_ h
  intro p e p' out hs
  cases step_cases hs with
  | createWorkers hworkers hbatches => exact Or.inl ⟨rfl, rfl⟩
  | workerEnds hworkers hbatches hworker hloop hge => exact Or.inl ⟨rfl, rfl⟩
  | batchStarts hworkers hbatches hworker hloop hlt hstep =>
    exact Or.inr ⟨.batchStart p.nextBatchIndex, hstep⟩
  | @other e _ _ hstart hstep => exact Or.inr ⟨e, hstep⟩

/-- The worker that processes the batch `b` stands at `w`. -/
def Pool.Serves (p : Pool R) (w b : ℕ) : Prop :=
  ∃ workers, p.workers = some workers ∧ workers[w]? = some (.processing b)

/-- The batches from the next index on are new, the others are finished or have
their worker, and a worker that has ended left no batch to start. -/
structure PoolOk (p : Pool R) : Prop where
  noWorkers : p.workers = none → p.nextBatchIndex = 0
  few : ∀ workers, p.workers = some workers → ∃ batches, p.migration.batches = some batches ∧
    workers.length = min max_concurrent_batches batches.length
  new : ∀ b batch, p.nextBatchIndex ≤ b → p.migration.batch? b = some batch →
    batch.status = .notStarted
  served : ∀ b batch, b < p.nextBatchIndex → p.migration.batch? b = some batch →
    batch.isFinished = true ∨ ∃ w, p.Serves w b
  ended : ∀ (workers : List Worker) (w : ℕ), p.workers = some workers →
    workers[w]? = some .finished → ∀ batches, p.migration.batches = some batches →
      batches.length ≤ p.nextBatchIndex

/-- A worker that turns to something else has left a finished batch. -/
theorem serves_of_turn {b w v : ℕ} {workers : List Worker} {worker worker' : Worker}
    {batch : Batch R} {q : Pool R} (hworkers : p.workers = some workers)
    (hworker : workers[w]? = some worker) (hloop : atLoop p.migration worker = true)
    (hq : q.workers = some (workers.set w worker')) (hb : p.migration.batch? b = some batch)
    (hserves : p.Serves v b) : batch.isFinished = true ∨ q.Serves v b := by
  rcases hserves with ⟨workers', hworkers', hv⟩
  rw [hworkers] at hworkers'
  cases hworkers'
  by_cases hvw : w = v
  · subst hvw
    rw [hworker] at hv
    cases hv
    left
    simpa [atLoop, hb] using hloop
  · right
    refine ⟨_, hq, ?_⟩
    rw [List.getElem?_set_ne hvw]
    exact hv

theorem PoolOk.createWorkers (h : PoolOk p) {batches : List (Batch R)}
    (hworkers : p.workers = none) (hbatches : p.migration.batches = some batches) :
    PoolOk { p with
      workers := some (List.replicate (min max_concurrent_batches batches.length) .started) } := by
  have hzero := h.noWorkers hworkers
  constructor
  · exact fun hnone => nomatch hnone
  · rintro _ ⟨⟩
    exact ⟨batches, hbatches, List.length_replicate⟩
  · exact h.new
  · intro b batch hb
    rw [hzero] at hb
    exact absurd hb (Nat.not_lt_zero b)
  · rintro _ w ⟨⟩ hw
    rw [List.getElem?_replicate] at hw
    split at hw <;> cases hw

theorem PoolOk.workerEnds (h : PoolOk p) {w : ℕ} {workers : List Worker} {worker : Worker}
    {batches : List (Batch R)} (hworkers : p.workers = some workers)
    (hbatches : p.migration.batches = some batches) (hworker : workers[w]? = some worker)
    (hloop : atLoop p.migration worker = true) (hge : batches.length ≤ p.nextBatchIndex) :
    PoolOk { p with workers := some (workers.set w .finished) } := by
  constructor
  · exact fun hnone => nomatch hnone
  · rintro _ ⟨⟩
    rw [List.length_set]
    exact h.few workers hworkers
  · exact h.new
  · intro b batch hb hbatch
    rcases h.served b batch hb hbatch with hfinished | ⟨v, hserves⟩
    · exact Or.inl hfinished
    · exact (serves_of_turn hworkers hworker hloop rfl hbatch hserves).imp_right fun hv => ⟨v, hv⟩
  · intro _ _ _ _ batches' hbatches'
    have hbatches' : p.migration.batches = some batches' := hbatches'
    rw [hbatches] at hbatches'
    cases hbatches'
    exact hge

theorem PoolOk.batchStarts (h : PoolOk p) {w : ℕ} {workers : List Worker} {worker : Worker}
    {batches : List (Batch R)} {migration : Migration R} (hworkers : p.workers = some workers)
    (hbatches : p.migration.batches = some batches) (hworker : workers[w]? = some worker)
    (hloop : atLoop p.migration worker = true) (hlt : p.nextBatchIndex < batches.length)
    (hstep : Step targetVersion expectedDimension catchChunk p.migration
      (.batchStart p.nextBatchIndex) migration out) :
    PoolOk ⟨migration, p.nextBatchIndex + 1,
      some (workers.set w (.processing p.nextBatchIndex))⟩ := by
  have hw := getElem?_set_of_some (a := .processing p.nextBatchIndex) hworker
  rcases hstep.batchStart with ⟨batch, batch', n, counter, hb, -, rfl⟩
  constructor
  · exact fun hnone => nomatch hnone
  · rintro _ ⟨⟩
    rcases h.few workers hworkers with ⟨old, hold, hlength⟩
    refine ⟨old.set p.nextBatchIndex batch', ?_, ?_⟩
    · show p.migration.batches.map (·.set p.nextBatchIndex batch') = _
      rw [hold, Option.map_some]
    · rw [List.length_set, List.length_set, hlength]
  · intro b batch hle hbatch
    rcases Migration.batch?_setBatch hbatch with ⟨rfl, -⟩ | ⟨-, hold⟩
    · exact absurd hle (Nat.not_succ_le_self _)
    · exact h.new b batch (Nat.le_of_succ_le hle) hold
  · intro b batch hb' hbatch
    rcases Migration.batch?_setBatch hbatch with ⟨rfl, -⟩ | ⟨hne, hold⟩
    · exact Or.inr ⟨w, _, rfl, hw⟩
    · have hb' : b < p.nextBatchIndex := Nat.lt_of_le_of_ne (Nat.le_of_lt_succ hb') hne
      rcases h.served b batch hb' hold with hfinished | ⟨v, hserves⟩
      · exact Or.inl hfinished
      · exact (serves_of_turn hworkers hworker hloop rfl hold hserves).imp_right
          fun hv => ⟨v, hv⟩
  · rintro _ v ⟨⟩ hv
    rcases getElem?_set_cases hv with ⟨-, hprocessing⟩ | ⟨-, hold⟩
    · cases hprocessing
    · -- no worker had ended, as there was a batch to start
      have hend := h.ended workers v hworkers hold batches hbatches
      exact absurd hlt (Nat.not_lt.mpr hend)

/-- Before there are batches there are no workers. -/
theorem PoolOk.noWorkers_of_batches (h : PoolOk p) (hbatches : p.migration.batches = none) :
    p.workers = none := by
  cases hw : p.workers with
  | none => rfl
  | some workers =>
    rcases h.few workers hw with ⟨batches, hsome, -⟩
    rw [hbatches] at hsome
    cases hsome

theorem PoolOk.other (h : PoolOk p) {e : Event R} {migration : Migration R}
    (hinv : Inv claimed aborted₀ targetVersion tr p.migration) (hstart : ∀ b, e ≠ .batchStart b)
    (hstep : Step targetVersion expectedDimension catchChunk p.migration e migration out) :
    PoolOk { p with migration := migration } := by
  cases hstep with
  | cancelled => exact ⟨h.noWorkers, h.few, h.new, h.served, h.ended⟩
  | @checked chunk rest outcome htodo =>
    have hnone := hinv.noBatches htodo
    have hworkers := h.noWorkers_of_batches hnone
    constructor
    · exact h.noWorkers
    · intro workers hw
      rw [hworkers] at hw
      cases hw
    · exact fun b batch _ hb => notStarted_of_checkReturns hnone hb
    · intro b batch hb
      rw [h.noWorkers hworkers] at hb
      exact absurd hb (Nat.not_lt_zero b)
    · intro workers w hw
      rw [hworkers] at hw
      cases hw
  | @moved b batch batch' _ n counter _ hb hmove =>
    rcases hmove.source with ⟨hunfinished, hnew⟩
    have hlt : b < p.nextBatchIndex := by
      apply Nat.lt_of_not_le
      intro hle
      exact hstart b (hnew.mp (h.new b batch hle hb))
    constructor
    · exact h.noWorkers
    · intro workers hworkers
      rcases h.few workers hworkers with ⟨old, hold, hlength⟩
      refine ⟨old.set b batch', ?_, ?_⟩
      · show p.migration.batches.map (·.set b batch') = _
        rw [hold, Option.map_some]
      · rw [List.length_set, hlength]
    · intro b' batch'' hle hbatch
      rcases Migration.batch?_setBatch hbatch with ⟨rfl, -⟩ | ⟨-, hold⟩
      · exact absurd hlt (Nat.not_lt.mpr hle)
      · exact h.new b' batch'' hle hold
    · intro b' batch'' hb' hbatch
      rcases Migration.batch?_setBatch hbatch with ⟨rfl, -⟩ | ⟨-, hold⟩
      · -- the batch was not finished, so that it has its worker
        rcases h.served b' batch hb' hb with hfinished | hserved
        · rw [hunfinished] at hfinished
          cases hfinished
        · exact Or.inr hserved
      · exact h.served b' batch'' hb' hold
    · intro workers w hworkers hw batches hbatches
      have hbatches : p.migration.batches.map (·.set b batch') = some batches := hbatches
      rcases Option.map_eq_some_iff.mp hbatches with ⟨old, hold, rfl⟩
      rw [List.length_set]
      exact h.ended workers w hworkers hw old hold

theorem poolOk_run {es : List (PoolEvent R)}
    (h : (machine targetVersion expectedDimension R claimed aborted₀).Run es tr p) :
    PoolOk p := by
  refine h.history_invariant (fun _ _ p => PoolOk p) ?_ ?_
  · constructor
    · exact fun _ => rfl
    · intro workers hworkers
      cases hworkers
    · exact fun b batch _ hb => notStarted_of_batch? rfl hb
    · exact fun b _ hb => absurd hb (Nat.not_lt_zero b)
    · intro workers w hworkers
      cases hworkers
  · intro es tr p e p' out hrun hok hs
    cases step_cases hs with
    | createWorkers hworkers hbatches => exact hok.createWorkers hworkers hbatches
    | workerEnds hworkers hbatches hworker hloop hge =>
      exact hok.workerEnds hworkers hbatches hworker hloop hge
    | batchStarts hworkers hbatches hworker hloop hlt hstep =>
      exact hok.batchStarts hworkers hbatches hworker hloop hlt
        (EmbeddingMigration.step_cases hstep)
    | other hstart hstep =>
      rcases core_run hrun with ⟨es', hcore⟩
      exact hok.other (lawful_run hcore).1 hstart (EmbeddingMigration.step_cases hstep)

/-- The batch that a worker processes. -/
def Pool.serving (p : Pool R) (w : ℕ) : Option ℕ :=
  match p.workers.bind (·[w]?) with
  | some (.processing b) => some b
  | _ => none

theorem PoolOk.embedding_le (h : PoolOk p) :
    p.migration.embedding ≤ max_concurrent_batches := by
  unfold Migration.embedding
  cases hs : p.migration.batches with
  | none => exact Nat.zero_le _
  | some batches =>
    apply countP_le_of_holders max_concurrent_batches p.serving
    intro b batch hget hembedding
    have hb := (Migration.batch?_eq hs b).trans hget
    have hstatus := Batch.status_of_isEmbedding hembedding
    have hlt : b < p.nextBatchIndex := by
      apply Nat.lt_of_not_le
      intro hle
      rw [h.new b batch hle hb] at hstatus
      cases hstatus
    rcases h.served b batch hlt hb with hfinished | ⟨w, workers, hworkers, hw⟩
    · simp [Batch.isFinished, hstatus] at hfinished
    · rcases h.few workers hworkers with ⟨_, -, hlength⟩
      rcases List.getElem?_eq_some_iff.mp hw with ⟨hwlt, -⟩
      refine ⟨w, by omega, ?_⟩
      simp [Pool.serving, hworkers, hw]

theorem inFlight_run {es : List (PoolEvent R)}
    (h : (machine targetVersion expectedDimension R claimed aborted₀).Run es tr p) :
    InFlight tr := by
  refine h.history_invariant (fun _ tr _ => InFlight tr) inFlight_nil ?_
  intro es tr p e p' out hrun hbound hs
  rcases core_run hrun with ⟨es', hcore⟩
  have hle := (poolOk_run (hrun.step hs)).embedding_le
  cases step_cases hs with
  | createWorkers | workerEnds =>
    rw [List.append_nil]
    exact hbound
  | batchStarts hworkers hbatches hworker hloop hlt hstep => exact hbound.step hcore hstep hle
  | other hstart hstep => exact hbound.step hcore hstep hle

theorem returned_iff : returned p = true ↔
    ∃ workers, p.workers = some workers ∧ ∀ worker ∈ workers, worker = .finished := by
  unfold returned
  cases p.workers with
  | none => simp
  | some workers => simp [List.all_eq_true]

/-- When all workers have ended, all batches are finished. -/
theorem PoolOk.finished (h : PoolOk p) (hreturned : returned p = true) :
    p.migration.finished = true := by
  rcases returned_iff.mp hreturned with ⟨workers, hworkers, hall⟩
  rcases h.few workers hworkers with ⟨batches, hbatches, hlength⟩
  refine Migration.finished_iff.mpr ⟨batches, hbatches, ?_⟩
  intro batch hbatch
  rcases List.mem_iff_getElem?.mp hbatch with ⟨b, hget⟩
  rcases List.getElem?_eq_some_iff.mp hget with ⟨hlt, -⟩
  -- there is a first worker, and it found no batch to start
  have hpos : 0 < workers.length := by
    rw [hlength]
    exact Nat.lt_min.mpr ⟨by decide, Nat.zero_lt_of_lt hlt⟩
  have hfirst : workers[0]? = some .finished := by
    rw [List.getElem?_eq_getElem hpos, hall _ (List.getElem_mem hpos)]
  have hend := h.ended workers 0 hworkers hfirst batches hbatches
  have hb := (Migration.batch?_eq hbatches b).trans hget
  rcases h.served b batch (Nat.lt_of_lt_of_le hlt hend) hb with hfinished | ⟨w, _, hw, hserves⟩
  · exact hfinished
  · rw [hworkers] at hw
    cases hw
    have hprocessing := hall _ (List.mem_of_getElem? hserves)
    cases hprocessing

end InterviewPrep.EmbeddingMigration.TypeScript
