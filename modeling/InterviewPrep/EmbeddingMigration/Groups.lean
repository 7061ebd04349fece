import InterviewPrep.EmbeddingMigration.Concurrency

/-!
# Python: one group at a time

The groups before the running one are finished and those after it are new, so
that all batches that are embedding are in one group.
-/

namespace InterviewPrep.EmbeddingMigration.Python

variable {R : Type} {claimed : List Chunk} {cancelled₀ : Bool} {target_version : String}
  {expected_dimension : ℤ} {tr out : List (Obs R)} {s s' : Migration R} {e : Event R}

/-- A step is one of the migration, and a batch is started in the running group. -/
theorem step_cases (h : Python.step target_version expected_dimension s e = some (s', out)) :
    EmbeddingMigration.step target_version expected_dimension catchChunk s e = some (s', out) ∧
      ∀ b, e = .batchStart b → groupRuns s b = true := by
  cases e with
  | batchStart b =>
    simp only [Python.step] at h
    split at h
    · rename_i hruns
      refine ⟨h, ?_⟩
      rintro b ⟨⟩
      exact hruns
    · cases h
  | _ => exact ⟨h, by simp⟩

theorem core_run {es : List (Event R)}
    (h : (machine target_version expected_dimension R claimed cancelled₀).Run es tr s) :
    ∃ es', (core target_version expected_dimension catchChunk R claimed cancelled₀).Run es' tr s := by
  refine Machine.Run.simulate (M := machine target_version expected_dimension R claimed cancelled₀)
    (N := core target_version expected_dimension catchChunk R claimed cancelled₀) id rfl ?_ h
  intro s e s' out hs
  exact Or.inr ⟨e, (step_cases hs).1⟩

/-- The groups before the running one are finished, and those after it are new. -/
def Grouped (s : Migration R) : Prop :=
  ∃ k, ∀ b batch, s.batch? b = some batch →
    (b / max_concurrent_batches < k → batch.isFinished = true) ∧
      (k < b / max_concurrent_batches → batch.status = .notStarted)

theorem finished_of_groupRuns {b b' : ℕ} {batch : Batch R} (h : groupRuns s b = true)
    (hb' : s.batch? b' = some batch)
    (hlt : b' / max_concurrent_batches < b / max_concurrent_batches) :
    batch.isFinished = true := by
  rcases Migration.batches_of_batch? hb' with ⟨batches, hbatches, hget⟩
  unfold groupRuns at h
  rw [hbatches] at h
  apply List.all_eq_true.mp h
  apply List.mem_of_getElem? (i := b')
  rw [List.getElem?_take_of_lt _, hget]
  unfold max_concurrent_batches at *
  omega

theorem grouped_step (h : Grouped s) (hinv : Inv claimed cancelled₀ target_version tr s)
    (hs : Python.step target_version expected_dimension s e = some (s', out)) : Grouped s' := by
  rcases h with ⟨k, hk⟩
  rcases step_cases hs with ⟨hcore, hguard⟩
  cases EmbeddingMigration.step_cases hcore with
  | @checked chunk rest outcome htodo =>
    -- all batches are new
    refine ⟨0, ?_⟩
    intro b batch hb
    exact ⟨fun hlt => absurd hlt (Nat.not_lt_zero _),
      fun _ => notStarted_of_checkReturns (hinv.noBatches htodo) hb⟩
  | cancelled => exact ⟨k, hk⟩
  | @moved b batch _ _ _ _ _ hb hmove =>
    rcases hmove.source with ⟨hunfinished, hstart⟩
    rcases hk b batch hb with ⟨hbefore, hafter⟩
    have hle : k ≤ b / max_concurrent_batches := by
      by_contra hlt
      rw [hbefore (Nat.lt_of_not_le hlt)] at hunfinished
      cases hunfinished
    refine ⟨b / max_concurrent_batches, ?_⟩
    intro b' batch' hb'
    rcases Migration.batch?_setBatch hb' with ⟨rfl, -⟩ | ⟨-, hold⟩
    · exact ⟨fun hlt => absurd hlt (Nat.lt_irrefl _), fun hlt => absurd hlt (Nat.lt_irrefl _)⟩
    constructor
    · intro hlt
      by_cases hnew : batch.status = .notStarted
      · -- the batch starts, so that the groups before it are finished
        exact finished_of_groupRuns (hguard b (hstart.mp hnew)) hold hlt
      · -- its group was the running one
        have heq : b / max_concurrent_batches = k :=
          Nat.le_antisymm (Nat.le_of_not_lt fun hgt => hnew (hafter hgt)) hle
        rw [heq] at hlt
        exact (hk b' batch' hold).1 hlt
    · intro hlt
      exact (hk b' batch' hold).2 (Nat.lt_of_le_of_lt hle hlt)

theorem grouped_run {es : List (Event R)}
    (h : (machine target_version expected_dimension R claimed cancelled₀).Run es tr s) :
    Grouped s := by
  refine h.history_invariant (fun _ _ s => Grouped s) ?_ ?_
  · refine ⟨0, ?_⟩
    intro b batch hb
    exact ⟨fun hlt => absurd hlt (Nat.not_lt_zero _), fun _ => notStarted_of_batch? rfl hb⟩
  · intro es tr s e s' out hrun hgrouped hs
    rcases core_run hrun with ⟨es', hcore⟩
    exact grouped_step hgrouped (lawful_run hcore).1 hs

/-- The batches that are embedding are in one group. -/
theorem Grouped.embedding_le (h : Grouped s) : s.embedding ≤ max_concurrent_batches := by
  rcases h with ⟨k, hk⟩
  unfold Migration.embedding
  cases hs : s.batches with
  | none => exact Nat.zero_le _
  | some batches =>
    apply countP_le_of_holders max_concurrent_batches
      (fun w => some (max_concurrent_batches * k + w))
    intro b batch hget hembedding
    rcases hk b batch ((Migration.batch?_eq hs b).trans hget) with ⟨hbefore, hafter⟩
    have hstatus := Batch.status_of_isEmbedding hembedding
    have hge : k ≤ b / max_concurrent_batches := by
      apply Nat.le_of_not_lt
      intro hlt
      have hfinished := hbefore hlt
      simp [Batch.isFinished, hstatus] at hfinished
    have hle : b / max_concurrent_batches ≤ k := by
      apply Nat.le_of_not_lt
      intro hgt
      rw [hafter hgt] at hstatus
      cases hstatus
    refine ⟨b % max_concurrent_batches, Nat.mod_lt _ (by decide), ?_⟩
    have hdiv := Nat.div_add_mod b max_concurrent_batches
    rw [Nat.le_antisymm hle hge] at hdiv
    rw [hdiv]

theorem inFlight_run {es : List (Event R)}
    (h : (machine target_version expected_dimension R claimed cancelled₀).Run es tr s) :
    InFlight tr := by
  refine h.history_invariant (fun _ tr _ => InFlight tr) inFlight_nil ?_
  intro es tr s e s' out hrun hbound hs
  rcases core_run hrun with ⟨es', hcore⟩
  exact hbound.step hcore (step_cases hs).1 (grouped_run (hrun.step hs)).embedding_le

end InterviewPrep.EmbeddingMigration.Python
