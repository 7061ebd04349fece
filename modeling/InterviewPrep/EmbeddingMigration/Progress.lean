import InterviewPrep.EmbeddingMigration.Dependencies

/-!
# The migration comes to an end

Every step but the cancellation lowers `work`, and while a batch is not finished
there is a call that can return, or a chunk that can be started
(`exists_batch_step`). When a batch may be started is left to the schedulers.
-/

namespace InterviewPrep.EmbeddingMigration

variable {R : Type}

/-! ## The work that is left -/

def ChunkStatus.work : ChunkStatus → ℕ
  | ready => 3
  | writing => 2
  | marking => 1
  | settled => 0

def Batch.work (batch : Batch R) : ℕ :=
  match batch.status with
  | .notStarted => 2 + 3 * batch.chunks.length
  | .embedding => 1 + 3 * batch.chunks.length
  | .writing _ statuses => (statuses.map ChunkStatus.work).sum
  | .finished => 0

/-- How many steps the migration can still make. -/
def Migration.work (s : Migration R) : ℕ :=
  match s.batches with
  | none => 6 * s.todo.length + 5 * s.pending_chunks.length
  | some batches => (batches.map Batch.work).sum

section Work

variable {target_version : String} {expected_dimension : ℤ} {catchChunk : Bool → Counter}
  {s s' : Migration R} {b : ℕ} {batch batch' : Batch R} {e : Event R} {n : ℕ}
  {counter : Counter} {out : List (Obs R)} {chunks : List Chunk} {vectors : List (Vector R)}
  {statuses : List ChunkStatus} {j : ℕ}

theorem work_settle (chunks : List Chunk) (vectors : List (Vector R))
    (statuses : List ChunkStatus) (j : ℕ) :
    (settle chunks vectors statuses j).work ≤
      ((statuses.set j .settled).map ChunkStatus.work).sum := by
  unfold settle
  by_cases hall : (statuses.set j .settled).all (· == .settled) = true
  · simp only [hall, if_true]
    exact Nat.zero_le _
  · simp only [hall, Bool.false_eq_true, if_false]
    exact Nat.le_refl _

/-- A chunk moves on. -/
theorem work_set {old new : ChunkStatus} (hj : statuses[j]? = some old)
    (hlt : new.work < old.work) :
    ((statuses.set j new).map ChunkStatus.work).sum < (statuses.map ChunkStatus.work).sum := by
  have hset := sum_map_set (a := new) ChunkStatus.work hj
  omega

theorem work_settle_lt {old : ChunkStatus} (hj : statuses[j]? = some old) (hlt : 0 < old.work) :
    (settle chunks vectors statuses j).work < (statuses.map ChunkStatus.work).sum :=
  Nat.lt_of_le_of_lt (work_settle chunks vectors statuses j)
    (work_set hj hlt)

theorem Move.work_lt {cancelled : Bool}
    (h : Move target_version expected_dimension catchChunk cancelled b batch e batch' n counter
      out) : batch'.work < batch.work := by
  cases h with
  | skip | embed | embedRaised | embedMalformed =>
    simp only [Batch.work]
    omega
  | embedReturned hlength =>
    simp only [Batch.work, List.map_replicate, List.sum_replicate_nat, ChunkStatus.work]
    omega
  | chunkSkipped _ hj => exact work_settle_lt hj (by decide)
  | chunkMalformed _ hj => exact work_settle_lt hj (by decide)
  | writeStale hj => exact work_settle_lt hj (by decide)
  | writeRaised hj => exact work_settle_lt hj (by decide)
  | marked hj => exact work_settle_lt hj (by decide)
  | markRaised hj => exact work_settle_lt hj (by decide)
  | chunkWrites _ hj => exact work_set hj (by decide)
  | writeWritten hj => exact work_set hj (by decide)

/-- A batch that has moved is not new. -/
theorem Move.target {cancelled : Bool}
    (h : Move target_version expected_dimension catchChunk cancelled b batch e batch' n counter
      out) : batch'.status ≠ .notStarted := by
  have hsettle : ∀ (chunks : List Chunk) (vectors : List (Vector R)) (statuses : List ChunkStatus)
      (j : ℕ), (settle chunks vectors statuses j).status ≠ .notStarted := by
    intro chunks vectors statuses j
    rcases settle_status chunks vectors statuses j with hstatus | hstatus <;> simp [hstatus]
  cases h with
  | skip | embed | embedRaised | embedMalformed | embedReturned | chunkWrites | writeWritten =>
    simp
  | _ => exact hsettle _ _ _ _

/-- Batches that are not empty. -/
theorem sum_work_le {batches : List (List Chunk)} (h : ∀ chunks ∈ batches, 1 ≤ chunks.length) :
    (batches.map fun chunks => 2 + 3 * chunks.length).sum ≤ 5 * batches.flatten.length := by
  induction batches with
  | nil => simp
  | cons chunks batches ih =>
    have hrest := ih (fun c hc => h c (List.mem_cons_of_mem chunks hc))
    have hhead := h chunks (by simp)
    simp only [List.map_cons, List.sum_cons, List.flatten_cons, List.length_append]
    omega

theorem work_checkLoop (hbatches : s.batches = none) (rest : List Chunk) :
    (checkLoop s rest).work ≤ 6 * rest.length + 5 * s.pending_chunks.length := by
  rcases checkLoop_cases s rest with ⟨m, -, heq, -⟩ | ⟨-, -, heq⟩
  · have hpos : ∀ chunks ∈ slices embed_batch_size s.pending_chunks, 1 ≤ chunks.length :=
      fun chunks hchunks => (length_of_mem_slices (by decide) hchunks).1
    have hle := sum_work_le hpos
    rw [slices_flatten (by decide)] at hle
    have hwork : (checkLoop s rest).work = ((slices embed_batch_size s.pending_chunks).map
        fun chunks => 2 + 3 * chunks.length).sum := by
      rw [heq]
      simp [splitBatches, Migration.work, Migration.add, Function.comp_def, Batch.work]
    omega
  · rw [heq]
    simp [Migration.work, hbatches]

/-- Every step but the cancellation is a part of the work. -/
theorem Step.work_lt (hshaped : Shaped s)
    (hs : Step target_version expected_dimension catchChunk s e s' out) (he : e ≠ .cancel) :
    s'.work < s.work := by
  cases hs with
  | cancelled => exact absurd rfl he
  | @checked chunk rest outcome htodo =>
    have hnone : s.batches = none := hshaped.todo.mpr (by simp [htodo])
    have hwork : s.work = 6 * (rest.length + 1) + 5 * s.pending_chunks.length := by
      simp [Migration.work, hnone, htodo]
    have hchecked : (checkReturns s chunk rest outcome).work ≤
        6 * rest.length + 5 * (s.pending_chunks.length + 1) := by
      rcases outcome with ⟨_ | _⟩ | _
      · have hle := work_checkLoop (s := { s with
          pending_chunks := s.pending_chunks ++ [chunk] }) hnone rest
        rw [List.length_append, List.length_singleton] at hle
        exact hle
      · have hle := work_checkLoop (s := s.add 1 .skipped) hnone rest
        exact Nat.le_trans hle (Nat.add_le_add_left (Nat.mul_le_mul_left 5 (Nat.le_succ _)) _)
      · have hle := work_checkLoop (s := s.add 1 .failed) hnone rest
        exact Nat.le_trans hle (Nat.add_le_add_left (Nat.mul_le_mul_left 5 (Nat.le_succ _)) _)
    omega
  | @moved b batch batch' _ n counter _ hb hmove =>
    rcases Migration.batches_of_batch? hb with ⟨batches, hbatches, hget⟩
    have hset := sum_map_set (a := batch') Batch.work hget
    have hlt := hmove.work_lt
    have hbefore : s.work = (batches.map Batch.work).sum := by simp [Migration.work, hbatches]
    have hafter : ((s.setBatch b batch').add n counter).work =
        ((batches.set b batch').map Batch.work).sum := by
      simp [Migration.work, Migration.setBatch, Migration.add, hbatches]
    omega

end Work

/-! ## What can come next -/

section Next

variable {deps : Deps R} {target_version : String} {expected_dimension : ℤ}
  {catchChunk : Bool → Counter} {s : Migration R} {b : ℕ} {batch : Batch R}

variable (catchChunk) in
/-- The check of the next chunk returns. -/
theorem exists_check_step (hshaped : Shaped s) (hbatches : s.batches = none) :
    ∃ e s' out, Follows deps target_version s e ∧ (∀ b, e ≠ .batchStart b) ∧
      step target_version expected_dimension catchChunk s e = some (s', out) := by
  rcases List.exists_cons_of_ne_nil (hshaped.todo.mp hbatches) with ⟨chunk, rest, htodo⟩
  refine ⟨.checkReturns (deps.already_current chunk target_version),
    checkReturns s chunk rest (deps.already_current chunk target_version), _, ?_, by simp,
    by simp only [step, htodo]; rfl⟩
  intro chunk' rest' htodo'
  rw [htodo] at htodo'
  cases htodo'
  rfl

variable (catchChunk) in
/-- In a batch that has been started and is not finished, a call can return or a
chunk can be started. -/
theorem exists_batch_step (hshaped : Shaped s) (hb : s.batch? b = some batch)
    (hstarted : batch.status ≠ .notStarted) (hfinished : batch.isFinished = false) :
    ∃ e s' out, Follows deps target_version s e ∧ (∀ b, e ≠ .batchStart b) ∧
      step target_version expected_dimension catchChunk s e = some (s', out) := by
  have hbatch := hshaped.batch b batch hb
  rcases batch with ⟨chunks, _ | _ | ⟨vectors, statuses⟩ | _⟩
  · exact absurd rfl hstarted
  · refine ⟨.embedReturns b (deps.embed (chunks.map Chunk.text)), _, _, ?_, by simp,
      by simp only [step, hb]; rfl⟩
    intro batch' hb'
    rw [hb] at hb'
    cases hb'
    rfl
  · rcases hbatch.unsettled vectors statuses rfl with ⟨j, status, hj, hstatus⟩
    rcases hbatch.slot hj with ⟨chunk, vector, hchunk, hvector⟩
    cases status with
    | settled => exact absurd rfl hstatus
    | ready =>
      exact ⟨.chunkStart b j, _, _, trivial, by simp,
        by simp only [step, hb, hj, hchunk, hvector]; rfl⟩
    | writing =>
      refine ⟨.writeReturns b j (deps.write_shadow chunk target_version vector), _, _, ?_, by simp,
        by simp only [step, hb, hj, hchunk]; rfl⟩
      intro chunks' vectors' statuses' chunk' vector' hb' hchunk' hvector'
      rw [hb] at hb'
      cases hb'
      rw [hchunk] at hchunk'
      rw [hvector] at hvector'
      cases hchunk'
      cases hvector'
      rfl
    | marking =>
      refine ⟨.markReturns b j (deps.mark_complete chunk.chunk_id chunk.content_digest
        target_version), _, _, ?_, by simp, by simp only [step, hb, hj]; rfl⟩
      intro batch' chunk' hb' hchunk'
      rw [hb] at hb'
      cases hb'
      rw [hchunk] at hchunk'
      cases hchunk'
      rfl
  · cases hfinished

variable (target_version expected_dimension catchChunk) in
/-- A new batch can be started. -/
theorem exists_start_step (hb : s.batch? b = some batch) (hstatus : batch.status = .notStarted) :
    ∃ s' out,
      step target_version expected_dimension catchChunk s (.batchStart b) = some (s', out) := by
  rcases batch with ⟨chunks, status⟩
  have hstatus : status = .notStarted := hstatus
  subst hstatus
  exact ⟨_, _, by simp only [step, hb]; rfl⟩

end Next

end InterviewPrep.EmbeddingMigration
