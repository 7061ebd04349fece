import InterviewPrep.EmbeddingMigration.Model

/-!
# What a step of the migration does

Three things can happen: a check returns, the migration is cancelled, or one
batch moves. `Move` lists the moves of a batch, with the counter that each adds
to and what it emits, and `step_cases` says that nothing else happens.
-/

namespace InterviewPrep.EmbeddingMigration

variable {R : Type}

/-! ## The check loop -/

theorem checkLoop_cancelled {s : Migration R} (hs : s.cancelled = true) (rest : List Chunk) :
    checkLoop s rest = splitBatches (s.add rest.length .skipped) := by
  induction rest generalizing s with
  | nil => rfl
  | cons chunk rest ih =>
    have hrest := ih (show (s.add 1 .skipped).cancelled = true from hs)
    rw [checkLoop, if_pos hs, hrest]
    -- one and the rest are counted
    simp only [splitBatches, Migration.add, MigrationSummary.add, List.length_cons]
    rw [Nat.add_assoc, Nat.add_comm 1]

/-- The loop stops at the next chunk, or it is done; `n` chunks are skipped. -/
theorem checkLoop_cases (s : Migration R) (rest : List Chunk) :
    (∃ n, n = rest.length ∧ checkLoop s rest = splitBatches (s.add n .skipped) ∧
      (s.cancelled = true ∨ n = 0)) ∨
    (s.cancelled = false ∧ rest ≠ [] ∧ checkLoop s rest = { s with todo := rest }) := by
  by_cases hs : s.cancelled = true
  · exact Or.inl ⟨rest.length, rfl, checkLoop_cancelled hs rest, Or.inl hs⟩
  · cases rest with
    | nil => exact Or.inl ⟨0, rfl, rfl, Or.inr rfl⟩
    | cons chunk rest =>
      right
      refine ⟨Bool.not_eq_true _ ▸ hs, by simp, ?_⟩
      rw [checkLoop, if_neg hs]

/-- Whatever a check returns, the loop goes on. -/
theorem checkReturns_eq (s : Migration R) (chunk : Chunk) (rest : List Chunk)
    (outcome : Outcome Bool) :
    ∃ s₁, s₁.batches = s.batches ∧ checkReturns s chunk rest outcome = checkLoop s₁ rest := by
  rcases outcome with ⟨_ | _⟩ | _
  · exact ⟨{ s with pending_chunks := s.pending_chunks ++ [chunk] }, rfl, rfl⟩
  · exact ⟨s.add 1 .skipped, rfl, rfl⟩
  · exact ⟨s.add 1 .failed, rfl, rfl⟩

/-- The batches that the loop makes are new. -/
theorem notStarted_of_checkLoop {s : Migration R} (hs : s.batches = none) (rest : List Chunk)
    {batches : List (Batch R)} (h : (checkLoop s rest).batches = some batches) :
    ∀ batch ∈ batches, batch.status = .notStarted := by
  rcases checkLoop_cases s rest with ⟨n, -, heq, -⟩ | ⟨-, -, heq⟩
  · rw [heq] at h
    cases h
    intro batch hbatch
    rcases List.mem_map.mp hbatch with ⟨chunks, -, rfl⟩
    rfl
  · rw [heq] at h
    rw [hs] at h
    cases h

/-! ## The moves of a batch -/

section Moves

variable (target_version : String) (expected_dimension : ℤ) (catchChunk : Bool → Counter)

/-- The batch `b` moves; the last arguments are what is added to which counter,
and what is emitted. -/
inductive Move (cancelled : Bool) (b : ℕ) :
    Batch R → Event R → Batch R → ℕ → Counter → List (Obs R) → Prop where
  | skip {batch : List Chunk} : cancelled = true →
      Move cancelled b ⟨batch, .notStarted⟩ (.batchStart b) ⟨batch, .finished⟩ batch.length
        .skipped []
  | embed {batch : List Chunk} : cancelled = false →
      Move cancelled b ⟨batch, .notStarted⟩ (.batchStart b) ⟨batch, .embedding⟩ 0 .skipped
        [.embedCall b (batch.map Chunk.text)]
  | embedRaised {batch : List Chunk} :
      Move cancelled b ⟨batch, .embedding⟩ (.embedReturns b .raised) ⟨batch, .finished⟩
        batch.length (if cancelled then .skipped else .failed) [.embedReturned b .raised]
  | embedMalformed {batch : List Chunk} {vectors : List (Vector R)} :
      vectors.length ≠ batch.length →
      Move cancelled b ⟨batch, .embedding⟩ (.embedReturns b (.returned vectors))
        ⟨batch, .finished⟩ batch.length .failed [.embedReturned b (.returned vectors)]
  | embedReturned {batch : List Chunk} {vectors : List (Vector R)} :
      vectors.length = batch.length →
      Move cancelled b ⟨batch, .embedding⟩ (.embedReturns b (.returned vectors))
        ⟨batch, .writing vectors (List.replicate batch.length .ready)⟩ 0 .skipped
        [.embedReturned b (.returned vectors)]
  | chunkSkipped {batch : List Chunk} {vectors : List (Vector R)} {chunks : List ChunkStatus}
      {j : ℕ} : cancelled = true → chunks[j]? = some .ready →
      Move cancelled b ⟨batch, .writing vectors chunks⟩ (.chunkStart b j)
        (settle batch vectors chunks j) 1 .skipped []
  | chunkMalformed {batch : List Chunk} {vectors : List (Vector R)} {chunks : List ChunkStatus}
      {j : ℕ} {vector : Vector R} : cancelled = false → chunks[j]? = some .ready →
      vectors[j]? = some vector → (vector.length : ℤ) ≠ expected_dimension →
      Move cancelled b ⟨batch, .writing vectors chunks⟩ (.chunkStart b j)
        (settle batch vectors chunks j) 1 .failed []
  | chunkWrites {batch : List Chunk} {vectors : List (Vector R)} {chunks : List ChunkStatus}
      {j : ℕ} {chunk : Chunk} {vector : Vector R} : cancelled = false →
      chunks[j]? = some .ready → batch[j]? = some chunk → vectors[j]? = some vector →
      (vector.length : ℤ) = expected_dimension →
      Move cancelled b ⟨batch, .writing vectors chunks⟩ (.chunkStart b j)
        ⟨batch, .writing vectors (chunks.set j .writing)⟩ 0 .skipped
        [.writeCall b j chunk target_version vector]
  | writeStale {batch : List Chunk} {vectors : List (Vector R)} {chunks : List ChunkStatus}
      {j : ℕ} : chunks[j]? = some .writing →
      Move cancelled b ⟨batch, .writing vectors chunks⟩ (.writeReturns b j (.returned .stale))
        (settle batch vectors chunks j) 1 .stale [.writeReturned b j (.returned .stale)]
  | writeWritten {batch : List Chunk} {vectors : List (Vector R)} {chunks : List ChunkStatus}
      {j : ℕ} {chunk : Chunk} : chunks[j]? = some .writing → batch[j]? = some chunk →
      Move cancelled b ⟨batch, .writing vectors chunks⟩ (.writeReturns b j (.returned .written))
        ⟨batch, .writing vectors (chunks.set j .marking)⟩ 0 .skipped
        [.writeReturned b j (.returned .written),
          .markCall b j chunk.chunk_id chunk.content_digest target_version]
  | writeRaised {batch : List Chunk} {vectors : List (Vector R)} {chunks : List ChunkStatus}
      {j : ℕ} : chunks[j]? = some .writing →
      Move cancelled b ⟨batch, .writing vectors chunks⟩ (.writeReturns b j .raised)
        (settle batch vectors chunks j) 1 (catchChunk cancelled) [.writeReturned b j .raised]
  | marked {batch : List Chunk} {vectors : List (Vector R)} {chunks : List ChunkStatus}
      {j : ℕ} : chunks[j]? = some .marking →
      Move cancelled b ⟨batch, .writing vectors chunks⟩ (.markReturns b j (.returned ()))
        (settle batch vectors chunks j) 1 .completed [.markReturned b j (.returned ())]
  | markRaised {batch : List Chunk} {vectors : List (Vector R)} {chunks : List ChunkStatus}
      {j : ℕ} : chunks[j]? = some .marking →
      Move cancelled b ⟨batch, .writing vectors chunks⟩ (.markReturns b j .raised)
        (settle batch vectors chunks j) 1 (catchChunk cancelled) [.markReturned b j .raised]

/-- The changes of one step. -/
inductive Step (s : Migration R) : Event R → Migration R → List (Obs R) → Prop where
  | checked {chunk : Chunk} {rest : List Chunk} (outcome : Outcome Bool) :
      s.todo = chunk :: rest →
      Step s (.checkReturns outcome) (checkReturns s chunk rest outcome)
        [.checked chunk outcome]
  | cancelled : Step s .cancel { s with cancelled := true } [.cancelled]
  | moved {b : ℕ} {batch batch' : Batch R} {e : Event R} {n : ℕ} {counter : Counter}
      {out : List (Obs R)} : s.batch? b = some batch →
      Move target_version expected_dimension catchChunk s.cancelled b batch e batch' n counter
        out →
      Step s e ((s.setBatch b batch').add n counter) out

end Moves

variable {target_version : String} {expected_dimension : ℤ} {catchChunk : Bool → Counter}

theorem Step.of_some_eq {s s' : Migration R} {e : Event R} {out : List (Obs R)}
    {r : Migration R × List (Obs R)} (h : some r = some (s', out))
    (hstep : Step target_version expected_dimension catchChunk s e r.1 r.2) :
    Step target_version expected_dimension catchChunk s e s' out := by
  rw [Option.some.inj h] at hstep
  exact hstep

theorem processBatch_cases {s : Migration R} {b : ℕ} {batch : List Chunk}
    (hb : s.batch? b = some ⟨batch, .notStarted⟩) :
    Step target_version expected_dimension catchChunk s (.batchStart b)
      (processBatch s b batch).1 (processBatch s b batch).2 := by
  unfold processBatch
  split
  · rename_i hcancelled
    exact .moved hb (.skip hcancelled)
  · rename_i hcancelled
    exact .moved hb (.embed (Bool.not_eq_true _ ▸ hcancelled))

theorem embedReturns_cases {s : Migration R} {b : ℕ} {batch : List Chunk}
    (hb : s.batch? b = some ⟨batch, .embedding⟩) (outcome : Outcome (List (Vector R))) :
    Step target_version expected_dimension catchChunk s (.embedReturns b outcome)
      (embedReturns s b batch outcome) [.embedReturned b outcome] := by
  cases outcome with
  | raised => exact .moved hb .embedRaised
  | returned vectors =>
    simp only [embedReturns]
    split
    · rename_i hlength
      exact .moved hb (.embedReturned hlength)
    · rename_i hlength
      exact .moved hb (.embedMalformed hlength)

theorem processChunk_cases {s : Migration R} {b j : ℕ} {batch : List Chunk}
    {vectors : List (Vector R)} {chunks : List ChunkStatus} {chunk : Chunk} {vector : Vector R}
    (hb : s.batch? b = some ⟨batch, .writing vectors chunks⟩)
    (hj : chunks[j]? = some .ready) (hchunk : batch[j]? = some chunk)
    (hvector : vectors[j]? = some vector) :
    Step target_version expected_dimension catchChunk s (.chunkStart b j)
      (processChunk target_version expected_dimension s b j batch vectors chunks chunk vector).1
      (processChunk target_version expected_dimension s b j batch vectors chunks chunk
        vector).2 := by
  unfold processChunk
  split
  · rename_i hcancelled
    exact .moved hb (.chunkSkipped hcancelled hj)
  · rename_i hcancelled
    rw [Bool.not_eq_true] at hcancelled
    split
    · rename_i hdimension
      exact .moved hb (.chunkMalformed hcancelled hj hvector hdimension)
    · rename_i hdimension
      exact .moved hb (.chunkWrites hcancelled hj hchunk hvector (not_not.mp hdimension))

theorem writeReturns_cases {s : Migration R} {b j : ℕ} {batch : List Chunk}
    {vectors : List (Vector R)} {chunks : List ChunkStatus} {chunk : Chunk}
    (hb : s.batch? b = some ⟨batch, .writing vectors chunks⟩)
    (hj : chunks[j]? = some .writing) (hchunk : batch[j]? = some chunk)
    (outcome : Outcome ShadowResult) :
    Step target_version expected_dimension catchChunk s (.writeReturns b j outcome)
      (writeReturns target_version catchChunk s b j batch vectors chunks chunk outcome).1
      (writeReturns target_version catchChunk s b j batch vectors chunks chunk outcome).2 := by
  cases outcome with
  | raised => exact .moved hb (.writeRaised hj)
  | returned result =>
    cases result with
    | written => exact .moved hb (.writeWritten hj hchunk)
    | stale => exact .moved hb (.writeStale hj)

theorem markReturns_cases {s : Migration R} {b j : ℕ} {batch : List Chunk}
    {vectors : List (Vector R)} {chunks : List ChunkStatus}
    (hb : s.batch? b = some ⟨batch, .writing vectors chunks⟩)
    (hj : chunks[j]? = some .marking) (outcome : Outcome Unit) :
    Step target_version expected_dimension catchChunk s (.markReturns b j outcome)
      (markReturns catchChunk s b j batch vectors chunks outcome)
      [.markReturned b j outcome] := by
  cases outcome with
  | raised => exact .moved hb (.markRaised hj)
  | returned result => exact .moved hb (.marked hj)

theorem step_cases {s s' : Migration R} {e : Event R} {out : List (Obs R)}
    (h : step target_version expected_dimension catchChunk s e = some (s', out)) :
    Step target_version expected_dimension catchChunk s e s' out := by
  cases e with
  | checkReturns outcome =>
    simp only [step] at h
    split at h
    · cases h
    · rename_i htodo
      cases h
      exact .checked outcome htodo
  | batchStart b =>
    simp only [step] at h
    split at h
    · rename_i hb
      exact Step.of_some_eq h (processBatch_cases hb)
    · cases h
  | embedReturns b outcome =>
    simp only [step] at h
    split at h
    · rename_i hb
      cases h
      exact embedReturns_cases hb outcome
    · cases h
  | chunkStart b j =>
    simp only [step] at h
    split at h
    · rename_i hb
      split at h
      · rename_i hj hchunk hvector
        exact Step.of_some_eq h (processChunk_cases hb hj hchunk hvector)
      · cases h
    · cases h
  | writeReturns b j outcome =>
    simp only [step] at h
    split at h
    · rename_i hb
      split at h
      · rename_i hj hchunk
        exact Step.of_some_eq h (writeReturns_cases hb hj hchunk outcome)
      · cases h
    · cases h
  | markReturns b j outcome =>
    simp only [step] at h
    split at h
    · rename_i hb
      split at h
      · rename_i hj
        cases h
        exact markReturns_cases hb hj outcome
      · cases h
    · cases h
  | cancel =>
    cases h
    exact .cancelled

/-- The start of a batch moves that batch. -/
theorem Step.batchStart {s s' : Migration R} {b : ℕ} {out : List (Obs R)}
    (hs : Step target_version expected_dimension catchChunk s (.batchStart b) s' out) :
    ∃ batch batch' n counter, s.batch? b = some batch ∧
      Move target_version expected_dimension catchChunk s.cancelled b batch (.batchStart b) batch' n
        counter out ∧ s' = (s.setBatch b batch').add n counter := by
  generalize he : Event.batchStart b = e at hs
  cases hs with
  | checked | cancelled => cases he
  | @moved b' batch batch' _ n counter _ hb hmove =>
    have hindex : b' = b := by
      subst he
      cases hmove <;> rfl
    subst hindex
    subst he
    exact ⟨batch, batch', n, counter, hb, hmove, rfl⟩

end InterviewPrep.EmbeddingMigration
