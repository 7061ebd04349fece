import InterviewPrep.EmbeddingMigration.Summary

/-!
# Dependencies that are functions

If what a dependency returns or raises depends on the arguments of the call
alone, the fate of every claimed chunk is settled in advance: `expected` is the
summary that follows from the dependencies. `owed` is what is still to be
counted in a state, by counter, and each step of a migration that is not
cancelled moves as much from there into the summary (`owed_step`).
-/

namespace InterviewPrep.EmbeddingMigration

variable {R : Type}

/-- The dependencies behind the claim. -/
structure Deps (R : Type) where
  already_current : Chunk → String → Outcome Bool
  embed : List String → Outcome (List (Vector R))
  write_shadow : Chunk → String → Vector R → Outcome ShadowResult
  mark_complete : String → String → String → Outcome Unit

section Program

variable (deps : Deps R) (target_version : String) (expected_dimension : ℤ)

/-- The event is the return of a call as the dependencies decide it; the
migration is not cancelled. -/
def Follows (s : Migration R) : Event R → Prop
  | .checkReturns outcome => ∀ chunk rest, s.todo = chunk :: rest →
      outcome = deps.already_current chunk target_version
  | .embedReturns b outcome => ∀ batch, s.batch? b = some batch →
      outcome = deps.embed (batch.chunks.map Chunk.text)
  | .writeReturns b j outcome => ∀ chunks vectors statuses chunk vector,
      s.batch? b = some ⟨chunks, .writing vectors statuses⟩ → chunks[j]? = some chunk →
        vectors[j]? = some vector → outcome = deps.write_shadow chunk target_version vector
  | .markReturns b j outcome => ∀ batch chunk, s.batch? b = some batch →
      batch.chunks[j]? = some chunk →
        outcome = deps.mark_complete chunk.chunk_id chunk.content_digest target_version
  | .cancel => False
  | _ => True

/-! ## Fates from the dependencies -/

/-- The fate of a chunk that has been written. -/
def markFate (chunk : Chunk) : Counter :=
  match deps.mark_complete chunk.chunk_id chunk.content_digest target_version with
  | .returned _ => .completed
  | .raised => .failed

/-- The fate of a chunk whose vector has the right dimension. -/
def writeFate (chunk : Chunk) (vector : Vector R) : Counter :=
  match deps.write_shadow chunk target_version vector with
  | .returned .written => markFate deps target_version chunk
  | .returned .stale => .stale
  | .raised => .failed

/-- The fate of a chunk with a vector. -/
def chunkFate (chunk : Chunk) (vector : Vector R) : Counter :=
  if (vector.length : ℤ) ≠ expected_dimension then .failed
  else writeFate deps target_version chunk vector

/-- The fates of the chunks of a batch. -/
def batchFates (chunks : List Chunk) : List Counter :=
  match deps.embed (chunks.map Chunk.text) with
  | .raised => List.replicate chunks.length .failed
  | .returned vectors =>
    if vectors.length = chunks.length then
      List.zipWith (chunkFate deps target_version expected_dimension) chunks vectors
    else List.replicate chunks.length .failed

/-- The fates of the chunks that are pending. -/
def pendingFates (pending : List Chunk) : List Counter :=
  (slices embed_batch_size pending).flatMap (batchFates deps target_version expected_dimension)

/-- The fate that the check of a chunk gives it. -/
def fateOfCheck (chunk : Chunk) : Option Counter :=
  checkFate (deps.already_current chunk target_version)

/-- The fates of the pending chunks and of those still to be checked. -/
def fatesFrom (pending todo : List Chunk) : List Counter :=
  todo.filterMap (fateOfCheck deps target_version) ++
    pendingFates deps target_version expected_dimension
      (pending ++ todo.filter fun chunk => (fateOfCheck deps target_version chunk).isNone)

/-- The summary of the claimed chunks. -/
def expected (claimed : List Chunk) : MigrationSummary where
  completed := (fatesFrom deps target_version expected_dimension [] claimed).count .completed
  skipped := (fatesFrom deps target_version expected_dimension [] claimed).count .skipped
  stale := (fatesFrom deps target_version expected_dimension [] claimed).count .stale
  failed := (fatesFrom deps target_version expected_dimension [] claimed).count .failed

/-! ## What is owed -/

/-- The fates that a chunk still has to be counted with. -/
def owedChunk (chunk : Chunk) (vector : Vector R) : ChunkStatus → List Counter
  | .ready => [chunkFate deps target_version expected_dimension chunk vector]
  | .writing => [writeFate deps target_version chunk vector]
  | .marking => [markFate deps target_version chunk]
  | .settled => []

/-- A chunk with its vector and its status. -/
def slots (chunks : List Chunk) (vectors : List (Vector R)) (statuses : List ChunkStatus) :
    List ((Chunk × Vector R) × ChunkStatus) :=
  (chunks.zip vectors).zip statuses

/-- What is owed for the chunks of a batch that are processed. -/
def owedSlots (chunks : List Chunk) (vectors : List (Vector R)) (statuses : List ChunkStatus) :
    List Counter :=
  (slots chunks vectors statuses).flatMap fun slot =>
    owedChunk deps target_version expected_dimension slot.1.1 slot.1.2 slot.2

def owedBatch (batch : Batch R) : List Counter :=
  match batch.status with
  | .notStarted => batchFates deps target_version expected_dimension batch.chunks
  | .embedding => batchFates deps target_version expected_dimension batch.chunks
  | .writing vectors statuses =>
    owedSlots deps target_version expected_dimension batch.chunks vectors statuses
  | .finished => []

def owed (s : Migration R) : List Counter :=
  match s.batches with
  | none => fatesFrom deps target_version expected_dimension s.pending_chunks s.todo
  | some batches => batches.flatMap (owedBatch deps target_version expected_dimension)

end Program

/-! ## The shape of a state -/

/-- A batch has a vector and a status for each of its chunks, and one that is not
finished has something left to do. -/
structure Batch.Shaped (batch : Batch R) : Prop where
  nonempty : batch.chunks ≠ []
  vectors : ∀ vectors statuses, batch.status = .writing vectors statuses →
    vectors.length = batch.chunks.length
  statuses : ∀ vectors statuses, batch.status = .writing vectors statuses →
    statuses.length = batch.chunks.length
  unsettled : ∀ vectors statuses, batch.status = .writing vectors statuses →
    ∃ (j : ℕ) (status : ChunkStatus), statuses[j]? = some status ∧ status ≠ .settled

/-- The batches are made when there is nothing left to check. -/
structure Shaped (s : Migration R) : Prop where
  todo : s.batches = none ↔ s.todo ≠ []
  batch : ∀ b batch, s.batch? b = some batch → batch.Shaped

section Moves

variable {deps : Deps R} {target_version : String} {expected_dimension : ℤ}
  {catchChunk : Bool → Counter} {s s' : Migration R} {b : ℕ} {batch batch' : Batch R}
  {e : Event R} {n : ℕ} {counter : Counter} {out : List (Obs R)} {chunks : List Chunk}
  {vectors : List (Vector R)} {statuses : List ChunkStatus} {j : ℕ}

theorem Batch.shaped_of_not_writing (hne : batch.chunks ≠ [])
    (hstatus : ∀ vectors statuses, batch.status ≠ .writing vectors statuses) : batch.Shaped where
  nonempty := hne
  vectors vectors statuses h := absurd h (hstatus vectors statuses)
  statuses vectors statuses h := absurd h (hstatus vectors statuses)
  unsettled vectors statuses h := absurd h (hstatus vectors statuses)

/-- The status of a chunk changes, and some chunk is not settled. -/
theorem Batch.Shaped.setStatus (h : (⟨chunks, .writing vectors statuses⟩ : Batch R).Shaped)
    {new : ChunkStatus}
    (hunsettled : ∃ (i : ℕ) (status : ChunkStatus),
      (statuses.set j new)[i]? = some status ∧ status ≠ .settled) :
    (⟨chunks, .writing vectors (statuses.set j new)⟩ : Batch R).Shaped := by
  refine ⟨h.nonempty, ?_, ?_, ?_⟩
  · rintro vectors' statuses' ⟨⟩
    exact h.vectors vectors statuses rfl
  · rintro vectors' statuses' ⟨⟩
    rw [List.length_set]
    exact h.statuses vectors statuses rfl
  · rintro vectors' statuses' ⟨⟩
    exact hunsettled

/-- The status of a chunk changes to one that is not settled. -/
theorem Batch.Shaped.set (h : (⟨chunks, .writing vectors statuses⟩ : Batch R).Shaped)
    {old new : ChunkStatus} (hj : statuses[j]? = some old) (hnew : new ≠ .settled) :
    (⟨chunks, .writing vectors (statuses.set j new)⟩ : Batch R).Shaped :=
  h.setStatus ⟨j, new, getElem?_set_of_some hj, hnew⟩

/-- The status of a chunk changes to settled. -/
theorem Batch.Shaped.settle (h : (⟨chunks, .writing vectors statuses⟩ : Batch R).Shaped)
    (j : ℕ) : (EmbeddingMigration.settle chunks vectors statuses j).Shaped := by
  unfold EmbeddingMigration.settle
  by_cases hall : (statuses.set j .settled).all (· == .settled) = true
  · simp only [hall, if_true]
    exact Batch.shaped_of_not_writing h.nonempty (by simp)
  · simp only [hall, Bool.false_eq_true, if_false]
    rw [Bool.not_eq_true, List.all_eq_false] at hall
    rcases hall with ⟨status, hmem, hstatus⟩
    rcases List.mem_iff_getElem?.mp hmem with ⟨i, hi⟩
    exact h.setStatus ⟨i, status, hi, by simpa using hstatus⟩

theorem Move.shaped {cancelled : Bool}
    (h : Move target_version expected_dimension catchChunk cancelled b batch e batch' n counter
      out) (hshaped : batch.Shaped) : batch'.Shaped := by
  cases h with
  | embedReturned hlength =>
    refine ⟨hshaped.nonempty, ?_, ?_, ?_⟩
    · rintro vectors' statuses' ⟨⟩
      exact hlength
    · rintro vectors' statuses' ⟨⟩
      exact List.length_replicate
    · rintro vectors' statuses' ⟨⟩
      refine ⟨0, .ready, ?_, by simp⟩
      rw [List.getElem?_replicate, if_pos (List.length_pos_of_ne_nil hshaped.nonempty)]
  | chunkSkipped _ hj => exact hshaped.settle _
  | chunkMalformed _ hj => exact hshaped.settle _
  | writeStale hj => exact hshaped.settle _
  | writeRaised hj => exact hshaped.settle _
  | marked hj => exact hshaped.settle _
  | markRaised hj => exact hshaped.settle _
  | chunkWrites _ hj => exact hshaped.set hj (by simp)
  | writeWritten hj => exact hshaped.set hj (by simp)
  | skip | embed | embedRaised | embedMalformed =>
    exact Batch.shaped_of_not_writing hshaped.nonempty (by simp)

theorem Migration.setBatch_eq_none_iff {new : Batch R} :
    (s.setBatch b new).batches = none ↔ s.batches = none := by
  unfold Migration.setBatch
  cases s.batches <;> simp

/-- The check loop cuts the pending chunks into batches that are not empty. -/
theorem shaped_checkLoop (hbatches : s.batches = none) (rest : List Chunk) :
    Shaped (checkLoop s rest) := by
  rcases checkLoop_cases s rest with ⟨m, -, heq, -⟩ | ⟨-, hrest, heq⟩
  · rw [heq]
    constructor
    · simp [splitBatches]
    · intro b batch hb
      have hb : ((slices embed_batch_size s.pending_chunks).map
          (fun chunks => (⟨chunks, .notStarted⟩ : Batch R)))[b]? = some batch := hb
      rcases List.mem_map.mp (List.mem_of_getElem? hb) with ⟨chunks, hmem, rfl⟩
      refine ⟨?_, ?_, ?_, ?_⟩
      · intro hnil
        have hnil : chunks = [] := hnil
        have hlength := (length_of_mem_slices (by decide) hmem).1
        rw [hnil] at hlength
        exact absurd hlength (by decide)
      · rintro vectors statuses ⟨⟩
      · rintro vectors statuses ⟨⟩
      · rintro vectors statuses ⟨⟩
  · rw [heq]
    constructor
    · simp [hbatches, hrest]
    · intro b batch hb
      unfold Migration.batch? at hb
      simp [hbatches] at hb

theorem Shaped.step (h : Shaped s)
    (hs : Step target_version expected_dimension catchChunk s e s' out) : Shaped s' := by
  cases hs with
  | cancelled => exact ⟨h.todo, h.batch⟩
  | @checked chunk rest outcome htodo =>
    have hnone : s.batches = none := h.todo.mpr (by simp [htodo])
    rcases checkReturns_eq s chunk rest outcome with ⟨s₁, hs₁, heq⟩
    rw [heq]
    exact shaped_checkLoop (hs₁.trans hnone) rest
  | @moved b batch batch' _ n counter _ hb hmove =>
    constructor
    · show (s.setBatch b batch').batches = none ↔ s.todo ≠ []
      rw [Migration.setBatch_eq_none_iff]
      exact h.todo
    · intro b' batch'' hb'
      rcases Migration.batch?_setBatch hb' with ⟨-, rfl⟩ | ⟨-, hold⟩
      · exact hmove.shaped (h.batch b batch hb)
      · exact h.batch b' batch'' hold

/-! ## Conservation -/

/-- The status of one chunk changes. -/
theorem slots_set {chunk : Chunk} {vector : Vector R} (hchunk : chunks[j]? = some chunk)
    (hvector : vectors[j]? = some vector) (new : ChunkStatus) :
    slots chunks vectors (statuses.set j new) =
      (slots chunks vectors statuses).set j ((chunk, vector), new) := by
  induction chunks generalizing vectors statuses j with
  | nil => simp at hchunk
  | cons c chunks ih =>
    cases vectors with
    | nil => simp at hvector
    | cons v vectors =>
      cases statuses with
      | nil => simp [slots]
      | cons status statuses =>
        cases j with
        | zero =>
          simp only [List.getElem?_cons_zero, Option.some.injEq] at hchunk hvector
          rw [hchunk, hvector]
          rfl
        | succ j =>
          simp only [List.getElem?_cons_succ] at hchunk hvector
          have hrest : slots chunks vectors (statuses.set j new) =
              (slots chunks vectors statuses).set j ((chunk, vector), new) := ih hchunk hvector
          simp only [slots, List.zip_cons_cons, List.set_cons_succ] at hrest ⊢
          rw [hrest]

/-- How the debt changes with the status of one chunk. -/
theorem count_owedSlots_set {chunk : Chunk} {vector : Vector R} {old : ChunkStatus}
    (hchunk : chunks[j]? = some chunk) (hvector : vectors[j]? = some vector)
    (hj : statuses[j]? = some old) (new : ChunkStatus) (c : Counter) :
    (owedSlots deps target_version expected_dimension chunks vectors (statuses.set j new)).count c +
        (owedChunk deps target_version expected_dimension chunk vector old).count c =
      (owedSlots deps target_version expected_dimension chunks vectors statuses).count c +
        (owedChunk deps target_version expected_dimension chunk vector new).count c := by
  have hslot : (slots chunks vectors statuses)[j]? = some ((chunk, vector), old) :=
    List.getElem?_zip_eq_some.mpr ⟨List.getElem?_zip_eq_some.mpr ⟨hchunk, hvector⟩, hj⟩
  unfold owedSlots
  rw [slots_set hchunk hvector, List.count_flatMap, List.count_flatMap]
  exact sum_map_set _ hslot

/-- Chunks that are not started owe their fates. -/
theorem owedSlots_ready (hlength : vectors.length = chunks.length) :
    owedSlots deps target_version expected_dimension chunks vectors
        (List.replicate chunks.length .ready) =
      List.zipWith (chunkFate deps target_version expected_dimension) chunks vectors := by
  induction chunks generalizing vectors with
  | nil => rfl
  | cons chunk chunks ih =>
    cases vectors with
    | nil => simp at hlength
    | cons vector vectors =>
      have hrest := ih (Nat.succ.inj hlength)
      simp only [owedSlots, slots] at hrest
      simp only [owedSlots, slots, List.length_cons, List.replicate_succ, List.zip_cons_cons,
        List.flatMap_cons, List.zipWith_cons_cons, hrest]
      rfl

/-- When all chunks are settled, nothing is owed. -/
theorem owedSlots_settled (hall : ∀ status ∈ statuses, status = .settled) :
    owedSlots deps target_version expected_dimension chunks vectors statuses = [] := by
  unfold owedSlots
  rw [List.flatMap_eq_nil_iff]
  intro slot hslot
  rw [hall slot.2 (List.of_mem_zip hslot).2]
  rfl

theorem owedBatch_settle (j : ℕ) :
    owedBatch deps target_version expected_dimension (settle chunks vectors statuses j) =
      owedSlots deps target_version expected_dimension chunks vectors
        (statuses.set j .settled) := by
  unfold settle
  by_cases hall : (statuses.set j .settled).all (· == .settled) = true
  · simp only [hall, if_true]
    rw [owedSlots_settled]
    · rfl
    · intro status hmem
      simpa using List.all_eq_true.mp hall status hmem
  · simp only [hall, Bool.false_eq_true, if_false]
    rfl

theorem count_one (counter c : Counter) :
    [counter].count c = if c = counter then 1 else 0 := by
  rw [List.count_singleton]
  cases counter <;> cases c <;> rfl

theorem count_all (m : ℕ) (counter c : Counter) :
    (List.replicate m counter).count c = if c = counter then m else 0 := by
  rw [List.count_replicate]
  cases counter <;> cases c <;> rfl

/-- A chunk of a batch with its vector. -/
theorem Batch.Shaped.slot (h : (⟨chunks, .writing vectors statuses⟩ : Batch R).Shaped)
    {status : ChunkStatus} (hj : statuses[j]? = some status) :
    ∃ chunk vector, chunks[j]? = some chunk ∧ vectors[j]? = some vector := by
  have hvectors := h.vectors vectors statuses rfl
  have hstatuses := h.statuses vectors statuses rfl
  rcases List.getElem?_eq_some_iff.mp hj with ⟨hlt, -⟩
  have hchunk : j < chunks.length := by
    rw [← hstatuses]
    exact hlt
  have hvector : j < vectors.length := by
    rw [hvectors]
    exact hchunk
  exact ⟨_, _, List.getElem?_eq_getElem hchunk, List.getElem?_eq_getElem hvector⟩

/-- A chunk is counted as the dependencies decide. -/
theorem owed_settle (h : (⟨chunks, .writing vectors statuses⟩ : Batch R).Shaped)
    {old : ChunkStatus} (hj : statuses[j]? = some old)
    (hcounter : ∀ chunk vector, chunks[j]? = some chunk → vectors[j]? = some vector →
      owedChunk deps target_version expected_dimension chunk vector old = [counter])
    (c : Counter) :
    (owedBatch deps target_version expected_dimension (settle chunks vectors statuses j)).count c +
        (if c = counter then 1 else 0) =
      (owedBatch deps target_version expected_dimension
        ⟨chunks, .writing vectors statuses⟩).count c := by
  rcases h.slot hj with ⟨chunk, vector, hchunk, hvector⟩
  have hset : (owedSlots deps target_version expected_dimension chunks vectors
      (statuses.set j .settled)).count c + _ = _ :=
    count_owedSlots_set hchunk hvector hj .settled c
  rw [hcounter chunk vector hchunk hvector, count_one] at hset
  rw [owedBatch_settle]
  exact hset

/-- A chunk goes on and owes the same as before. -/
theorem owed_set {chunk : Chunk} {vector : Vector R} (hchunk : chunks[j]? = some chunk)
    (hvector : vectors[j]? = some vector) {old new : ChunkStatus} (hj : statuses[j]? = some old)
    (hsame : owedChunk deps target_version expected_dimension chunk vector new =
      owedChunk deps target_version expected_dimension chunk vector old) (c : Counter) :
    (owedBatch deps target_version expected_dimension
        ⟨chunks, .writing vectors (statuses.set j new)⟩).count c =
      (owedBatch deps target_version expected_dimension
        ⟨chunks, .writing vectors statuses⟩).count c := by
  have hset : (owedSlots deps target_version expected_dimension chunks vectors
      (statuses.set j new)).count c + _ = _ := count_owedSlots_set hchunk hvector hj new c
  rw [hsame] at hset
  exact Nat.add_right_cancel hset

/-- A move of a batch counts as much as it owes less. -/
theorem Move.owed (hcatch : catchChunk false = .failed)
    (h : Move target_version expected_dimension catchChunk false b batch e batch' n counter out)
    (hb : s.batch? b = some batch) (hshaped : batch.Shaped)
    (hfollows : Follows deps target_version s e) (c : Counter) :
    (owedBatch deps target_version expected_dimension batch').count c +
        (if c = counter then n else 0) =
      (owedBatch deps target_version expected_dimension batch).count c := by
  cases h with
  | skip hcancelled => cases hcancelled
  | chunkSkipped hcancelled => cases hcancelled
  | embed => simp [owedBatch]
  | @embedRaised chunks =>
    have hraised := hfollows _ hb
    simp [owedBatch, batchFates, ← hraised, count_all]
  | @embedMalformed chunks vectors hlength =>
    have hreturned := hfollows _ hb
    simp [owedBatch, batchFates, ← hreturned, hlength, count_all]
  | @embedReturned chunks vectors hlength =>
    have hreturned := hfollows _ hb
    simp [owedBatch, batchFates, ← hreturned, hlength, owedSlots_ready hlength]
  | @chunkMalformed chunks vectors statuses j vector _ hj hvector hdimension =>
    refine owed_settle hshaped hj ?_ c
    intro chunk vector' _ hvector'
    rw [hvector] at hvector'
    cases hvector'
    simp [owedChunk, chunkFate, hdimension]
  | @chunkWrites chunks vectors statuses j chunk vector _ hj hchunk hvector hdimension =>
    rw [owed_set hchunk hvector hj (by simp [owedChunk, chunkFate, hdimension])]
    simp
  | @writeStale chunks vectors statuses j hj =>
    refine owed_settle hshaped hj ?_ c
    intro chunk vector hchunk hvector
    have hstale := hfollows chunks vectors statuses chunk vector hb hchunk hvector
    simp [owedChunk, writeFate, ← hstale]
  | @writeWritten chunks vectors statuses j chunk hj hchunk =>
    rcases hshaped.slot hj with ⟨chunk', vector, -, hvector⟩
    have hwritten := hfollows chunks vectors statuses chunk vector hb hchunk hvector
    rw [owed_set hchunk hvector hj (by simp [owedChunk, writeFate, ← hwritten])]
    simp
  | @writeRaised chunks vectors statuses j hj =>
    rw [hcatch]
    refine owed_settle hshaped hj ?_ c
    intro chunk vector hchunk hvector
    have hraised := hfollows chunks vectors statuses chunk vector hb hchunk hvector
    simp [owedChunk, writeFate, ← hraised]
  | @marked chunks vectors statuses j hj =>
    refine owed_settle hshaped hj ?_ c
    intro chunk vector hchunk _
    have hmarked := hfollows _ chunk hb hchunk
    simp [owedChunk, markFate, ← hmarked]
  | @markRaised chunks vectors statuses j hj =>
    rw [hcatch]
    refine owed_settle hshaped hj ?_ c
    intro chunk vector hchunk _
    have hraised := hfollows _ chunk hb hchunk
    simp [owedChunk, markFate, ← hraised]

variable (deps target_version expected_dimension) in
/-- The check loop owes the fates of the chunks that it has not checked. -/
theorem owed_checkLoop (hbatches : s.batches = none) (hcancelled : s.cancelled = false)
    (rest : List Chunk) (c : Counter) :
    (checkLoop s rest).cancelled = false ∧
      (checkLoop s rest).summary.get c +
          (owed deps target_version expected_dimension (checkLoop s rest)).count c =
        s.summary.get c +
          (fatesFrom deps target_version expected_dimension s.pending_chunks rest).count c := by
  cases rest with
  | nil =>
    refine ⟨hcancelled, ?_⟩
    simp [checkLoop, splitBatches, owed, fatesFrom, pendingFates, List.flatMap_map, owedBatch]
  | cons chunk rest =>
    have hstop : checkLoop s (chunk :: rest) = { s with todo := chunk :: rest } := by
      simp [checkLoop, hcancelled]
    rw [hstop]
    refine ⟨hcancelled, ?_⟩
    simp [owed, hbatches]

theorem fatesFrom_fated {chunk : Chunk} {fate : Counter} (pending rest : List Chunk)
    (hfate : fateOfCheck deps target_version chunk = some fate) :
    fatesFrom deps target_version expected_dimension pending (chunk :: rest) =
      fate :: fatesFrom deps target_version expected_dimension pending rest := by
  simp [fatesFrom, hfate]

theorem fatesFrom_pending {chunk : Chunk} (pending rest : List Chunk)
    (hfate : fateOfCheck deps target_version chunk = none) :
    fatesFrom deps target_version expected_dimension pending (chunk :: rest) =
      fatesFrom deps target_version expected_dimension (pending ++ [chunk]) rest := by
  simp [fatesFrom, hfate]

theorem owed_checkReturns (hbatches : s.batches = none) (hcancelled : s.cancelled = false)
    {chunk : Chunk} {outcome : Outcome Bool}
    (hfollows : outcome = deps.already_current chunk target_version) (rest : List Chunk)
    (c : Counter) :
    (checkReturns s chunk rest outcome).cancelled = false ∧
      (checkReturns s chunk rest outcome).summary.get c +
          (owed deps target_version expected_dimension
            (checkReturns s chunk rest outcome)).count c =
        s.summary.get c + (fatesFrom deps target_version expected_dimension s.pending_chunks
          (chunk :: rest)).count c := by
  have hfate : fateOfCheck deps target_version chunk = checkFate outcome := by
    rw [hfollows]
    rfl
  -- a fate that the check gives is counted at once
  have hcounted : ∀ fate, fateOfCheck deps target_version chunk = some fate →
      (checkLoop (s.add 1 fate) rest).cancelled = false ∧
        (checkLoop (s.add 1 fate) rest).summary.get c +
            (owed deps target_version expected_dimension (checkLoop (s.add 1 fate) rest)).count c =
          s.summary.get c + (fatesFrom deps target_version expected_dimension s.pending_chunks
            (chunk :: rest)).count c := by
    intro fate hsome
    have hbatches' : (s.add 1 fate).batches = none := hbatches
    have hcancelled' : (s.add 1 fate).cancelled = false := hcancelled
    rcases owed_checkLoop deps target_version expected_dimension hbatches' hcancelled' rest c with ⟨hfalse, howed⟩
    refine ⟨hfalse, ?_⟩
    have hsummary : (s.add 1 fate).summary.get c =
        s.summary.get c + if c = fate then 1 else 0 := MigrationSummary.get_add ..
    have hone := count_one fate c
    rw [howed, hsummary, fatesFrom_fated _ _ hsome, List.count_cons, ← hone,
      List.count_singleton]
    show _ + (fatesFrom _ _ _ s.pending_chunks rest).count c = _
    omega
  rcases outcome with ⟨_ | _⟩ | _
  · have hbatches' : ({ s with pending_chunks := s.pending_chunks ++ [chunk] } :
        Migration R).batches = none := hbatches
    rw [fatesFrom_pending _ _ hfate]
    exact owed_checkLoop deps target_version expected_dimension hbatches' hcancelled rest c
  · exact hcounted .skipped hfate
  · exact hcounted .failed hfate

/-- **Conservation.** What a step counts is owed no longer. -/
theorem owed_step (hcatch : catchChunk false = .failed) (hshaped : Shaped s)
    (hcancelled : s.cancelled = false)
    (hs : Step target_version expected_dimension catchChunk s e s' out)
    (hfollows : Follows deps target_version s e) (c : Counter) :
    s'.cancelled = false ∧
      s'.summary.get c + (owed deps target_version expected_dimension s').count c =
        s.summary.get c + (owed deps target_version expected_dimension s).count c := by
  cases hs with
  | cancelled => exact absurd hfollows id
  | @checked chunk rest outcome htodo =>
    have hnone : s.batches = none := hshaped.todo.mpr (by simp [htodo])
    have hbefore : owed deps target_version expected_dimension s =
        fatesFrom deps target_version expected_dimension s.pending_chunks (chunk :: rest) := by
      simp [owed, hnone, htodo]
    rw [hbefore]
    exact owed_checkReturns hnone hcancelled (hfollows chunk rest htodo) rest c
  | @moved b batch batch' _ n counter _ hb hmove =>
    refine ⟨hcancelled, ?_⟩
    rw [hcancelled] at hmove
    have hmoved := hmove.owed hcatch hb (hshaped.batch b batch hb) hfollows c
    rcases Migration.batches_of_batch? hb with ⟨batches, hbatches, hget⟩
    have hbefore : owed deps target_version expected_dimension s =
        batches.flatMap (owedBatch deps target_version expected_dimension) := by
      simp [owed, hbatches]
    have hafter : owed deps target_version expected_dimension
        ((s.setBatch b batch').add n counter) =
          (batches.set b batch').flatMap (owedBatch deps target_version expected_dimension) := by
      simp [owed, Migration.setBatch, Migration.add, hbatches]
    have hsummary : ((s.setBatch b batch').add n counter).summary = s.summary.add n counter := rfl
    have hset := sum_map_set (a := batch')
      (List.count c ∘ owedBatch deps target_version expected_dimension) hget
    rw [hbefore, hafter, hsummary, MigrationSummary.get_add, List.count_flatMap,
      List.count_flatMap]
    simp only [Function.comp_apply] at hset
    omega

end Moves

end InterviewPrep.EmbeddingMigration
