import InterviewPrep.Lib.Machine
import InterviewPrep.Lib.Slices
import Mathlib.Data.Int.Notation

/-!
# Embedding migration worker

`migrate_batch` of `technical/embedding_migration_worker/answer.py` and
`migrateBatch` of `answer.ts`, behind the claim of the chunks. What the two do
with a chunk and with a batch is the same, except for the last `except` clause
(`catchChunk`); when a batch is started is not, and is left to the two
schedulers in `Schedulers`. The machine `core` may start any batch at any time.

An event is the return of an awaited call, or the start of a coroutine that was
handed to `asyncio.gather` or `Promise.all`; the code up to the next `await` is
one step. Between the starts of two chunks of a batch other events may come,
which in TypeScript they cannot: this only adds runs.
-/

namespace InterviewPrep.EmbeddingMigration

/-! ## The data -/

structure Chunk where
  tenant_id : String
  document_id : String
  chunk_id : String
  source_revision : ℤ
  content_digest : String
  text : String

/-- How an awaited call ends. -/
inductive Outcome (α : Type) where
  | returned (value : α)
  | raised

inductive ShadowResult where
  | written
  | stale
deriving DecidableEq

structure MigrationSummary where
  completed : ℕ
  skipped : ℕ
  stale : ℕ
  failed : ℕ
deriving DecidableEq

inductive Counter where
  | completed
  | skipped
  | stale
  | failed
deriving DecidableEq

def MigrationSummary.add (m : MigrationSummary) (n : ℕ) : Counter → MigrationSummary
  | .completed => { m with completed := m.completed + n }
  | .skipped => { m with skipped := m.skipped + n }
  | .stale => { m with stale := m.stale + n }
  | .failed => { m with failed := m.failed + n }

/-- A vector of numbers of some type. -/
abbrev Vector (R : Type) := List R

/-- Where `process_chunk` stands. -/
inductive ChunkStatus where
  /-- not started yet -/
  | ready
  /-- `await deps.write_shadow(..)` -/
  | writing
  /-- `await deps.mark_complete(..)` -/
  | marking
  | settled
deriving DecidableEq

/-- Where `process_batch` stands. -/
inductive BatchStatus (R : Type) where
  | notStarted
  /-- `await deps.embed(..)` -/
  | embedding
  /-- the chunks are processed, with these vectors -/
  | writing (vectors : List (Vector R)) (chunks : List ChunkStatus)
  | finished

structure Batch (R : Type) where
  chunks : List Chunk
  status : BatchStatus R

/-- The state of a migration, after the claim. -/
structure Migration (R : Type) where
  cancelled : Bool
  summary : MigrationSummary
  /-- the claimed chunks that are still to be checked, where the first is being
  checked -/
  todo : List Chunk
  pending_chunks : List Chunk
  /-- the batches, once all chunks have been checked -/
  batches : Option (List (Batch R))

inductive Event (R : Type) where
  | checkReturns (outcome : Outcome Bool)
  | batchStart (b : ℕ)
  | embedReturns (b : ℕ) (outcome : Outcome (List (Vector R)))
  | chunkStart (b j : ℕ)
  | writeReturns (b j : ℕ) (outcome : Outcome ShadowResult)
  | markReturns (b j : ℕ) (outcome : Outcome Unit)
  | cancel

/-- The calls of the dependencies and their returns; a chunk is known by its
batch and its position there. -/
inductive Obs (R : Type) where
  | checked (chunk : Chunk) (outcome : Outcome Bool)
  | embedCall (b : ℕ) (texts : List String)
  | embedReturned (b : ℕ) (outcome : Outcome (List (Vector R)))
  | writeCall (b j : ℕ) (chunk : Chunk) (version : String) (vector : Vector R)
  | writeReturned (b j : ℕ) (outcome : Outcome ShadowResult)
  | markCall (b j : ℕ) (chunk_id content_digest version : String)
  | markReturned (b j : ℕ) (outcome : Outcome Unit)
  | cancelled

/-! ## The program -/

def embed_batch_size : ℕ := 20

def max_concurrent_batches : ℕ := 4

section Program

variable {R : Type}

namespace Migration

def add (s : Migration R) (n : ℕ) (counter : Counter) : Migration R :=
  { s with summary := s.summary.add n counter }

def setBatch (s : Migration R) (b : ℕ) (batch : Batch R) : Migration R :=
  { s with batches := s.batches.map (·.set b batch) }

/-- The batch with index `b`. -/
def batch? (s : Migration R) (b : ℕ) : Option (Batch R) := s.batches.bind (·[b]?)

end Migration

/-- Split chunks into embedding batches. -/
def splitBatches (s : Migration R) : Migration R :=
  { s with
    todo := []
    batches := some ((slices embed_batch_size s.pending_chunks).map (⟨·, .notStarted⟩)) }

/-- The loop that checks the chunks, from its head: up to the next call of
`already_current`, or to the batches. -/
def checkLoop (s : Migration R) : List Chunk → Migration R
  | [] => splitBatches s
  | chunk :: rest =>
    if s.cancelled then checkLoop (s.add 1 .skipped) rest else { s with todo := chunk :: rest }

/-- The loop goes on after `already_current` has returned for `chunk`. -/
def checkReturns (s : Migration R) (chunk : Chunk) (rest : List Chunk) :
    Outcome Bool → Migration R
  | .returned true => checkLoop (s.add 1 .skipped) rest
  | .returned false => checkLoop { s with pending_chunks := s.pending_chunks ++ [chunk] } rest
  | .raised => checkLoop (s.add 1 .failed) rest

/-- One more chunk of a batch has ended; with the last one the batch has. -/
def settle (batch : List Chunk) (vectors : List (Vector R)) (chunks : List ChunkStatus)
    (j : ℕ) : Batch R :=
  let chunks' := chunks.set j .settled
  ⟨batch, if chunks'.all (· == .settled) then .finished else .writing vectors chunks'⟩

/-- `process_chunk` ends. -/
def settleChunk (s : Migration R) (b j : ℕ) (batch : List Chunk) (vectors : List (Vector R))
    (chunks : List ChunkStatus) (counter : Counter) : Migration R :=
  (s.setBatch b (settle batch vectors chunks j)).add 1 counter

/-- `process_batch` up to its first `await`. -/
def processBatch (s : Migration R) (b : ℕ) (batch : List Chunk) : Migration R × List (Obs R) :=
  if s.cancelled then ((s.setBatch b ⟨batch, .finished⟩).add batch.length .skipped, [])
  else (s.setBatch b ⟨batch, .embedding⟩, [.embedCall b (batch.map Chunk.text)])

/-- `process_batch` after `embed`. -/
def embedReturns (s : Migration R) (b : ℕ) (batch : List Chunk) :
    Outcome (List (Vector R)) → Migration R
  | .raised =>
    (s.setBatch b ⟨batch, .finished⟩).add batch.length (if s.cancelled then .skipped else .failed)
  | .returned vectors =>
    if vectors.length = batch.length then
      s.setBatch b ⟨batch, .writing vectors (List.replicate batch.length .ready)⟩
    else (s.setBatch b ⟨batch, .finished⟩).add batch.length .failed

variable (target_version : String) (expected_dimension : ℤ) (catchChunk : Bool → Counter)

/-- `process_chunk` up to its first `await`. -/
def processChunk (s : Migration R) (b j : ℕ) (batch : List Chunk) (vectors : List (Vector R))
    (chunks : List ChunkStatus) (chunk : Chunk) (vector : Vector R) :
    Migration R × List (Obs R) :=
  if s.cancelled then (settleChunk s b j batch vectors chunks .skipped, [])
  else if (vector.length : ℤ) ≠ expected_dimension then
    (settleChunk s b j batch vectors chunks .failed, [])
  else
    (s.setBatch b ⟨batch, .writing vectors (chunks.set j .writing)⟩,
      [.writeCall b j chunk target_version vector])

/-- `process_chunk` after `write_shadow`. -/
def writeReturns (s : Migration R) (b j : ℕ) (batch : List Chunk) (vectors : List (Vector R))
    (chunks : List ChunkStatus) (chunk : Chunk) :
    Outcome ShadowResult → Migration R × List (Obs R)
  | .returned .stale =>
    (settleChunk s b j batch vectors chunks .stale, [.writeReturned b j (.returned .stale)])
  | .returned .written =>
    (s.setBatch b ⟨batch, .writing vectors (chunks.set j .marking)⟩,
      [.writeReturned b j (.returned .written),
        .markCall b j chunk.chunk_id chunk.content_digest target_version])
  | .raised =>
    (settleChunk s b j batch vectors chunks (catchChunk s.cancelled),
      [.writeReturned b j .raised])

/-- `process_chunk` after `mark_complete`. -/
def markReturns (s : Migration R) (b j : ℕ) (batch : List Chunk) (vectors : List (Vector R))
    (chunks : List ChunkStatus) : Outcome Unit → Migration R
  | .returned _ => settleChunk s b j batch vectors chunks .completed
  | .raised => settleChunk s b j batch vectors chunks (catchChunk s.cancelled)

def step (s : Migration R) : Event R → Option (Migration R × List (Obs R))
  | .checkReturns outcome =>
    match s.todo with
    | [] => none
    | chunk :: rest => some (checkReturns s chunk rest outcome, [.checked chunk outcome])
  | .batchStart b =>
    match s.batch? b with
    | some ⟨batch, .notStarted⟩ => some (processBatch s b batch)
    | _ => none
  | .embedReturns b outcome =>
    match s.batch? b with
    | some ⟨batch, .embedding⟩ =>
      some (embedReturns s b batch outcome, [.embedReturned b outcome])
    | _ => none
  | .chunkStart b j =>
    match s.batch? b with
    | some ⟨batch, .writing vectors chunks⟩ =>
      match chunks[j]?, batch[j]?, vectors[j]? with
      | some .ready, some chunk, some vector =>
        some (processChunk target_version expected_dimension s b j batch vectors chunks chunk
          vector)
      | _, _, _ => none
    | _ => none
  | .writeReturns b j outcome =>
    match s.batch? b with
    | some ⟨batch, .writing vectors chunks⟩ =>
      match chunks[j]?, batch[j]? with
      | some .writing, some chunk =>
        some (writeReturns target_version catchChunk s b j batch vectors chunks chunk outcome)
      | _, _ => none
    | _ => none
  | .markReturns b j outcome =>
    match s.batch? b with
    | some ⟨batch, .writing vectors chunks⟩ =>
      match chunks[j]? with
      | some .marking =>
        some (markReturns catchChunk s b j batch vectors chunks outcome,
          [.markReturned b j outcome])
      | _ => none
    | _ => none
  | .cancel => some ({ s with cancelled := true }, [.cancelled])

/-- The state after the claim. -/
def init (claimed : List Chunk) (cancelled : Bool) : Migration R :=
  checkLoop ⟨cancelled, ⟨0, 0, 0, 0⟩, [], [], none⟩ claimed

/-- The migration without a scheduler. -/
def core (R : Type) (claimed : List Chunk) (cancelled : Bool) :
    Machine (Migration R) (Event R) (Obs R) where
  init := init claimed cancelled
  step := step target_version expected_dimension catchChunk

end Program

end InterviewPrep.EmbeddingMigration
