import InterviewPrep.EmbeddingMigration.Model

/-!
# The two schedulers

Python starts the batches in groups of four, and a group when the one before it
is finished. TypeScript has up to four workers that take the next batch when
their last one is finished. Both only restrict the order in which `core` may
start its batches, so that their runs are runs of `core`.
-/

namespace InterviewPrep.EmbeddingMigration

variable {R : Type}

def Batch.isFinished (batch : Batch R) : Bool :=
  match batch.status with
  | .finished => true
  | _ => false

/-- All batches are finished. -/
def Migration.finished (s : Migration R) : Bool :=
  match s.batches with
  | none => false
  | some batches => batches.all Batch.isFinished

/-! ## Python -/

namespace Python

/-- `except Exception` in `process_chunk`. -/
def catchChunk (_cancelled : Bool) : Counter := .failed

/-- The batch `b` is in the group that is running: the groups before it are
finished. -/
def groupRuns (s : Migration R) (b : ℕ) : Bool :=
  match s.batches with
  | none => false
  | some batches =>
    (batches.take (max_concurrent_batches * (b / max_concurrent_batches))).all Batch.isFinished

variable (target_version : String) (expected_dimension : ℤ)

def step (s : Migration R) (e : Event R) : Option (Migration R × List (Obs R)) :=
  match e with
  | .batchStart b =>
    if groupRuns s b then
      EmbeddingMigration.step target_version expected_dimension catchChunk s (.batchStart b)
    else none
  | e => EmbeddingMigration.step target_version expected_dimension catchChunk s e

/-- `migrate_batch` -/
def machine (R : Type) (claimed : List Chunk) (cancelled : Bool) :
    Machine (Migration R) (Event R) (Obs R) where
  init := init claimed cancelled
  step := step target_version expected_dimension

/-- `migrate_batch` has returned, after its last group. -/
def returned (s : Migration R) : Bool := s.finished

end Python

/-! ## TypeScript -/

namespace TypeScript

/-- The `catch` in the processing of a chunk. -/
def catchChunk (aborted : Bool) : Counter := if aborted then .skipped else .failed

inductive Worker where
  /-- at the head of its loop for the first time -/
  | started
  /-- `await processBatch(batches[index])` -/
  | processing (index : ℕ)
  | finished
deriving DecidableEq

structure Pool (R : Type) where
  migration : Migration R
  nextBatchIndex : ℕ
  /-- the workers, once there are batches -/
  workers : Option (List Worker)

inductive PoolEvent (R : Type) where
  /-- `Array.from` creates the workers -/
  | createWorkers
  /-- a worker is at the head of its loop -/
  | workerTurn (w : ℕ)
  /-- something else than the start of a batch -/
  | other (e : Event R)

/-- The worker is at the head of its loop, again if its batch is finished. -/
def atLoop (s : Migration R) : Worker → Bool
  | .started => true
  | .processing index =>
    match s.batch? index with
    | some batch => batch.isFinished
    | none => false
  | .finished => false

variable (targetVersion : String) (expectedDimension : ℤ)

def step (p : Pool R) : PoolEvent R → Option (Pool R × List (Obs R))
  | .createWorkers =>
    match p.workers, p.migration.batches with
    | none, some batches =>
      some ({ p with
        workers := some (List.replicate (min max_concurrent_batches batches.length) .started) }, [])
    | _, _ => none
  | .workerTurn w =>
    match p.workers, p.migration.batches with
    | some workers, some batches =>
      match workers[w]? with
      | some worker =>
        if atLoop p.migration worker then
          if p.nextBatchIndex < batches.length then
            match EmbeddingMigration.step targetVersion expectedDimension catchChunk p.migration
              (.batchStart p.nextBatchIndex) with
            | some (migration, out) =>
              some (⟨migration, p.nextBatchIndex + 1,
                some (workers.set w (.processing p.nextBatchIndex))⟩, out)
            | none => none
          else some ({ p with workers := some (workers.set w .finished) }, [])
        else none
      | none => none
    | _, _ => none
  | .other (.batchStart _) => none
  | .other e =>
    match EmbeddingMigration.step targetVersion expectedDimension catchChunk p.migration e with
    | some (migration, out) => some ({ p with migration := migration }, out)
    | none => none

/-- `migrateBatch` -/
def machine (R : Type) (claimed : List Chunk) (aborted : Bool) :
    Machine (Pool R) (PoolEvent R) (Obs R) where
  init := ⟨init claimed aborted, 0, none⟩
  step := step targetVersion expectedDimension

/-- `migrateBatch` has returned. -/
def returned (p : Pool R) : Bool :=
  match p.workers with
  | none => false
  | some workers => workers.all (· == .finished)

end TypeScript

end InterviewPrep.EmbeddingMigration
