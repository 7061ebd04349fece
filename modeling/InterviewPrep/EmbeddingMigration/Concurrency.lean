import InterviewPrep.EmbeddingMigration.Schedulers
import InterviewPrep.EmbeddingMigration.Writes

/-!
# The embed calls in flight

A batch is embedding exactly while its embed call is in flight, so that a bound
on the batches that are embedding bounds the calls. `Groups` and `Pool` prove
that bound for the two schedulers.
-/

namespace InterviewPrep.EmbeddingMigration

variable {R : Type}

/-! ## Calls and returns -/

namespace Obs

def isEmbedCall (o : Obs R) : Bool := o.embedded.isSome

def isEmbedReturned : Obs R → Bool
  | embedReturned _ _ => true
  | _ => false

end Obs

/-- At every moment of the trace at most four embed calls have not returned. -/
def InFlight (tr : List (Obs R)) : Prop :=
  ∀ pre post, tr = pre ++ post →
    pre.countP Obs.isEmbedCall ≤ pre.countP Obs.isEmbedReturned + max_concurrent_batches

def Batch.isEmbedding (batch : Batch R) : Bool :=
  match batch.status with
  | .embedding => true
  | _ => false

theorem Batch.status_of_isEmbedding {batch : Batch R} (h : batch.isEmbedding = true) :
    batch.status = .embedding := by
  unfold Batch.isEmbedding at h
  split at h
  · assumption
  · cases h

/-- How many batches are embedding. -/
def Migration.embedding (s : Migration R) : ℕ := (s.batches.getD []).countP Batch.isEmbedding

section Accounting

variable {claimed : List Chunk} {cancelled₀ : Bool} {target_version : String}
  {expected_dimension : ℤ} {catchChunk : Bool → Counter} {tr out : List (Obs R)}
  {s s' : Migration R} {b : ℕ} {batch batch' : Batch R} {e : Event R} {n : ℕ}
  {counter : Counter}

theorem settle_status (chunks : List Chunk) (vectors : List (Vector R))
    (statuses : List ChunkStatus) (j : ℕ) :
    (settle chunks vectors statuses j).status = .finished ∨
      (settle chunks vectors statuses j).status =
        .writing vectors (statuses.set j .settled) := by
  simp only [settle]
  split
  · exact Or.inl rfl
  · exact Or.inr rfl

theorem isEmbedding_settle (chunks : List Chunk) (vectors : List (Vector R))
    (statuses : List ChunkStatus) (j : ℕ) :
    (settle chunks vectors statuses j).isEmbedding = false := by
  unfold Batch.isEmbedding
  rcases settle_status chunks vectors statuses j with h | h <;> rw [h]

/-- A call makes its batch embedding, and a return ends that. -/
theorem Move.accounted {cancelled : Bool}
    (h : Move target_version expected_dimension catchChunk cancelled b batch e batch' n counter
      out) :
    out.countP Obs.isEmbedCall + (if batch.isEmbedding then 1 else 0) =
      out.countP Obs.isEmbedReturned + (if batch'.isEmbedding then 1 else 0) := by
  cases h with
  | skip | embed | embedRaised | embedMalformed | embedReturned | chunkWrites | writeWritten => rfl
  | _ =>
    rw [isEmbedding_settle]
    rfl

/-- Where a move starts: not at a finished batch, and at a new one only if the
batch is started. -/
theorem Move.source {cancelled : Bool}
    (h : Move target_version expected_dimension catchChunk cancelled b batch e batch' n counter
      out) : batch.isFinished = false ∧ (batch.status = .notStarted ↔ e = .batchStart b) := by
  cases h <;> simp [Batch.isFinished]

theorem Migration.batches_of_batch? (hb : s.batch? b = some batch) :
    ∃ batches, s.batches = some batches ∧ batches[b]? = some batch := by
  unfold Migration.batch? at hb
  exact Option.bind_eq_some_iff.mp hb

theorem Migration.batch?_eq {batches : List (Batch R)} (hs : s.batches = some batches) (b : ℕ) :
    s.batch? b = batches[b]? := by
  unfold Migration.batch?
  rw [hs, Option.bind_some]

theorem Migration.finished_iff : s.finished = true ↔
    ∃ batches, s.batches = some batches ∧ ∀ batch ∈ batches, batch.isFinished = true := by
  unfold Migration.finished
  cases s.batches with
  | none => simp
  | some batches => simp [List.all_eq_true]

/-- The batches are new when the last check has returned. -/
theorem notStarted_of_batch? {rest : List Chunk} (hs : s.batches = none)
    (hb : (checkLoop s rest).batch? b = some batch) : batch.status = .notStarted := by
  rcases Migration.batches_of_batch? hb with ⟨batches, hbatches, hget⟩
  exact notStarted_of_checkLoop hs rest hbatches batch (List.mem_of_getElem? hget)

theorem notStarted_of_checkReturns {chunk : Chunk} {rest : List Chunk} {outcome : Outcome Bool}
    (hs : s.batches = none)
    (hb : (checkReturns s chunk rest outcome).batch? b = some batch) :
    batch.status = .notStarted := by
  rcases checkReturns_eq s chunk rest outcome with ⟨s₁, hs₁, heq⟩
  rw [heq] at hb
  exact notStarted_of_batch? (hs₁.trans hs) hb

theorem embedding_checkLoop {rest : List Chunk} (hs : s.batches = none) :
    (checkLoop s rest).embedding = 0 := by
  unfold Migration.embedding
  cases hbatches : (checkLoop s rest).batches with
  | none => rfl
  | some batches =>
    apply List.countP_eq_zero.mpr
    intro batch hbatch
    simp [Batch.isEmbedding, notStarted_of_checkLoop hs rest hbatches batch hbatch]

/-- The calls that have not returned are those of the batches that are embedding. -/
theorem embedding_run {es : List (Event R)}
    (h : (core target_version expected_dimension catchChunk R claimed cancelled₀).Run es tr s) :
    tr.countP Obs.isEmbedCall = tr.countP Obs.isEmbedReturned + s.embedding := by
  refine h.history_invariant (fun _ tr s =>
    tr.countP Obs.isEmbedCall = tr.countP Obs.isEmbedReturned + s.embedding) ?_ ?_
  · rw [List.countP_nil, List.countP_nil, Nat.zero_add]
    exact (embedding_checkLoop rfl).symm
  intro es tr s e s' out hrun hcount hs
  have hinv := (lawful_run hrun).1
  rw [List.countP_append, List.countP_append, hcount]
  cases step_cases hs with
  | @checked chunk rest outcome htodo =>
    rcases checkReturns_eq s chunk rest outcome with ⟨s₁, hs₁, heq⟩
    have hnone := hinv.noBatches htodo
    have hbefore : s.embedding = 0 := by simp [Migration.embedding, hnone]
    rw [heq, embedding_checkLoop (hs₁.trans hnone), hbefore]
    rfl
  | cancelled => rfl
  | @moved b batch batch' _ n counter _ hb hmove =>
    rcases Migration.batches_of_batch? hb with ⟨batches, hbatches, hget⟩
    have hset := countP_set_add (a := batch') Batch.isEmbedding hget
    have hbefore : s.embedding = batches.countP Batch.isEmbedding := by
      simp [Migration.embedding, hbatches]
    have hafter : ((s.setBatch b batch').add n counter).embedding =
        (batches.set b batch').countP Batch.isEmbedding := by
      simp [Migration.embedding, Migration.setBatch, Migration.add, hbatches]
    have hmoved := hmove.accounted
    rw [hbefore, hafter]
    omega

theorem inFlight_nil : InFlight ([] : List (Obs R)) := by
  intro pre post h
  rcases List.nil_eq_append_iff.mp h with ⟨rfl, -⟩
  exact Nat.zero_le _

/-- A step emits at most one observation, or none that is about an embed call. -/
theorem Step.out_cases (hs : Step target_version expected_dimension catchChunk s e s' out) :
    out = [] ∨ (∃ o, out = [o]) ∨ ∀ o ∈ out, o.isEmbedCall = false := by
  cases hs with
  | checked outcome htodo => exact Or.inr (Or.inl ⟨_, rfl⟩)
  | cancelled => exact Or.inr (Or.inl ⟨_, rfl⟩)
  | moved hb hmove =>
    cases hmove with
    | skip | chunkSkipped | chunkMalformed => exact Or.inl rfl
    | writeWritten => exact Or.inr (Or.inr (by simp [Obs.isEmbedCall, Obs.embedded]))
    | _ => exact Or.inr (Or.inl ⟨_, rfl⟩)

/-- The bound lasts over a step that ends with at most four batches embedding. -/
theorem InFlight.step {es : List (Event R)} (h : InFlight tr)
    (hrun : (core target_version expected_dimension catchChunk R claimed cancelled₀).Run es tr s)
    (hs : EmbeddingMigration.step target_version expected_dimension catchChunk s e =
      some (s', out))
    (hembedding : s'.embedding ≤ max_concurrent_batches) : InFlight (tr ++ out) := by
  have hend := embedding_run (hrun.step hs)
  intro pre post htr
  rcases List.append_eq_append_iff.mp htr with ⟨mid, rfl, hout⟩ | ⟨mid, hmid, -⟩
  · rcases (step_cases hs).out_cases with rfl | ⟨o, rfl⟩ | hquiet
    · -- nothing was emitted
      rcases List.nil_eq_append_iff.mp hout with ⟨rfl, -⟩
      rw [List.append_nil]
      exact h tr [] (List.append_nil tr).symm
    · -- before or after the one observation
      rcases List.singleton_eq_append_iff.mp hout with ⟨rfl, -⟩ | ⟨rfl, -⟩
      · rw [List.append_nil]
        exact h tr [] (List.append_nil tr).symm
      · omega
    · -- nothing that counts as a call was emitted
      have hmid : mid.countP Obs.isEmbedCall = 0 := by
        apply List.countP_eq_zero.mpr
        intro o ho
        rw [hquiet o (by rw [hout]; exact List.mem_append_left _ ho)]
        exact Bool.false_ne_true
      have hbound := h tr [] (List.append_nil tr).symm
      rw [List.countP_append, List.countP_append, hmid]
      omega
  · exact h pre mid hmid

end Accounting

end InterviewPrep.EmbeddingMigration
