import InterviewPrep.EmbeddingMigration.Steps
import InterviewPrep.Lib.Slots
import InterviewPrep.Lib.Trace

/-!
# What is embedded, written and marked

The invariant of a migration under any scheduler: what the trace says about a
batch follows from the status of the batch. From it every call in the trace is
lawful: a chunk is written with the vector at its position in an embed result
that fits, and marked after its own write was acknowledged.
-/

namespace InterviewPrep.EmbeddingMigration

variable {R : Type}

/-! ## Reading a trace -/

namespace Obs

/-- The chunk that a check found to be pending. -/
def pending : Obs R → Option Chunk
  | checked chunk (.returned false) => some chunk
  | _ => none

/-- The batch that an embed call is for. -/
def embedded : Obs R → Option ℕ
  | embedCall b _ => some b
  | _ => none

end Obs

/-- The pending chunks, in the order of their checks. -/
def pendingOf (tr : List (Obs R)) : List Chunk := tr.filterMap Obs.pending

/-- The embed calls for the batch `b`. -/
abbrev embedCalls (b : ℕ) (tr : List (Obs R)) : List (Obs R) := labelled Obs.embedded b tr

/-- The embed call for a batch. -/
def Batch.call (b : ℕ) (batch : Batch R) : Obs R :=
  .embedCall b (batch.chunks.map Chunk.text)

/-- A write carries the vector at the position of its chunk, out of a result
that fits, and a mark comes after its own write. -/
def Lawful (target_version : String) (expected_dimension : ℤ) (tr : List (Obs R)) :
    Obs R → Prop
  | .writeCall b j chunk version vector =>
    version = target_version ∧ (vector.length : ℤ) = expected_dimension ∧
      ∃ batch vectors, (slices embed_batch_size (pendingOf tr))[b]? = some batch ∧
        .embedCall b (batch.map Chunk.text) ∈ tr ∧ .embedReturned b (.returned vectors) ∈ tr ∧
        vectors.length = batch.length ∧ batch[j]? = some chunk ∧ vectors[j]? = some vector
  | .markCall b j chunk_id content_digest version =>
    .writeReturned b j (.returned .written) ∈ tr ∧
      ∃ chunk vector, .writeCall b j chunk version vector ∈ tr ∧ chunk.chunk_id = chunk_id ∧
        chunk.content_digest = content_digest
  | _ => True

/-! ## The invariant -/

section Invariant

variable (claimed : List Chunk) (cancelled₀ : Bool) (target_version : String)

/-- What the trace says about a batch, by its status. -/
def BatchOk (tr : List (Obs R)) (cancelled : Bool) (b : ℕ) (batch : Batch R) : Prop :=
  match batch.status with
  | .notStarted => embedCalls b tr = []
  | .embedding => embedCalls b tr = [batch.call b]
  | .writing vectors chunks =>
    embedCalls b tr = [batch.call b] ∧ .embedReturned b (.returned vectors) ∈ tr ∧
      vectors.length = batch.chunks.length ∧
      ∀ j : ℕ, chunks[j]? = some .writing → ∃ chunk vector, batch.chunks[j]? = some chunk ∧
        .writeCall b j chunk target_version vector ∈ tr
  | .finished => (cancelled = true ∧ embedCalls b tr = []) ∨ embedCalls b tr = [batch.call b]

structure Inv (tr : List (Obs R)) (s : Migration R) : Prop where
  pending : s.pending_chunks = pendingOf tr
  claimed : (s.pending_chunks ++ s.todo).Sublist claimed
  sliced : ∀ batches, s.batches = some batches →
    s.todo = [] ∧ batches.map Batch.chunks = slices embed_batch_size s.pending_chunks
  batchOk : ∀ b batch, s.batch? b = some batch → BatchOk target_version tr s.cancelled b batch
  noBatch : ∀ b, s.batch? b = none → embedCalls b tr = []
  cancelled : s.cancelled = true → cancelled₀ = true ∨ .cancelled ∈ tr

end Invariant

section Steps

variable {claimed : List Chunk} {cancelled₀ : Bool} {target_version : String}
  {expected_dimension : ℤ} {catchChunk : Bool → Counter} {tr out : List (Obs R)}
  {s s' : Migration R} {b b' : ℕ} {batch batch' : Batch R} {e : Event R} {n : ℕ}
  {counter : Counter}

theorem pendingOf_append (tr out : List (Obs R)) :
    pendingOf (tr ++ out) = pendingOf tr ++ pendingOf out := List.filterMap_append

theorem embedCalls_append (b : ℕ) (tr out : List (Obs R)) :
    embedCalls b (tr ++ out) = embedCalls b tr ++ embedCalls b out := List.filter_append ..

theorem embedCalls_eq_nil (h : ∀ o ∈ out, o.embedded ≠ some b) : embedCalls b out = [] := by
  unfold embedCalls labelled
  rw [List.filter_eq_nil_iff]
  intro o ho
  simpa using h o ho

/-- The trace goes on without an embed call for the batch. -/
theorem BatchOk.append {cancelled cancelled' : Bool}
    (h : BatchOk target_version tr cancelled b batch) (hc : cancelled = true → cancelled' = true)
    (hout : embedCalls b out = []) : BatchOk target_version (tr ++ out) cancelled' b batch := by
  have hcalls : embedCalls b (tr ++ out) = embedCalls b tr := by
    rw [embedCalls_append, hout, List.append_nil]
  unfold BatchOk at h ⊢
  rw [hcalls]
  split at h
  · exact h
  · exact h
  · rcases h with ⟨hcall, hreturned, hlength, hwrites⟩
    refine ⟨hcall, List.mem_append_left out hreturned, hlength, ?_⟩
    intro j hj
    rcases hwrites j hj with ⟨chunk, vector, hchunk, hwrite⟩
    exact ⟨chunk, vector, hchunk, List.mem_append_left out hwrite⟩
  · rcases h with ⟨hcancelled, hnone⟩ | hcall
    · exact Or.inl ⟨hc hcancelled, hnone⟩
    · exact Or.inr hcall

/-! ### The batch that moves -/

theorem Migration.batch?_setBatch {new : Batch R}
    (h : (s.setBatch b new).batch? b' = some batch) :
    (b' = b ∧ batch = new) ∨ (b' ≠ b ∧ s.batch? b' = some batch) := by
  unfold Migration.batch? Migration.setBatch at h
  unfold Migration.batch?
  cases hs : s.batches with
  | none => simp [hs] at h
  | some batches =>
    simp only [hs, Option.map_some, Option.bind_some] at h
    exact getElem?_set_cases h

theorem Migration.batch?_setBatch_none {new : Batch R}
    (h : (s.setBatch b new).batch? b' = none) : s.batch? b' = none := by
  unfold Migration.batch? Migration.setBatch at h
  unfold Migration.batch?
  cases hs : s.batches with
  | none => rfl
  | some batches =>
    simp only [hs, Option.map_some, Option.bind_some, List.getElem?_eq_none_iff,
      List.length_set] at h
    simpa using h

/-- The batches keep their chunks. -/
theorem Migration.chunks_setBatch {new : Batch R} (hb : s.batch? b = some batch)
    (hchunks : new.chunks = batch.chunks) {batches : List (Batch R)}
    (h : (s.setBatch b new).batches = some batches) :
    ∃ old, s.batches = some old ∧ batches.map Batch.chunks = old.map Batch.chunks := by
  unfold Migration.setBatch at h
  unfold Migration.batch? at hb
  cases hs : s.batches with
  | none => simp [hs] at h
  | some old =>
    simp only [hs, Option.map_some, Option.some.injEq] at h
    simp only [hs, Option.bind_some] at hb
    refine ⟨old, rfl, ?_⟩
    rw [← h, List.map_set, hchunks]
    -- what is written is what was there
    apply List.ext_getElem?
    intro i
    by_cases hi : b = i
    · subst hi
      rcases List.getElem?_eq_some_iff.mp hb with ⟨hlt, heq⟩
      rw [List.getElem?_set_self (by simpa using hlt), List.getElem?_map, hb, Option.map_some]
    · rw [List.getElem?_set_ne hi]

/-- A move of a batch is quiet about the checks and about other batches. -/
theorem Move.quiet {cancelled : Bool}
    (h : Move target_version expected_dimension catchChunk cancelled b batch e batch' n counter
      out) : ∀ o ∈ out, o.pending = none ∧ ∀ b', o.embedded = some b' → b' = b := by
  cases h <;> simp [Obs.pending, Obs.embedded]

theorem Move.chunks {cancelled : Bool}
    (h : Move target_version expected_dimension catchChunk cancelled b batch e batch' n counter
      out) : batch'.chunks = batch.chunks := by
  cases h <;> rfl

/-- Another status for some chunks of a batch, where no write goes unrecorded. -/
theorem BatchOk.setChunks {cancelled : Bool} {chunks : List Chunk} {vectors : List (Vector R)}
    {statuses statuses' : List ChunkStatus}
    (h : BatchOk target_version tr cancelled b ⟨chunks, .writing vectors statuses⟩)
    (hwrites : ∀ j : ℕ, statuses'[j]? = some .writing → statuses[j]? = some .writing ∨
      ∃ chunk vector, chunks[j]? = some chunk ∧ .writeCall b j chunk target_version vector ∈ tr) :
    BatchOk target_version tr cancelled b ⟨chunks, .writing vectors statuses'⟩ := by
  rcases h with ⟨hcall, hreturned, hlength, hold⟩
  refine ⟨hcall, hreturned, hlength, ?_⟩
  intro j hj
  rcases hwrites j hj with hj | hwrite
  · exact hold j hj
  · exact hwrite

theorem BatchOk.settle {cancelled : Bool} {chunks : List Chunk} {vectors : List (Vector R)}
    {statuses : List ChunkStatus}
    (h : BatchOk target_version tr cancelled b ⟨chunks, .writing vectors statuses⟩) (j : ℕ) :
    BatchOk target_version tr cancelled b (settle chunks vectors statuses j) := by
  simp only [EmbeddingMigration.settle]
  split
  · exact Or.inr h.1
  · apply h.setChunks
    intro i hi
    rcases getElem?_set_cases hi with ⟨-, hsettled⟩ | ⟨-, hold⟩
    · cases hsettled
    · exact Or.inl hold

theorem Move.batchOk {cancelled : Bool}
    (h : Move target_version expected_dimension catchChunk cancelled b batch e batch' n counter
      out) (hok : BatchOk target_version tr cancelled b batch) :
    BatchOk target_version (tr ++ out) cancelled b batch' := by
  have hnext : embedCalls b out = [] → BatchOk target_version (tr ++ out) cancelled b batch :=
    hok.append id
  cases h with
  | skip hcancelled =>
    rw [List.append_nil]
    exact Or.inl ⟨hcancelled, hok⟩
  | @embed chunks hcancelled =>
    have hnone : embedCalls b tr = [] := hok
    show embedCalls b (tr ++ [Batch.call b ⟨chunks, .embedding⟩]) = _
    rw [embedCalls_append, hnone, List.nil_append]
    simp [embedCalls, labelled, Batch.call, Obs.embedded]
  | embedRaised => exact Or.inr (hnext rfl)
  | embedMalformed hlength => exact Or.inr (hnext rfl)
  | embedReturned hlength =>
    refine ⟨hnext rfl, List.mem_append_right tr (List.mem_singleton_self _), hlength, ?_⟩
    -- no chunk has started
    intro j hj
    rw [List.getElem?_replicate] at hj
    split at hj <;> cases hj
  | chunkSkipped hcancelled hj => exact (hnext rfl).settle _
  | chunkMalformed hcancelled hj hvector hdimension => exact (hnext rfl).settle _
  | chunkWrites hcancelled hj hchunk hvector hdimension =>
    apply (hnext rfl).setChunks
    intro i hi
    rcases getElem?_set_cases hi with ⟨rfl, -⟩ | ⟨-, hold⟩
    · exact Or.inr ⟨_, _, hchunk, List.mem_append_right tr (List.mem_singleton_self _)⟩
    · exact Or.inl hold
  | writeStale hj => exact (hnext rfl).settle _
  | writeWritten hj hchunk =>
    apply (hnext rfl).setChunks
    intro i hi
    rcases getElem?_set_cases hi with ⟨-, hmarking⟩ | ⟨-, hold⟩
    · cases hmarking
    · exact Or.inl hold
  | writeRaised hj => exact (hnext rfl).settle _
  | marked hj => exact (hnext rfl).settle _
  | markRaised hj => exact (hnext rfl).settle _

/-! ### The steps -/

theorem Inv.moved (h : Inv claimed cancelled₀ target_version tr s)
    (hb : s.batch? b = some batch)
    (hmove : Move target_version expected_dimension catchChunk s.cancelled b batch e batch' n
      counter out) :
    Inv claimed cancelled₀ target_version (tr ++ out) ((s.setBatch b batch').add n counter) := by
  have hquiet := hmove.quiet
  have hnone : pendingOf out = [] := List.filterMap_eq_nil_iff.mpr fun o ho => (hquiet o ho).1
  have hpending : pendingOf (tr ++ out) = pendingOf tr := by
    rw [pendingOf_append, hnone, List.append_nil]
  have hother : ∀ b', b' ≠ b → embedCalls b' out = [] := by
    intro b' hb'
    apply embedCalls_eq_nil
    intro o ho heq
    exact hb' ((hquiet o ho).2 b' heq)
  constructor
  · rw [hpending]
    exact h.pending
  · exact h.claimed
  · intro batches hbatches
    rcases Migration.chunks_setBatch hb hmove.chunks hbatches with ⟨old, hold, hchunks⟩
    rw [hchunks]
    exact h.sliced old hold
  · intro b' batch'' hb'
    rcases Migration.batch?_setBatch hb' with ⟨rfl, rfl⟩ | ⟨hne, hold⟩
    · exact hmove.batchOk (h.batchOk b' batch hb)
    · exact (h.batchOk b' batch'' hold).append id (hother b' hne)
  · intro b' hb'
    have hold := Migration.batch?_setBatch_none hb'
    have hne : b' ≠ b := by
      rintro rfl
      rw [hb] at hold
      cases hold
    rw [embedCalls_append, h.noBatch b' hold, hother b' hne, List.append_nil]
  · intro hcancelled
    rcases h.cancelled hcancelled with h₀ | hmem
    · exact Or.inl h₀
    · exact Or.inr (List.mem_append_left out hmem)

/-- The loop over the rest of the chunks, before there are batches. -/
theorem Inv.checkLoop {rest : List Chunk} (hbatches : s.batches = none)
    (hpending : s.pending_chunks = pendingOf tr)
    (hclaimed : (s.pending_chunks ++ rest).Sublist claimed)
    (hcalls : ∀ b, embedCalls b tr = [])
    (hcancelled : s.cancelled = true → cancelled₀ = true ∨ .cancelled ∈ tr) :
    Inv claimed cancelled₀ target_version tr (checkLoop s rest) := by
  rcases checkLoop_cases s rest with ⟨n, -, heq, -⟩ | ⟨-, -, heq⟩
  · rw [heq]
    constructor
    · exact hpending
    · show (s.pending_chunks ++ []).Sublist claimed
      rw [List.append_nil]
      exact (List.sublist_append_left _ rest).trans hclaimed
    · intro batches h
      cases h
      refine ⟨rfl, ?_⟩
      rw [List.map_map]
      exact List.map_id _
    · -- every batch is new
      intro b batch hb
      have hb : (((slices embed_batch_size s.pending_chunks).map
        (fun chunks => (⟨chunks, .notStarted⟩ : Batch R)))[b]?) = some batch := hb
      rw [List.getElem?_map] at hb
      rcases Option.map_eq_some_iff.mp hb with ⟨chunks, -, rfl⟩
      exact hcalls b
    · exact fun b _ => hcalls b
    · exact hcancelled
  · rw [heq]
    constructor
    · exact hpending
    · exact hclaimed
    · intro batches h
      rw [hbatches] at h
      cases h
    · intro b batch hb
      simp [Migration.batch?, hbatches] at hb
    · exact fun b _ => hcalls b
    · exact hcancelled

/-- There are no batches before the last check has returned. -/
theorem Inv.noBatches (h : Inv claimed cancelled₀ target_version tr s) {chunk : Chunk}
    {rest : List Chunk} (htodo : s.todo = chunk :: rest) : s.batches = none := by
  cases hs : s.batches with
  | none => rfl
  | some batches =>
    rw [(h.sliced batches hs).1] at htodo
    cases htodo

theorem Inv.checked (h : Inv claimed cancelled₀ target_version tr s) {chunk : Chunk}
    {rest : List Chunk} (htodo : s.todo = chunk :: rest) (outcome : Outcome Bool) :
    Inv claimed cancelled₀ target_version (tr ++ [.checked chunk outcome])
      (checkReturns s chunk rest outcome) := by
  have hbatches := h.noBatches htodo
  have hcalls : ∀ b, embedCalls b (tr ++ [.checked chunk outcome]) = [] := by
    intro b
    rw [embedCalls_append, h.noBatch b (by simp [Migration.batch?, hbatches]),
      embedCalls_eq_nil (by simp [Obs.embedded]), List.append_nil]
  have hcancelled : s.cancelled = true →
      cancelled₀ = true ∨ .cancelled ∈ tr ++ [.checked chunk outcome] :=
    fun hs => (h.cancelled hs).imp_right (List.mem_append_left _)
  have hclaimed := h.claimed
  rw [htodo] at hclaimed
  have hskip : (s.pending_chunks ++ rest).Sublist claimed :=
    ((List.sublist_cons_self chunk rest).append_left _).trans hclaimed
  rcases outcome with ⟨_ | _⟩ | _
  · -- the chunk is pending
    refine Inv.checkLoop (s := { s with pending_chunks := s.pending_chunks ++ [chunk] })
      hbatches ?_ ?_ hcalls hcancelled
    · rw [pendingOf_append, ← h.pending]
      rfl
    · show ((s.pending_chunks ++ [chunk]) ++ rest).Sublist claimed
      rw [List.append_assoc]
      exact hclaimed
  · -- it is up to date
    refine Inv.checkLoop (s := s.add 1 .skipped) hbatches ?_ hskip hcalls hcancelled
    rw [pendingOf_append]
    exact h.pending.trans (List.append_nil _).symm
  · -- the check raised
    refine Inv.checkLoop (s := s.add 1 .failed) hbatches ?_ hskip hcalls hcancelled
    rw [pendingOf_append]
    exact h.pending.trans (List.append_nil _).symm

theorem inv_init : Inv claimed cancelled₀ target_version ([] : List (Obs R))
    (init claimed cancelled₀) :=
  Inv.checkLoop rfl rfl (List.Sublist.refl _) (fun _ => rfl) Or.inl

theorem Inv.step (h : Inv claimed cancelled₀ target_version tr s)
    (hs : Step target_version expected_dimension catchChunk s e s' out) :
    Inv claimed cancelled₀ target_version (tr ++ out) s' := by
  cases hs with
  | checked outcome htodo => exact h.checked htodo outcome
  | moved hb hmove => exact h.moved hb hmove
  | cancelled =>
    constructor
    · rw [pendingOf_append, h.pending]
      exact (List.append_nil _).symm
    · exact h.claimed
    · exact h.sliced
    · exact fun b batch hb => (h.batchOk b batch hb).append (fun _ => rfl) rfl
    · intro b hb
      rw [embedCalls_append, h.noBatch b hb]
      rfl
    · exact fun _ => Or.inr (List.mem_append_right tr (List.mem_singleton_self _))

/-! ## The laws -/

/-- The chunks of a batch are its slice of the pending chunks. -/
theorem Inv.slice (h : Inv claimed cancelled₀ target_version tr s)
    (hb : s.batch? b = some batch) :
    (slices embed_batch_size (pendingOf tr))[b]? = some batch.chunks := by
  unfold Migration.batch? at hb
  rcases Option.bind_eq_some_iff.mp hb with ⟨batches, hbatches, hget⟩
  rw [← h.pending, ← (h.sliced batches hbatches).2, List.getElem?_map, hget]
  rfl

theorem mem_embedCalls_iff {texts : List String} :
    .embedCall b texts ∈ tr ↔ .embedCall b texts ∈ embedCalls b tr :=
  mem_iff_mem_labelled Obs.embedded rfl

theorem Move.lawful (h : Inv claimed cancelled₀ target_version tr s)
    (hb : s.batch? b = some batch)
    (hmove : Move target_version expected_dimension catchChunk s.cancelled b batch e batch' n
      counter out)
    (hlawful : Along (Lawful target_version expected_dimension) tr) :
    Along (Lawful target_version expected_dimension) (tr ++ out) := by
  have hok := h.batchOk b batch hb
  have hslice := h.slice hb
  cases hmove with
  | chunkWrites hcancelled hj hchunk hvector hdimension =>
    rcases hok with ⟨hcall, hreturned, hlength, -⟩
    refine along_concat.mpr ⟨hlawful, rfl, hdimension, _, _, hslice, ?_, hreturned, hlength,
      hchunk, hvector⟩
    apply mem_embedCalls_iff.mpr
    rw [hcall]
    exact List.mem_singleton_self _
  | @writeWritten _ _ _ j _ hj hchunk =>
    rcases hok with ⟨-, -, -, hwrites⟩
    rcases hwrites _ hj with ⟨chunk, vector, hchunk', hwrite⟩
    rw [hchunk] at hchunk'
    cases hchunk'
    -- the answer of the write, then the mark
    have hanswer : Along (Lawful target_version expected_dimension)
        (tr ++ [.writeReturned b j (.returned .written)]) := by
      refine along_concat.mpr ⟨hlawful, ?_⟩
      trivial
    rw [List.append_cons]
    refine along_concat.mpr ⟨hanswer, ?_, _, vector, ?_, rfl, rfl⟩
    · exact List.mem_append_right tr (List.mem_singleton_self _)
    · exact List.mem_append_left _ hwrite
  | skip | chunkSkipped | chunkMalformed =>
    rw [List.append_nil]
    exact hlawful
  | _ =>
    refine along_concat.mpr ⟨hlawful, ?_⟩
    trivial

theorem lawful_run {es : List (Event R)}
    (h : (core target_version expected_dimension catchChunk R claimed cancelled₀).Run es tr s) :
    Inv claimed cancelled₀ target_version tr s ∧
      Along (Lawful target_version expected_dimension) tr := by
  refine h.history_invariant (fun _ tr s => Inv claimed cancelled₀ target_version tr s ∧
    Along (Lawful target_version expected_dimension) tr) ⟨inv_init, along_nil _⟩ ?_
  intro es tr s e s' out _ hinv hs
  rcases hinv with ⟨hinv, hlawful⟩
  have hcases := step_cases hs
  refine ⟨hinv.step hcases, ?_⟩
  cases hcases with
  | checked outcome htodo => exact along_concat.mpr ⟨hlawful, trivial⟩
  | cancelled => exact along_concat.mpr ⟨hlawful, trivial⟩
  | moved hb hmove => exact hmove.lawful hinv hb hlawful

end Steps

end InterviewPrep.EmbeddingMigration
