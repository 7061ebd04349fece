import Mathlib.Data.List.Count
import Mathlib.Data.Set.List
import InterviewPrep.EmbeddingMigration.Contract

/-!
# The counters of the summary

Every claimed chunk has one fate: it is counted when its check ends the matter,
or else with its batch. The fates of the chunks of a batch follow from its
status (`FatesOk`), each move of a batch gives fates to the chunks it counts
(`Move.given`), and the summary is the count of the fates (`Tally`). When
all batches are finished every chunk has its fate, so nothing is lost and
nothing is counted twice (`summary_accounts`).
-/

namespace InterviewPrep.EmbeddingMigration

variable {R : Type}

/-! ## Fates -/

/-- `summary.completed` and so on. -/
def MigrationSummary.get (m : MigrationSummary) : Counter → ℕ
  | .completed => m.completed
  | .skipped => m.skipped
  | .stale => m.stale
  | .failed => m.failed

theorem MigrationSummary.get_add (m : MigrationSummary) (n : ℕ) (counter c : Counter) :
    (m.add n counter).get c = m.get c + if c = counter then n else 0 := by
  cases counter <;> cases c <;> rfl

/-- The fate that a check gives its chunk; a pending chunk has none yet. -/
def checkFate : Outcome Bool → Option Counter
  | .returned true => some .skipped
  | .returned false => none
  | .raised => some .failed

/-- A check with its chunk and the fate it gives. -/
def Obs.check : Obs R → Option (Chunk × Option Counter)
  | checked chunk outcome => some (chunk, checkFate outcome)
  | _ => none

/-- The checks made, in their order. -/
def checksOf (tr : List (Obs R)) : List (Chunk × Option Counter) := tr.filterMap Obs.check

/-- The fates from the checks made. -/
def checkFates (tr : List (Obs R)) : List (Option Counter) := (checksOf tr).map Prod.snd

/-- The fates of `n` claimed chunks after the check loop: what was not checked
any more was skipped. -/
def loopFates (n : ℕ) (tr : List (Obs R)) : List (Option Counter) :=
  checkFates tr ++ List.replicate (n - (checkFates tr).length) (some .skipped)

/-- The fates of the chunks of a batch, by its status. -/
def FatesOk (batch : Batch R) (fates : List (Option Counter)) : Prop :=
  fates.length = batch.chunks.length ∧
  match batch.status with
  | .notStarted => ∀ fate ∈ fates, fate = none
  | .embedding => ∀ fate ∈ fates, fate = none
  | .writing _ chunks => chunks.length = batch.chunks.length ∧
    ∀ j : ℕ, chunks[j]? = some .settled ↔ ∃ c, fates[j]? = some (some c)
  | .finished => ∀ fate ∈ fates, fate ≠ none

/-- The trace says that the chunk was completed, or found stale. -/
def Obs.settles (b j : ℕ) : Counter → Option (Obs R)
  | .completed => some (.markReturned b j (.returned ()))
  | .stale => some (.writeReturned b j (.returned .stale))
  | _ => none

/-! ## What a move gives -/

section Moves

variable {target_version : String} {expected_dimension : ℤ} {catchChunk : Bool → Counter}
  {cancelled : Bool} {b : ℕ} {batch batch' : Batch R} {e : Event R} {n : ℕ}
  {counter : Counter} {out : List (Obs R)} {fates : List (Option Counter)}

/-- A batch that ends before its chunks are processed gives them all one fate. -/
theorem fates_all {chunks : List Chunk} (hnone : ∀ fate ∈ fates, fate = none) (counter : Counter) :
    FatesOk (⟨chunks, .finished⟩ : Batch R)
        (List.replicate chunks.length (some counter)) ∧
      ∀ c, (List.replicate chunks.length (some counter)).count (some c) =
        fates.count (some c) + if c = counter then chunks.length else 0 := by
  refine ⟨⟨List.length_replicate, ?_⟩, ?_⟩
  · intro fate hfate
    rw [List.eq_of_mem_replicate hfate]
    simp
  · intro c
    have hzero : fates.count (some c) = 0 := by
      apply List.count_eq_zero.mpr
      intro hmem
      exact absurd (hnone _ hmem) (by simp)
    rw [hzero, List.count_replicate]
    by_cases hc : c = counter
    · simp [hc]
    · simp [hc, Ne.symm hc]

/-- A chunk that settles gets its fate. -/
theorem FatesOk.settle {chunks : List Chunk} {vectors : List (Vector R)}
    {statuses : List ChunkStatus} {j : ℕ} {status : ChunkStatus}
    (h : FatesOk (⟨chunks, .writing vectors statuses⟩ : Batch R) fates)
    (hj : statuses[j]? = some status) (hstatus : status ≠ .settled) (counter : Counter) :
    fates[j]? = some none ∧
      FatesOk (EmbeddingMigration.settle chunks vectors statuses j)
        (fates.set j (some counter)) := by
  obtain ⟨hlength, hstatuses, hiff⟩ := h
  have hlt : j < fates.length := by
    rw [hlength, ← hstatuses]
    exact (List.getElem?_eq_some_iff.mp hj).1
  have hnone : fates[j]? = some none := by
    cases hfate : fates[j]? with
    | none => simp only [List.getElem?_eq_none_iff] at hfate; omega
    | some fate =>
      cases fate with
      | none => rfl
      | some c =>
        -- it would be settled
        rw [(hiff j).mpr ⟨c, hfate⟩, Option.some.injEq] at hj
        exact absurd hj.symm hstatus
  refine ⟨hnone, ?_⟩
  have hiff' : ∀ i : ℕ, (statuses.set j .settled)[i]? = some .settled ↔
      ∃ c, (fates.set j (some counter))[i]? = some (some c) := by
    intro i
    by_cases hi : i = j
    · subst hi
      rw [getElem?_set_of_some hj, getElem?_set_of_some hnone]
      simp
    · rw [List.getElem?_set_ne (Ne.symm hi), List.getElem?_set_ne (Ne.symm hi)]
      exact hiff i
  simp only [EmbeddingMigration.settle]
  split
  · rename_i hall
    refine ⟨by rw [List.length_set]; exact hlength, ?_⟩
    intro fate hfate
    obtain ⟨i, hi⟩ := List.mem_iff_getElem?.mp hfate
    have hilt : i < (statuses.set j .settled).length := by
      have hi' := (List.getElem?_eq_some_iff.mp hi).1
      rw [List.length_set] at hi' ⊢
      rw [hstatuses, ← hlength]
      exact hi'
    have hsettled : (statuses.set j .settled)[i]? = some .settled := by
      rw [List.getElem?_eq_getElem hilt]
      have heq := List.all_eq_true.mp hall _ (List.getElem_mem hilt)
      rw [eq_of_beq heq]
    obtain ⟨c, hc⟩ := (hiff' i).mp hsettled
    rw [hi] at hc
    rw [Option.some.inj hc]
    simp
  · refine ⟨by rw [List.length_set]; exact hlength, ?_, hiff'⟩
    rw [List.length_set]
    exact hstatuses

/-- A chunk that goes on to another `await`. -/
theorem FatesOk.unsettled {chunks : List Chunk} {vectors : List (Vector R)}
    {statuses : List ChunkStatus} {j : ℕ} {status status' : ChunkStatus}
    (h : FatesOk (⟨chunks, .writing vectors statuses⟩ : Batch R) fates)
    (hj : statuses[j]? = some status) (hstatus : status ≠ .settled)
    (hstatus' : status' ≠ .settled) :
    FatesOk (⟨chunks, .writing vectors (statuses.set j status')⟩ : Batch R) fates := by
  obtain ⟨hlength, hstatuses, hiff⟩ := h
  refine ⟨hlength, by rw [List.length_set]; exact hstatuses, ?_⟩
  intro i
  rw [← hiff i]
  by_cases hi : i = j
  · subst hi
    rw [getElem?_set_of_some hj, hj]
    simp [hstatus, hstatus']
  · rw [List.getElem?_set_ne (Ne.symm hi)]

/-- Where a fate was set, over a list of chunks without one there. -/
theorem set_fate_iff {i j : ℕ} {c : Counter} (hnone : fates[j]? = some none) :
    (fates.set j (some counter))[i]? = some (some c) ↔
      fates[i]? = some (some c) ∨ (i = j ∧ c = counter) := by
  by_cases hi : i = j
  · subst hi
    rw [getElem?_set_of_some hnone, hnone]
    simp [eq_comm]
  · rw [List.getElem?_set_ne (Ne.symm hi)]
    simp [hi]

theorem count_set_fate {j : ℕ} (hnone : fates[j]? = some none) (c : Counter) :
    (fates.set j (some counter)).count (some c) =
      fates.count (some c) + if c = counter then 1 else 0 := by
  have hadd := countP_set_add (a := some counter) (· == some c) hnone
  by_cases hc : c = counter
  · simpa [List.count, hc] using hadd
  · simpa [List.count, hc, Ne.symm hc] using hadd

/-- What a move leaves of the fates of its batch: the counted chunks have got
theirs, and the trace tells the completed and the stale ones. -/
structure Given (b n : ℕ) (counter : Counter) (out : List (Obs R)) (batch' : Batch R)
    (fates fates' : List (Option Counter)) : Prop where
  ok : FatesOk batch' fates'
  count : ∀ c, fates'.count (some c) = fates.count (some c) + if c = counter then n else 0
  settled : ∀ (j : ℕ) c o, Obs.settles b j c = some o →
    (fates'[j]? = some (some c) ↔ fates[j]? = some (some c) ∨ o ∈ out)

/-- A move that counts nothing. -/
theorem given_none (hok : FatesOk batch' fates)
    (hout : ∀ (j : ℕ) c o, Obs.settles b j c = some o → o ∉ out) :
    Given b 0 counter out batch' fates fates := by
  refine ⟨hok, by simp, ?_⟩
  intro j c o ho
  simp [hout j c o ho]

/-- A move that counts the whole batch. -/
theorem given_all {chunks : List Chunk} (hnone : ∀ fate ∈ fates, fate = none)
    (hcounter : ∀ j : ℕ, Obs.settles (R := R) b j counter = none)
    (hout : ∀ (j : ℕ) c o, Obs.settles b j c = some o → o ∉ out) :
    Given b chunks.length counter out ⟨chunks, .finished⟩ fates
      (List.replicate chunks.length (some counter)) := by
  have hfates : FatesOk (⟨chunks, .finished⟩ : Batch R)
      (List.replicate chunks.length (some counter)) ∧ _ := fates_all hnone counter
  obtain ⟨hok, hcount⟩ := hfates
  refine ⟨hok, hcount, ?_⟩
  intro j c o ho
  have hnew : (List.replicate chunks.length (some counter))[j]? ≠ some (some c) := by
    intro hget
    have hc := List.eq_of_mem_replicate (List.mem_of_getElem? hget)
    rw [Option.some.injEq] at hc
    rw [hc, hcounter j] at ho
    simp at ho
  have hold : fates[j]? ≠ some (some c) := by
    intro hget
    have hfate := hnone _ (List.mem_of_getElem? hget)
    simp at hfate
  simp [hnew, hold, hout j c o ho]

/-- A move that counts one chunk. -/
theorem given_one {chunks : List Chunk} {vectors : List (Vector R)}
    {statuses : List ChunkStatus} {j : ℕ} {status : ChunkStatus}
    (h : FatesOk (⟨chunks, .writing vectors statuses⟩ : Batch R) fates)
    (hj : statuses[j]? = some status) (hstatus : status ≠ .settled)
    (hout : ∀ (i : ℕ) c o, Obs.settles b i c = some o → (o ∈ out ↔ i = j ∧ c = counter)) :
    Given b 1 counter out (EmbeddingMigration.settle chunks vectors statuses j) fates
      (fates.set j (some counter)) := by
  obtain ⟨hnone, hok⟩ := h.settle hj hstatus counter
  refine ⟨hok, count_set_fate hnone, ?_⟩
  intro i c o ho
  rw [set_fate_iff hnone, hout i c o ho]

/-- Every move gives fates to the chunks it counts. -/
theorem Move.given
    (hcatch : ∀ x, catchChunk x = .failed ∨ catchChunk x = .skipped)
    (h : Move target_version expected_dimension catchChunk cancelled b batch e batch' n counter
      out) (hok : FatesOk batch fates) :
    ∃ fates', Given b n counter out batch' fates fates' := by
  cases h with
  | skip hcancelled =>
    refine ⟨_, given_all hok.2 (fun _ => rfl) ?_⟩
    intro j c o _
    simp
  | embed hcancelled =>
    refine ⟨_, given_none hok ?_⟩
    intro j c o ho
    cases c <;> cases ho <;> simp
  | embedRaised =>
    refine ⟨_, given_all hok.2 (fun _ => by split <;> rfl) ?_⟩
    intro j c o ho
    cases c <;> cases ho <;> simp
  | embedMalformed hlength =>
    refine ⟨_, given_all hok.2 (fun _ => rfl) ?_⟩
    intro j c o ho
    cases c <;> cases ho <;> simp
  | @embedReturned chunks vectors hlength =>
    obtain ⟨hfates, hnone⟩ := hok
    refine ⟨_, given_none ⟨hfates, List.length_replicate, ?_⟩ ?_⟩
    · -- no chunk is settled, none has a fate
      intro j
      constructor
      · intro hj
        have hready := List.eq_of_mem_replicate (List.mem_of_getElem? hj)
        simp at hready
      · rintro ⟨c, hc⟩
        have hfate := hnone _ (List.mem_of_getElem? hc)
        simp at hfate
    · intro j c o ho
      cases c <;> cases ho <;> simp
  | chunkSkipped hcancelled hj =>
    refine ⟨_, given_one hok hj (by simp) ?_⟩
    intro i c o ho
    cases c <;> cases ho <;> simp
  | chunkMalformed hcancelled hj hvector hdimension =>
    refine ⟨_, given_one hok hj (by simp) ?_⟩
    intro i c o ho
    cases c <;> cases ho <;> simp
  | @chunkWrites chunks vectors statuses j chunk vector _ hj _ _ _ =>
    refine ⟨_, given_none (hok.unsettled hj (by simp) (by simp)) ?_⟩
    intro i c o ho
    cases c <;> cases ho <;> simp
  | writeStale hj =>
    refine ⟨_, given_one hok hj (by simp) ?_⟩
    intro i c o ho
    cases c <;> cases ho <;> simp
  | writeWritten hj hchunk =>
    refine ⟨_, given_none (hok.unsettled hj (by simp) (by simp)) ?_⟩
    intro i c o ho
    cases c <;> cases ho <;> simp
  | writeRaised hj =>
    refine ⟨_, given_one hok hj (by simp) ?_⟩
    intro i c o ho
    rcases hcatch cancelled with hc | hc <;> rw [hc] <;> cases c <;> cases ho <;> simp
  | marked hj =>
    refine ⟨_, given_one hok hj (by simp) ?_⟩
    intro i c o ho
    cases c <;> cases ho <;> simp
  | markRaised hj =>
    refine ⟨_, given_one hok hj (by simp) ?_⟩
    intro i c o ho
    rcases hcatch cancelled with hc | hc <;> rw [hc] <;> cases c <;> cases ho <;> simp

end Moves

/-! ## The tally -/

/-- The fates of the batches against the state and the trace. -/
structure Tally (claimed : List Chunk) (tr : List (Obs R)) (s : Migration R)
    (fates : List (List (Option Counter))) : Prop where
  checking : s.batches = none → (checksOf tr).map Prod.fst ++ s.todo = claimed
  checked : (checksOf tr).map Prod.fst <+: claimed
  shape : fates.length = (s.batches.getD []).length
  ok : ∀ b batch l, s.batch? b = some batch → fates[b]? = some l → FatesOk batch l
  summary : ∀ c, s.summary.get c =
    (if s.batches.isSome then loopFates claimed.length tr else checkFates tr).count (some c) +
      fates.flatten.count (some c)
  settled : ∀ b j c o, Obs.settles b j c = some o →
    ((fates[b]?.bind (·[j]?)) = some (some c) ↔ o ∈ tr)

section Steps

variable {claimed : List Chunk} {tr out : List (Obs R)} {s s' : Migration R}
  {fates : List (List (Option Counter))}

theorem checksOf_append (tr out : List (Obs R)) :
    checksOf (tr ++ out) = checksOf tr ++ checksOf out := List.filterMap_append

/-- What emits no check leaves the fates of the checks. -/
theorem checksOf_append_of_nil (h : checksOf out = []) : checksOf (tr ++ out) = checksOf tr := by
  rw [checksOf_append, h, List.append_nil]

theorem loopFates_append_of_nil (tr : List (Obs R)) (h : checksOf out = []) (n : ℕ) :
    loopFates n (tr ++ out) = loopFates n tr ∧ checkFates (tr ++ out) = checkFates tr := by
  simp only [loopFates, checkFates, checksOf_append_of_nil h, and_self]

/-- New batches: no chunk has its fate yet. -/
theorem count_flatten_none (l : List (List Chunk)) (c : Counter) :
    (l.map (fun chunks => List.replicate chunks.length (none : Option Counter))).flatten.count
      (some c) = 0 := by
  apply List.count_eq_zero.mpr
  intro hmem
  rw [List.mem_flatten] at hmem
  obtain ⟨fates, hfates, hc⟩ := hmem
  obtain ⟨chunks, -, rfl⟩ := List.mem_map.mp hfates
  exact absurd (List.eq_of_mem_replicate hc) (by simp)

/-- The loop over the rest of the chunks. -/
theorem tally_checkLoop {rest : List Chunk} (hbatches : s.batches = none)
    (hchecked : (checksOf tr).map Prod.fst ++ rest = claimed)
    (hsummary : ∀ c, s.summary.get c = (checkFates tr).count (some c))
    (hquiet : ∀ (b j : ℕ) c o, Obs.settles b j c = some o → o ∉ tr) :
    ∃ fates, Tally claimed tr (checkLoop s rest) fates := by
  have hprefix : (checksOf tr).map Prod.fst <+: claimed := by
    rw [← hchecked]
    exact List.prefix_append _ _
  rcases checkLoop_cases s rest with ⟨n, hn, heq, -⟩ | ⟨-, -, heq⟩
  · rw [heq]
    refine ⟨(slices embed_batch_size s.pending_chunks).map
      (fun chunks => List.replicate chunks.length none), ?_, hprefix, ?_, ?_, ?_, ?_⟩
    · intro h
      simp [splitBatches] at h
    · simp [splitBatches, Migration.add]
    · intro b batch l hb hl
      have hb : (((slices embed_batch_size s.pending_chunks).map
        (fun chunks => (⟨chunks, .notStarted⟩ : Batch R)))[b]?) = some batch := hb
      rw [List.getElem?_map] at hb hl
      obtain ⟨chunks, hchunks, rfl⟩ := Option.map_eq_some_iff.mp hb
      rw [hchunks, Option.map_some, Option.some.injEq] at hl
      subst hl
      exact ⟨List.length_replicate, fun fate => List.eq_of_mem_replicate⟩
    · -- the rest of the chunks is skipped, if there is one
      intro c
      have hlength : claimed.length - (checkFates tr).length = n := by
        rw [← hchecked, hn]
        simp [checkFates]
      show (s.summary.add n .skipped).get c = _
      rw [MigrationSummary.get_add, count_flatten_none, hsummary]
      simp only [splitBatches, Option.isSome_some, if_true, loopFates, hlength,
        List.count_append, List.count_replicate, Nat.add_zero]
      by_cases hc : c = .skipped
      · simp [hc]
      · simp [hc, Ne.symm hc]
    · intro b j c o ho
      refine ⟨fun h => ?_, fun h => absurd h (hquiet b j c o ho)⟩
      -- a new batch has no fate
      obtain ⟨l, hl, hj⟩ := Option.bind_eq_some_iff.mp h
      rw [List.getElem?_map] at hl
      obtain ⟨chunks, -, rfl⟩ := Option.map_eq_some_iff.mp hl
      exact absurd (List.eq_of_mem_replicate (List.mem_of_getElem? hj)) (by simp)
  · rw [heq]
    refine ⟨[], fun _ => hchecked, hprefix, by simp [hbatches], by simp, ?_, ?_⟩
    · intro c
      simp [hbatches, hsummary]
    · intro b j c o ho
      simp [hquiet b j c o ho]

theorem count_fate (counter c : Counter) :
    [some counter].count (some c) = if c = counter then 1 else 0 := by
  cases counter <;> cases c <;> rfl

/-- Before there are batches no chunk of a batch has a fate. -/
theorem Tally.fates_eq_nil (h : Tally claimed tr s fates) (hbatches : s.batches = none) :
    fates = [] := by
  have hshape := h.shape
  rw [hbatches] at hshape
  exact List.eq_nil_of_length_eq_zero hshape

theorem Tally.checkReturns (h : Tally claimed tr s fates) (hbatches : s.batches = none)
    {chunk : Chunk} {rest : List Chunk} (htodo : s.todo = chunk :: rest)
    (outcome : Outcome Bool) :
    ∃ fates', Tally claimed (tr ++ [.checked chunk outcome])
      (EmbeddingMigration.checkReturns s chunk rest outcome) fates' := by
  obtain rfl := h.fates_eq_nil hbatches
  have hsummary : ∀ c, s.summary.get c = (checkFates tr).count (some c) := by
    intro c
    have hc := h.summary c
    simpa [hbatches] using hc
  have hchecked : (checksOf (tr ++ [.checked chunk outcome])).map Prod.fst ++ rest =
      claimed := by
    have hold := h.checking hbatches
    rw [htodo] at hold
    rw [checksOf_append, List.map_append, List.append_assoc]
    exact hold
  have hquiet : ∀ (b j : ℕ) c o, Obs.settles b j c = some o →
      o ∉ tr ++ [.checked chunk outcome] := by
    intro b j c o ho hmem
    rcases List.mem_append.mp hmem with hmem | hmem
    · have hfate := (h.settled b j c o ho).mpr hmem
      simp at hfate
    · rw [List.mem_singleton] at hmem
      rw [hmem] at ho
      cases c <;> cases ho
  have hfates : checkFates (tr ++ [.checked chunk outcome]) =
      checkFates tr ++ [checkFate outcome] := by
    simp [checkFates, checksOf, Obs.check]
  rcases outcome with ⟨_ | _⟩ | _
  · -- the chunk is pending
    refine tally_checkLoop (s := { s with pending_chunks := s.pending_chunks ++ [chunk] })
      hbatches hchecked ?_ hquiet
    intro c
    rw [hfates, List.count_append]
    simpa [checkFate] using hsummary c
  · refine tally_checkLoop (s := s.add 1 .skipped) hbatches hchecked ?_ hquiet
    intro c
    rw [hfates, List.count_append, ← hsummary, checkFate, count_fate]
    exact MigrationSummary.get_add s.summary 1 .skipped c
  · refine tally_checkLoop (s := s.add 1 .failed) hbatches hchecked ?_ hquiet
    intro c
    rw [hfates, List.count_append, ← hsummary, checkFate, count_fate]
    exact MigrationSummary.get_add s.summary 1 .failed c

/-- A move settles no chunk of another batch. -/
theorem Move.settles_quiet {target_version : String} {expected_dimension : ℤ}
    {catchChunk : Bool → Counter} {cancelled : Bool} {b b' : ℕ} {batch batch' : Batch R}
    {e : Event R} {n : ℕ} {counter : Counter}
    (h : Move target_version expected_dimension catchChunk cancelled b batch e batch' n counter
      out) (hb : b' ≠ b) (j : ℕ) (c : Counter) (o : Obs R)
    (ho : Obs.settles b' j c = some o) : o ∉ out := by
  cases c <;> cases ho <;> cases h <;> simp [hb]

theorem Move.no_checks {target_version : String} {expected_dimension : ℤ}
    {catchChunk : Bool → Counter} {cancelled : Bool} {b : ℕ} {batch batch' : Batch R}
    {e : Event R} {n : ℕ} {counter : Counter}
    (h : Move target_version expected_dimension catchChunk cancelled b batch e batch' n counter
      out) : checksOf out = [] := by
  cases h <;> rfl

/-- How the counts of all fates change with those of one batch. -/
theorem count_flatten_set {b n : ℕ} {l l' : List (Option Counter)} {c : Counter}
    (hl : fates[b]? = some l) (hcount : l'.count (some c) = l.count (some c) + n) :
    (fates.set b l').flatten.count (some c) = fates.flatten.count (some c) + n := by
  have hsum := sum_map_set (a := l') (List.count (some c)) hl
  rw [List.count_flatten, List.count_flatten]
  omega

theorem Tally.moved {target_version : String} {expected_dimension : ℤ}
    {catchChunk : Bool → Counter} {b : ℕ} {batch batch' : Batch R} {e : Event R} {n : ℕ}
    {counter : Counter} (hcatch : ∀ x, catchChunk x = .failed ∨ catchChunk x = .skipped)
    (h : Tally claimed tr s fates) (hb : s.batch? b = some batch)
    (hmove : Move target_version expected_dimension catchChunk s.cancelled b batch e batch' n
      counter out) :
    ∃ fates', Tally claimed (tr ++ out) ((s.setBatch b batch').add n counter) fates' := by
  obtain ⟨batches, hbatches, hget⟩ := Migration.batches_of_batch? hb
  obtain ⟨l, hl⟩ : ∃ l, fates[b]? = some l := by
    have hlt := (List.getElem?_eq_some_iff.mp hget).1
    have hshape := h.shape
    rw [hbatches, Option.getD_some] at hshape
    exact ⟨_, List.getElem?_eq_getElem (hshape ▸ hlt)⟩
  obtain ⟨l', hok, hcount, hsettled⟩ := hmove.given hcatch (h.ok b batch l hb hl)
  have hchecks : checksOf out = [] := hmove.no_checks
  refine ⟨fates.set b l', ?_, ?_, ?_, ?_, ?_, ?_⟩
  · intro hnone
    simp [Migration.add, Migration.setBatch, hbatches] at hnone
  · rw [checksOf_append_of_nil hchecks]
    exact h.checked
  · have hshape := h.shape
    rw [hbatches] at hshape
    simpa [Migration.add, Migration.setBatch, hbatches] using hshape
  · intro b' batch₁ l₁ hb' hl₁
    rcases Migration.batch?_setBatch hb' with ⟨rfl, rfl⟩ | ⟨hne, hold⟩
    · rw [getElem?_set_of_some hl, Option.some.injEq] at hl₁
      rw [← hl₁]
      exact hok
    · rw [List.getElem?_set_ne (Ne.symm hne)] at hl₁
      exact h.ok b' batch₁ l₁ hold hl₁
  · intro c
    have hold := h.summary c
    obtain ⟨hloop, -⟩ := loopFates_append_of_nil tr hchecks claimed.length
    have hsome : ((s.setBatch b batch').add n counter).batches.isSome = true := by
      simp [Migration.add, Migration.setBatch, hbatches]
    rw [hsome, if_pos rfl, hloop, count_flatten_set hl (hcount c)]
    rw [hbatches, Option.isSome_some, if_pos rfl] at hold
    show (s.summary.add n counter).get c = _
    rw [MigrationSummary.get_add, hold]
    omega
  · intro b' j c o ho
    rw [List.mem_append]
    by_cases hb' : b' = b
    · subst hb'
      rw [getElem?_set_of_some hl, Option.bind_some, hsettled j c o ho, ← h.settled b' j c o ho,
        hl, Option.bind_some]
    · have hnot := hmove.settles_quiet hb' j c o ho
      rw [List.getElem?_set_ne (Ne.symm hb'), h.settled b' j c o ho]
      simp [hnot]

/-- The fates of a run: under any scheduler, and for any counter of the last
`except` clause that is no result of a call. -/
theorem tally_run {target_version : String} {expected_dimension : ℤ}
    {catchChunk : Bool → Counter} {cancelled₀ : Bool}
    (hcatch : ∀ x, catchChunk x = .failed ∨ catchChunk x = .skipped) {es : List (Event R)}
    (h : (core target_version expected_dimension catchChunk R claimed cancelled₀).Run es tr s) :
    ∃ fates, Tally claimed tr s fates := by
  refine h.history_invariant (fun _ tr s => ∃ fates, Tally claimed tr s fates) ?_ ?_
  · exact tally_checkLoop rfl rfl (fun c => by cases c <;> rfl) (by simp)
  · rintro es tr s e s' out hrun ⟨fates, htally⟩ hs
    cases step_cases hs with
    | checked outcome htodo =>
      exact htally.checkReturns ((lawful_run hrun).1.noBatches htodo) htodo outcome
    | moved hb hmove => exact htally.moved hcatch hb hmove
    | cancelled =>
      have hquiet : checksOf [(.cancelled : Obs R)] = [] := rfl
      obtain ⟨hloop, hchecks⟩ := loopFates_append_of_nil tr hquiet claimed.length
      have hnone : checksOf (tr ++ [(.cancelled : Obs R)]) = checksOf tr :=
        checksOf_append_of_nil rfl
      refine ⟨fates, ?_, ?_, htally.shape, htally.ok, ?_, ?_⟩
      · rw [hnone]
        exact htally.checking
      · rw [hnone]
        exact htally.checked
      · rw [hloop, hchecks]
        exact htally.summary
      · intro b j c o ho
        rw [htally.settled b j c o ho]
        cases c <;> cases ho <;> simp

/-! ## The completed chunks -/

/-- `mark_complete` succeeded. -/
def Obs.isMarked : Obs R → Bool
  | markReturned _ _ (.returned _) => true
  | _ => false

theorem Move.marked_count {target_version : String} {expected_dimension : ℤ}
    {catchChunk : Bool → Counter} {cancelled : Bool} {b : ℕ} {batch batch' : Batch R}
    {e : Event R} {n : ℕ} {counter : Counter}
    (hcatch : ∀ x, catchChunk x = .failed ∨ catchChunk x = .skipped)
    (h : Move target_version expected_dimension catchChunk cancelled b batch e batch' n counter
      out) : out.countP Obs.isMarked = if .completed = counter then n else 0 := by
  cases h with
  | embedRaised => split <;> rfl
  | writeRaised => rcases hcatch cancelled with hc | hc <;> rw [hc] <;> rfl
  | markRaised => rcases hcatch cancelled with hc | hc <;> rw [hc] <;> rfl
  | _ => rfl

/-- The loop over the checks completes no chunk. -/
theorem completed_checkLoop (s : Migration R) (rest : List Chunk) :
    (checkLoop s rest).summary.completed = s.summary.completed := by
  rcases checkLoop_cases s rest with ⟨n, -, heq, -⟩ | ⟨-, -, heq⟩
  · rw [heq]
    rfl
  · rw [heq]

theorem completed_run {target_version : String} {expected_dimension : ℤ}
    {catchChunk : Bool → Counter} {cancelled₀ : Bool}
    (hcatch : ∀ x, catchChunk x = .failed ∨ catchChunk x = .skipped) {es : List (Event R)}
    (h : (core target_version expected_dimension catchChunk R claimed cancelled₀).Run es tr s) :
    s.summary.completed = tr.countP Obs.isMarked := by
  refine h.history_invariant
    (fun _ tr s => s.summary.completed = tr.countP Obs.isMarked) ?_ ?_
  · exact completed_checkLoop _ _
  · intro es tr s e s' out _ hcount hs
    rw [List.countP_append, ← hcount]
    cases step_cases hs with
    | @checked chunk rest outcome htodo =>
      rcases outcome with ⟨_ | _⟩ | _ <;> exact completed_checkLoop _ _
    | @moved b batch batch' _ n counter _ hb hmove =>
      rw [hmove.marked_count hcatch]
      exact MigrationSummary.get_add s.summary n counter .completed
    | cancelled => rfl

end Steps

/-! ## The summary of a finished run -/

/-- One fate for each claimed chunk: its own, or the next one from the batches. -/
def fill : List (Option Counter) → List Counter → List Counter
  | [], _ => []
  | some c :: cs, fs => c :: fill cs fs
  | none :: cs, f :: fs => f :: fill cs fs
  | none :: cs, [] => fill cs []

theorem fill_length {cs : List (Option Counter)} {fs : List Counter}
    (h : cs.count none = fs.length) : (fill cs fs).length = cs.length := by
  induction cs generalizing fs with
  | nil => rfl
  | cons fate cs ih =>
    cases fate with
    | some c =>
      rw [List.count_cons_of_ne (by simp)] at h
      rw [fill, List.length_cons, List.length_cons, ih h]
    | none =>
      rw [List.count_cons_self] at h
      cases fs with
      | nil => simp at h
      | cons f fs =>
        rw [List.length_cons, Nat.add_right_cancel_iff] at h
        rw [fill, List.length_cons, List.length_cons, ih h]

theorem fill_count {cs : List (Option Counter)} {fs : List Counter}
    (h : cs.count none = fs.length) (c : Counter) :
    (fill cs fs).count c = cs.count (some c) + fs.count c := by
  induction cs generalizing fs with
  | nil =>
    have hfs : fs = [] := List.eq_nil_of_length_eq_zero (by simpa using h.symm)
    simp [fill, hfs]
  | cons fate cs ih =>
    cases fate with
    | some c' =>
      rw [List.count_cons_of_ne (by simp)] at h
      have hrest := ih h
      by_cases hc : c' = c
      · subst hc
        rw [fill, List.count_cons_self, List.count_cons_self, hrest]
        omega
      · rw [fill, List.count_cons_of_ne hc, List.count_cons_of_ne (by simpa using hc), hrest]
    | none =>
      rw [List.count_cons_self] at h
      cases fs with
      | nil => simp at h
      | cons f fs =>
        rw [List.length_cons, Nat.add_right_cancel_iff] at h
        have hrest := ih h
        rw [fill, List.count_cons_of_ne (b := none) (a := some c) (by simp)]
        by_cases hf : f = c
        · subst hf
          rw [List.count_cons_self, List.count_cons_self, hrest]
          omega
        · rw [List.count_cons_of_ne hf, List.count_cons_of_ne hf, hrest]

theorem counters_length (l : List Counter) :
    l.count .completed + l.count .skipped + l.count .stale + l.count .failed = l.length := by
  induction l with
  | nil => rfl
  | cons c l ih =>
    cases c <;> simp only [List.count_cons, List.length_cons, ← ih] <;> simp
    all_goals omega

/-- The fates of the claimed chunks, chunk by chunk: a chunk that was not found
pending has the fate of its check, and the pending chunks have those of their
places in the batches. -/
structure Fates (claimed : List Chunk) (tr : List (Obs R)) (summary : MigrationSummary)
    (fates : List (List Counter)) : Prop where
  /-- the chunks were checked in their order -/
  checked : (checksOf tr).map Prod.fst <+: claimed
  /-- there is a fate for each place in a batch -/
  shape : fates.map List.length = (slices embed_batch_size (pendingOf tr)).map List.length
  /-- a chunk is completed, or stale, when the trace says so of its place -/
  settled : ∀ b j c o, Obs.settles b j c = some o →
    ((fates[b]?.bind (·[j]?)) = some c ↔ o ∈ tr)
  length : (fill (loopFates claimed.length tr) fates.flatten).length = claimed.length
  /-- each chunk adds one, to the counter of its fate -/
  count : ∀ c, summary.get c = (fill (loopFates claimed.length tr) fates.flatten).count c

/-- What the summary of a migration says about it. -/
structure Accounted (claimed : List Chunk) (tr : List (Obs R)) (summary : MigrationSummary) :
    Prop where
  total : summary.completed + summary.skipped + summary.stale + summary.failed = claimed.length
  fates : ∃ fates, Fates claimed tr summary fates
  marked : summary.completed = tr.countP Obs.isMarked

section Finished

variable {claimed : List Chunk} {tr : List (Obs R)} {s : Migration R}
  {fates : List (List (Option Counter))}

/-- The pending chunks are those whose check gave them no fate. -/
theorem count_none_loopFates (n : ℕ) (tr : List (Obs R)) :
    (loopFates n tr).count none = (pendingOf tr).length := by
  have hnone : ∀ k, (List.replicate k (some Counter.skipped)).count none = 0 := by
    intro k
    rw [List.count_replicate]
    simp
  rw [loopFates, List.count_append, hnone, Nat.add_zero]
  induction tr with
  | nil => rfl
  | cons o tr ih =>
    have hcons : checkFates (o :: tr) = (o.check.map Prod.snd).toList ++ checkFates tr := by
      cases hcheck : o.check <;> simp [checkFates, checksOf, hcheck]
    have hpending : pendingOf (o :: tr) = o.pending.toList ++ pendingOf tr := by
      cases hcheck : o.pending <;> simp [pendingOf, hcheck]
    rw [hcons, hpending, List.count_append, List.length_append, ih]
    cases o with
    | checked chunk outcome => rcases outcome with ⟨_ | _⟩ | _ <;> rfl
    | _ => rfl

/-- When all batches are finished, every place in them has its fate. -/
theorem Tally.exists_fates (h : Tally claimed tr s fates) (hfinished : s.finished = true) :
    ∃ counters : List (List Counter), fates = counters.map (List.map some) := by
  obtain ⟨batches, hbatches, hall⟩ := Migration.finished_iff.mp hfinished
  have hsome : ∀ l ∈ fates, l ∈ Set.range (List.map (some : Counter → Option Counter)) := by
    intro l hl
    rw [Set.range_list_map]
    intro fate hfate
    obtain ⟨b, hb⟩ := List.mem_iff_getElem?.mp hl
    have hlt : b < batches.length := by
      have hshape := h.shape
      rw [hbatches, Option.getD_some] at hshape
      rw [← hshape]
      exact (List.getElem?_eq_some_iff.mp hb).1
    have hget : s.batch? b = some batches[b] := by
      rw [Migration.batch?_eq hbatches, List.getElem?_eq_getElem hlt]
    obtain ⟨-, hok⟩ := h.ok b _ l hget hb
    have hfin := hall _ (List.getElem_mem hlt)
    unfold Batch.isFinished at hfin
    split at hfin
    · rename_i hstatus
      rw [hstatus] at hok
      obtain ⟨c, hc⟩ := Option.ne_none_iff_exists.mp (hok fate hfate)
      exact ⟨c, hc⟩
    · simp at hfin
  have hrange : fates ∈ Set.range
      (List.map (List.map (some : Counter → Option Counter))) := by
    rw [Set.range_list_map]
    exact hsome
  obtain ⟨counters, hcounters⟩ := hrange
  exact ⟨counters, hcounters.symm⟩

/-- There is a fate for each pending chunk. -/
theorem Tally.shape_eq {cancelled₀ : Bool} {target_version : String}
    (hinv : Inv claimed cancelled₀ target_version tr s) (h : Tally claimed tr s fates)
    (hfinished : s.finished = true) :
    fates.map List.length = (slices embed_batch_size (pendingOf tr)).map List.length := by
  obtain ⟨batches, hbatches, -⟩ := Migration.finished_iff.mp hfinished
  have hslices := (hinv.sliced batches hbatches).2
  rw [hinv.pending] at hslices
  have hshape := h.shape
  rw [hbatches, Option.getD_some] at hshape
  rw [← hslices, List.map_map]
  apply List.ext_getElem
  · simpa using hshape
  · intro b hb hb'
    have hlt : b < fates.length := by simpa using hb
    have hlt' : b < batches.length := hshape ▸ hlt
    have hget : fates[b]? = some fates[b] := List.getElem?_eq_getElem hlt
    have hbatch : s.batch? b = some batches[b] := by
      rw [Migration.batch?_eq hbatches, List.getElem?_eq_getElem hlt']
    simpa using (h.ok b _ _ hbatch hget).1

/-- The summary of a run of either scheduler that has finished all batches. -/
theorem accounted_of_run {target_version : String} {expected_dimension : ℤ}
    {catchChunk : Bool → Counter} {cancelled₀ : Bool}
    (hcatch : ∀ x, catchChunk x = .failed ∨ catchChunk x = .skipped) {es : List (Event R)}
    (h : (core target_version expected_dimension catchChunk R claimed cancelled₀).Run es tr s)
    (hfinished : s.finished = true) : Accounted claimed tr s.summary := by
  have hinv := (lawful_run h).1
  obtain ⟨fates, htally⟩ := tally_run hcatch h
  have hshape := htally.shape_eq hinv hfinished
  obtain ⟨counters, rfl⟩ := htally.exists_fates hfinished
  have hlengths : (counters.map (List.map some)).map List.length =
      counters.map List.length := by
    rw [List.map_map]
    apply List.map_congr_left
    intro l _
    simp
  rw [hlengths] at hshape
  have hflatten : counters.flatten.length = (pendingOf tr).length := by
    have hall := slices_flatten (n := embed_batch_size) (by decide) (pendingOf tr)
    rw [← hall, List.length_flatten, List.length_flatten, hshape]
  have hnone : (loopFates claimed.length tr).count none = counters.flatten.length := by
    rw [count_none_loopFates, hflatten]
  have hloop : (loopFates claimed.length tr).length = claimed.length := by
    have hle := htally.checked.length_le
    rw [List.length_map] at hle
    simp only [loopFates, checkFates, List.length_append, List.length_map,
      List.length_replicate]
    omega
  have hcount : ∀ c, s.summary.get c =
      (fill (loopFates claimed.length tr) counters.flatten).count c := by
    intro c
    obtain ⟨batches, hbatches, -⟩ := Migration.finished_iff.mp hfinished
    have hsummary := htally.summary c
    rw [hbatches, Option.isSome_some, if_pos rfl, ← List.map_flatten,
      List.count_map_of_injective _ _ (Option.some_injective _)] at hsummary
    rw [hsummary, fill_count hnone]
  have hlength := (fill_length hnone).trans hloop
  refine ⟨?_, ⟨counters, htally.checked, hshape, ?_, hlength, hcount⟩, completed_run hcatch h⟩
  · calc s.summary.completed + s.summary.skipped + s.summary.stale + s.summary.failed
        = s.summary.get .completed + s.summary.get .skipped + s.summary.get .stale +
            s.summary.get .failed := rfl
      _ = (fill (loopFates claimed.length tr) counters.flatten).length := by
        rw [hcount, hcount, hcount, hcount, counters_length]
      _ = claimed.length := hlength
  · intro b j c o ho
    rw [← htally.settled b j c o ho, List.getElem?_map]
    cases hget : counters[b]? with
    | none => simp
    | some l => simp

end Finished

/-! ## The two workers -/

/-- **No chunk is lost or counted twice.** In every run of `migrate_batch` and of
`migrateBatch` that returns, whatever the dependencies answered, in whatever
order the tasks went on and whenever the migration was cancelled, the counters
add up to the claimed chunks, each of which added one to one of them, and as
many were completed as calls of `mark_complete` succeeded. -/
theorem summary_accounts (target_version : String) (expected_dimension : ℤ)
    (claimed : List Chunk) (cancelled₀ : Bool) :
    (∀ es tr s,
      (Python.machine target_version expected_dimension R claimed cancelled₀).Run es tr s →
        Python.returned s = true → Accounted claimed tr s.summary) ∧
      ∀ es tr p,
        (TypeScript.machine target_version expected_dimension R claimed cancelled₀).Run es tr p →
          TypeScript.returned p = true → Accounted claimed tr p.migration.summary := by
  constructor
  · intro es tr s hrun hreturned
    rcases Python.core_run hrun with ⟨es', hcore⟩
    exact accounted_of_run (fun _ => Or.inl rfl) hcore hreturned
  · intro es tr p hrun hreturned
    rcases TypeScript.core_run hrun with ⟨es', hcore⟩
    refine accounted_of_run ?_ hcore ((TypeScript.poolOk_run hrun).finished hreturned)
    intro aborted
    cases aborted with
    | false => exact Or.inl rfl
    | true => exact Or.inr rfl

theorem summary_accounts_refund :
    (∃ tr s, (Python.machine "v2" 2 ℕ [refund, returns] false).Run
        (checks ++ .batchStart 0 :: writes) tr s ∧
      Python.returned s = true ∧ s.summary = ⟨1, 1, 0, 0⟩ ∧
      Accounted [refund, returns] tr s.summary) ∧
    ∃ tr p, (TypeScript.machine "v2" 2 ℕ [refund, returns] false).Run
        (checks.map .other ++
          .createWorkers :: .workerTurn 0 :: writes.map .other ++ [.workerTurn 0]) tr p ∧
      TypeScript.returned p = true ∧ p.migration.summary = ⟨1, 1, 0, 0⟩ ∧
      Accounted [refund, returns] tr p.migration.summary := by
  have hpython : ((Python.machine "v2" 2 ℕ [refund, returns] false).exec
      (checks ++ .batchStart 0 :: writes)).map (fun r => (Python.returned r.1, r.1.summary)) =
        some (true, ⟨1, 1, 0, 0⟩) := by decide +kernel
  have htypescript : ((TypeScript.machine "v2" 2 ℕ [refund, returns] false).exec
      (checks.map .other ++
        .createWorkers :: .workerTurn 0 :: writes.map .other ++ [.workerTurn 0])).map
        (fun r => (TypeScript.returned r.1, r.1.migration.summary)) =
          some (true, ⟨1, 1, 0, 0⟩) := by decide +kernel
  have haccounts := summary_accounts (R := ℕ) "v2" 2 [refund, returns] false
  constructor
  · rcases Machine.Run.of_exec_map hpython with ⟨s, tr, hrun, hs⟩
    rcases Prod.mk.inj hs with ⟨hreturned, hsummary⟩
    exact ⟨tr, s, hrun, hreturned, hsummary, haccounts.1 _ _ _ hrun hreturned⟩
  · rcases Machine.Run.of_exec_map htypescript with ⟨p, tr, hrun, hp⟩
    rcases Prod.mk.inj hp with ⟨hreturned, hsummary⟩
    exact ⟨tr, p, hrun, hreturned, hsummary, haccounts.2 _ _ _ hrun hreturned⟩

end InterviewPrep.EmbeddingMigration
