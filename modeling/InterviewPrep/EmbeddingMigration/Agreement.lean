import Mathlib.Data.Nat.Find
import InterviewPrep.EmbeddingMigration.Progress
import InterviewPrep.Lib.Termination

/-!
# One summary for every schedule

With dependencies that are functions, and without a cancellation, every run of
either worker comes to an end with the summary `expected`, whatever the order in
which the calls return.
-/

namespace InterviewPrep.EmbeddingMigration

variable {R : Type} {deps : Deps R} {target_version : String} {expected_dimension : ℤ}
  {claimed : List Chunk}

/-! ## The balance -/

/-- What has been counted and what is owed make up the expected summary. -/
structure Balanced (deps : Deps R) (target_version : String) (expected_dimension : ℤ)
    (claimed : List Chunk) (s : Migration R) : Prop where
  shaped : Shaped s
  cancelled : s.cancelled = false
  conserved : ∀ c, s.summary.get c + (owed deps target_version expected_dimension s).count c =
    (expected deps target_version expected_dimension claimed).get c

theorem balanced_init :
    Balanced deps target_version expected_dimension claimed (init claimed false) := by
  have howed := fun c => owed_checkLoop deps target_version expected_dimension
    (s := ⟨false, ⟨0, 0, 0, 0⟩, [], [], none⟩) rfl rfl claimed c
  refine ⟨shaped_checkLoop rfl claimed, (howed .completed).1, ?_⟩
  intro c
  refine (howed c).2.trans ?_
  cases c <;> simp [MigrationSummary.get, expected]

theorem Balanced.step {catchChunk : Bool → Counter} {s s' : Migration R} {e : Event R}
    {out : List (Obs R)} (h : Balanced deps target_version expected_dimension claimed s)
    (hcatch : catchChunk false = .failed)
    (hs : EmbeddingMigration.step target_version expected_dimension catchChunk s e =
      some (s', out)) (hfollows : Follows deps target_version s e) :
    Balanced deps target_version expected_dimension claimed s' := by
  have hstep := step_cases hs
  have howed := owed_step hcatch h.shaped h.cancelled hstep hfollows
  refine ⟨h.shaped.step hstep, (howed .completed).1, ?_⟩
  intro c
  rw [(howed c).2]
  exact h.conserved c

theorem MigrationSummary.ext_get {m m' : MigrationSummary} (h : ∀ c, m.get c = m'.get c) :
    m = m' := by
  rcases m with ⟨completed, skipped, stale, failed⟩
  rcases m' with ⟨completed', skipped', stale', failed'⟩
  have hcompleted : completed = completed' := h .completed
  have hskipped : skipped = skipped' := h .skipped
  have hstale : stale = stale' := h .stale
  have hfailed : failed = failed' := h .failed
  rw [hcompleted, hskipped, hstale, hfailed]

/-- When all batches are finished nothing is owed. -/
theorem Balanced.summary {s : Migration R}
    (h : Balanced deps target_version expected_dimension claimed s)
    (hfinished : s.finished = true) :
    s.summary = expected deps target_version expected_dimension claimed := by
  rcases Migration.finished_iff.mp hfinished with ⟨batches, hbatches, hall⟩
  have hnone : owed deps target_version expected_dimension s = [] := by
    simp only [owed, hbatches, List.flatMap_eq_nil_iff]
    intro batch hbatch
    have hbatch := hall batch hbatch
    unfold Batch.isFinished at hbatch
    unfold owedBatch
    split at hbatch
    · rename_i hstatus
      rw [hstatus]
    · cases hbatch
  apply MigrationSummary.ext_get
  intro c
  have hc := h.conserved c
  rw [hnone, List.count_nil, Nat.add_zero] at hc
  exact hc

/-- A migration that is not over has batches, and one that is not finished. -/
theorem exists_unfinished {s : Migration R} {batches : List (Batch R)}
    (hbatches : s.batches = some batches) (hfinished : s.finished = false) :
    ∃ b batch, s.batch? b = some batch ∧ batch.isFinished = false ∧
      ∀ b' < b, ∀ batch', s.batch? b' = some batch' → batch'.isFinished = true := by
  classical
  have hex : ∃ b, ∃ batch, s.batch? b = some batch ∧ batch.isFinished = false := by
    simp only [Migration.finished, hbatches, List.all_eq_false] at hfinished
    rcases hfinished with ⟨batch, hmem, hbatch⟩
    rcases List.mem_iff_getElem?.mp hmem with ⟨b, hb⟩
    exact ⟨b, batch, (Migration.batch?_eq hbatches b).trans hb, Bool.not_eq_true _ ▸ hbatch⟩
  -- the first of them
  rcases Nat.find_spec hex with ⟨batch, hb, hbatch⟩
  refine ⟨Nat.find hex, batch, hb, hbatch, ?_⟩
  intro b' hb' batch' hbatch'
  by_contra hne
  exact Nat.find_min hex hb' ⟨batch', hbatch', Bool.not_eq_true _ ▸ hne⟩

/-- Every run under `P` comes to an end, with the summary `m`. -/
structure EndsWith {σ ε : Type} (M : Machine σ ε (Obs R)) (P : σ → ε → Prop)
    (returned : σ → Bool) (summary : σ → MigrationSummary) (m : MigrationSummary) : Prop where
  ends : M.Ends P (fun s => returned s = true)
  summary : ∀ es tr s, M.RunWhere P es tr s → returned s = true → summary s = m

/-! ## Python -/

namespace Python

variable {es : List (Event R)} {tr : List (Obs R)} {s : Migration R}

theorem balanced_run
    (hrun : (machine target_version expected_dimension R claimed false).RunWhere
      (Follows deps target_version) es tr s) :
    Balanced deps target_version expected_dimension claimed s :=
  hrun.history_invariant
    (fun _ _ s => Balanced deps target_version expected_dimension claimed s) balanced_init
    (fun _ _ _ _ _ _ _ hinv hfollows hs => hinv.step rfl (step_cases hs).1 hfollows)

theorem step_of_core {e : Event R} (he : ∀ b, e ≠ .batchStart b) :
    Python.step target_version expected_dimension s e =
      EmbeddingMigration.step target_version expected_dimension catchChunk s e := by
  cases e with
  | batchStart b => exact absurd rfl (he b)
  | _ => rfl

/-- Of the batches that are not finished, the first is in the group that runs. -/
theorem exists_step (h : Balanced deps target_version expected_dimension claimed s)
    (hreturned : ¬ returned s = true) :
    ∃ e s' out, Follows deps target_version s e ∧
      Python.step target_version expected_dimension s e = some (s', out) := by
  cases hbatches : s.batches with
  | none =>
    rcases exists_check_step catchChunk h.shaped hbatches with
      ⟨e, s', out, hfollows, he, hs⟩
    exact ⟨e, s', out, hfollows, (step_of_core he).trans hs⟩
  | some batches =>
    rcases exists_unfinished hbatches (Bool.not_eq_true _ ▸ hreturned) with
      ⟨b, batch, hb, hbatch, hbefore⟩
    by_cases hstatus : batch.status = .notStarted
    · have hgroup : groupRuns s b = true := by
        simp only [groupRuns, hbatches, List.all_eq_true]
        intro batch' hmem
        rcases List.mem_iff_getElem?.mp hmem with ⟨b', hget⟩
        rcases List.getElem?_eq_some_iff.mp hget with ⟨hlt, -⟩
        have hle := Nat.mul_div_le b max_concurrent_batches
        have hlt' : b' < max_concurrent_batches * (b / max_concurrent_batches) := by
          rw [List.length_take] at hlt
          omega
        rw [List.getElem?_take_of_lt hlt'] at hget
        exact hbefore b' (by omega) batch' ((Migration.batch?_eq hbatches b').trans hget)
      rcases exists_start_step target_version expected_dimension catchChunk hb hstatus with ⟨s', out, hs⟩
      refine ⟨.batchStart b, s', out, trivial, ?_⟩
      simp only [Python.step, hgroup, if_true]
      exact hs
    · rcases exists_batch_step catchChunk h.shaped hb hstatus hbatch with
        ⟨e, s', out, hfollows, he, hs⟩
      exact ⟨e, s', out, hfollows, (step_of_core he).trans hs⟩

theorem endsWith : EndsWith (machine target_version expected_dimension R claimed false)
    (Follows deps target_version) returned Migration.summary
    (expected deps target_version expected_dimension claimed) := by
  refine ⟨⟨?_, ?_⟩, ?_⟩
  · refine ⟨(init (R := R) claimed false).work, ?_⟩
    intro es tr s hrun
    have hle := hrun.length_add_le Migration.work (by
      intro es tr s e s' out hrun hfollows hs
      refine (EmbeddingMigration.step_cases (step_cases hs).1).work_lt
        (balanced_run hrun).shaped ?_
      rintro rfl
      exact hfollows)
    exact Nat.le_trans (Nat.le_add_right _ _) hle
  · intro es tr s hrun hreturned
    exact exists_step (balanced_run hrun) hreturned
  · intro es tr s hrun hreturned
    exact (balanced_run hrun).summary hreturned

end Python

/-! ## TypeScript -/

namespace TypeScript

/-- The steps of the pool follow the dependencies. -/
def PoolFollows (deps : Deps R) (targetVersion : String) (p : Pool R) : PoolEvent R → Prop
  | .other e => Follows deps targetVersion p.migration e
  | _ => True

variable {es : List (PoolEvent R)} {tr : List (Obs R)} {p p' : Pool R}

theorem balanced_run
    (hrun : (machine target_version expected_dimension R claimed false).RunWhere
      (PoolFollows deps target_version) es tr p) :
    Balanced deps target_version expected_dimension claimed p.migration := by
  refine hrun.history_invariant
    (fun _ _ p => Balanced deps target_version expected_dimension claimed p.migration)
    balanced_init ?_
  intro es tr p e p' out _ hinv hfollows hs
  cases step_cases hs with
  | createWorkers hworkers hbatches => exact hinv
  | workerEnds hworkers hbatches hworker hloop hge => exact hinv
  | batchStarts hworkers hbatches hworker hloop hlt hstep => exact hinv.step rfl hstep trivial
  | other hstart hstep => exact hinv.step rfl hstep hfollows

/-- The batches before the next index have been started, and a worker processes
one of them. -/
structure Assigned (p : Pool R) : Prop where
  started : ∀ b batch, b < p.nextBatchIndex → p.migration.batch? b = some batch →
    batch.status ≠ .notStarted
  processing : ∀ (workers : List Worker) (w b : ℕ), p.workers = some workers →
    workers[w]? = some (.processing b) → b < p.nextBatchIndex ∧ p.migration.batch? b ≠ none

/-- A batch moves. -/
theorem Assigned.moved (h : Assigned p) {b : ℕ} {batch : Batch R} (n : ℕ) (counter : Counter)
    (hstatus : batch.status ≠ .notStarted) {workers : Option (List Worker)}
    (hworkers : ∀ ws (w c : ℕ), workers = some ws → ws[w]? = some (.processing c) →
      (∃ old, p.workers = some old ∧ old[w]? = some (.processing c)) ∨
        c = b ∧ p.migration.batch? b ≠ none) {next : ℕ} (hb : b < next)
    (hnext : ∀ c, c < next → c = b ∨ c < p.nextBatchIndex) (hle : p.nextBatchIndex ≤ next) :
    Assigned ⟨(p.migration.setBatch b batch).add n counter, next, workers⟩ := by
  constructor
  · intro c batch' hc hbatch
    rcases Migration.batch?_setBatch hbatch with ⟨-, rfl⟩ | ⟨hne, hold⟩
    · exact hstatus
    · rcases hnext c hc with heq | hlt
      · exact absurd heq hne
      · exact h.started c batch' hlt hold
  · intro ws w c hws hw
    have hknown : p.migration.batch? c ≠ none → (p.migration.setBatch b batch).batch? c ≠ none :=
      fun hne hnone => hne (Migration.batch?_setBatch_none hnone)
    rcases hworkers ws w c hws hw with ⟨old, hold, hprocessing⟩ | ⟨rfl, hne⟩
    · rcases h.processing old w c hold hprocessing with ⟨hlt, hne⟩
      exact ⟨Nat.lt_of_lt_of_le hlt hle, hknown hne⟩
    · exact ⟨hb, hknown hne⟩

theorem assigned_run
    (hrun : (machine target_version expected_dimension R claimed false).Run es tr p) :
    Assigned p := by
  refine hrun.history_invariant (fun _ _ p => Assigned p) ?_ ?_
  · constructor
    · exact fun b _ hb => absurd hb (Nat.not_lt_zero b)
    · intro workers w b hworkers
      cases hworkers
  · intro es tr p e p' out hrun hinv hs
    have hok := poolOk_run hrun
    cases step_cases hs with
    | createWorkers hworkers hbatches =>
      refine ⟨hinv.started, ?_⟩
      rintro workers w b ⟨⟩ hw
      rw [List.getElem?_replicate] at hw
      split at hw <;> cases hw
    | workerEnds hworkers hbatches hworker hloop hge =>
      refine ⟨hinv.started, ?_⟩
      rintro workers w b ⟨⟩ hw
      rcases getElem?_set_cases hw with ⟨-, hprocessing⟩ | ⟨-, hold⟩
      · cases hprocessing
      · exact hinv.processing _ w b hworkers hold
    | @batchStarts w workers worker batches migration _ hworkers hbatches hworker hloop hlt hstep =>
      rcases (EmbeddingMigration.step_cases hstep).batchStart with
        ⟨batch, batch', n, counter, hb, hmove, rfl⟩
      have hindex : p.migration.batch? p.nextBatchIndex ≠ none := by simp [hb]
      refine hinv.moved n counter hmove.target ?_ (Nat.lt_succ_self _)
        (fun c hc => (Nat.lt_succ_iff_lt_or_eq.mp hc).symm) (Nat.le_succ _)
      rintro _ v c ⟨⟩ hv
      rcases getElem?_set_cases hv with ⟨-, hprocessing⟩ | ⟨-, hold⟩
      · cases hprocessing
        exact Or.inr ⟨rfl, hindex⟩
      · exact Or.inl ⟨workers, hworkers, hold⟩
    | @other e migration _ hstart hstep =>
      cases EmbeddingMigration.step_cases hstep with
      | cancelled => exact ⟨hinv.started, hinv.processing⟩
      | @checked chunk rest outcome htodo =>
        -- there are no workers yet
        rcases core_run hrun with ⟨es', hcore⟩
        have hnone := (lawful_run hcore).1.noBatches htodo
        have hworkers := hok.noWorkers_of_batches hnone
        have hzero := hok.noWorkers hworkers
        constructor
        · intro b batch hb
          have hb : b < p.nextBatchIndex := hb
          omega
        · intro workers w b hsome
          have hsome : p.workers = some workers := hsome
          rw [hworkers] at hsome
          cases hsome
      | @moved b batch batch' _ n counter _ hb hmove =>
        -- a batch that is not new was started before
        have hlt : b < p.nextBatchIndex := by
          apply Nat.lt_of_not_le
          intro hle
          exact hstart b (hmove.source.2.mp (hok.new b batch hle hb))
        exact hinv.moved n counter hmove.target
          (fun workers w c hw hprocessing => Or.inl ⟨workers, hw, hprocessing⟩) hlt
          (fun c hc => Or.inr hc) (Nat.le_refl _)

/-! ### The end of a run -/

def Worker.isRunning : Worker → Bool
  | finished => false
  | _ => true

/-- How many steps the pool can still make. -/
def Pool.work (p : Pool R) : ℕ :=
  p.migration.work +
    match p.workers with
    | none => max_concurrent_batches + 1
    | some workers => workers.countP Worker.isRunning

theorem isRunning_of_atLoop {s : Migration R} {worker : Worker} (h : atLoop s worker = true) :
    worker.isRunning = true := by
  cases worker with
  | started => rfl
  | processing index => rfl
  | finished => cases h

theorem pool_work_lt {e : PoolEvent R} {out : List (Obs R)} (hshaped : Shaped p.migration)
    (hs : PoolStep target_version expected_dimension p e p' out)
    (hfollows : PoolFollows deps target_version p e) : p'.work < p.work := by
  cases hs with
  | createWorkers hworkers hbatches =>
    have hle : ∀ m, (List.replicate (min max_concurrent_batches m) Worker.started).countP
        Worker.isRunning ≤ max_concurrent_batches := by
      intro m
      have hcount := List.countP_le_length (p := Worker.isRunning)
        (l := List.replicate (min max_concurrent_batches m) Worker.started)
      rw [List.length_replicate] at hcount
      omega
    simp only [Pool.work, hworkers]
    exact Nat.add_lt_add_left (Nat.lt_succ_of_le (hle _)) _
  | @batchStarts w workers worker batches migration _ hworkers hbatches hworker hloop hlt hstep =>
    have hmigration := (EmbeddingMigration.step_cases hstep).work_lt hshaped (by simp)
    have hset := countP_set_add (a := .processing p.nextBatchIndex) Worker.isRunning hworker
    have hprocessing : (Worker.processing p.nextBatchIndex).isRunning = true := rfl
    rw [if_pos (isRunning_of_atLoop hloop), if_pos hprocessing] at hset
    simp only [Pool.work, hworkers]
    omega
  | @workerEnds w workers worker batches hworkers hbatches hworker hloop hge =>
    have hset := countP_set_add (a := .finished) Worker.isRunning hworker
    have hfinished : Worker.finished.isRunning = false := rfl
    rw [if_pos (isRunning_of_atLoop hloop), hfinished] at hset
    simp only [Bool.false_eq_true, if_false] at hset
    simp only [Pool.work, hworkers]
    omega
  | @other e migration _ hstart hstep =>
    have hmigration := (EmbeddingMigration.step_cases hstep).work_lt hshaped (by
      rintro rfl
      exact hfollows)
    exact Nat.add_lt_add_right hmigration _

/-- A step of the migration, as a step of the pool. -/
theorem step_of_core {e : Event R} {migration : Migration R} {out : List (Obs R)}
    (he : ∀ b, e ≠ .batchStart b)
    (hs : EmbeddingMigration.step target_version expected_dimension catchChunk p.migration e =
      some (migration, out)) :
    TypeScript.step target_version expected_dimension p (.other e) =
      some ({ p with migration := migration }, out) := by
  rw [step_other he, hs]

/-- A worker at the head of its loop starts a batch or ends. -/
theorem exists_turn (hok : PoolOk p) {workers : List Worker} {w : ℕ} {worker : Worker}
    {batches : List (Batch R)} (hworkers : p.workers = some workers)
    (hbatches : p.migration.batches = some batches) (hworker : workers[w]? = some worker)
    (hloop : atLoop p.migration worker = true) :
    ∃ p' out, TypeScript.step target_version expected_dimension p (.workerTurn w) =
      some (p', out) := by
  by_cases hlt : p.nextBatchIndex < batches.length
  · have hb : p.migration.batch? p.nextBatchIndex = some batches[p.nextBatchIndex] :=
      (Migration.batch?_eq hbatches _).trans (List.getElem?_eq_getElem hlt)
    have hnew := hok.new p.nextBatchIndex _ (Nat.le_refl _) hb
    rcases exists_start_step target_version expected_dimension catchChunk hb hnew with
      ⟨migration, out, hs⟩
    refine ⟨⟨migration, p.nextBatchIndex + 1,
      some (workers.set w (.processing p.nextBatchIndex))⟩, out, ?_⟩
    simp only [TypeScript.step, hworkers, hbatches, hworker, hloop, if_true, hlt, hs]
  · refine ⟨{ p with workers := some (workers.set w .finished) }, [], ?_⟩
    simp only [TypeScript.step, hworkers, hbatches, hworker, hloop, if_true, hlt, if_false]

/-- Something can come next as long as a worker is running. -/
theorem exists_step (h : Balanced deps target_version expected_dimension claimed p.migration)
    (hok : PoolOk p) (hassigned : Assigned p) (hreturned : ¬ returned p = true) :
    ∃ e p' out, PoolFollows deps target_version p e ∧
      TypeScript.step target_version expected_dimension p e = some (p', out) := by
  cases hbatches : p.migration.batches with
  | none =>
    rcases exists_check_step catchChunk h.shaped hbatches with ⟨e, s', out, hfollows, he, hs⟩
    exact ⟨.other e, _, out, hfollows, step_of_core he hs⟩
  | some batches =>
    cases hworkers : p.workers with
    | none =>
      exact ⟨.createWorkers, _, _, trivial, by simp only [TypeScript.step, hworkers, hbatches]; rfl⟩
    | some workers =>
      -- a batch that a worker processes, or else a worker at the head of its loop
      by_cases hbusy : ∃ b batch, b < p.nextBatchIndex ∧ p.migration.batch? b = some batch ∧
          batch.isFinished = false
      · rcases hbusy with ⟨b, batch, hlt, hb, hbatch⟩
        rcases exists_batch_step catchChunk h.shaped hb (hassigned.started b batch hlt hb) hbatch
          with ⟨e, s', out, hfollows, he, hs⟩
        exact ⟨.other e, _, out, hfollows, step_of_core he hs⟩
      · have hrunning : ∃ (w : ℕ) (worker : Worker), workers[w]? = some worker ∧
            worker ≠ .finished := by
          by_contra hnone
          apply hreturned
          rw [returned_iff]
          refine ⟨workers, hworkers, ?_⟩
          intro worker hmem
          rcases List.mem_iff_getElem?.mp hmem with ⟨w, hw⟩
          by_contra hne
          exact hnone ⟨w, worker, hw, hne⟩
        rcases hrunning with ⟨w, worker, hworker, hne⟩
        have hloop : atLoop p.migration worker = true := by
          cases worker with
          | started => rfl
          | finished => exact absurd rfl hne
          | processing b =>
            rcases hassigned.processing workers w b hworkers hworker with ⟨hlt, hsome⟩
            rcases Option.ne_none_iff_exists'.mp hsome with ⟨batch, hb⟩
            simp only [atLoop, hb]
            by_contra hnot
            exact hbusy ⟨b, batch, hlt, hb, Bool.not_eq_true _ ▸ hnot⟩
        rcases exists_turn hok hworkers hbatches hworker hloop with ⟨p', out, hs⟩
        exact ⟨.workerTurn w, p', out, trivial, hs⟩

theorem endsWith : EndsWith (machine target_version expected_dimension R claimed false)
    (PoolFollows deps target_version) returned (fun p => p.migration.summary)
    (expected deps target_version expected_dimension claimed) := by
  refine ⟨⟨?_, ?_⟩, ?_⟩
  · refine ⟨(machine target_version expected_dimension R claimed false).init.work, ?_⟩
    intro es tr p hrun
    have hle := hrun.length_add_le Pool.work (by
      intro es tr p e p' out hrun hfollows hs
      exact pool_work_lt (balanced_run hrun).shaped (step_cases hs) hfollows)
    exact Nat.le_trans (Nat.le_add_right _ _) hle
  · intro es tr p hrun hreturned
    exact exists_step (balanced_run hrun) (poolOk_run hrun.run) (assigned_run hrun.run) hreturned
  · intro es tr p hrun hreturned
    exact (balanced_run hrun).summary ((poolOk_run hrun.run).finished hreturned)

end TypeScript

/-! ## Both -/

/-- **One summary for every schedule.** If the dependencies are functions of
their arguments and nothing is cancelled, every run of `migrate_batch` and every
run of `migrateBatch` over the same claimed chunks comes to an end, with one and
the same summary. -/
theorem one_summary (deps : Deps R) (target_version : String) (expected_dimension : ℤ)
    (claimed : List Chunk) :
    EndsWith (Python.machine target_version expected_dimension R claimed false)
        (Follows deps target_version) Python.returned Migration.summary
        (expected deps target_version expected_dimension claimed) ∧
      EndsWith (TypeScript.machine target_version expected_dimension R claimed false)
        (TypeScript.PoolFollows deps target_version) TypeScript.returned
        (fun p => p.migration.summary) (expected deps target_version expected_dimension claimed) :=
  ⟨Python.endsWith, TypeScript.endsWith⟩

/-- The chunk `c1` is up to date, and a text has its length as its vector. -/
def byLength : Deps ℕ where
  already_current chunk _ := .returned (chunk.chunk_id == "c1")
  embed texts := .returned (texts.map fun text => [text.length])
  write_shadow _ _ _ := .returned .written
  mark_complete _ _ _ := .returned ()

example : expected byLength "v2" 1 [refund, returns] = ⟨1, 1, 0, 0⟩ := by decide +kernel

end InterviewPrep.EmbeddingMigration
