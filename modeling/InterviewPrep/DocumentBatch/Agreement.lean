import InterviewPrep.DocumentBatch.Python

/-!
# The two document batches agree

Where the outcome of an extraction depends on the document alone, `extractBatch` and
`extract_batch` return the same outcomes for the same documents, whatever their
limits are and in whatever order their extractions settle.
-/

namespace InterviewPrep.DocumentBatch

variable {T : Type}

/-- The same outcome in Python. -/
def TypeScript.Extraction.toPython : TypeScript.Extraction T → Python.Extraction T
  | fulfilled value => .value value
  | threw => .exception

theorem outcome_toPython (doc : Doc) (r : TypeScript.Extraction T) :
    Python.outcome doc r.toPython = some (TypeScript.outcome doc r) := by
  cases r <;> rfl

/-- The outcomes of a trace are those of `f`. -/
def Follows {R : Type} (docs : List Doc) (f : Doc → R) (tr : List (BoundedBatch.Obs R)) : Prop :=
  ∀ (i : ℕ) r doc, .settled i r ∈ tr → docs[i]? = some doc → r = f doc

/-- **Agreement.** -/
theorem extractBatch_agrees {docs : List Doc} (f : Doc → TypeScript.Extraction T)
    {limit : JavaScript.Number} {pool n : ℕ} {es : List (TypeScript.Event T)}
    {tr : List (TypeScript.Obs T)} {s : TypeScript.Batch T} {es' : List (Python.Event T)}
    {tr' : List (Python.Obs T)} {s' : Python.Batch T} {results : List (Option (Outcome T))}
    {l : List (Outcome T)} (hpool : TypeScript.poolSize limit docs.length = some pool)
    (hrun : (TypeScript.machine docs T pool).Run es tr s) (hreturned : s.returned = some results)
    (hrun' : (Python.machine docs T n).Run es' tr' s') (hgathered : s'.gathered docs = some l)
    (hf : Follows docs f tr) (hf' : Follows docs (fun doc => (f doc).toPython) tr') :
    results = l.map some ∧ l = docs.map fun doc => TypeScript.outcome doc (f doc) := by
  rcases (TypeScript.extractBatch_contract hpool hrun).2 results hreturned with ⟨l', rfl, hl'⟩
  -- neither list depends on the order in which the extractions settled
  have hl := (Python.extract_batch_contract hrun').2 l hgathered
  have hts := hl'.eq_map f hf
  have hpy := hl.eq_map (fun doc => (f doc).toPython) hf'
  simp only [outcome_toPython] at hpy
  -- both are the outcomes of `f`, written in two languages
  have hsome : (docs.map fun doc => TypeScript.outcome doc (f doc)).map some = l.map some := by
    rw [hpy, List.map_map]
    rfl
  have heq := List.map_injective_iff.mpr (Option.some_injective _) hsome
  rw [hts, heq]
  exact ⟨rfl, rfl⟩

/-! ## A batch in both languages -/

/-- The first document yields 1, the second one fails, the third one yields 3. -/
def threeOutcomes (doc : Doc) : TypeScript.Extraction ℕ :=
  if doc.id = "b" then .threw else if doc.id = "a" then .fulfilled 1 else .fulfilled 3

theorem extractBatch_agrees_threeDocs :
    ∃ tr s tr' s' results l,
      (TypeScript.machine TypeScript.threeDocs ℕ 2).Run TypeScript.threeDocsRun tr s ∧
      (Python.machine TypeScript.threeDocs ℕ 1).Run Python.threeDocsRun tr' s' ∧
      s.returned = some results ∧ s'.gathered TypeScript.threeDocs = some l ∧
      results = l.map some ∧
      l = TypeScript.threeDocs.map fun doc => TypeScript.outcome doc (threeOutcomes doc) := by
  have hpool : TypeScript.poolSize (.finite 2) TypeScript.threeDocs.length = some 2 := by
    decide +kernel
  have hexec : ((TypeScript.machine TypeScript.threeDocs ℕ 2).exec TypeScript.threeDocsRun).map
      (fun r => (r.2, r.1.returned)) =
        some ([.started 0, .started 1, .settled 1 .threw, .started 2, .settled 2 (.fulfilled 3),
            .settled 0 (.fulfilled 1)],
          some [some (.succeeded "a" 1), some (.failed "b" "extraction failed"),
            some (.succeeded "c" 3)]) := by decide +kernel
  have hexec' : ((Python.machine TypeScript.threeDocs ℕ 1).exec Python.threeDocsRun).map
      (fun r => (r.2, r.1.gathered TypeScript.threeDocs)) =
        some ([.started 0, .settled 0 (.value 1), .started 1, .settled 1 .exception, .started 2,
            .settled 2 (.value 3)],
          some [.succeeded "a" 1, .failed "b" "extraction failed", .succeeded "c" 3]) := by
    decide +kernel
  rcases Machine.Run.of_exec_map hexec with ⟨s, tr, hrun, hread⟩
  rcases Machine.Run.of_exec_map hexec' with ⟨s', tr', hrun', hread'⟩
  simp only [Prod.mk.injEq] at hread hread'
  rcases hread with ⟨rfl, hreturned⟩
  rcases hread' with ⟨rfl, hgathered⟩
  refine ⟨_, s, _, s', _, _, hrun, hrun', hreturned, hgathered,
    extractBatch_agrees threeOutcomes hpool hrun hreturned hrun' hgathered ?_ ?_⟩
  · intro i r doc hmem hdoc
    simp only [List.mem_cons, reduceCtorEq, BoundedBatch.Obs.settled.injEq, List.not_mem_nil,
      or_false, false_or] at hmem
    rcases hmem with ⟨rfl, rfl⟩ | ⟨rfl, rfl⟩ | ⟨rfl, rfl⟩ <;> cases hdoc <;> rfl
  · intro i r doc hmem hdoc
    simp only [List.mem_cons, reduceCtorEq, BoundedBatch.Obs.settled.injEq, List.not_mem_nil,
      or_false, false_or] at hmem
    rcases hmem with ⟨rfl, rfl⟩ | ⟨rfl, rfl⟩ | ⟨rfl, rfl⟩ <;> cases hdoc <;> rfl

end InterviewPrep.DocumentBatch
