import InterviewPrep.ModelRouting.TypeScript

/-!
# What `chooseModel` decides

The contract of the TypeScript router on its own, for every consistent
`localeCompare` and with any ids: which requests fail, and that the chosen model is
one that no eligible candidate stands in front of (`chooseModel_decides`). Two such
models are told apart by nothing that the comparator reads, so the order of the
candidates, and candidates that stand behind, matter only among ids that
`localeCompare` takes for equal.
-/

namespace InterviewPrep.ModelRouting.TypeScript

variable {N : Type*} [LinearOrder N] [Difference N]

/-- Not behind in the preferences, and not behind by id where all preferences tie. -/
def NotBehind (localeCompare : String → String → ℤ) (p : List String)
    (a b : ModelCandidate N) : Prop :=
  preferenceValues p a ≤ preferenceValues p b ∧
    (preferenceValues p a = preferenceValues p b → localeCompare a.id b.id ≤ 0)

/-- An eligible candidate that no eligible one stands in front of. -/
structure Best (localeCompare : String → String → ℤ) (request : RouteRequest N)
    (candidates : List (ModelCandidate N)) (p : List String) (model : ModelCandidate N) :
    Prop where
  mem : model ∈ candidates
  eligible : Eligible request model
  first : ∀ m ∈ candidates, Eligible request m → NotBehind localeCompare p model m

/-- The decision on a list of candidates. -/
structure Decides (localeCompare : String → String → ℤ) (request : RouteRequest N)
    (candidates : List (ModelCandidate N)) (p : List String) : Prop where
  invalid_policy : chooseModel localeCompare request candidates p = .failed .invalid_policy ↔
    ¬ p.Perm preferences
  no_eligible_model : p.Perm preferences →
    (chooseModel localeCompare request candidates p = .failed .no_eligible_model ↔
      ∀ m ∈ candidates, ¬ Eligible request m)
  best : p.Perm preferences → (∃ m ∈ candidates, Eligible request m) →
    ∃ model, chooseModel localeCompare request candidates p = .ok model.id p ∧
      Best localeCompare request candidates p model
  /-- other candidates, in whatever order, change nothing if they are ineligible or stand
  behind what was chosen -/
  stable : ∀ others more,
    (∀ m ∈ others, Eligible request m → ∀ model, Best localeCompare request candidates p model →
      ¬ NotBehind localeCompare p m model) →
    more.Perm (candidates ++ others) →
    ∀ id, chooseModel localeCompare request candidates p = .ok id p →
      ∃ id', chooseModel localeCompare request more p = .ok id' p ∧ localeCompare id id' = 0

section Decision

variable {localeCompare : String → String → ℤ} {request : RouteRequest N}
  {candidates candidates' : List (ModelCandidate N)} {p : List String}
  {a b model : ModelCandidate N}

/-- The comparator's order. -/
theorem compareModels_le_iff_notBehind :
    compareModels localeCompare a b p ≤ 0 ↔ NotBehind localeCompare p a b := by
  rw [compareModels_le_iff, NotBehind]
  constructor
  · rintro (hlt | ⟨heq, hle⟩)
    · exact ⟨le_of_lt hlt, fun heq => absurd heq (ne_of_lt hlt)⟩
    · exact ⟨le_of_eq heq, fun _ => hle⟩
  · rintro ⟨hle, htie⟩
    rcases lt_or_eq_of_le hle with hlt | heq
    · exact Or.inl hlt
    · exact Or.inr ⟨heq, htie heq⟩

theorem NotBehind.total (hlocale : Collation localeCompare) (p : List String)
    (a b : ModelCandidate N) : NotBehind localeCompare p a b ∨ NotBehind localeCompare p b a := by
  simp only [← compareModels_le_iff_notBehind]
  exact compareModels_total hlocale a b

/-- Neither of two stands in front of the other: the comparator cannot tell them apart. -/
theorem NotBehind.tie (hlocale : Collation localeCompare) (hab : NotBehind localeCompare p a b)
    (hba : NotBehind localeCompare p b a) : localeCompare a.id b.id = 0 := by
  -- equal preferences: only the ids are left
  have hvalues := le_antisymm hab.1 hba.1
  have hle := hab.2 hvalues
  have hge := hba.2 hvalues.symm
  have hneg := hlocale.neg_iff a.id b.id
  omega

theorem Best.unique (hlocale : Collation localeCompare)
    (ha : Best localeCompare request candidates p a)
    (hb : Best localeCompare request candidates p b) : localeCompare a.id b.id = 0 :=
  (ha.first b hb.mem hb.eligible).tie hlocale (hb.first a ha.mem ha.eligible)

/-- The first of the ranked candidates is the best. -/
theorem best_ranked_head (hlocale : Collation localeCompare)
    (hne : ranked localeCompare p (candidates.filter (satisfies request)) ≠ []) :
    Best localeCompare request candidates p
      ((ranked localeCompare p (candidates.filter (satisfies request))).head hne) := by
  have hmem : ∀ x, x ∈ candidates.filter (satisfies request) ↔
      x ∈ candidates ∧ Eligible request x := fun x => by
    rw [List.mem_filter, satisfies_iff]
  have hhead := (hmem _).mp ((List.mem_insertionSort _).mp (List.head_mem hne))
  refine ⟨hhead.1, hhead.2, ?_⟩
  intro m hm heligible
  -- the sorted list starts with one that stands behind none
  have hsorted : (ranked localeCompare p (candidates.filter (satisfies request))).Pairwise
      fun a b => compareModels localeCompare a b p ≤ 0 :=
    StableSort.pairwise_insertionSort (fun a _ b _ => compareModels_total hlocale a b)
      (fun a _ b _ c _ => compareModels_trans hlocale)
  have hrefl : ∀ x : ModelCandidate N, compareModels localeCompare x x p ≤ 0 := fun x =>
    (compareModels_total hlocale x x).elim id id
  rw [← compareModels_le_iff_notBehind]
  exact rel_head_of_pairwise hsorted hrefl hne
    ((List.mem_insertionSort _).mpr ((hmem m).mpr ⟨hm, heligible⟩))

/-- Where a candidate is eligible, the best one is chosen. -/
theorem exists_best (hlocale : Collation localeCompare) (hpolicy : p.Perm preferences)
    (hsome : ∃ m ∈ candidates, Eligible request m) :
    ∃ model, chooseModel localeCompare request candidates p = .ok model.id p ∧
      Best localeCompare request candidates p model := by
  rcases chooseModel_cases localeCompare request candidates p with ⟨hnot, -⟩ | ⟨-, hnone, -⟩ |
    ⟨-, hne, he⟩
  · exact absurd hpolicy hnot
  · rcases hsome with ⟨m, hm, heligible⟩
    exact absurd heligible (hnone m hm)
  · exact ⟨_, he, best_ranked_head hlocale hne⟩

/-- A choice is the best candidate's. -/
theorem best_of_ok (hlocale : Collation localeCompare) {id : String} {q : List String}
    (h : chooseModel localeCompare request candidates p = .ok id q) :
    p.Perm preferences ∧ ∃ model, Best localeCompare request candidates p model ∧
      model.id = id := by
  rcases chooseModel_cases localeCompare request candidates p with ⟨-, he⟩ | ⟨-, -, he⟩ |
    ⟨hpolicy, hne, he⟩
  · rw [he] at h
    cases h
  · rw [he] at h
    cases h
  · rw [he] at h
    cases h
    exact ⟨hpolicy, _, best_ranked_head hlocale hne, rfl⟩

/-- What was best stays best beside candidates that do not stand in front of it. -/
theorem Best.mono (h : Best localeCompare request candidates p model)
    (hsub : ∀ m, m ∈ candidates → m ∈ candidates')
    (hnew : ∀ m ∈ candidates', m ∉ candidates → Eligible request m →
      NotBehind localeCompare p model m) :
    Best localeCompare request candidates' p model := by
  refine ⟨hsub model h.mem, h.eligible, ?_⟩
  intro m hm heligible
  by_cases hold : m ∈ candidates
  · exact h.first m hold heligible
  · exact hnew m hm hold heligible

/-- **The decision.** For every consistent `localeCompare`, request, candidate list (ids
repeated or not) and preference list. -/
theorem chooseModel_decides (hlocale : Collation localeCompare) (request : RouteRequest N)
    (candidates : List (ModelCandidate N)) (p : List String) :
    Decides localeCompare request candidates p := by
  refine ⟨?_, ?_, fun hpolicy hsome => exists_best hlocale hpolicy hsome, ?_⟩
  · rcases chooseModel_cases localeCompare request candidates p with ⟨hnot, he⟩ | ⟨hp, -, he⟩ |
      ⟨hp, hne, he⟩
    · exact ⟨fun _ => hnot, fun _ => he⟩
    · rw [he]
      exact ⟨fun h => (by cases h), fun hnot => absurd hp hnot⟩
    · rw [he]
      exact ⟨fun h => (by cases h), fun hnot => absurd hp hnot⟩
  · intro hpolicy
    rcases chooseModel_cases localeCompare request candidates p with ⟨hnot, -⟩ | ⟨-, hnone, he⟩ |
      ⟨-, hne, he⟩
    · exact absurd hpolicy hnot
    · exact ⟨fun _ => hnone, fun _ => he⟩
    · rw [he]
      refine ⟨fun h => (by cases h), fun hnone => ?_⟩
      have hbest := best_ranked_head hlocale hne
      exact absurd hbest.eligible (hnone _ hbest.mem)
  · intro others more hothers hmore id hid
    rcases best_of_ok hlocale hid with ⟨hpolicy, model, hmodel, rfl⟩
    have hmem : ∀ m, m ∈ more ↔ m ∈ candidates ∨ m ∈ others := fun m => by
      rw [hmore.mem_iff, List.mem_append]
    -- what was chosen is the best of all of them, and so ties with what is chosen now
    have hmodel' : Best localeCompare request more p model := by
      refine hmodel.mono (fun m hm => (hmem m).mpr (Or.inl hm)) ?_
      intro m hm hnew heligible
      have hm' := ((hmem m).mp hm).resolve_left hnew
      exact (NotBehind.total hlocale p m model).resolve_left
        (hothers m hm' heligible model hmodel)
    rcases exists_best hlocale hpolicy ⟨model, hmodel'.mem, hmodel'.eligible⟩ with
      ⟨model', he, hbest⟩
    exact ⟨model'.id, he, hmodel'.unique hlocale hbest⟩

end Decision

/-- `B` is removed from the question's example, and `A` stays the choice. -/
theorem chooseModel_decides_question :
    Collation (compareKeys letterKey) ∧
    chooseModel (compareKeys letterKey) request₀ [modelA] preferences = .ok "A" preferences ∧
    ∃ id, chooseModel (compareKeys letterKey) request₀ [modelB, modelA] preferences =
      .ok id preferences ∧ compareKeys letterKey "A" id = 0 := by
  have hlocale := collation_compareKeys letterKey
  have hA : chooseModel (compareKeys letterKey) request₀ [modelA] preferences =
      .ok "A" preferences := rfl
  refine ⟨hlocale, hA, ?_⟩
  refine (chooseModel_decides hlocale request₀ [modelA] preferences).stable [modelB]
    [modelB, modelA] ?_ (List.Perm.swap _ _ _) "A" hA
  intro m hm _ model hmodel hbehind
  rw [List.mem_singleton.mp hm, List.mem_singleton.mp hmodel.mem] at hbehind
  exact absurd hbehind.1 (by decide +kernel)

end InterviewPrep.ModelRouting.TypeScript
