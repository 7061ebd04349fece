import Mathlib.Algebra.Order.Group.Int
import InterviewPrep.ModelRouting.Model

/-!
# What `choose_model` decides

The policy test accepts the permutations of the three preferences
(`invalidPolicy_iff`), the loop keeps the candidates that satisfy all
constraints (`satisfies_iff`), and the sort key compares preference by
preference (`sort_key_le_iff`). The chosen candidate is the least one
(`choose_model_cases`), from which the two-run laws follow: its key depends only
on which candidates are eligible, not on their order, nor on worse ones.
-/

namespace InterviewPrep.ModelRouting

/-! ## The policy -/

/-- The three preferences. -/
def preferences : List String := ["quality", "cost", "latency"]

/-- Three preferences of which none is missing. -/
theorem perm_preferences {p : List String} (hlength : p.length = 3) (hq : "quality" ∈ p)
    (hc : "cost" ∈ p) (hl : "latency" ∈ p) : p.Perm preferences := by
  have hsub : preferences ⊆ p := by
    intro x hx
    simp only [preferences, List.mem_cons, List.not_mem_nil, or_false] at hx
    rcases hx with rfl | rfl | rfl
    · exact hq
    · exact hc
    · exact hl
  have hsubperm : List.Subperm preferences p := List.subperm_of_subset (by decide) hsub
  exact (hsubperm.perm_of_length_le (by simp [preferences, hlength])).symm

/-- A list that holds each preference once and nothing else permutes them. -/
theorem invalidPolicy_iff (p : List String) :
    invalidPolicy p = true ↔ ¬ p.Perm preferences := by
  constructor
  · intro h hperm
    have hq := hperm.count_eq "quality"
    have hc := hperm.count_eq "cost"
    have hl := hperm.count_eq "latency"
    have hlength := hperm.length_eq
    simp [invalidPolicy, hq, hc, hl, hlength, preferences] at h
  · intro hnot
    by_contra hvalid
    simp only [invalidPolicy, ne_eq, decide_not, Bool.or_eq_true, Bool.not_eq_true',
      decide_eq_false_iff_not, not_or, not_not] at hvalid
    rcases hvalid with ⟨⟨⟨hq, hc⟩, hl⟩, hlength⟩
    have hmem : ∀ x, p.count x = 1 → x ∈ p := fun x hx => List.count_pos_iff.mp (by omega)
    exact hnot (perm_preferences hlength (hmem _ hq) (hmem _ hc) (hmem _ hl))

theorem valid_of_perm {p : List String} (hpolicy : p.Perm preferences) :
    ¬ invalidPolicy p = true := by
  rw [invalidPolicy_iff, not_not]
  exact hpolicy

/-! ## The constraints -/

section Choice

variable {N : Type*} [LinearOrder N]

/-- The hard constraints of a request. -/
structure Eligible (request : RouteRequest N) (model : ModelCandidate N) : Prop where
  healthy : model.healthy = true
  tenant : request.tenant_id ∈ model.allowed_tenants
  region : request.region ∈ model.regions
  capabilities : request.required_capabilities ⊆ model.capabilities
  context : request.context_tokens ≤ model.max_context_tokens
  cost : model.estimated_cost_usd ≤ request.max_cost_usd
  latency : model.estimated_latency_ms ≤ request.max_latency_ms

theorem satisfies_iff (request : RouteRequest N) (model : ModelCandidate N) :
    satisfies request model = true ↔ Eligible request model := by
  constructor
  · intro h
    unfold satisfies at h
    split_ifs at h with h₁ h₂ h₃ h₄ h₅ h₆ h₇
    exact ⟨by simpa using h₁, h₂, h₃, h₄, not_lt.mp h₅, not_lt.mp h₆, not_lt.mp h₇⟩
  · rintro ⟨h₁, h₂, h₃, h₄, h₅, h₆, h₇⟩
    simp [satisfies, h₁, h₂, h₃, h₄, not_lt.mpr h₅, not_lt.mpr h₆, not_lt.mpr h₇]

/-- The loop keeps no candidate exactly if none is eligible. -/
theorem filter_satisfies_eq_nil_iff {request : RouteRequest N}
    {candidates : List (ModelCandidate N)} :
    candidates.filter (satisfies request) = [] ↔ ∀ m ∈ candidates, ¬ Eligible request m := by
  simp only [List.filter_eq_nil_iff, satisfies_iff]

/-! ## The key -/

variable [Numeric N]

/-- `a` is at least as good as `b`: better in the first preference in which they
differ, or equal in all and first by id. -/
def NotWorse : List String → ModelCandidate N → ModelCandidate N → Prop
  | [], a, b => a.id ≤ b.id
  | preference :: rest, a, b =>
    if preference = "quality" then
      b.quality_score < a.quality_score ∨
        (a.quality_score = b.quality_score ∧ NotWorse rest a b)
    else if preference = "cost" then
      a.estimated_cost_usd < b.estimated_cost_usd ∨
        (a.estimated_cost_usd = b.estimated_cost_usd ∧ NotWorse rest a b)
    else if preference = "latency" then
      a.estimated_latency_ms < b.estimated_latency_ms ∨
        (a.estimated_latency_ms = b.estimated_latency_ms ∧ NotWorse rest a b)
    else NotWorse rest a b

theorem neg_lt_neg_iff' (a b : N) : -a < -b ↔ b < a := by
  rw [← not_le, ← not_le, Numeric.neg_le_neg_iff]

theorem neg_inj' (a b : N) : -a = -b ↔ a = b := by
  rw [le_antisymm_iff, le_antisymm_iff, Numeric.neg_le_neg_iff, Numeric.neg_le_neg_iff,
    and_comm]

omit [Numeric N] in
/-- Tuples are compared at their first difference. -/
theorem tuple_cons_le (x y : N) (xs ys : List N) (i j : String) :
    toLex (x :: xs, i) ≤ toLex (y :: ys, j) ↔
      x < y ∨ (x = y ∧ toLex (xs, i) ≤ toLex (ys, j)) := by
  rw [Prod.Lex.toLex_le_toLex, Prod.Lex.toLex_le_toLex, List.cons_lt_cons_iff, List.cons.injEq]
  tauto

theorem sort_key_le_iff (p : List String) (a b : ModelCandidate N) :
    sort_key p a ≤ sort_key p b ↔ NotWorse p a b := by
  induction p with
  | nil => simp [sort_key, NotWorse, Prod.Lex.toLex_le_toLex]
  | cons preference p ih =>
    unfold NotWorse
    unfold sort_key at ih ⊢
    simp only [List.flatMap_cons]
    split
    · rw [List.singleton_append, List.singleton_append, tuple_cons_le, neg_lt_neg_iff',
        neg_inj', ih]
    · split
      · rw [List.singleton_append, List.singleton_append, tuple_cons_le, ih]
      · split
        · rw [List.singleton_append, List.singleton_append, tuple_cons_le, ih]
        · rw [List.nil_append, List.nil_append, ih]

/-! ## The decision -/

variable {request : RouteRequest N} {candidates candidates' : List (ModelCandidate N)}
  {p : List String}

omit [LinearOrder N] [Numeric N] in
theorem rel_head_of_pairwise {r : ModelCandidate N → ModelCandidate N → Prop}
    {models : List (ModelCandidate N)} (h : models.Pairwise r) (hrefl : ∀ m, r m m)
    (hne : models ≠ []) {m : ModelCandidate N} (hm : m ∈ models) : r (models.head hne) m := by
  cases models with
  | nil => exact absurd rfl hne
  | cons first rest =>
    rw [List.pairwise_cons] at h
    rcases List.mem_cons.mp hm with rfl | hm
    · exact hrefl m
    · exact h.1 m hm

/-- The first of the sorted candidates is the least. -/
theorem sortedModels_head_le {models : List (ModelCandidate N)} (h : models ≠ [])
    {m : ModelCandidate N} (hm : m ∈ models) :
    sort_key p ((sortedModels p models).head (sortedModels_ne_nil p h)) ≤ sort_key p m := by
  have hsorted : (sortedModels p models).Pairwise (fun a b => sort_key p a ≤ sort_key p b) := by
    have htotal : Std.Total (fun a b : ModelCandidate N => sort_key p a ≤ sort_key p b) :=
      ⟨fun a b => le_total _ _⟩
    have htrans : IsTrans (ModelCandidate N) (fun a b => sort_key p a ≤ sort_key p b) :=
      ⟨fun a b c => le_trans⟩
    exact List.pairwise_insertionSort _ _
  have hmem : m ∈ sortedModels p models := (sortedModels_perm p models).mem_iff.mpr hm
  exact rel_head_of_pairwise hsorted (fun _ => le_refl _) _ hmem

/-- The three decisions. -/
theorem choose_model_cases (request : RouteRequest N) (candidates : List (ModelCandidate N))
    (p : List String) :
    (¬ p.Perm preferences ∧ choose_model request candidates p = .failed .invalid_policy) ∨
    (p.Perm preferences ∧ (∀ m ∈ candidates, ¬ Eligible request m) ∧
      choose_model request candidates p = .failed .no_eligible_model) ∨
    (∃ chosen, p.Perm preferences ∧ chosen ∈ candidates ∧ Eligible request chosen ∧
      (∀ m ∈ candidates, Eligible request m → sort_key p chosen ≤ sort_key p m) ∧
      choose_model request candidates p = .ok chosen p) := by
  unfold choose_model
  by_cases hpolicy : p.Perm preferences
  · rw [if_neg (valid_of_perm hpolicy)]
    right
    by_cases hnone : candidates.filter (satisfies request) = []
    · left
      exact ⟨hpolicy, filter_satisfies_eq_nil_iff.mp hnone, by simp [hnone]⟩
    · right
      have hchosen := (sortedModels_perm p (candidates.filter (satisfies request))).mem_iff.mp
        (List.head_mem (sortedModels_ne_nil p hnone))
      rw [List.mem_filter, satisfies_iff] at hchosen
      refine ⟨_, hpolicy, hchosen.1, hchosen.2, ?_, by simp [hnone]⟩
      intro m hm heligible
      refine sortedModels_head_le hnone (List.mem_filter.mpr ⟨hm, ?_⟩)
      exact (satisfies_iff request m).mpr heligible
  · left
    refine ⟨hpolicy, ?_⟩
    rw [if_pos ((invalidPolicy_iff p).mpr hpolicy)]

/-- The key of the chosen candidate. -/
def RouteResult.key (p : List String) : RouteResult N → Option (List N ×ₗ String)
  | .failed _ => none
  | .ok model _ => some (sort_key p model)

/-- A candidate that is eligible and has the least key gives the key of the
decision. -/
theorem key_of_least (hpolicy : p.Perm preferences) {m : ModelCandidate N}
    (hm : m ∈ candidates) (heligible : Eligible request m)
    (hleast : ∀ x ∈ candidates, Eligible request x → sort_key p m ≤ sort_key p x) :
    (choose_model request candidates p).key p = some (sort_key p m) := by
  rcases choose_model_cases request candidates p with ⟨hnot, -⟩ | ⟨-, hnone, -⟩ |
    ⟨chosen, -, hchosen, hok, hmin, he⟩
  · exact absurd hpolicy hnot
  · exact absurd heligible (hnone m hm)
  · rw [he, RouteResult.key, Option.some.injEq]
    exact le_antisymm (hmin m hm heligible) (hleast chosen hchosen hok)

/-- The decision has a key when a candidate was chosen. -/
theorem exists_of_key {k : List N ×ₗ String}
    (h : (choose_model request candidates p).key p = some k) :
    ∃ chosen, p.Perm preferences ∧ chosen ∈ candidates ∧ Eligible request chosen ∧
      (∀ m ∈ candidates, Eligible request m → sort_key p chosen ≤ sort_key p m) ∧
      k = sort_key p chosen := by
  rcases choose_model_cases request candidates p with ⟨-, he⟩ | ⟨-, -, he⟩ |
    ⟨chosen, hpolicy, hchosen, hok, hmin, he⟩ <;> rw [he] at h
  · simp [RouteResult.key] at h
  · simp [RouteResult.key] at h
  · rw [RouteResult.key, Option.some.injEq] at h
    exact ⟨chosen, hpolicy, hchosen, hok, hmin, h.symm⟩

/-- Candidates that are ineligible or have a larger key do not matter: where the
other candidates are the same, the key is. -/
theorem key_of_same {k : List N ×ₗ String}
    (h : (choose_model request candidates p).key p = some k)
    (hsame : ∀ m, Eligible request m → sort_key p m ≤ k → (m ∈ candidates ↔ m ∈ candidates')) :
    (choose_model request candidates' p).key p = some k := by
  obtain ⟨chosen, hpolicy, hchosen, hok, hmin, rfl⟩ := exists_of_key h
  refine key_of_least hpolicy ((hsame chosen hok (le_refl _)).mp hchosen) hok ?_
  intro x hx heligible
  rcases le_total (sort_key p chosen) (sort_key p x) with hle | hle
  · exact hle
  · exact hmin x ((hsame x heligible hle).mpr hx) heligible

/-- **The decision.** For every request, candidate list and preference list:
`invalid_policy` is answered iff the list does not permute the preferences, and
else `no_eligible_model` iff no candidate satisfies all constraints; else the
chosen candidate satisfies them and is not worse than any that does. Its key is
the same for every order of the candidates, and stays when candidates that are
ineligible or have a larger key are added or removed. -/
theorem choose_model_decides (request : RouteRequest N) (candidates : List (ModelCandidate N))
    (p : List String) :
    (choose_model request candidates p = .failed .invalid_policy ↔ ¬ p.Perm preferences) ∧
    (p.Perm preferences → (choose_model request candidates p = .failed .no_eligible_model ↔
      ∀ m ∈ candidates, ¬ Eligible request m)) ∧
    (p.Perm preferences → (∃ m ∈ candidates, Eligible request m) →
      ∃ chosen, choose_model request candidates p = .ok chosen p ∧ chosen ∈ candidates ∧
        Eligible request chosen ∧ (∀ m ∈ candidates, Eligible request m →
          sort_key p chosen ≤ sort_key p m ∧ NotWorse p chosen m)) ∧
    (∀ candidates', candidates'.Perm candidates →
      (choose_model request candidates' p).key p = (choose_model request candidates p).key p) ∧
    (∀ k others more, (choose_model request candidates p).key p = some k →
      (∀ m ∈ others, ¬ Eligible request m ∨ k < sort_key p m) →
      more.Perm (candidates ++ others) →
      (choose_model request more p).key p = some k) ∧
    (∀ k others fewer, (choose_model request candidates p).key p = some k →
      (∀ m ∈ others, ¬ Eligible request m ∨ k < sort_key p m) →
      candidates.Perm (fewer ++ others) →
      (choose_model request fewer p).key p = some k) := by
  have hperm : ∀ l l' : List (ModelCandidate N), l'.Perm l → ∀ k,
      (choose_model request l p).key p = some k →
      (choose_model request l' p).key p = some k :=
    fun l l' hll k hk => key_of_same hk (fun m _ _ => hll.mem_iff.symm)
  have hextra : ∀ (k : List N ×ₗ String) (l others : List (ModelCandidate N)),
      (∀ m ∈ others, ¬ Eligible request m ∨ k < sort_key p m) →
      ∀ m, Eligible request m → sort_key p m ≤ k → (m ∈ l ↔ m ∈ l ++ others) := by
    intro k l others hothers m heligible hle
    rw [List.mem_append]
    refine ⟨Or.inl, fun h => h.resolve_right fun hm => ?_⟩
    rcases hothers m hm with hnot | hlt
    · exact hnot heligible
    · exact absurd hle (not_le.mpr hlt)
  refine ⟨?_, ?_, ?_, ?_, ?_, ?_⟩
  · rcases choose_model_cases request candidates p with ⟨hnot, he⟩ | ⟨hp, -, he⟩ |
      ⟨chosen, hp, -, -, -, he⟩ <;> rw [he]
    · simp [hnot]
    · simp [hp]
    · simp [hp]
  · intro hpolicy
    rcases choose_model_cases request candidates p with ⟨hnot, -⟩ | ⟨-, hnone, he⟩ |
      ⟨chosen, -, hchosen, hok, -, he⟩
    · exact absurd hpolicy hnot
    · rw [he]
      exact ⟨fun _ => hnone, fun _ => rfl⟩
    · rw [he]
      simp only [reduceCtorEq, false_iff, not_forall, not_not]
      exact ⟨chosen, hchosen, hok⟩
  · rintro hpolicy ⟨m, hm, heligible⟩
    rcases choose_model_cases request candidates p with ⟨hnot, -⟩ | ⟨-, hnone, -⟩ |
      ⟨chosen, -, hchosen, hok, hmin, he⟩
    · exact absurd hpolicy hnot
    · exact absurd heligible (hnone m hm)
    · refine ⟨chosen, he, hchosen, hok, fun x hx hxe => ?_⟩
      exact ⟨hmin x hx hxe, (sort_key_le_iff p chosen x).mp (hmin x hx hxe)⟩
  · intro candidates' hcand
    cases hk : (choose_model request candidates p).key p with
    | some k => exact hperm _ _ hcand k hk
    | none =>
      cases hk' : (choose_model request candidates' p).key p with
      | none => rfl
      | some k =>
        rw [hperm _ _ hcand.symm k hk'] at hk
        simp at hk
  · intro k others more hk hothers hmore
    exact hperm _ _ hmore k (key_of_same hk (hextra k candidates others hothers))
  · intro k others fewer hk hothers hfewer
    have hmore := hperm _ _ hfewer.symm k hk
    exact key_of_same hmore (fun m he hle => (hextra k fewer others hothers m he hle).symm)

end Choice

/-! ### The question's example -/

def request₀ : RouteRequest ℤ := ⟨"acme", "eu", {"tools"}, 1000, 50, 1000⟩

def modelA : ModelCandidate ℤ := ⟨"A", true, {"acme"}, {"eu"}, {"tools"}, 8000, 30, 900, 90⟩

def modelB : ModelCandidate ℤ := ⟨"B", true, {"acme"}, {"eu"}, {"tools"}, 8000, 10, 400, 88⟩

/-- `A` has the higher quality, whichever comes first. -/
theorem choose_model_decides_question :
    (choose_model request₀ [modelA, modelB] preferences).key preferences =
      some (sort_key preferences modelA) ∧
    (choose_model request₀ [modelB, modelA] preferences).key preferences =
      some (sort_key preferences modelA) := by
  have hdecides := choose_model_decides request₀ [modelA, modelB] preferences
  have hA : (choose_model request₀ [modelA, modelB] preferences).key preferences =
      some (sort_key preferences modelA) := by decide +kernel
  refine ⟨hA, ?_⟩
  rw [hdecides.2.2.2.1 [modelB, modelA] (List.Perm.swap _ _ _), hA]

end InterviewPrep.ModelRouting
