import Mathlib.Data.Sign.Basic
import InterviewPrep.Lib.StableSort
import InterviewPrep.ModelRouting.Choice

/-!
# The TypeScript router

`chooseModel` of `technical/model_router_decision_function/answer.ts`. It filters
by the same constraints in the same order as `choose_model`, so both models share
`satisfies`, and sorts by a comparator, of which `sort` reads the sign. Where all
preferences tie, the comparator asks `localeCompare`, which is a parameter:
`Collation` is what its documentation promises.

`same_decision_iff` says when both routers decide the same. The comparator orders
by the preferences as the sort key does (`compareModels_le_iff`), so they can
differ on complete ties only.
-/

namespace InterviewPrep.ModelRouting

/-! ## The program -/

/-- Numbers that are subtracted to compare them; equal ones are not. -/
class Difference (N : Type*) [LinearOrder N] extends Numeric N, Sub N, Zero N where
  sub_le_zero_iff {a b : N} : a ≠ b → (a - b ≤ 0 ↔ a ≤ b)

scoped instance {N : Type*} [AddCommGroup N] [LinearOrder N] [IsOrderedAddMonoid N] :
    Difference N where
  sub_le_zero_iff _ := sub_nonpos

/-- A consistent comparator of strings. -/
structure Collation (localeCompare : String → String → ℤ) : Prop where
  neg_iff : ∀ a b, localeCompare a b < 0 ↔ 0 < localeCompare b a
  trans : ∀ a b c, localeCompare a b ≤ 0 → localeCompare b c ≤ 0 → localeCompare a c ≤ 0

namespace TypeScript

inductive RouteResult where
  | failed (code : Code)
  | ok (modelId : String) (preferenceOrder : List String)

/-- The policy is rejected. -/
def invalidPolicy (preferenceOrder : List String) : Bool :=
  preferenceOrder.length ≠ 3 || preferenceOrder.toFinset.card ≠ 3 ||
    !preferenceOrder.contains "quality" || !preferenceOrder.contains "cost" ||
    !preferenceOrder.contains "latency"

/-- The sign of a comparator's result. -/
def sign {M : Type*} [LT M] [DecidableLT M] [Zero M] (x : M) : SignType :=
  if x < 0 then -1 else if 0 < x then 1 else 0

section Program

variable {N : Type*} [LinearOrder N] [Difference N]

/-- One round of the comparator's loop, if it returns. -/
def comparePreference (preference : String) (a b : ModelCandidate N) : Option SignType :=
  if preference = "quality" ∧ a.quality_score ≠ b.quality_score then
    some (sign (b.quality_score - a.quality_score))
  else if preference = "cost" ∧ a.estimated_cost_usd ≠ b.estimated_cost_usd then
    some (sign (a.estimated_cost_usd - b.estimated_cost_usd))
  else if preference = "latency" ∧ a.estimated_latency_ms ≠ b.estimated_latency_ms then
    some (sign (a.estimated_latency_ms - b.estimated_latency_ms))
  else none

variable (localeCompare : String → String → ℤ)

/-- The sign of the comparator. -/
def compareModels (a b : ModelCandidate N) : List String → SignType
  | [] => sign (localeCompare a.id b.id)
  | preference :: rest => (comparePreference preference a b).getD (compareModels a b rest)

/-- `[...eligible].sort(..)`, which is stable. -/
def ranked (preferenceOrder : List String) (eligible : List (ModelCandidate N)) :
    List (ModelCandidate N) :=
  eligible.insertionSort fun a b => compareModels localeCompare a b preferenceOrder ≤ 0

theorem ranked_ne_nil (preferenceOrder : List String) {eligible : List (ModelCandidate N)}
    (h : eligible ≠ []) : ranked localeCompare preferenceOrder eligible ≠ [] :=
  StableSort.insertionSort_ne_nil _ h

/-- `chooseModel` -/
def chooseModel (request : RouteRequest N) (candidates : List (ModelCandidate N))
    (preferenceOrder : List String) : RouteResult :=
  if invalidPolicy preferenceOrder then .failed .invalid_policy
  else
    let eligible := candidates.filter (satisfies request)
    if h : eligible = [] then .failed .no_eligible_model
    else
      .ok ((ranked localeCompare preferenceOrder eligible).head
        (ranked_ne_nil localeCompare preferenceOrder h)).id preferenceOrder

end Program

/-- Both policy tests accept the permutations of the three preferences. -/
theorem invalidPolicy_eq (p : List String) : invalidPolicy p = ModelRouting.invalidPolicy p := by
  rw [Bool.eq_iff_iff, ModelRouting.invalidPolicy_iff]
  constructor
  · intro h hperm
    have hset : p.toFinset = preferences.toFinset := List.toFinset_eq_of_perm _ _ hperm
    have hlength : p.length = 3 := hperm.length_eq
    have hcard : p.toFinset.card = 3 := by
      rw [hset]
      decide
    simp [invalidPolicy, hlength, hcard, hperm.mem_iff, preferences] at h
  · intro hnot
    by_contra hvalid
    simp only [invalidPolicy, ne_eq, decide_not, Bool.or_eq_true, Bool.not_eq_true',
      decide_eq_false_iff_not, not_or, not_not, Bool.not_eq_false, List.contains_iff_mem] at hvalid
    rcases hvalid with ⟨⟨⟨⟨hlength, -⟩, hq⟩, hc⟩, hl⟩
    exact hnot (perm_preferences hlength hq hc hl)

end TypeScript

/-! ## The comparator -/

section Comparator

variable {N : Type*} [LinearOrder N] [Difference N]

/-- The values of the preferences in the sort key. -/
def preferenceValues (p : List String) (model : ModelCandidate N) : List N :=
  (ofLex (sort_key p model)).1

theorem sort_key_eq (p : List String) (model : ModelCandidate N) :
    sort_key p model = toLex (preferenceValues p model, model.id) :=
  rfl

omit [Difference N] in
/-- Values are compared at their first difference. -/
theorem values_cons_lt_or (x y : N) (xs ys : List N) (c : Prop) :
    (x :: xs < y :: ys ∨ (x :: xs = y :: ys ∧ c)) ↔
      x < y ∨ (x = y ∧ (xs < ys ∨ (xs = ys ∧ c))) := by
  rw [List.cons_lt_cons_iff, List.cons.injEq]
  tauto

theorem sign_le_zero_iff {M : Type*} [LinearOrder M] [Zero M] (x : M) :
    TypeScript.sign x ≤ 0 ↔ x ≤ 0 := by
  unfold TypeScript.sign
  rcases lt_trichotomy x 0 with hlt | heq | hgt
  · simp [hlt, le_of_lt hlt]
  · simp [heq]
  · simp [hgt, not_lt.mpr (le_of_lt hgt)]

/-- One round of the loop: the comparator returns the sign of a difference, or
the values are equal. -/
theorem sign_getD_le_zero_iff (x y : N) (d : SignType) :
    (if x ≠ y then some (TypeScript.sign (x - y)) else none).getD d ≤ 0 ↔
      x < y ∨ (x = y ∧ d ≤ 0) := by
  by_cases hxy : x = y
  · simp [hxy]
  · have hle : TypeScript.sign (x - y) ≤ 0 ↔ x ≤ y := by
      rw [sign_le_zero_iff, Difference.sub_le_zero_iff hxy]
    simp [hxy, hle, le_iff_lt_or_eq]

/-- The comparator orders by the preferences, as the sort key does, and then by
`localeCompare`. -/
theorem compareModels_le_iff (localeCompare : String → String → ℤ) (p : List String)
    (a b : ModelCandidate N) :
    TypeScript.compareModels localeCompare a b p ≤ 0 ↔
      preferenceValues p a < preferenceValues p b ∨
        (preferenceValues p a = preferenceValues p b ∧ localeCompare a.id b.id ≤ 0) := by
  induction p with
  | nil =>
    have hsign := sign_le_zero_iff (localeCompare a.id b.id)
    simp [TypeScript.compareModels, preferenceValues, sort_key, hsign]
  | cons preference p ih =>
    unfold TypeScript.compareModels TypeScript.comparePreference
    unfold preferenceValues sort_key at ih ⊢
    simp only [List.flatMap_cons, ofLex_toLex] at ih ⊢
    by_cases hquality : preference = "quality"
    · subst hquality
      have hcomm : a.quality_score ≠ b.quality_score ↔ b.quality_score ≠ a.quality_score := ne_comm
      simp only [true_and, String.reduceEq, false_and, if_false, if_true, List.singleton_append]
      rw [values_cons_lt_or, neg_lt_neg_iff', neg_inj', ← ih]
      simp only [hcomm, sign_getD_le_zero_iff, eq_comm]
    · by_cases hcost : preference = "cost"
      · subst hcost
        simp only [true_and, String.reduceEq, false_and, if_false, if_true, List.singleton_append]
        rw [values_cons_lt_or, ← ih, sign_getD_le_zero_iff]
      · by_cases hlatency : preference = "latency"
        · subst hlatency
          simp only [true_and, String.reduceEq, false_and, if_false, if_true,
            List.singleton_append]
          rw [values_cons_lt_or, ← ih, sign_getD_le_zero_iff]
        · simp only [hquality, hcost, hlatency, false_and, if_false, List.nil_append,
            Option.getD_none]
          exact ih

end Comparator

/-! ## The two decisions -/

section Decision

variable {N : Type*}

/-- What a decision says: a code or the id of a model. -/
def RouteResult.decision : RouteResult N → Except Code String
  | .failed code => .error code
  | .ok model _ => .ok model.id

def TypeScript.RouteResult.decision : TypeScript.RouteResult → Except Code String
  | .failed code => .error code
  | .ok modelId _ => .ok modelId

variable [LinearOrder N] [Difference N]

/-- `model` is eligible and has the least sort key: the best preferences, and
among those that tie with it the smallest id. -/
structure Least (request : RouteRequest N) (candidates : List (ModelCandidate N))
    (p : List String) (model : ModelCandidate N) : Prop where
  mem : model ∈ candidates
  eligible : Eligible request model
  le : ∀ x ∈ candidates, Eligible request x → sort_key p model ≤ sort_key p x

/-- The complete ties with the least candidate are broken in its favour. -/
def TiesBroken (request : RouteRequest N) (candidates : List (ModelCandidate N)) (p : List String)
    (before : ModelCandidate N → ModelCandidate N → Prop) : Prop :=
  p.Perm preferences → ∀ model, Least request candidates p model →
    ∀ x ∈ candidates, Eligible request x → preferenceValues p x = preferenceValues p model →
      x ≠ model → before model x

variable {localeCompare : String → String → ℤ} {request : RouteRequest N}
  {candidates candidates' : List (ModelCandidate N)} {p : List String}
  {a b chosen : ModelCandidate N}

/-- The three decisions. -/
theorem chooseModel_cases (localeCompare : String → String → ℤ) (request : RouteRequest N)
    (candidates : List (ModelCandidate N)) (p : List String) :
    (¬ p.Perm preferences ∧ TypeScript.chooseModel localeCompare request candidates p =
      .failed .invalid_policy) ∨
    (p.Perm preferences ∧ (∀ m ∈ candidates, ¬ Eligible request m) ∧
      TypeScript.chooseModel localeCompare request candidates p = .failed .no_eligible_model) ∨
    (p.Perm preferences ∧ ∃ hne, TypeScript.chooseModel localeCompare request candidates p =
      .ok ((TypeScript.ranked localeCompare p (candidates.filter (satisfies request))).head
        hne).id p) := by
  unfold TypeScript.chooseModel
  rw [TypeScript.invalidPolicy_eq]
  by_cases hpolicy : p.Perm preferences
  · rw [if_neg (valid_of_perm hpolicy)]
    right
    by_cases hnone : candidates.filter (satisfies request) = []
    · left
      exact ⟨hpolicy, filter_satisfies_eq_nil_iff.mp hnone, by simp [hnone]⟩
    · right
      exact ⟨hpolicy, TypeScript.ranked_ne_nil localeCompare p hnone, by simp [hnone]⟩
  · left
    exact ⟨hpolicy, by rw [if_pos ((invalidPolicy_iff p).mpr hpolicy)]⟩

/-- The values are compared before the ids. -/
theorem values_le (h : sort_key p a ≤ sort_key p b) :
    preferenceValues p a ≤ preferenceValues p b := by
  rw [sort_key_eq, sort_key_eq, Prod.Lex.toLex_le_toLex] at h
  rcases h with hlt | ⟨heq, -⟩
  · exact le_of_lt hlt
  · exact le_of_eq heq

omit [LinearOrder N] [Difference N] in
/-- Ids are distinct. -/
theorem eq_of_id (hids : (candidates.map ModelCandidate.id).Nodup) (ha : a ∈ candidates)
    (hb : b ∈ candidates) (h : a.id = b.id) : a = b :=
  List.inj_on_of_nodup_map hids ha hb h

theorem Least.unique (hids : (candidates.map ModelCandidate.id).Nodup)
    (ha : Least request candidates p a) (hb : Least request candidates p b) : a = b := by
  have hkey := le_antisymm (ha.le b hb.mem hb.eligible) (hb.le a ha.mem ha.eligible)
  rw [sort_key_eq, sort_key_eq] at hkey
  have hid : a.id = b.id := congrArg (fun key => (ofLex key).2) hkey
  exact eq_of_id hids ha.mem hb.mem hid

theorem compareModels_total (hlocale : Collation localeCompare) (a b : ModelCandidate N) :
    TypeScript.compareModels localeCompare a b p ≤ 0 ∨
      TypeScript.compareModels localeCompare b a p ≤ 0 := by
  rw [compareModels_le_iff, compareModels_le_iff]
  rcases lt_trichotomy (preferenceValues p a) (preferenceValues p b) with hlt | heq | hgt
  · exact Or.inl (Or.inl hlt)
  · rcases le_or_gt (localeCompare a.id b.id) 0 with hle | hpos
    · exact Or.inl (Or.inr ⟨heq, hle⟩)
    · have hneg := (hlocale.neg_iff b.id a.id).mpr hpos
      exact Or.inr (Or.inr ⟨heq.symm, le_of_lt hneg⟩)
  · exact Or.inr (Or.inl hgt)

theorem compareModels_trans (hlocale : Collation localeCompare) {a b c : ModelCandidate N}
    (hab : TypeScript.compareModels localeCompare a b p ≤ 0)
    (hbc : TypeScript.compareModels localeCompare b c p ≤ 0) :
    TypeScript.compareModels localeCompare a c p ≤ 0 := by
  rw [compareModels_le_iff] at hab hbc ⊢
  rcases hab with hab | ⟨hab, hlab⟩
  · rcases hbc with hbc | ⟨hbc, -⟩
    · exact Or.inl (lt_trans hab hbc)
    · exact Or.inl (hbc ▸ hab)
  · rcases hbc with hbc | ⟨hbc, hlbc⟩
    · exact Or.inl (hab ▸ hbc)
    · exact Or.inr ⟨hab.trans hbc, hlocale.trans a.id b.id c.id hlab hlbc⟩

/-- The comparator puts the least candidate before another one if it does not
tie with it, and else as `localeCompare` does. -/
theorem comparator_iff (hlocale : Collation localeCompare)
    (hle : preferenceValues p a ≤ preferenceValues p b) (c : Prop) :
    (TypeScript.compareModels localeCompare a b p ≤ 0 ∧
      (TypeScript.compareModels localeCompare b a p ≤ 0 → c)) ↔
    (preferenceValues p b = preferenceValues p a →
      localeCompare a.id b.id < 0 ∨ (localeCompare a.id b.id = 0 ∧ c)) := by
  have hback : ¬ preferenceValues p b < preferenceValues p a := not_lt.mpr hle
  have hneg := hlocale.neg_iff a.id b.id
  have hneg' := hlocale.neg_iff b.id a.id
  rw [compareModels_le_iff, compareModels_le_iff]
  rcases lt_or_eq_of_le hle with hlt | heq
  · simp [hlt, hback, ne_of_gt hlt]
  · simp only [heq, lt_irrefl, true_and, false_or, forall_const]
    constructor
    · rintro ⟨hab, hba⟩
      rcases lt_or_eq_of_le hab with hlt | hzero
      · exact Or.inl hlt
      · exact Or.inr ⟨hzero, hba (by omega)⟩
    · rintro (hlt | ⟨hzero, hc⟩)
      · exact ⟨le_of_lt hlt, fun hba => absurd (hneg.mp hlt) (not_lt.mpr hba)⟩
      · exact ⟨le_of_eq hzero, fun _ => hc⟩

omit [Difference N] in
/-- A pair stands in the list of the eligible candidates as it does in the
whole list. -/
theorem sublist_filter_iff (candidates : List (ModelCandidate N)) (ha : Eligible request a)
    (hb : Eligible request b) :
    [a, b].Sublist (candidates.filter (satisfies request)) ↔ [a, b].Sublist candidates := by
  constructor
  · exact fun h => h.trans List.filter_sublist
  · intro h
    have hfilter := h.filter (satisfies request)
    rwa [List.filter_eq_self.mpr] at hfilter
    intro m hm
    rw [satisfies_iff]
    simp only [List.mem_cons, List.not_mem_nil, or_false] at hm
    rcases hm with rfl | rfl
    · exact ha
    · exact hb

/-- The comparator ranks the least candidate first exactly if it breaks the ties
in its favour. -/
theorem ranked_head_iff (hlocale : Collation localeCompare)
    (hids : (candidates.map ModelCandidate.id).Nodup) (hpolicy : p.Perm preferences)
    (hleast : Least request candidates p chosen)
    (hne : TypeScript.ranked localeCompare p (candidates.filter (satisfies request)) ≠ []) :
    (TypeScript.ranked localeCompare p (candidates.filter (satisfies request))).head hne = chosen ↔
      TiesBroken request candidates p fun m x => localeCompare m.id x.id < 0 ∨
        (localeCompare m.id x.id = 0 ∧ [m, x].Sublist candidates) := by
  have hmem : ∀ x, x ∈ candidates.filter (satisfies request) ↔
      x ∈ candidates ∧ Eligible request x := by
    intro x
    rw [List.mem_filter, satisfies_iff]
  have hnodup : (candidates.filter (satisfies request)).Nodup := hids.of_map.filter _
  have hhead := StableSort.head_insertionSort_eq_iff hnodup
    (fun a _ b _ => compareModels_total (p := p) hlocale a b)
    (fun a _ b _ c _ => compareModels_trans (p := p) hlocale) hne
    ((hmem chosen).mpr ⟨hleast.mem, hleast.eligible⟩)
  refine hhead.trans ?_
  constructor
  · intro h _ model hmodel x hx heligible htie hxne
    rw [hmodel.unique hids hleast] at htie hxne ⊢
    have hle := values_le (hleast.le x hx heligible)
    have hpair := sublist_filter_iff candidates hleast.eligible heligible
    rw [← hpair]
    exact (comparator_iff hlocale hle _).mp (h x ((hmem x).mpr ⟨hx, heligible⟩) hxne) htie
  · intro h x hx hxne
    rcases (hmem x).mp hx with ⟨hx, heligible⟩
    have hle := values_le (hleast.le x hx heligible)
    have hpair := sublist_filter_iff candidates hleast.eligible heligible
    rw [hpair]
    exact (comparator_iff hlocale hle _).mpr fun htie =>
      h hpolicy chosen hleast x hx heligible htie hxne

/-- On one list. -/
theorem same_decision_here_iff (hlocale : Collation localeCompare)
    (hids : (candidates.map ModelCandidate.id).Nodup) :
    (TypeScript.chooseModel localeCompare request candidates p).decision =
        (choose_model request candidates p).decision ↔
      TiesBroken request candidates p fun m x => localeCompare m.id x.id < 0 ∨
        (localeCompare m.id x.id = 0 ∧ [m, x].Sublist candidates) := by
  rcases choose_model_cases request candidates p with ⟨hnot, he⟩ | ⟨hpolicy, hnone, he⟩ |
    ⟨chosen, hpolicy, hchosen, hok, hmin, he⟩
  · -- the policy is rejected
    rcases chooseModel_cases localeCompare request candidates p with ⟨-, he'⟩ | ⟨hpolicy, -⟩ |
      ⟨hpolicy, -⟩
    · rw [he, he']
      exact ⟨fun _ hpolicy => absurd hpolicy hnot, fun _ => rfl⟩
    · exact absurd hpolicy hnot
    · exact absurd hpolicy hnot
  · -- no candidate is eligible
    rcases chooseModel_cases localeCompare request candidates p with ⟨hnot, -⟩ | ⟨-, -, he'⟩ |
      ⟨-, hne, -⟩
    · exact absurd hpolicy hnot
    · rw [he, he']
      exact ⟨fun _ _ m hm => absurd hm.eligible (hnone m hm.mem), fun _ => rfl⟩
    · rw [filter_satisfies_eq_nil_iff.mpr hnone] at hne
      exact absurd rfl hne
  · -- both choose a candidate
    have hleast : Least request candidates p chosen := ⟨hchosen, hok, hmin⟩
    rcases chooseModel_cases localeCompare request candidates p with ⟨hnot, -⟩ | ⟨-, hnone, -⟩ |
      ⟨-, hne, he'⟩
    · exact absurd hpolicy hnot
    · exact absurd hok (hnone chosen hchosen)
    · rw [← ranked_head_iff hlocale hids hpolicy hleast hne, he, he',
        TypeScript.RouteResult.decision, RouteResult.decision, Except.ok.injEq]
      have hhead := (List.mem_insertionSort _).mp (List.head_mem hne)
      exact ⟨eq_of_id hids (List.mem_of_mem_filter hhead) hchosen, fun h => by rw [h]⟩

theorem tiesBroken_perm {before : ModelCandidate N → ModelCandidate N → Prop}
    (hperm : candidates'.Perm candidates) (h : TiesBroken request candidates p before) :
    TiesBroken request candidates' p before := by
  intro hpolicy model hmodel x hx
  have hmodel' : Least request candidates p model :=
    ⟨hperm.mem_iff.mp hmodel.mem, hmodel.eligible,
      fun y hy => hmodel.le y (hperm.mem_iff.mpr hy)⟩
  exact h hpolicy model hmodel' x (hperm.mem_iff.mp hx)

/-- On one list of candidates both routers decide the same exactly if the
smallest id of a complete tie comes before the others under `localeCompare` too,
or before them in the list where `localeCompare` does not tell them apart. On
all orders of the list they do exactly if `localeCompare` puts it strictly
first. -/
theorem same_decision_iff (hlocale : Collation localeCompare) (request : RouteRequest N)
    (candidates : List (ModelCandidate N)) (p : List String)
    (hids : (candidates.map ModelCandidate.id).Nodup) :
    ((TypeScript.chooseModel localeCompare request candidates p).decision =
        (choose_model request candidates p).decision ↔
      TiesBroken request candidates p fun m x => localeCompare m.id x.id < 0 ∨
        (localeCompare m.id x.id = 0 ∧ [m, x].Sublist candidates)) ∧
    ((∀ candidates' : List (ModelCandidate N), candidates'.Perm candidates →
        (TypeScript.chooseModel localeCompare request candidates' p).decision =
          (choose_model request candidates' p).decision) ↔
      TiesBroken request candidates p fun m x => localeCompare m.id x.id < 0) := by
  have hids' : ∀ candidates' : List (ModelCandidate N), candidates'.Perm candidates →
      (candidates'.map ModelCandidate.id).Nodup :=
    fun candidates' hperm => (hperm.map _).nodup_iff.mpr hids
  refine ⟨same_decision_here_iff hlocale hids, ?_⟩
  constructor
  · intro h hpolicy model hmodel x hx heligible htie hxne
    -- the order in which the other candidate comes first
    rcases List.append_of_mem hx with ⟨before, after, hcandidates⟩
    have hperm : (x :: (before ++ after)).Perm candidates := by
      rw [hcandidates]
      exact List.perm_middle.symm
    have hbroken := (same_decision_here_iff hlocale (hids' _ hperm)).mp (h _ hperm)
    rcases tiesBroken_perm hperm.symm hbroken hpolicy model hmodel x hx heligible htie hxne with
      hlt | ⟨-, hpair⟩
    · exact hlt
    · exact absurd hpair (StableSort.not_pair_sublist_head (hids' _ hperm).of_map)
  · intro h candidates' hperm
    rw [same_decision_here_iff hlocale (hids' _ hperm)]
    intro hpolicy model hmodel x hx heligible htie hxne
    exact Or.inl (tiesBroken_perm hperm h hpolicy model hmodel x hx heligible htie hxne)

end Decision

/-! ### A collation -/

/-- The comparison of a key. -/
def compareKeys {κ : Type*} [LinearOrder κ] (key : String → κ) (a b : String) : ℤ :=
  if key a < key b then -1 else if key b < key a then 1 else 0

theorem compareKeys_le_iff {κ : Type*} [LinearOrder κ] (key : String → κ) (a b : String) :
    compareKeys key a b ≤ 0 ↔ key a ≤ key b := by
  unfold compareKeys
  rcases lt_trichotomy (key a) (key b) with hlt | heq | hgt
  · simp [hlt, le_of_lt hlt]
  · simp [heq]
  · simp [hgt, not_lt.mpr (le_of_lt hgt)]

theorem collation_compareKeys {κ : Type*} [LinearOrder κ] (key : String → κ) :
    Collation (compareKeys key) := by
  constructor
  · intro a b
    unfold compareKeys
    rcases lt_trichotomy (key a) (key b) with hlt | heq | hgt
    · simp [hlt, not_lt.mpr (le_of_lt hlt)]
    · simp [heq]
    · simp [hgt, not_lt.mpr (le_of_lt hgt)]
  · intro a b c hab hbc
    rw [compareKeys_le_iff] at hab hbc ⊢
    exact le_trans hab hbc

/-- Letters without their case, and where these are the same lower case first:
`'a'` before `'B'`, and `'a'` before `'A'`. -/
def letterKey (s : String) : List ℕ ×ₗ List ℕ :=
  toLex (s.toList.map fun c => c.toLower.toNat, s.toList.map fun c => if c.isLower then 0 else 1)

/-- A candidate that ties with every other one of its kind. -/
def tied (id : String) : ModelCandidate ℤ := { modelA with id := id }

/-- Lower-case ids: both choose `a`. -/
theorem same_decision_iff_lower :
    Collation (compareKeys letterKey) ∧
    ([tied "b", tied "a"].map ModelCandidate.id).Nodup ∧
    (choose_model request₀ [tied "b", tied "a"] preferences).decision = .ok "a" ∧
    TiesBroken request₀ [tied "b", tied "a"] preferences fun m x =>
      compareKeys letterKey m.id x.id < 0 ∨
        (compareKeys letterKey m.id x.id = 0 ∧ [m, x].Sublist [tied "b", tied "a"]) := by
  have hids : ([tied "b", tied "a"].map ModelCandidate.id).Nodup := by decide
  refine ⟨collation_compareKeys letterKey, hids, by decide +kernel, ?_⟩
  exact (same_decision_iff (collation_compareKeys letterKey) request₀ [tied "b", tied "a"]
    preferences hids).1.mp (by decide +kernel)

/-- `"B"` is the smaller id by code points; `localeCompare` puts `"a"` first. -/
theorem tie_broken_otherwise :
    Collation (compareKeys letterKey) ∧ compareKeys letterKey "a" "B" < 0 ∧ "B" < "a" ∧
    ([tied "a", tied "B"].map ModelCandidate.id).Nodup ∧
    (choose_model request₀ [tied "a", tied "B"] preferences).decision = .ok "B" ∧
    (TypeScript.chooseModel (compareKeys letterKey) request₀ [tied "a", tied "B"]
      preferences).decision = .ok "a" := by
  refine ⟨collation_compareKeys letterKey, by decide +kernel, by decide, by decide, ?_, ?_⟩
  · decide +kernel
  · decide +kernel

end InterviewPrep.ModelRouting
