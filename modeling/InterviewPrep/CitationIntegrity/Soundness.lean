import InterviewPrep.CitationIntegrity.Model

/-!
# The issues of a draft

What it means for a claim to break the rule of a code, over the evidence in
force, and that `checkCitationIntegrity` of `answer.ts` reports exactly the rules
that are broken (`issues_exactly`).
-/

namespace InterviewPrep.CitationIntegrity

/-- The entry in force for an id: the last one that has it. -/
def InForce {S : Type} (evidence : List (Evidence S)) (id : S) (entry : Evidence S) : Prop :=
  entry.id = id ∧ ∃ before after, evidence = before ++ entry :: after ∧ ∀ e ∈ after, e.id ≠ id

theorem get?_evidenceMap_eq_some_iff {S : Type} [DecidableEq S] {evidence : List (Evidence S)}
    {id : S} {entry : Evidence S} :
    (evidenceMap evidence).get? id = some entry ↔ InForce evidence id entry :=
  get?_lastByKey_eq_some_iff

theorem get?_evidenceMap_eq_none_iff {S : Type} [DecidableEq S] {evidence : List (Evidence S)}
    {id : S} : (evidenceMap evidence).get? id = none ↔ ∀ e ∈ evidence, e.id ≠ id :=
  get?_lastByKey_eq_none_iff

namespace TypeScript

open JavaScript

/-- A quote does not support a claim: trimmed, it is empty, or longer than 300
units, or it does not occur in the text. -/
def BadQuote (text quote : CodeUnits) : Prop :=
  trimUnits quote = [] ∨ 300 < (trimUnits quote).length ∨ ¬ trimUnits quote <:+: text

/-- The claim breaks the rule of a code. -/
def Breaks (evidence : List (Evidence CodeUnits)) (claim : DraftClaim CodeUnits) :
    IssueCode CodeUnits → Prop
  | .empty_claim => trimUnits claim.text = []
  | .missing_citation => claim.factual = true ∧ claim.citations = []
  | .duplicate_citation => ∃ id, 1 < (claim.citations.map Citation.evidenceId).count id
  | .unknown_evidence id =>
    (∃ citation ∈ claim.citations, citation.evidenceId = id) ∧ ∀ e ∈ evidence, e.id ≠ id
  | .invalid_quote id => ∃ entry, InForce evidence id entry ∧
      ∃ citation ∈ claim.citations, citation.evidenceId = id ∧ BadQuote entry.text citation.quote

section Checks

variable {evidence : List (Evidence CodeUnits)} {citation : Citation CodeUnits}
  {claim : DraftClaim CodeUnits} {code : IssueCode CodeUnits}

/-- The checks of a citation report an unknown id, or a bad quote from a known one. -/
theorem mem_checkCitation :
    code ∈ checkCitation (evidenceMap evidence) citation ↔
      code = .unknown_evidence citation.evidenceId ∧
          (∀ e ∈ evidence, e.id ≠ citation.evidenceId) ∨
        code = .invalid_quote citation.evidenceId ∧
          ∃ entry, InForce evidence citation.evidenceId entry ∧
            BadQuote entry.text citation.quote := by
  unfold checkCitation
  cases hget : (evidenceMap evidence).get? citation.evidenceId with
  | none =>
    have habsent := get?_evidenceMap_eq_none_iff.mp hget
    have hnone : ¬ ∃ entry, InForce evidence citation.evidenceId entry ∧
        BadQuote entry.text citation.quote := by
      rintro ⟨entry, hentry, -⟩
      rw [← get?_evidenceMap_eq_some_iff, hget] at hentry
      simp at hentry
    rw [List.mem_singleton, and_iff_left habsent]
    exact ⟨Or.inl, fun h => h.elim id fun h => absurd h.2 hnone⟩
  | some entry =>
    have hentry := get?_evidenceMap_eq_some_iff.mp hget
    have hunique : ∀ e, InForce evidence citation.evidenceId e ↔ e = entry := by
      intro e
      rw [← get?_evidenceMap_eq_some_iff, hget, Option.some.injEq, eq_comm]
    have hpresent : ¬ ∀ e ∈ evidence, e.id ≠ citation.evidenceId := by
      intro habsent
      rw [← get?_evidenceMap_eq_none_iff, hget] at habsent
      simp at habsent
    simp only [List.mem_append, mem_issueIf, hunique, exists_eq_left, hpresent, and_false,
      false_or, BadQuote, gt_iff_lt, Nat.lt_one_iff, List.length_eq_zero_iff]
    rw [← or_and_right, or_assoc, and_comm]

/-- A claim is reported with the codes whose rules it breaks. -/
theorem mem_checkClaim :
    code ∈ checkClaim (evidenceMap evidence) claim ↔ Breaks evidence claim code := by
  have hduplicate : (∃ id, 1 < (claim.citations.map Citation.evidenceId).count id) ↔
      ¬ (claim.citations.map Citation.evidenceId).Nodup := by
    rw [List.nodup_iff_count_le_one]
    push Not
    rfl
  simp only [checkClaim, List.mem_append, mem_issueIf, mem_checkCitations, mem_checkCitation,
    OrderedSet.elems_empty, List.not_mem_nil, and_false, exists_false, false_or,
    List.length_eq_zero_iff]
  cases code with
  | empty_claim => simp [Breaks]
  | missing_citation => simp [Breaks]
  | duplicate_citation => simp [Breaks, hduplicate]
  | unknown_evidence id =>
    simp only [Breaks, reduceCtorEq, and_false, false_or, false_and, or_false,
      IssueCode.unknown_evidence.injEq]
    constructor
    · rintro ⟨citation, hmem, rfl, habsent⟩
      exact ⟨⟨citation, hmem, rfl⟩, habsent⟩
    · rintro ⟨⟨citation, hmem, rfl⟩, habsent⟩
      exact ⟨citation, hmem, rfl, habsent⟩
  | invalid_quote id =>
    simp only [Breaks, reduceCtorEq, and_false, false_or, false_and, or_false,
      IssueCode.invalid_quote.injEq]
    constructor
    · rintro ⟨citation, hmem, rfl, entry, hentry, hbad⟩
      exact ⟨entry, hentry, citation, hmem, rfl, hbad⟩
    · rintro ⟨entry, hentry, citation, hmem, rfl, hbad⟩
      exact ⟨citation, hmem, rfl, entry, hentry, hbad⟩

end Checks

/-- The checker reports exactly the rules that the claims break, so it reports
nothing exactly if all claims are well formed. -/
theorem issues_exactly (claims : List (DraftClaim CodeUnits))
    (evidence : List (Evidence CodeUnits)) :
    (∀ i code, ⟨i, code⟩ ∈ checkCitationIntegrity claims evidence ↔
      ∃ claim, claims[i]? = some claim ∧ Breaks evidence claim code) ∧
    (checkCitationIntegrity claims evidence = [] ↔
      ∀ claim ∈ claims, ∀ code, ¬ Breaks evidence claim code) := by
  have hmem : ∀ i code, ⟨i, code⟩ ∈ checkCitationIntegrity claims evidence ↔
      ∃ claim, claims[i]? = some claim ∧ Breaks evidence claim code := by
    intro i code
    rw [checkCitationIntegrity, mem_checkClaims]
    simp only [mem_checkClaim]
  refine ⟨hmem, ?_⟩
  rw [List.eq_nil_iff_forall_not_mem]
  constructor
  · intro h claim hclaim code hbreaks
    rcases List.mem_iff_getElem?.mp hclaim with ⟨i, hi⟩
    exact h ⟨i, code⟩ ((hmem i code).mpr ⟨claim, hi, hbreaks⟩)
  · rintro h ⟨i, code⟩ hissue
    rcases (hmem i code).mp hissue with ⟨claim, hclaim, hbreaks⟩
    exact h claim (List.mem_of_getElem? hclaim) code hbreaks

end TypeScript

end InterviewPrep.CitationIntegrity
