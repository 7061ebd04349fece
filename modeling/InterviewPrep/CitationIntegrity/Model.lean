import Mathlib.Data.List.Infix
import InterviewPrep.Lib.Grouping
import InterviewPrep.Lib.Numerals
import InterviewPrep.Lib.OrderedSet

/-!
# Citation integrity checker

`checkCitationIntegrity` of `technical/citation_integrity_checker/answer.ts` and
`answer.py`, with `Dict[str, Evidence]({...})` read as the dictionary. The two
share the loop over the citations of a claim. They differ in the order of the
checks, in what a string is, and in how a quote is checked: by two conditions in
TypeScript, of which both may hold, and by one chain in Python.
-/

namespace InterviewPrep.CitationIntegrity

/-! ## The data -/

/-- `S` is the type of strings. -/
structure Evidence (S : Type) where
  id : S
  text : S
deriving DecidableEq

structure Citation (S : Type) where
  evidenceId : S
  quote : S
deriving DecidableEq

structure DraftClaim (S : Type) where
  text : S
  factual : Bool
  citations : List (Citation S)
deriving DecidableEq

/-- The codes, with the evidence id where they carry one. -/
inductive IssueCode (S : Type) where
  | empty_claim
  | missing_citation
  | duplicate_citation
  | unknown_evidence (evidenceId : S)
  | invalid_quote (evidenceId : S)
deriving DecidableEq

structure CitationIssue (S : Type) where
  claimIndex : ℕ
  code : IssueCode S
deriving DecidableEq

/-! ## What the languages share -/

section Shared

variable {S : Type} [DecidableEq S]

/-- The issue under a condition. -/
def issueIf (p : Prop) [Decidable p] (code : IssueCode S) : List (IssueCode S) :=
  if p then [code] else []

omit [DecidableEq S] in
@[simp] theorem mem_issueIf {p : Prop} [Decidable p] {code issue : IssueCode S} :
    issue ∈ issueIf p code ↔ p ∧ issue = code := by
  by_cases hp : p <;> simp [issueIf, hp]

/-- `evidence_map`, `evidence_set`: the last entry of each id. -/
def evidenceMap (evidence : List (Evidence S)) : OrderedDict S (Evidence S) :=
  lastByKey Evidence.id evidence

/-- The loop over the citations; `check` is what it does before it looks for
duplicates, and `seen` holds the ids of the citations before. -/
def checkCitations (check : Citation S → List (IssueCode S)) :
    OrderedSet S → List (Citation S) → List (IssueCode S)
  | _, [] => []
  | seen, citation :: citations =>
    check citation ++
      if citation.evidenceId ∈ seen.elems then
        .duplicate_citation :: checkCitations check seen citations
      else checkCitations check (seen.add citation.evidenceId) citations

/-- The loop over the claims. -/
def checkClaims (checkClaim : DraftClaim S → List (IssueCode S)) (claims : List (DraftClaim S)) :
    List (CitationIssue S) :=
  claims.zipIdx.flatMap (fun p => (checkClaim p.1).map (CitationIssue.mk p.2))

end Shared

/-! ## The programs -/

namespace TypeScript

open JavaScript

/-- The checks of one citation against the evidence. -/
def checkCitation (evidence_map : OrderedDict CodeUnits (Evidence CodeUnits))
    (citation : Citation CodeUnits) : List (IssueCode CodeUnits) :=
  let quote := trimUnits citation.quote
  match evidence_map.get? citation.evidenceId with
  | none => [.unknown_evidence citation.evidenceId]
  | some evidence =>
    issueIf (quote.length < 1 ∨ quote.length > 300) (.invalid_quote citation.evidenceId) ++
    issueIf (¬ quote <:+: evidence.text) (.invalid_quote citation.evidenceId)

/-- The issues of one claim. -/
def checkClaim (evidence_map : OrderedDict CodeUnits (Evidence CodeUnits))
    (claim : DraftClaim CodeUnits) : List (IssueCode CodeUnits) :=
  issueIf ((trimUnits claim.text).length = 0) .empty_claim ++
  issueIf (claim.factual = true ∧ claim.citations.length = 0) .missing_citation ++
  checkCitations (checkCitation evidence_map) OrderedSet.empty claim.citations

/-- `checkCitationIntegrity` -/
def checkCitationIntegrity (claims : List (DraftClaim CodeUnits))
    (evidence : List (Evidence CodeUnits)) : List (CitationIssue CodeUnits) :=
  checkClaims (checkClaim (evidenceMap evidence)) claims

end TypeScript

namespace Python

open InterviewPrep.Python (stripped)

/-- The checks of one citation against the evidence. -/
def checkCitation (evidence_set : OrderedDict String (Evidence String))
    (citation : Citation String) : List (IssueCode String) :=
  match evidence_set.get? citation.evidenceId with
  | none => [.unknown_evidence citation.evidenceId]
  | some evidence =>
    let quote := stripped citation.quote
    if quote.length < 1 ∨ quote.length > 300 then [.invalid_quote citation.evidenceId]
    else if ¬ quote.toList <:+: evidence.text.toList then [.invalid_quote citation.evidenceId]
    else []

/-- The issues of one claim. -/
def checkClaim (evidence_set : OrderedDict String (Evidence String))
    (claim : DraftClaim String) : List (IssueCode String) :=
  issueIf (claim.citations.length = 0 ∧ claim.factual = true) .missing_citation ++
  issueIf ((stripped claim.text).length = 0) .empty_claim ++
  checkCitations (checkCitation evidence_set) OrderedSet.empty claim.citations

/-- `checkCitationIntegrity` -/
def checkCitationIntegrity (claims : List (DraftClaim String)) (evidence : List (Evidence String)) :
    List (CitationIssue String) :=
  checkClaims (checkClaim (evidenceMap evidence)) claims

end Python

/-! ## The loops -/

section Loops

variable {S : Type} [DecidableEq S]

omit [DecidableEq S] in
/-- An issue is one of the claim at its index. -/
theorem mem_checkClaims {checkClaim : DraftClaim S → List (IssueCode S)}
    {claims : List (DraftClaim S)} {i : ℕ} {code : IssueCode S} :
    ⟨i, code⟩ ∈ checkClaims checkClaim claims ↔
      ∃ claim, claims[i]? = some claim ∧ code ∈ checkClaim claim := by
  rw [checkClaims, List.mem_flatMap]
  constructor
  · rintro ⟨⟨claim, j⟩, hmem, hissue⟩
    rcases List.mem_map.mp hissue with ⟨code', hcode, heq⟩
    rcases CitationIssue.mk.inj heq with ⟨rfl, rfl⟩
    exact ⟨claim, List.mem_zipIdx_iff_getElem?.mp hmem, hcode⟩
  · rintro ⟨claim, hclaim, hcode⟩
    exact ⟨(claim, i), List.mem_zipIdx_iff_getElem?.mpr hclaim, List.mem_map_of_mem hcode⟩

/-- The loop over the citations reports what the checks report, and a duplicate if
an id was cited before. -/
theorem mem_checkCitations {check : Citation S → List (IssueCode S)} {seen : OrderedSet S}
    {citations : List (Citation S)} {code : IssueCode S} :
    code ∈ checkCitations check seen citations ↔
      (∃ citation ∈ citations, code ∈ check citation) ∨
        code = .duplicate_citation ∧ ((∃ citation ∈ citations, citation.evidenceId ∈ seen.elems) ∨
          ¬ (citations.map Citation.evidenceId).Nodup) := by
  induction citations generalizing seen with
  | nil => simp [checkCitations]
  | cons citation citations ih =>
    rw [checkCitations, List.mem_append, List.map_cons, List.nodup_cons]
    simp only [List.mem_cons, exists_eq_or_imp]
    split
    · -- seen before: a duplicate in any case
      rename_i hseen
      rw [List.mem_cons, ih]
      by_cases hcode : code = .duplicate_citation
      · simp [hcode, hseen]
      · simp [hcode]
    · -- what is seen from here on includes this one
      rename_i hseen
      rw [ih]
      have hadd : (∃ c ∈ citations, c.evidenceId ∈ (seen.add citation.evidenceId).elems) ↔
          (∃ c ∈ citations, c.evidenceId ∈ seen.elems) ∨
            citation.evidenceId ∈ citations.map Citation.evidenceId := by
        simp only [OrderedSet.mem_add, List.mem_map]
        constructor
        · rintro ⟨c, hc, hold | hnew⟩
          · exact Or.inl ⟨c, hc, hold⟩
          · exact Or.inr ⟨c, hc, hnew⟩
        · rintro (⟨c, hc, hold⟩ | ⟨c, hc, hnew⟩)
          · exact ⟨c, hc, Or.inl hold⟩
          · exact ⟨c, hc, Or.inr hnew⟩
      rw [hadd, or_assoc]
      by_cases hcode : code = .duplicate_citation
      · simp only [hcode, hseen, true_and, false_or, not_and_or, not_not, or_assoc]
      · simp only [hcode, false_and, or_false]

end Loops

end InterviewPrep.CitationIntegrity
