import Mathlib.Data.Finset.Card
import InterviewPrep.CitationIntegrity.Soundness

/-!
# How often an issue is reported

Both checkers, with every issue as often as it occurs. The loops add up what the
checks of the single citations report, and one `duplicate_citation` for each citation
whose id came before (`count_checkCitations`). So the list of issues is determined up
to its order by what the draft says (`issues_counted`).
-/

namespace InterviewPrep.CitationIntegrity

/-! ## What is expected -/

section Expected

variable {S : Type} [DecidableEq S]

/-- How often a quote is reported against the entry in force for an id. -/
def faultsIn (faults : S → S → ℕ) (evidence : List (Evidence S)) (id quote : S) : ℕ :=
  ((evidence.reverse.find? fun e => e.id = id).map fun entry => faults entry.text quote).getD 0

/-- How often the issues of one claim are reported: `blank` says of a text that nothing
but white space is in it, and `faults` how often a quote from a text is reported. -/
def expected (blank : S → Bool) (faults : S → S → ℕ) (evidence : List (Evidence S))
    (claim : DraftClaim S) : IssueCode S → ℕ
  | .empty_claim => (blank claim.text).toNat
  | .missing_citation => if claim.factual = true ∧ claim.citations = [] then 1 else 0
  | .duplicate_citation =>
    claim.citations.length - (claim.citations.map Citation.evidenceId).toFinset.card
  | .unknown_evidence id =>
    if ∀ e ∈ evidence, e.id ≠ id then (claim.citations.map Citation.evidenceId).count id else 0
  | .invalid_quote id =>
    (claim.citations.map fun c =>
      if c.evidenceId = id then faultsIn faults evidence id c.quote else 0).sum

/-- The issues are those expected of each claim. -/
def Counted (blank : S → Bool) (faults : S → S → ℕ) (claims : List (DraftClaim S))
    (evidence : List (Evidence S)) (issues : List (CitationIssue S)) : Prop :=
  ∀ i code, issues.count ⟨i, code⟩ =
    (claims[i]?).elim 0 fun claim => expected blank faults evidence claim code

end Expected

open JavaScript in
/-- A quote in TypeScript: one issue for its length, and one if it does not occur. -/
def TypeScript.faults (text quote : CodeUnits) : ℕ :=
  let quote := trimUnits quote
  (if quote.length < 1 ∨ quote.length > 300 then 1 else 0) + if quote <:+: text then 0 else 1

open InterviewPrep.Python in
/-- A quote in Python: one issue in either case. -/
def Python.faults (text quote : String) : ℕ :=
  let quote := stripped quote
  if (quote.length < 1 ∨ quote.length > 300) ∨ ¬ quote.toList <:+: text.toList then 1 else 0

/-! ## The loops -/

section Loops

variable {S : Type} [DecidableEq S]

theorem count_issueIf (p : Prop) [Decidable p] (code code' : IssueCode S) :
    (issueIf p code).count code' = if p ∧ code = code' then 1 else 0 := by
  by_cases hp : p
  · by_cases hcode : code = code'
    · simp [issueIf, hp, hcode]
    · simp [issueIf, hp, hcode]
  · simp [issueIf, hp]

/-- What has been seen counts as a repetition. -/
theorem card_sdiff_add {seen : OrderedSet S} {id : S} (ids : List S) (h : id ∉ seen.elems) :
    ((id :: ids).toFinset \ seen.toFinset).card =
      (ids.toFinset \ (seen.add id).toFinset).card + 1 := by
  have hnot : id ∉ seen.toFinset := fun hmem => h (OrderedSet.mem_toFinset.mp hmem)
  rw [OrderedSet.toFinset_add, List.toFinset_cons, Finset.insert_sdiff_of_notMem _ hnot,
    Finset.sdiff_insert, ← Finset.card_insert_of_notMem (Finset.notMem_erase id _)]
  congr 1
  ext x
  by_cases hx : x = id
  · simp [hx]
  · simp [hx]

/-- The loop over the citations adds up the checks, and a duplicate for each citation but
the first of its id. -/
theorem count_checkCitations (check : Citation S → List (IssueCode S)) (seen : OrderedSet S)
    (citations : List (Citation S)) (code : IssueCode S) :
    (checkCitations check seen citations).count code =
      (citations.map fun c => (check c).count code).sum +
        if code = .duplicate_citation then
          citations.length - ((citations.map Citation.evidenceId).toFinset \ seen.toFinset).card
        else 0 := by
  induction citations generalizing seen with
  | nil => simp [checkCitations]
  | cons citation citations ih =>
    have hcard : ∀ s : Finset S,
        ((citations.map Citation.evidenceId).toFinset \ s).card ≤ citations.length := fun s => by
      refine (Finset.card_le_card Finset.sdiff_subset).trans ?_
      refine (List.toFinset_card_le _).trans (le_of_eq ?_)
      exact List.length_map _
    rw [checkCitations, List.count_append, List.map_cons, List.map_cons, List.sum_cons,
      List.length_cons]
    by_cases hseen : citation.evidenceId ∈ seen.elems
    · -- one repetition more
      have hmem : citation.evidenceId ∈ seen.toFinset := OrderedSet.mem_toFinset.mpr hseen
      have hle := hcard seen.toFinset
      rw [if_pos hseen, List.count_cons, ih, List.toFinset_cons, Finset.insert_sdiff_of_mem _ hmem]
      by_cases hcode : code = .duplicate_citation
      · simp only [hcode, if_true, beq_self_eq_true]
        omega
      · simp [hcode, Ne.symm hcode]
    · -- the id is seen from here on
      have hadd := card_sdiff_add (citations.map Citation.evidenceId) hseen
      rw [if_neg hseen, ih, hadd, Nat.add_sub_add_right, Nat.add_assoc]

/-- The loop over the claims keeps the issues of the claims apart. -/
theorem count_checkClaims (checkClaim : DraftClaim S → List (IssueCode S))
    (claims : List (DraftClaim S)) (i : ℕ) (code : IssueCode S) :
    (checkClaims checkClaim claims).count ⟨i, code⟩ =
      (claims[i]?).elim 0 fun claim => (checkClaim claim).count code := by
  induction claims using List.reverseRecOn with
  | nil => rfl
  | append_singleton claims claim ih =>
    have hinj : Function.Injective (CitationIssue.mk (S := S) claims.length) :=
      fun _ _ h => (CitationIssue.mk.inj h).2
    have hconcat : checkClaims checkClaim (claims ++ [claim]) =
        checkClaims checkClaim claims ++
          (checkClaim claim).map (CitationIssue.mk claims.length) := by
      simp [checkClaims, List.zipIdx_append]
    -- the issues of the last claim have its index
    have hzero : i ≠ claims.length →
        ((checkClaim claim).map (CitationIssue.mk claims.length)).count ⟨i, code⟩ = 0 := by
      intro hne
      rw [List.count_eq_zero]
      intro hmem
      rcases List.mem_map.mp hmem with ⟨code', -, heq⟩
      exact hne (CitationIssue.mk.inj heq).1.symm
    rw [hconcat, List.count_append, ih]
    rcases Nat.lt_trichotomy i claims.length with hlt | rfl | hgt
    · rw [hzero (by omega), Nat.add_zero, List.getElem?_append_left hlt]
    · rw [List.getElem?_concat_length, List.getElem?_eq_none (le_refl _),
        List.count_map_of_injective _ _ hinj]
      exact Nat.zero_add _
    · have hbeyond : (claims ++ [claim]).length ≤ i := by
        rw [List.length_append, List.length_singleton]
        omega
      rw [hzero (by omega), Nat.add_zero, List.getElem?_eq_none (by omega),
        List.getElem?_eq_none hbeyond]

/-! ## One claim -/

/-- What the checks of one citation are expected to report. -/
def expectedOf (faults : S → S → ℕ) (evidence : List (Evidence S)) (citation : Citation S) :
    IssueCode S → ℕ
  | .unknown_evidence id =>
    if (∀ e ∈ evidence, e.id ≠ id) ∧ citation.evidenceId = id then 1 else 0
  | .invalid_quote id =>
    if citation.evidenceId = id then faultsIn faults evidence id citation.quote else 0
  | _ => 0

/-- The checks of one citation, from the entry in force for its id. -/
theorem count_check {faults : S → S → ℕ} {evidence : List (Evidence S)} {citation : Citation S}
    {issues : List (IssueCode S)}
    (hunknown : (evidenceMap evidence).get? citation.evidenceId = none →
      issues = [.unknown_evidence citation.evidenceId])
    (hknown : ∀ entry, (evidenceMap evidence).get? citation.evidenceId = some entry →
      issues = List.replicate (faults entry.text citation.quote)
        (.invalid_quote citation.evidenceId)) (code : IssueCode S) :
    issues.count code = expectedOf faults evidence citation code := by
  have hfind := get?_lastByKey Evidence.id evidence citation.evidenceId
  cases hget : (evidenceMap evidence).get? citation.evidenceId with
  | none =>
    have habsent := get?_evidenceMap_eq_none_iff.mp hget
    have hfaults : faultsIn faults evidence citation.evidenceId citation.quote = 0 := by
      rw [faultsIn, ← hfind]
      exact congrArg (fun o => (Option.map _ o).getD 0) hget
    rw [hunknown hget]
    cases code with
    | unknown_evidence id =>
      by_cases hid : citation.evidenceId = id
      · subst hid
        rw [expectedOf, if_pos ⟨habsent, rfl⟩, List.count_singleton_self]
      · rw [expectedOf, if_neg fun h => hid h.2]
        exact List.count_eq_zero.mpr (by simpa using Ne.symm hid)
    | invalid_quote id =>
      have hnot : [IssueCode.unknown_evidence citation.evidenceId].count (.invalid_quote id) = 0 :=
        List.count_eq_zero.mpr (by simp)
      rw [expectedOf, hnot]
      split
      · rename_i hid
        rw [← hid, hfaults]
      · rfl
    | empty_claim => rfl
    | missing_citation => rfl
    | duplicate_citation => rfl
  | some entry =>
    have hpresent : ¬ ∀ e ∈ evidence, e.id ≠ citation.evidenceId := by
      rw [← get?_evidenceMap_eq_none_iff, hget]
      exact Option.some_ne_none entry
    have hfaults : faultsIn faults evidence citation.evidenceId citation.quote =
        faults entry.text citation.quote := by
      rw [faultsIn, ← hfind]
      exact congrArg (fun o => (Option.map _ o).getD 0) hget
    rw [hknown entry hget]
    -- nothing but `invalid_quote` is reported against an entry
    have hother : ∀ code', code' ≠ .invalid_quote citation.evidenceId →
        (List.replicate (faults entry.text citation.quote)
          (IssueCode.invalid_quote citation.evidenceId)).count code' = 0 := by
      intro code' hne
      exact List.count_eq_zero.mpr fun h => hne (List.eq_of_mem_replicate h)
    cases code with
    | unknown_evidence id =>
      rw [expectedOf, if_neg]
      · exact hother _ (fun h => by cases h)
      · rintro ⟨habsent, rfl⟩
        exact hpresent habsent
    | invalid_quote id =>
      by_cases hid : citation.evidenceId = id
      · subst hid
        rw [expectedOf, if_pos rfl, hfaults, List.count_replicate_self]
      · rw [expectedOf, if_neg hid]
        exact hother _ fun h => hid (IssueCode.invalid_quote.inj h).symm
    | empty_claim => exact hother _ (fun h => by cases h)
    | missing_citation => exact hother _ (fun h => by cases h)
    | duplicate_citation => exact hother _ (fun h => by cases h)

/-- The citations of an id. -/
theorem sum_cited (citations : List (Citation S)) (id : S) :
    (citations.map fun c => if c.evidenceId = id then 1 else 0).sum =
      (citations.map Citation.evidenceId).count id := by
  induction citations with
  | nil => rfl
  | cons c citations ih =>
    rw [List.map_cons, List.map_cons, List.sum_cons, List.count_cons, ih, Nat.add_comm]
    simp

/-- A claim whose issues are those of its text, of its list of citations and of the
citations is reported as expected. -/
theorem count_claim {blank : S → Bool} {faults : S → S → ℕ} {evidence : List (Evidence S)}
    {claim : DraftClaim S} {check : Citation S → List (IssueCode S)}
    (hcheck : ∀ c code, (check c).count code = expectedOf faults evidence c code)
    (code : IssueCode S) :
    (issueIf (blank claim.text = true) .empty_claim).count code +
        (issueIf (claim.factual = true ∧ claim.citations = []) .missing_citation).count code +
        (checkCitations check OrderedSet.empty claim.citations).count code =
      expected blank faults evidence claim code := by
  have hempty : (OrderedSet.empty : OrderedSet S).toFinset = ∅ := rfl
  rw [count_issueIf, count_issueIf, count_checkCitations, hempty, Finset.sdiff_empty]
  simp only [hcheck]
  cases code with
  | empty_claim =>
    cases hblank : blank claim.text <;> simp [expected, expectedOf, hblank]
  | missing_citation => simp [expected, expectedOf]
  | duplicate_citation => simp [expected, expectedOf]
  | unknown_evidence id =>
    by_cases hunknown : ∀ e ∈ evidence, e.id ≠ id
    · have hterm : ∀ c : Citation S, expectedOf faults evidence c (.unknown_evidence id) =
          if c.evidenceId = id then 1 else 0 := fun c =>
        if_congr (and_iff_right hunknown) rfl rfl
      simp only [hterm, sum_cited, expected, if_pos hunknown, reduceCtorEq, and_false, if_false,
        Nat.zero_add, Nat.add_zero]
    · have hterm : ∀ c : Citation S, expectedOf faults evidence c (.unknown_evidence id) = 0 :=
        fun c => if_neg fun h => hunknown h.1
      simp [hterm, expected, hunknown]
  | invalid_quote id => simp [expected, expectedOf]

end Loops

/-! ## The two checkers -/

theorem Python.count_checkCitation (evidence : List (Evidence String)) (citation : Citation String)
    (code : IssueCode String) :
    (Python.checkCitation (evidenceMap evidence) citation).count code =
      expectedOf Python.faults evidence citation code := by
  refine count_check ?_ ?_ code
  · intro hget
    rw [Python.checkCitation, hget]
  · intro entry hget
    rw [Python.checkCitation, hget, Python.faults]
    dsimp only
    split
    · rename_i hlength
      rw [if_pos (Or.inl hlength)]
      rfl
    · rename_i hlength
      split
      · rename_i habsent
        rw [if_pos (Or.inr habsent)]
        rfl
      · rename_i hoccurs
        rw [if_neg (not_or.mpr ⟨hlength, hoccurs⟩)]
        rfl

theorem Python.count_checkClaim (evidence : List (Evidence String)) (claim : DraftClaim String)
    (code : IssueCode String) :
    (Python.checkClaim (evidenceMap evidence) claim).count code =
      expected (fun text => (InterviewPrep.Python.stripped text).length = 0) Python.faults evidence
        claim code := by
  rw [← count_claim (Python.count_checkCitation evidence), Python.checkClaim, List.count_append,
    List.count_append]
  -- here the citations are looked at before the text
  simp only [count_issueIf, List.length_eq_zero_iff, decide_eq_true_eq,
    and_comm (a := claim.citations = []), Nat.add_right_cancel_iff]
  exact Nat.add_comm _ _

theorem TypeScript.count_checkCitation (evidence : List (Evidence JavaScript.CodeUnits))
    (citation : Citation JavaScript.CodeUnits) (code : IssueCode JavaScript.CodeUnits) :
    (TypeScript.checkCitation (evidenceMap evidence) citation).count code =
      expectedOf TypeScript.faults evidence citation code := by
  refine count_check ?_ ?_ code
  · intro hget
    rw [TypeScript.checkCitation, hget]
  · intro entry hget
    rw [TypeScript.checkCitation, hget, TypeScript.faults]
    dsimp only
    -- one issue for each of the two conditions
    rw [List.replicate_add]
    congr 1
    · rw [issueIf]
      split <;> rfl
    · rw [issueIf]
      split <;> simp [*]

theorem TypeScript.count_checkClaim (evidence : List (Evidence JavaScript.CodeUnits))
    (claim : DraftClaim JavaScript.CodeUnits) (code : IssueCode JavaScript.CodeUnits) :
    (TypeScript.checkClaim (evidenceMap evidence) claim).count code =
      expected (fun text => (JavaScript.trimUnits text).length = 0) TypeScript.faults evidence
        claim code := by
  rw [← count_claim (TypeScript.count_checkCitation evidence), TypeScript.checkClaim,
    List.count_append, List.count_append]
  simp only [count_issueIf, List.length_eq_zero_iff, decide_eq_true_eq]

/-- Both checkers report, for each claim, the issues expected of it and as often: in Python
a quote counts once, in TypeScript once for each of its two conditions. -/
theorem issues_counted (claims : List (DraftClaim String)) (evidence : List (Evidence String))
    (claims' : List (DraftClaim JavaScript.CodeUnits))
    (evidence' : List (Evidence JavaScript.CodeUnits)) :
    Counted (fun text => (InterviewPrep.Python.stripped text).length = 0) Python.faults claims
        evidence (Python.checkCitationIntegrity claims evidence) ∧
      Counted (fun text => (JavaScript.trimUnits text).length = 0) TypeScript.faults claims'
        evidence' (TypeScript.checkCitationIntegrity claims' evidence') := by
  constructor
  · intro i code
    rw [Python.checkCitationIntegrity, count_checkClaims]
    simp only [Python.count_checkClaim]
  · intro i code
    rw [TypeScript.checkCitationIntegrity, count_checkClaims]
    simp only [TypeScript.count_checkClaim]

end InterviewPrep.CitationIntegrity
