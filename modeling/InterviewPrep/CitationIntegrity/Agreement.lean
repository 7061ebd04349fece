import Mathlib.Data.List.Flatten
import InterviewPrep.CitationIntegrity.Soundness
import InterviewPrep.Lib.Ascii

/-!
# The two checkers

Over printable ASCII, `answer.py` and `answer.ts` read the same draft
(`Lib/Ascii.lean`). Their checks of a citation differ in one case: a quote that
is longer than 300 characters and does not occur in the text gets two issues in
TypeScript and one in Python. The TypeScript issues are the Python issues and one
more for each such citation (`typeScriptIssues_perm`), so they are the
same exactly where there is none (`same_citation_issues_iff`).
-/

namespace InterviewPrep.CitationIntegrity

open JavaScript Ascii
open InterviewPrep.Python (stripped)

/-! ## The same draft in both languages -/

section Map

variable {S T : Type} (f : S → T)

def Evidence.map (e : Evidence S) : Evidence T := ⟨f e.id, f e.text⟩

def Citation.map (c : Citation S) : Citation T := ⟨f c.evidenceId, f c.quote⟩

def DraftClaim.map (c : DraftClaim S) : DraftClaim T :=
  ⟨f c.text, c.factual, c.citations.map (Citation.map f)⟩

def IssueCode.map : IssueCode S → IssueCode T
  | .empty_claim => .empty_claim
  | .missing_citation => .missing_citation
  | .duplicate_citation => .duplicate_citation
  | .unknown_evidence id => .unknown_evidence (f id)
  | .invalid_quote id => .invalid_quote (f id)

def CitationIssue.map (i : CitationIssue S) : CitationIssue T := ⟨i.claimIndex, i.code.map f⟩

end Map

/-- All texts of the draft are printable ASCII. -/
structure PrintableDraft (claims : List (DraftClaim String)) (evidence : List (Evidence String)) :
    Prop where
  texts : ∀ claim ∈ claims, Printable claim.text
  ids : ∀ claim ∈ claims, ∀ c ∈ claim.citations, Printable c.evidenceId
  quotes : ∀ claim ∈ claims, ∀ c ∈ claim.citations, Printable c.quote
  evidenceIds : ∀ e ∈ evidence, Printable e.id
  evidenceTexts : ∀ e ∈ evidence, Printable e.text

/-- The issues of the TypeScript checker for the same draft. -/
def typeScriptIssues (claims : List (DraftClaim String)) (evidence : List (Evidence String)) :
    List (CitationIssue CodeUnits) :=
  TypeScript.checkCitationIntegrity (claims.map (DraftClaim.map units))
    (evidence.map (Evidence.map units))

/-- The issues of the Python checker, with the ids as JavaScript strings. -/
def pythonIssues (claims : List (DraftClaim String)) (evidence : List (Evidence String)) :
    List (CitationIssue CodeUnits) :=
  (Python.checkCitationIntegrity claims evidence).map (CitationIssue.map units)

/-! ## One citation -/

/-- The issue that only TypeScript reports: a second one for a long quote that does
not occur. -/
def secondIssue (evidence_set : OrderedDict String (Evidence String))
    (citation : Citation String) : List (IssueCode String) :=
  match evidence_set.get? citation.evidenceId with
  | none => []
  | some evidence =>
    let quote := stripped citation.quote
    issueIf (quote.length > 300 ∧ ¬ quote.toList <:+: evidence.text.toList)
      (.invalid_quote citation.evidenceId)

theorem issueIf_map {S T : Type} (f : S → T) (p : Prop) [Decidable p] (code : IssueCode S) :
    (issueIf p code).map (IssueCode.map f) = issueIf p (code.map f) := by
  by_cases hp : p <;> simp [issueIf, hp]

/-- A quote that is empty occurs in every text. -/
theorem checkCitation_append_secondIssue (evidence_set : OrderedDict String (Evidence String))
    (citation : Citation String) {evidence : Evidence String}
    (hget : evidence_set.get? citation.evidenceId = some evidence) :
    Python.checkCitation evidence_set citation ++ secondIssue evidence_set citation =
      issueIf ((stripped citation.quote).length < 1 ∨ (stripped citation.quote).length > 300)
          (.invalid_quote citation.evidenceId) ++
        issueIf (¬ (stripped citation.quote).toList <:+: evidence.text.toList)
          (.invalid_quote citation.evidenceId) := by
  simp only [Python.checkCitation, secondIssue, hget]
  by_cases hempty : (stripped citation.quote).length < 1
  · have hnil : (stripped citation.quote).toList = [] := by
      rw [← List.length_eq_zero_iff, String.length_toList]
      omega
    have hshort : ¬ (stripped citation.quote).length > 300 := by omega
    simp [issueIf, hnil, hempty, hshort]
  · by_cases hlong : (stripped citation.quote).length > 300
    · simp [issueIf, hlong]
    · simp [issueIf, hempty, hlong]

section Units

variable {claims : List (DraftClaim String)} {evidence : List (Evidence String)}

theorem get?_evidenceMap_units (hev : ∀ e ∈ evidence, Printable e.id) {id : String}
    (hid : Printable id) :
    (evidenceMap (evidence.map (Evidence.map units))).get? (units id) =
      ((evidenceMap evidence).get? id).map (Evidence.map units) := by
  rw [evidenceMap, evidenceMap, get?_lastByKey, get?_lastByKey, ← List.map_reverse,
    List.find?_map]
  apply congrArg (Option.map (Evidence.map units))
  rw [← List.head?_filter, ← List.head?_filter]
  apply congrArg List.head?
  apply List.filter_congr
  intro e he
  have heq := units_inj (hev e (List.mem_reverse.mp he)) hid
  exact decide_eq_decide.mpr heq

/-- The TypeScript checks of a citation are the Python checks and the second issue. -/
theorem checkCitation_units (hev : ∀ e ∈ evidence, Printable e.id)
    (htext : ∀ e ∈ evidence, Printable e.text) {citation : Citation String}
    (hid : Printable citation.evidenceId) (hquote : Printable citation.quote) :
    TypeScript.checkCitation (evidenceMap (evidence.map (Evidence.map units)))
        (citation.map units) =
      (Python.checkCitation (evidenceMap evidence) citation ++
        secondIssue (evidenceMap evidence) citation).map (IssueCode.map units) := by
  have hget := get?_evidenceMap_units hev hid
  unfold TypeScript.checkCitation
  simp only [Citation.map, hget]
  cases hfound : (evidenceMap evidence).get? citation.evidenceId with
  | none => simp [Python.checkCitation, secondIssue, hfound, IssueCode.map]
  | some e =>
    have he : e ∈ evidence := by
      rcases get?_evidenceMap_eq_some_iff.mp hfound with ⟨-, before, after, rfl, -⟩
      simp
    have hstripped := printable_stripped hquote
    rw [checkCitation_append_secondIssue _ _ hfound, List.map_append, issueIf_map, issueIf_map]
    simp only [Option.map_some, Evidence.map, IssueCode.map, trimUnits_units hquote,
      length_units hstripped, infix_units_iff hstripped (htext e he)]

end Units

/-! ## The loops -/

section Loops

variable {S T : Type} [DecidableEq S] [DecidableEq T] {f : S → T}

/-- The loop over the citations in another type of strings. -/
theorem checkCitations_map {check : Citation S → List (IssueCode S)}
    {check' : Citation T → List (IssueCode T)} {citations : List (Citation S)}
    {seen : OrderedSet S} {seen' : OrderedSet T}
    (hcheck : ∀ c ∈ citations, check' (c.map f) = (check c).map (IssueCode.map f))
    (hinj : ∀ c ∈ citations, ∀ d ∈ citations, f c.evidenceId = f d.evidenceId →
      c.evidenceId = d.evidenceId)
    (hseen : ∀ c ∈ citations, f c.evidenceId ∈ seen'.elems ↔ c.evidenceId ∈ seen.elems) :
    checkCitations check' seen' (citations.map (Citation.map f)) =
      (checkCitations check seen citations).map (IssueCode.map f) := by
  induction citations generalizing seen seen' with
  | nil => rfl
  | cons citation citations ih =>
    have hcheck' := fun c hc => hcheck c (List.mem_cons_of_mem citation hc)
    have hinj' := fun c hc d hd =>
      hinj c (List.mem_cons_of_mem citation hc) d (List.mem_cons_of_mem citation hd)
    rw [List.map_cons, checkCitations, checkCitations, List.map_append,
      hcheck citation List.mem_cons_self]
    apply congrArg
    have hmem : (citation.map f).evidenceId ∈ seen'.elems ↔ citation.evidenceId ∈ seen.elems :=
      hseen citation List.mem_cons_self
    by_cases h : citation.evidenceId ∈ seen.elems
    · rw [if_pos h, if_pos (hmem.mpr h), List.map_cons,
        ih hcheck' hinj' fun c hc => hseen c (List.mem_cons_of_mem citation hc)]
      rfl
    · rw [if_neg h, if_neg (mt hmem.mp h)]
      refine ih hcheck' hinj' fun c hc => ?_
      rw [OrderedSet.mem_add, OrderedSet.mem_add, hseen c (List.mem_cons_of_mem citation hc)]
      apply or_congr_right
      constructor
      · exact hinj c (List.mem_cons_of_mem citation hc) citation List.mem_cons_self
      · exact congrArg f

omit [DecidableEq T] in
/-- What is checked in addition can be reported after all others. -/
theorem checkCitations_append_perm (check more : Citation S → List (IssueCode S))
    (seen : OrderedSet S) (citations : List (Citation S)) :
    (checkCitations (fun c => check c ++ more c) seen citations).Perm
      (checkCitations check seen citations ++ citations.flatMap more) := by
  induction citations generalizing seen with
  | nil => exact List.Perm.refl _
  | cons citation citations ih =>
    rw [List.perm_iff_count]
    intro code
    have hseen := (ih seen).count_eq code
    have hadd := (ih (seen.add citation.evidenceId)).count_eq code
    rw [checkCitations, checkCitations, List.flatMap_cons]
    split
    · simp only [List.count_append, List.count_cons] at hseen ⊢
      omega
    · simp only [List.count_append] at hadd ⊢
      omega

omit [DecidableEq S] [DecidableEq T] in
theorem checkClaims_map {g : DraftClaim S → List (IssueCode S)}
    {g' : DraftClaim T → List (IssueCode T)} {claims : List (DraftClaim S)}
    (h : ∀ claim ∈ claims, g' (claim.map f) = (g claim).map (IssueCode.map f)) :
    checkClaims g' (claims.map (DraftClaim.map f)) =
      (checkClaims g claims).map (CitationIssue.map f) := by
  rw [checkClaims, checkClaims, List.zipIdx_map, List.flatMap_map, List.map_flatMap]
  apply List.flatMap_congr
  rintro ⟨claim, i⟩ hmem
  have hclaim : claim ∈ claims := List.mem_of_getElem? (List.mem_zipIdx_iff_getElem?.mp hmem)
  change (g' (claim.map f)).map _ = _
  rw [h claim hclaim, List.map_map, List.map_map]
  rfl

omit [DecidableEq S] in
/-- What is checked in addition for each claim can be reported after all others. -/
theorem checkClaims_append_perm {g g' more : DraftClaim S → List (IssueCode S)}
    (h : ∀ claim, (g' claim).Perm (g claim ++ more claim)) (claims : List (DraftClaim S)) :
    (checkClaims g' claims).Perm (checkClaims g claims ++ checkClaims more claims) := by
  refine List.Perm.trans ?_ (List.flatMap_append_perm _ _ _).symm
  apply List.Perm.flatMap_left
  rintro ⟨claim, i⟩ -
  rw [← List.map_append]
  exact (h claim).map _

end Loops

/-! ## The drafts on which they agree -/

/-- The second issues of a claim. -/
def secondIssues (evidence : List (Evidence String)) (claim : DraftClaim String) :
    List (IssueCode String) :=
  claim.citations.flatMap (secondIssue (evidenceMap evidence))

/-- The checks of a claim as TypeScript makes them, on characters. -/
def bothChecks (evidence : List (Evidence String)) (claim : DraftClaim String) :
    List (IssueCode String) :=
  issueIf ((stripped claim.text).length = 0) .empty_claim ++
  issueIf (claim.factual = true ∧ claim.citations.length = 0) .missing_citation ++
  checkCitations (fun c => Python.checkCitation (evidenceMap evidence) c ++
    secondIssue (evidenceMap evidence) c) OrderedSet.empty claim.citations

theorem bothChecks_perm (evidence : List (Evidence String)) (claim : DraftClaim String) :
    (bothChecks evidence claim).Perm
      (Python.checkClaim (evidenceMap evidence) claim ++ secondIssues evidence claim) := by
  unfold bothChecks Python.checkClaim
  rw [List.append_assoc (issueIf _ _ ++ issueIf _ _)]
  refine List.Perm.append ?_ (checkCitations_append_perm _ _ _ _)
  simp only [and_comm]
  exact List.perm_append_comm

section Agreement

variable {claims : List (DraftClaim String)} {evidence : List (Evidence String)}

theorem checkClaim_units (h : PrintableDraft claims evidence) {claim : DraftClaim String}
    (hclaim : claim ∈ claims) :
    TypeScript.checkClaim (evidenceMap (evidence.map (Evidence.map units))) (claim.map units) =
      (bothChecks evidence claim).map (IssueCode.map units) := by
  have hloop : checkCitations
      (TypeScript.checkCitation (evidenceMap (evidence.map (Evidence.map units))))
      OrderedSet.empty (claim.citations.map (Citation.map units)) =
      (checkCitations (fun c => Python.checkCitation (evidenceMap evidence) c ++
        secondIssue (evidenceMap evidence) c) OrderedSet.empty claim.citations).map
        (IssueCode.map units) := by
    apply checkCitations_map
    · intro c hc
      exact checkCitation_units h.evidenceIds h.evidenceTexts (h.ids claim hclaim c hc)
        (h.quotes claim hclaim c hc)
    · intro c hc d hd
      exact (units_inj (h.ids claim hclaim c hc) (h.ids claim hclaim d hd)).mp
    · intro c _
      simp
  have htext := h.texts claim hclaim
  have hlength : (trimUnits (units claim.text)).length = (stripped claim.text).length := by
    rw [trimUnits_units htext, length_units (printable_stripped htext)]
  simp only [TypeScript.checkClaim, DraftClaim.map, hloop, hlength, bothChecks, List.map_append,
    issueIf_map, List.length_map, IssueCode.map]

/-- The issues of TypeScript are those of Python and the second issues. -/
theorem typeScriptIssues_perm (h : PrintableDraft claims evidence) :
    (typeScriptIssues claims evidence).Perm (pythonIssues claims evidence ++
      (checkClaims (secondIssues evidence) claims).map (CitationIssue.map units)) := by
  rw [typeScriptIssues, TypeScript.checkCitationIntegrity,
    checkClaims_map (g := bothChecks evidence) fun claim hclaim => checkClaim_units h hclaim,
    pythonIssues, ← List.map_append]
  exact (checkClaims_append_perm (bothChecks_perm evidence) claims).map _

/-- A citation of known evidence with a quote that is longer than 300 characters,
stripped, and does not occur in the text. -/
def LongAndAbsent (evidence : List (Evidence String)) (citation : Citation String) : Prop :=
  ∃ entry, InForce evidence citation.evidenceId entry ∧
    300 < (stripped citation.quote).length ∧
    ¬ (stripped citation.quote).toList <:+: entry.text.toList

/-- There is a second issue exactly for such a citation. -/
theorem secondIssue_eq_nil_iff {citation : Citation String} :
    secondIssue (evidenceMap evidence) citation = [] ↔ ¬ LongAndAbsent evidence citation := by
  unfold secondIssue LongAndAbsent
  simp only [← get?_evidenceMap_eq_some_iff]
  cases (evidenceMap evidence).get? citation.evidenceId with
  | none => simp
  | some entry => simp [issueIf]

theorem secondIssue_of_longAndAbsent {citation : Citation String}
    (h : LongAndAbsent evidence citation) :
    secondIssue (evidenceMap evidence) citation = [.invalid_quote citation.evidenceId] := by
  rcases h with ⟨entry, hentry, hlong, habsent⟩
  simp [secondIssue, get?_evidenceMap_eq_some_iff.mpr hentry, issueIf, hlong, habsent]

theorem checkCitation_of_longAndAbsent {citation : Citation String}
    (h : LongAndAbsent evidence citation) :
    Python.checkCitation (evidenceMap evidence) citation =
      [.invalid_quote citation.evidenceId] := by
  rcases h with ⟨entry, hentry, hlong, -⟩
  simp [Python.checkCitation, get?_evidenceMap_eq_some_iff.mpr hentry, hlong]

/-- No citation of the draft has a long quote that does not occur. -/
def NoneLongAndAbsent (claims : List (DraftClaim String)) (evidence : List (Evidence String)) :
    Prop :=
  ∀ claim ∈ claims, ∀ c ∈ claim.citations, ¬ LongAndAbsent evidence c

theorem checkClaims_secondIssues_eq_nil_iff :
    checkClaims (secondIssues evidence) claims = [] ↔ NoneLongAndAbsent claims evidence := by
  have hclaims : ∀ claim, secondIssues evidence claim = [] ↔
      ∀ c ∈ claim.citations, ¬ LongAndAbsent evidence c := by
    intro claim
    rw [secondIssues, List.flatMap_eq_nil_iff]
    simp only [secondIssue_eq_nil_iff]
  unfold NoneLongAndAbsent
  simp only [← hclaims]
  rw [List.eq_nil_iff_forall_not_mem]
  constructor
  · intro h claim hclaim
    rw [List.eq_nil_iff_forall_not_mem]
    intro code hcode
    rcases List.mem_iff_getElem?.mp hclaim with ⟨i, hi⟩
    exact h ⟨i, code⟩ (mem_checkClaims.mpr ⟨claim, hi, hcode⟩)
  · rintro h ⟨i, code⟩ hissue
    rcases mem_checkClaims.mp hissue with ⟨claim, hclaim, hcode⟩
    rw [h claim (List.mem_of_getElem? hclaim)] at hcode
    exact List.not_mem_nil hcode

end Agreement

/-! ## The claim on both -/

/-- The two checkers report the same issues. -/
def SameIssues (claims : List (DraftClaim String)) (evidence : List (Evidence String)) : Prop :=
  (pythonIssues claims evidence).Perm (typeScriptIssues claims evidence)

/-- In both checkers each citation contributes one `invalid_quote` issue at most. -/
def OneQuoteIssue (claims : List (DraftClaim String)) (evidence : List (Evidence String)) :
    Prop :=
  ∀ claim ∈ claims, ∀ c ∈ claim.citations,
    (Python.checkCitation (evidenceMap evidence) c).count (.invalid_quote c.evidenceId) ≤ 1 ∧
    (TypeScript.checkCitation (evidenceMap (evidence.map (Evidence.map units)))
      (c.map units)).count (.invalid_quote (units c.evidenceId)) ≤ 1

theorem same_iff {claims : List (DraftClaim String)} {evidence : List (Evidence String)}
    (h : PrintableDraft claims evidence) :
    SameIssues claims evidence ↔ NoneLongAndAbsent claims evidence := by
  rw [SameIssues, (typeScriptIssues_perm h).congr_right, ← checkClaims_secondIssues_eq_nil_iff]
  constructor
  · intro hperm
    have hlength := hperm.length_eq
    rw [List.length_append, List.length_map] at hlength
    exact List.length_eq_zero_iff.mp (by omega)
  · intro hnil
    simp [hnil]

theorem length_checkCitation_le (evidence_set : OrderedDict String (Evidence String))
    (citation : Citation String) :
    (Python.checkCitation evidence_set citation).length ≤ 1 := by
  unfold Python.checkCitation
  split
  · simp
  · dsimp only
    split
    · simp
    · split <;> simp

theorem oneQuoteIssue_iff {claims : List (DraftClaim String)} {evidence : List (Evidence String)}
    (h : PrintableDraft claims evidence) :
    OneQuoteIssue claims evidence ↔ NoneLongAndAbsent claims evidence := by
  have hunits : ∀ claim ∈ claims, ∀ c ∈ claim.citations,
      TypeScript.checkCitation (evidenceMap (evidence.map (Evidence.map units))) (c.map units) =
        (Python.checkCitation (evidenceMap evidence) c ++
          secondIssue (evidenceMap evidence) c).map (IssueCode.map units) :=
    fun claim hclaim c hc => checkCitation_units h.evidenceIds h.evidenceTexts
      (h.ids claim hclaim c hc) (h.quotes claim hclaim c hc)
  constructor
  · intro hone claim hclaim c hc hbad
    have hcount := (hone claim hclaim c hc).2
    rw [hunits claim hclaim c hc, checkCitation_of_longAndAbsent hbad,
      secondIssue_of_longAndAbsent hbad] at hcount
    simp [IssueCode.map] at hcount
  · intro hnone claim hclaim c hc
    refine ⟨List.count_le_length.trans (length_checkCitation_le _ _),
      List.count_le_length.trans ?_⟩
    rw [hunits claim hclaim c hc, secondIssue_eq_nil_iff.mpr (hnone claim hclaim c hc),
      List.append_nil, List.length_map]
    exact length_checkCitation_le _ _

/-- Over printable ASCII, the two checkers report the same issues exactly if no
citation has a long quote that does not occur; and so for one `invalid_quote` at
most for each citation. -/
theorem same_citation_issues_iff {claims : List (DraftClaim String)} {evidence : List (Evidence String)}
    (h : PrintableDraft claims evidence) :
    (SameIssues claims evidence ↔ NoneLongAndAbsent claims evidence) ∧
    (OneQuoteIssue claims evidence ↔ NoneLongAndAbsent claims evidence) :=
  ⟨same_iff h, oneQuoteIssue_iff h⟩

/-- A citation with a long quote that its evidence does not have. -/
def invention : Citation String := ⟨"e-7", String.ofList (List.replicate 301 'x')⟩

def invented : List (DraftClaim String) := [⟨"Reports are due.", true, [invention]⟩]

def handbook : List (Evidence String) := [⟨"e-7", "Expense reports are due within 30 days."⟩]

theorem printableDraft_invented : PrintableDraft invented handbook where
  texts := by decide +kernel
  ids := by decide +kernel
  quotes := by
    have hquote : Printable invention.quote := by
      rw [Printable, invention, String.toList_ofList]
      decide +kernel
    intro claim hclaim c hc
    rcases List.mem_singleton.mp hclaim with rfl
    rcases List.mem_singleton.mp hc with rfl
    exact hquote
  evidenceIds := by decide +kernel
  evidenceTexts := by decide +kernel

theorem longAndAbsent_invention : LongAndAbsent handbook invention := by
  have hstripped : stripped invention.quote = invention.quote := by
    rw [stripped, invention, String.toList_ofList]
    apply congrArg String.ofList
    decide +kernel
  have hlength : invention.quote.toList.length = 301 := by
    rw [invention, String.toList_ofList, List.length_replicate]
  have hin : InForce handbook "e-7" ⟨"e-7", "Expense reports are due within 30 days."⟩ :=
    ⟨rfl, [], [], rfl, by simp⟩
  refine ⟨_, hin, ?_, ?_⟩
  · rw [hstripped, ← String.length_toList, hlength]
    decide
  · -- the quote is longer than the text
    rw [hstripped]
    intro hinfix
    have hle := hinfix.length_le
    rw [hlength] at hle
    revert hle
    decide +kernel

theorem same_citation_issues_iff_invented :
    (SameIssues invented handbook ↔ NoneLongAndAbsent invented handbook) ∧
    (OneQuoteIssue invented handbook ↔ NoneLongAndAbsent invented handbook) :=
  same_citation_issues_iff printableDraft_invented

/-- Python reports one issue, TypeScript two. -/
theorem issues_differ :
    Python.checkCitation (evidenceMap handbook) invention = [.invalid_quote "e-7"] ∧
    TypeScript.checkCitation (evidenceMap (handbook.map (Evidence.map units)))
        (invention.map units) =
      [.invalid_quote (units "e-7"), .invalid_quote (units "e-7")] ∧
    ¬ SameIssues invented handbook ∧ ¬ OneQuoteIssue invented handbook := by
  have hbad := longAndAbsent_invention
  have hsome : ¬ NoneLongAndAbsent invented handbook := fun hnone =>
    hnone _ List.mem_cons_self _ List.mem_cons_self hbad
  have hdraft := printableDraft_invented
  have hscript := checkCitation_units hdraft.evidenceIds hdraft.evidenceTexts
    (hdraft.ids _ List.mem_cons_self _ List.mem_cons_self)
    (hdraft.quotes _ List.mem_cons_self invention List.mem_cons_self)
  rw [checkCitation_of_longAndAbsent hbad, secondIssue_of_longAndAbsent hbad] at hscript
  exact ⟨checkCitation_of_longAndAbsent hbad, hscript, mt (same_iff hdraft).mp hsome,
    mt (oneQuoteIssue_iff hdraft).mp hsome⟩

end InterviewPrep.CitationIntegrity
