import InterviewPrep.ContentFilter.Model
import InterviewPrep.Lib.JavaScript

/-!
# Malformed answers of the filter

`generateWithSafety` of `technical/content_filter_integration/answer.ts`, with a
filter that may answer anything: any JSON value, or `undefined`. The code reads
the members of the answer without looking at their types, outside of its `try`
blocks. So `null` rejects the promise, a truthy `allowed` is as good as `true`,
and anything else is a block.

`guarded_iff_answered` says in which runs this does no harm: the answers are
well-formed, or the run is cut short before the malformed one matters.
-/

namespace InterviewPrep.ContentFilter

namespace TypeScript

open JavaScript

/-! ## The data -/

/-- How a promise settles. -/
inductive Settled (α : Type) where
  | fulfilled (a : α)
  | rejected

/-- What the filter answers; `none` is `undefined`. -/
abbrev Decision := Option Json

/-- The result, with the values that the code puts into its fields. -/
inductive SafeGenerationResult where
  | completed (output : CodeUnits) (policyVersion : Option Json)
  | blocked (stage : Stage) (category reviewRef : Option Json)
  | failed (code : FailureCode)

/-! ## The program -/

/-- What the function asks: `signal.aborted`, `filter.classify`,
`generator.generate`. -/
inductive Call where
  | aborted
  | classify (text : CodeUnits)
  | generate (input : CodeUnits)

abbrev Answer : Call → Type
  | .aborted => Bool
  | .classify _ => Settled Decision
  | .generate _ => Settled CodeUnits

/-- An `async` function. -/
abbrev Async (α : Type) := Program Answer α

def max_input_length : ℕ := 10000

/-- `{ status: "failed", code }` -/
def failed (code : FailureCode) : Settled SafeGenerationResult := .fulfilled (.failed code)

/-- The `catch` blocks. -/
def caught (code : FailureCode) : Async (Settled SafeGenerationResult) := do
  if ← Program.ask Answer .aborted then return failed .cancelled
  else return failed code

/-- What `if (!decision.allowed)` does: throw, block with the values of two
members, or pass. -/
inductive Gate where
  | throws
  | blocks (category reviewRef : Option Json)
  | passes

def gate : Decision → Gate
  -- reading a member of `undefined` or `null` is a `TypeError`
  | none => .throws
  | some .null => .throws
  | some decision =>
    match decision.get? "allowed" with
    -- `undefined` is falsy
    | none => .blocks (decision.get? "category") (decision.get? "reviewRef")
    | some allowed =>
      if allowed.truthy then .passes
      else .blocks (decision.get? "category") (decision.get? "reviewRef")

/-- `decision.policyVersion` -/
def policyVersion (decision : Decision) : Option Json :=
  decision.bind (fun d => d.get? "policyVersion")

/-- How the function ends after the second classification. -/
def release (output : CodeUnits) (outputDecision : Decision) : Settled SafeGenerationResult :=
  match gate outputDecision with
  | .throws => .rejected
  | .blocks category reviewRef => .fulfilled (.blocked .output category reviewRef)
  | .passes => .fulfilled (.completed output (policyVersion outputDecision))

/-- Steps 3 and 4. -/
def filterOutput (output : CodeUnits) : Async (Settled SafeGenerationResult) := do
  if ← Program.ask Answer .aborted then return failed .cancelled
  else
    match ← Program.ask Answer (.classify output) with
    | .rejected => caught .filter_unavailable
    | .fulfilled outputDecision => return release output outputDecision

/-- Steps 2 to 4. -/
def generateOutput (text : CodeUnits) : Async (Settled SafeGenerationResult) := do
  if ← Program.ask Answer .aborted then return failed .cancelled
  else
    match ← Program.ask Answer (.generate text) with
    | .rejected => caught .model_failed
    | .fulfilled output => filterOutput output

/-- Steps 1 to 4. -/
def filterInput (text : CodeUnits) : Async (Settled SafeGenerationResult) := do
  match ← Program.ask Answer (.classify text) with
  | .rejected => caught .filter_unavailable
  | .fulfilled inputDecision =>
    match gate inputDecision with
    -- thrown outside of the `try` block
    | .throws => return .rejected
    | .blocks category reviewRef => return .fulfilled (.blocked .input category reviewRef)
    | .passes => generateOutput text

/-- `generateWithSafety` -/
def generateWithSafety (input : CodeUnits) : Async (Settled SafeGenerationResult) := do
  if ← Program.ask Answer .aborted then return failed .cancelled
  else if trimUnits input = [] then return failed .invalid_input
  else filterInput (input.take max_input_length)

/-! ## The property -/

/-- What happened in a run: the calls with their answers. -/
abbrev Trace := List (Sigma Answer)

/-- How the classifications of a run settled, in order. -/
def decisions : Trace → List (Settled Decision)
  | [] => []
  | ⟨.classify _, d⟩ :: tr => d :: decisions tr
  | ⟨.aborted, _⟩ :: tr => decisions tr
  | ⟨.generate _, _⟩ :: tr => decisions tr

/-- A value is a string. -/
def IsText (value : Option Json) : Prop := ∃ s, value = some (.str s)

/-- An object whose `allowed` is exactly true. -/
def AllowedTrue (d : Decision) : Prop :=
  ∃ members, d = some (.obj members) ∧ (Json.obj members).get? "allowed" = some (.bool true)

/-- An object of the type `FilterDecision`. -/
def WellFormed (d : Decision) : Prop :=
  ∃ members, d = some (.obj members) ∧ IsText ((Json.obj members).get? "policyVersion") ∧
    ((Json.obj members).get? "allowed" = some (.bool true) ∨
      (Json.obj members).get? "allowed" = some (.bool false) ∧
        IsText ((Json.obj members).get? "category") ∧
        IsText ((Json.obj members).get? "reviewRef"))

/-- A result of the type `SafeGenerationResult`. -/
def Typed : SafeGenerationResult → Prop
  | .completed _ policyVersion => IsText policyVersion
  | .blocked _ category reviewRef => IsText category ∧ IsText reviewRef
  | .failed _ => True

/-- What a run must satisfy, for its trace and how the promise settles. -/
structure Guarded (tr : Trace) (r : Settled SafeGenerationResult) : Prop where
  /-- the promise fulfils with a typed result -/
  typed : ∃ result, r = .fulfilled result ∧ Typed result
  /-- the generator is called only after the first value allowed it -/
  generator : ∀ text o, ⟨.generate text, o⟩ ∈ tr →
    ∃ d, (decisions tr)[0]? = some (.fulfilled d) ∧ AllowedTrue d
  /-- output is returned only after the second value allowed it -/
  released : ∀ output version, r = .fulfilled (.completed output version) →
    ∃ d, (decisions tr)[1]? = some (.fulfilled d) ∧ AllowedTrue d
  /-- a malformed value is a failure of the filter -/
  malformed : ∀ d, .fulfilled d ∈ decisions tr → ¬ WellFormed d →
    r = failed .filter_unavailable ∨ r = failed .cancelled ∧ ⟨.aborted, true⟩ ∈ tr

/-! ## The condition -/

/-- The rest of a run ends with the signal found aborted, or has a classification
that is rejected. -/
def CutShort (rest : Trace) : Prop :=
  rest.getLast? = some ⟨.aborted, true⟩ ∨ .rejected ∈ decisions rest

/-- A malformed value does no harm when it passes the gate and the run is cut
short: at once, or later if `allowed` is exactly true. -/
def Excused (d : Decision) (rest : Trace) : Prop :=
  CutShort rest ∧ gate d = .passes ∧ (AllowedTrue d ∨ rest.length = 1)

/-- Every value of the filter is well-formed, or excused by the rest of the run. -/
def Answered : Trace → Prop
  | [] => True
  | ⟨.classify _, .fulfilled d⟩ :: rest => (WellFormed d ∨ Excused d rest) ∧ Answered rest
  | _ :: rest => Answered rest

/-! ## The runs -/

variable {input text output : CodeUnits} {code : FailureCode} {d : Decision} {tr : Trace}
  {r : Settled SafeGenerationResult}

theorem runs_caught :
    (caught code).Runs tr r ↔
      ∃ b, tr = [⟨.aborted, b⟩] ∧ r = failed (if b then .cancelled else code) := by
  unfold caught
  rw [Program.runs_ask_bind]
  constructor
  · rintro ⟨b, tr', rfl, h⟩
    cases b with
    | true =>
      obtain ⟨rfl, rfl⟩ := h
      exact ⟨true, rfl, rfl⟩
    | false =>
      obtain ⟨rfl, rfl⟩ := h
      exact ⟨false, rfl, rfl⟩
  · rintro ⟨b, rfl, rfl⟩
    refine ⟨b, [], rfl, ?_⟩
    cases b <;> exact ⟨rfl, rfl⟩

/-- A step that first reads the signal. -/
theorem runs_unless_aborted {rest : Async (Settled SafeGenerationResult)}
    (h : Program.Runs (do
      if ← Program.ask Answer .aborted then return failed .cancelled else rest) tr r) :
    (tr = [⟨.aborted, true⟩] ∧ r = failed .cancelled) ∨
    (∃ tr', tr = ⟨.aborted, false⟩ :: tr' ∧ rest.Runs tr' r) := by
  obtain ⟨b, tr', rfl, hrest⟩ := Program.runs_ask_bind.mp h
  cases b with
  | true =>
    obtain ⟨rfl, rfl⟩ := hrest
    exact Or.inl ⟨rfl, rfl⟩
  | false => exact Or.inr ⟨tr', rfl, hrest⟩

theorem runs_filterOutput (h : (filterOutput output).Runs tr r) :
    (tr = [⟨.aborted, true⟩] ∧ r = failed .cancelled) ∨
    (∃ b, tr = [⟨.aborted, false⟩, ⟨.classify output, .rejected⟩, ⟨.aborted, b⟩] ∧
      r = failed (if b then .cancelled else .filter_unavailable)) ∨
    (∃ d, tr = [⟨.aborted, false⟩, ⟨.classify output, .fulfilled d⟩] ∧ r = release output d) := by
  rcases runs_unless_aborted h with hcancelled | ⟨tr', rfl, hrest⟩
  · exact Or.inl hcancelled
  · obtain ⟨a, tr₂, rfl, hend⟩ := Program.runs_ask_bind.mp hrest
    cases a with
    | rejected =>
      obtain ⟨b, rfl, rfl⟩ := runs_caught.mp hend
      exact Or.inr (Or.inl ⟨b, rfl, rfl⟩)
    | fulfilled d =>
      obtain ⟨rfl, rfl⟩ := hend
      exact Or.inr (Or.inr ⟨d, rfl, rfl⟩)

theorem runs_generateOutput (h : (generateOutput text).Runs tr r) :
    (tr = [⟨.aborted, true⟩] ∧ r = failed .cancelled) ∨
    (∃ b, tr = [⟨.aborted, false⟩, ⟨.generate text, .rejected⟩, ⟨.aborted, b⟩] ∧
      r = failed (if b then .cancelled else .model_failed)) ∨
    (∃ output tr', tr = ⟨.aborted, false⟩ :: ⟨.generate text, .fulfilled output⟩ :: tr' ∧
      (filterOutput output).Runs tr' r) := by
  rcases runs_unless_aborted h with hcancelled | ⟨tr', rfl, hrest⟩
  · exact Or.inl hcancelled
  · obtain ⟨a, tr₂, rfl, hend⟩ := Program.runs_ask_bind.mp hrest
    cases a with
    | rejected =>
      obtain ⟨b, rfl, rfl⟩ := runs_caught.mp hend
      exact Or.inr (Or.inl ⟨b, rfl, rfl⟩)
    | fulfilled output => exact Or.inr (Or.inr ⟨output, tr₂, rfl, hend⟩)

theorem runs_filterInput (h : (filterInput text).Runs tr r) :
    (∃ b, tr = [⟨.classify text, .rejected⟩, ⟨.aborted, b⟩] ∧
      r = failed (if b then .cancelled else .filter_unavailable)) ∨
    (∃ d, tr = [⟨.classify text, .fulfilled d⟩] ∧ gate d = .throws ∧ r = .rejected) ∨
    (∃ d category reviewRef, tr = [⟨.classify text, .fulfilled d⟩] ∧
      gate d = .blocks category reviewRef ∧ r = .fulfilled (.blocked .input category reviewRef)) ∨
    (∃ d tr', tr = ⟨.classify text, .fulfilled d⟩ :: tr' ∧ gate d = .passes ∧
      (generateOutput text).Runs tr' r) := by
  obtain ⟨a, tr', rfl, hrest⟩ := Program.runs_ask_bind.mp h
  cases a with
  | rejected =>
    obtain ⟨b, rfl, rfl⟩ := runs_caught.mp hrest
    exact Or.inl ⟨b, rfl, rfl⟩
  | fulfilled d =>
    -- `if (!inputDecision.allowed)`, outside of the `try` block
    cases hgate : gate d with
    | throws =>
      simp only [hgate] at hrest
      obtain ⟨rfl, rfl⟩ := hrest
      exact Or.inr (Or.inl ⟨d, rfl, hgate, rfl⟩)
    | blocks category reviewRef =>
      simp only [hgate] at hrest
      obtain ⟨rfl, rfl⟩ := hrest
      exact Or.inr (Or.inr (Or.inl ⟨d, category, reviewRef, rfl, hgate, rfl⟩))
    | passes =>
      simp only [hgate] at hrest
      exact Or.inr (Or.inr (Or.inr ⟨d, tr', rfl, hgate, hrest⟩))

/-- The whole function: it ends before a classification, or filters the input. -/
theorem runs_generateWithSafety (h : (generateWithSafety input).Runs tr r) :
    (tr = [⟨.aborted, true⟩] ∧ r = failed .cancelled) ∨
    (tr = [⟨.aborted, false⟩] ∧ r = failed .invalid_input) ∨
    (∃ tr', tr = ⟨.aborted, false⟩ :: tr' ∧
      (filterInput (input.take max_input_length)).Runs tr' r) := by
  rcases runs_unless_aborted h with hcancelled | ⟨tr', rfl, hrest⟩
  · exact Or.inl hcancelled
  · by_cases hblank : trimUnits input = []
    · rw [if_pos hblank] at hrest
      obtain ⟨rfl, rfl⟩ := hrest
      exact Or.inr (Or.inl ⟨rfl, rfl⟩)
    · rw [if_neg hblank] at hrest
      exact Or.inr (Or.inr ⟨tr', rfl, hrest⟩)

/-! ## The gates -/

theorem AllowedTrue.gate (h : AllowedTrue d) : gate d = .passes := by
  obtain ⟨members, rfl, hallowed⟩ := h
  simp [TypeScript.gate, hallowed, Json.truthy]

/-- A well-formed decision passes as an allow, or blocks with two strings. -/
theorem WellFormed.gate_cases (h : WellFormed d) :
    (gate d = .passes ∧ AllowedTrue d ∧ IsText (policyVersion d)) ∨
    ∃ category reviewRef, gate d = .blocks category reviewRef ∧ IsText category ∧
      IsText reviewRef := by
  obtain ⟨members, rfl, hversion, hallowed | ⟨hallowed, hcategory, href⟩⟩ := h
  · have hpass : AllowedTrue (some (.obj members)) := ⟨members, rfl, hallowed⟩
    exact Or.inl ⟨hpass.gate, hpass, hversion⟩
  · refine Or.inr ⟨_, _, ?_, hcategory, href⟩
    simp [gate, hallowed, Json.truthy]

theorem WellFormed.allowedTrue (h : WellFormed d) (hgate : gate d = .passes) : AllowedTrue d := by
  rcases h.gate_cases with ⟨-, hallowed, -⟩ | ⟨category, reviewRef, hblocks, -⟩
  · exact hallowed
  · rw [hgate] at hblocks
    cases hblocks

/-! ## The condition on the parts of a run -/

/-- The start of a run that classifies its input. -/
def classified (text : CodeUnits) (d : Decision) (rest : Trace) : Trace :=
  ⟨.aborted, false⟩ :: ⟨.classify text, .fulfilled d⟩ :: rest

variable {rest : Trace}

theorem answered_of_no_values (h : ∀ d, .fulfilled d ∉ decisions rest) : Answered rest := by
  induction rest with
  | nil => trivial
  | cons x rest ih =>
    obtain ⟨call, a⟩ := x
    cases call with
    | aborted => exact ih h
    | generate input => exact ih h
    | classify text =>
      cases a with
      | rejected => exact ih fun d hd => h d (List.mem_cons_of_mem _ hd)
      | fulfilled d => exact absurd List.mem_cons_self (h d)

theorem answered_classified : Answered (classified text d rest) ↔
    (WellFormed d ∨ Excused d rest) ∧ Answered rest := Iff.rfl

/-- A run that fails after one value: the value must have allowed a generation,
and be well-formed unless the failure is the one of a malformed value. -/
theorem guarded_failed_iff (hrest : ∀ d, .fulfilled d ∉ decisions rest) :
    Guarded (classified text d rest) (failed code) ↔
      ((∃ input o, ⟨.generate input, o⟩ ∈ rest) → AllowedTrue d) ∧
      (WellFormed d ∨ code = .filter_unavailable ∨
        code = .cancelled ∧ ⟨.aborted, true⟩ ∈ rest) := by
  constructor
  · intro h
    constructor
    · rintro ⟨input, o, hmem⟩
      obtain ⟨d', hd', hallowed⟩ := h.generator input o (by simp [classified, hmem])
      simp only [classified, decisions, List.getElem?_cons_zero, Option.some.injEq,
        Settled.fulfilled.injEq] at hd'
      rw [hd']
      exact hallowed
    · by_cases hd : WellFormed d
      · exact Or.inl hd
      · -- a malformed value: the failure is the one it must be
        have hmal := h.malformed d (by simp [classified, decisions]) hd
        simp [failed, classified] at hmal
        exact Or.inr hmal
  · rintro ⟨hgenerator, hfailure⟩
    constructor
    · exact ⟨.failed code, rfl, trivial⟩
    · intro input o hmem
      simp [classified] at hmem
      exact ⟨d, rfl, hgenerator ⟨input, o, hmem⟩⟩
    · intro output version h
      simp [failed] at h
    · intro d' hmem hd'
      -- the only value is the first one
      simp only [classified, decisions, List.mem_cons, hrest d', or_false,
        Settled.fulfilled.injEq] at hmem
      subst hmem
      rcases hfailure.resolve_left hd' with rfl | ⟨rfl, hmem⟩
      · exact Or.inl rfl
      · exact Or.inr ⟨rfl, by simp [classified, hmem]⟩

/-- A run that generates and then fails. -/
theorem guarded_iff_of_generated (hgate : gate d = .passes)
    (hrest : ∀ d, .fulfilled d ∉ decisions rest) (hlength : rest.length ≠ 1)
    (hgenerated : ∃ input o, ⟨.generate input, o⟩ ∈ rest)
    (hcut : (code = .filter_unavailable ∨ code = .cancelled ∧ ⟨.aborted, true⟩ ∈ rest) ↔
      CutShort rest) :
    Guarded (classified text d rest) (failed code) ↔ Answered (classified text d rest) := by
  rw [guarded_failed_iff hrest, answered_classified, hcut]
  unfold Excused
  constructor
  · rintro ⟨hallowed, hwell | hshort⟩
    · exact ⟨Or.inl hwell, answered_of_no_values hrest⟩
    · exact ⟨Or.inr ⟨hshort, hgate, Or.inl (hallowed hgenerated)⟩, answered_of_no_values hrest⟩
  · -- a well-formed decision that passes allows
    rintro ⟨hwell | ⟨hshort, -, hallowed⟩, -⟩
    · exact ⟨fun _ => hwell.allowedTrue hgate, Or.inl hwell⟩
    · exact ⟨fun _ => hallowed.resolve_right hlength, Or.inr hshort⟩

/-- A run that the first value ends. -/
theorem answered_stopped : Answered (classified text d []) ↔ WellFormed d := by
  simp [answered_classified, Excused, CutShort, decisions, Answered]

theorem guarded_blocked_iff {category reviewRef : Option Json}
    (hgate : gate d = .blocks category reviewRef) :
    Guarded (classified text d []) (.fulfilled (.blocked .input category reviewRef)) ↔
      WellFormed d := by
  constructor
  · intro h
    by_contra hd
    -- a block is no failure
    have hmal := h.malformed d (by simp [classified, decisions]) hd
    simp [failed] at hmal
  · intro hd
    constructor
    · rcases hd.gate_cases with ⟨hpasses, -⟩ | ⟨category', reviewRef', hblocks, htext⟩
      · rw [hgate] at hpasses
        cases hpasses
      · -- the members that are returned are strings
        rw [hgate, Gate.blocks.injEq] at hblocks
        obtain ⟨rfl, rfl⟩ := hblocks
        exact ⟨_, rfl, htext⟩
    · intro input o hmem
      simp [classified] at hmem
    · intro output version h
      simp at h
    · intro d' hmem hd'
      simp [classified, decisions] at hmem
      rw [hmem] at hd'
      exact absurd hd hd'

/-- The rest of a run that classifies its output. -/
def generated (text output : CodeUnits) (d : Decision) : Trace :=
  [⟨.aborted, false⟩, ⟨.generate text, .fulfilled output⟩, ⟨.aborted, false⟩,
    ⟨.classify output, .fulfilled d⟩]

theorem release_typed (output : CodeUnits) (h : WellFormed d) :
    ∃ result, release output d = .fulfilled result ∧ Typed result ∧
      ∀ output' version, result = .completed output' version → AllowedTrue d := by
  rcases h.gate_cases with ⟨hpasses, hallowed, hversion⟩ | ⟨category, reviewRef, hblocks, htext⟩
  · exact ⟨.completed output (policyVersion d), by simp [release, hpasses], hversion,
      fun _ _ _ => hallowed⟩
  · exact ⟨.blocked .output category reviewRef, by simp [release, hblocks], htext, by simp⟩

/-- A run with two values: both must be well-formed. -/
theorem guarded_released_iff {d' : Decision} (hgate : gate d = .passes) :
    Guarded (classified text d (generated input output d')) (release output d') ↔
      Answered (classified text d (generated input output d')) := by
  have hanswered : Answered (classified text d (generated input output d')) ↔
      WellFormed d ∧ WellFormed d' := by
    simp [answered_classified, Excused, CutShort, generated, decisions, Answered]
  have hdecisions : decisions (classified text d (generated input output d')) =
      [.fulfilled d, .fulfilled d'] := rfl
  rw [hanswered]
  constructor
  · intro h
    -- a malformed value would have to end in a failure
    have hno : ∀ code, release output d' ≠ failed code := by
      intro code
      unfold release
      split <;> simp [failed]
    have hwell : ∀ d₀, .fulfilled d₀ ∈ [Settled.fulfilled d, .fulfilled d'] → WellFormed d₀ := by
      intro d₀ hmem
      by_contra hd₀
      rcases h.malformed d₀ (by rw [hdecisions]; exact hmem) hd₀ with hfailed | ⟨hfailed, -⟩
      · exact hno _ hfailed
      · exact hno _ hfailed
    exact ⟨hwell d (by simp), hwell d' (by simp)⟩
  · rintro ⟨hd, hd'⟩
    obtain ⟨result, hresult, htyped, hreleased⟩ := release_typed output hd'
    rw [hresult]
    constructor
    · exact ⟨result, rfl, htyped⟩
    · intro input' o _
      exact ⟨d, by rw [hdecisions]; rfl, hd.allowedTrue hgate⟩
    · intro output' version heq
      exact ⟨d', by rw [hdecisions]; rfl, hreleased _ _ (Settled.fulfilled.inj heq)⟩
    · intro d₀ hmem hd₀
      rw [hdecisions] at hmem
      simp at hmem
      rcases hmem with rfl | rfl
      · exact absurd hd hd₀
      · exact absurd hd' hd₀

/-! ## All runs -/

/-- A run without a value fails in a typed way. -/
theorem guarded_of_no_values (hvalues : ∀ d, .fulfilled d ∉ decisions tr)
    (hgenerate : ∀ input o, ⟨.generate input, o⟩ ∉ tr) : Guarded tr (failed code) := by
  refine ⟨⟨_, rfl, trivial⟩, ?_, ?_, ?_⟩
  · intro input o hmem
    exact absurd hmem (hgenerate input o)
  · intro output version h
    simp [failed] at h
  · intro d hmem
    exact absurd hmem (hvalues d)

theorem guarded_generateOutput_iff (hgate : gate d = .passes)
    (h : (generateOutput text).Runs rest r) :
    Guarded (classified text d rest) r ↔ Answered (classified text d rest) := by
  rcases runs_generateOutput h with ⟨rfl, rfl⟩ | ⟨b, rfl, rfl⟩ | ⟨output, tr', rfl, hfilter⟩
  · -- found aborted before the generation
    rw [guarded_failed_iff (by simp [decisions]), answered_classified]
    simp [Excused, CutShort, hgate, Answered]
  · -- the generator rejected
    apply guarded_iff_of_generated hgate
    · simp [decisions]
    · simp
    · exact ⟨text, .rejected, by simp⟩
    · cases b <;> simp [CutShort, decisions]
  · rcases runs_filterOutput hfilter with ⟨rfl, rfl⟩ | ⟨b, rfl, rfl⟩ | ⟨d', rfl, rfl⟩
    · -- found aborted after the generation
      apply guarded_iff_of_generated hgate
      · simp [decisions]
      · simp
      · exact ⟨text, .fulfilled output, by simp⟩
      · simp [CutShort]
    · -- the second classification rejected
      apply guarded_iff_of_generated hgate
      · simp [decisions]
      · simp
      · exact ⟨text, .fulfilled output, by simp⟩
      · cases b <;> simp [CutShort, decisions]
    · -- both classifications fulfilled
      exact guarded_released_iff hgate

/-- A run is guarded exactly if every value of the filter is well-formed, or the
run is cut short before it matters. -/
theorem guarded_iff_answered (h : (generateWithSafety input).Runs tr r) :
    Guarded tr r ↔ Answered tr := by
  rcases runs_generateWithSafety h with ⟨rfl, rfl⟩ | ⟨rfl, rfl⟩ | ⟨tr', rfl, hfilter⟩
  · -- aborted before the first step
    exact iff_of_true (guarded_of_no_values (by simp [decisions]) (by simp)) trivial
  · -- a blank input
    exact iff_of_true (guarded_of_no_values (by simp [decisions]) (by simp)) trivial
  · rcases runs_filterInput hfilter with ⟨b, rfl, rfl⟩ | ⟨d, rfl, hgate, rfl⟩ |
      ⟨d, category, reviewRef, rfl, hgate, rfl⟩ | ⟨d, rest, rfl, hgate, hgenerate⟩
    · -- the first classification rejected
      exact iff_of_true (guarded_of_no_values (by simp [decisions]) (by simp)) trivial
    · -- the value is `null` or `undefined`
      have hmalformed : ¬ WellFormed d := by
        intro hd
        rcases hd.gate_cases with ⟨hpasses, -⟩ | ⟨category, reviewRef, hblocks, -⟩
        · rw [hgate] at hpasses
          cases hpasses
        · rw [hgate] at hblocks
          cases hblocks
      refine iff_of_false ?_ (mt answered_stopped.mp hmalformed)
      intro hguarded
      obtain ⟨result, hresult, -⟩ := hguarded.typed
      cases hresult
    · -- falsy, and so a block
      exact (guarded_blocked_iff hgate).trans answered_stopped.symm
    · -- truthy, and so on to the generator
      exact guarded_generateOutput_iff hgate hgenerate

/-- The input `hi`. -/
def hi : CodeUnits := [0x68, 0x69]

/-- A well-formed allow decision. -/
def allow : Decision := some (.obj [("allowed", .bool true), ("policyVersion", .str "1")])

/-- A decision whose `allowed` is truthy, but not `true`. -/
def truthyOnly : Decision := some (.obj [("allowed", .num 1)])

theorem guarded_iff_answered_hi :
    Guarded (classified hi allow (generated hi hi allow)) (.fulfilled (.completed hi
      (some (.str "1")))) := by
  have hrun : (generateWithSafety hi).Runs (classified hi allow (generated hi hi allow))
      (.fulfilled (.completed hi (some (.str "1")))) :=
    ⟨_, _, rfl, _, _, rfl, _, _, rfl, _, _, rfl, _, _, rfl, _, _, rfl, rfl, rfl⟩
  have hwell : WellFormed allow := ⟨_, rfl, ⟨"1", rfl⟩, Or.inl rfl⟩
  exact (guarded_iff_answered hrun).mpr ⟨Or.inl hwell, Or.inl hwell, trivial⟩

/-- Two answers `{ allowed: 1 }` let the output out, and the answer `null` rejects
the promise. -/
theorem malformed_answers_pass :
    ((generateWithSafety hi).Runs (classified hi truthyOnly (generated hi hi truthyOnly))
        (.fulfilled (.completed hi none)) ∧
      ¬ Guarded (classified hi truthyOnly (generated hi hi truthyOnly))
        (.fulfilled (.completed hi none))) ∧
    (generateWithSafety hi).Runs (classified hi (some .null) []) .rejected ∧
      ¬ Guarded (classified hi (some .null) []) .rejected := by
  refine ⟨⟨?_, fun h => ?_⟩, ?_, fun h => ?_⟩
  · exact ⟨_, _, rfl, _, _, rfl, _, _, rfl, _, _, rfl, _, _, rfl, _, _, rfl, rfl, rfl⟩
  · obtain ⟨result, hresult, htyped⟩ := h.typed
    obtain ⟨version, hversion⟩ := Settled.fulfilled.inj hresult ▸ htyped
    cases hversion
  · exact ⟨_, _, rfl, _, _, rfl, rfl, rfl⟩
  · obtain ⟨result, hresult, -⟩ := h.typed
    cases hresult

end TypeScript

end InterviewPrep.ContentFilter
