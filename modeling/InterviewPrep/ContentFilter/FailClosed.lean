import InterviewPrep.ContentFilter.Model

/-!
# Fail-closed generation

Unfiltered text must not reach the generator, and unfiltered output must not
leave. `runs_cases` lists the runs of `generate_with_safety`; the gates appear
in it as `gate stage d = none`, which is weaker than `d.allowed`: an
`AllowedDecision` whose `allowed` is false is neither allowed nor recognised as
blocked, and falls through.

`fail_closed_iff` says that this is the only leak: a run is fail-closed exactly
if no such decision is answered, except where the code reads the cancellation
event as set right after it.
-/

namespace InterviewPrep.ContentFilter

/-! ## The property -/

/-- What a run must satisfy, for the input, the trace and the result. -/
structure FailClosed (input_text : InputText) (tr : Trace) (r : SafeGenerationResult) : Prop where
  /-- the generator only sees the truncated input, after the filter allowed it -/
  generator : ∀ pre text o post, tr = pre ++ ⟨.generate text, o⟩ :: post →
    (∃ s, input_text = .str s ∧ text = s.take max_input_length) ∧
      ∃ d, d.allowed = true ∧ ⟨.classify text, .returned d⟩ ∈ pre
  /-- a completed output was generated, and then the filter allowed it -/
  completed : ∀ output v, r = .completed output v →
    ∃ pre d post, tr = pre ++ ⟨.classify output, .returned d⟩ :: post ∧ d.allowed = true ∧
      ∃ text, ⟨.generate text, .returned output⟩ ∈ pre
  /-- every other result is a block or a failure -/
  otherwise : (∃ output v, r = .completed output v) ∨
    (∃ stage category reviewRef, r = .blocked stage category reviewRef) ∨ ∃ code, r = .failed code

/-- No decision of the class `AllowedDecision` with `allowed` false, unless the
next thing the code sees is the cancellation. -/
def NoFallThrough (tr : Trace) : Prop :=
  ∀ pre text v post, tr = pre ++ ⟨.classify text, .returned (.AllowedDecision v false)⟩ :: post →
    ∃ post', post = ⟨.is_set, true⟩ :: post'

/-! ## The runs -/

/-- A result that carries no output. -/
def Withheld (r : SafeGenerationResult) : Prop := ∀ output v, r ≠ .completed output v

/-- A stretch of a run without generation and without a decision that falls
through. -/
def Quiet (tr : Trace) : Prop :=
  ∀ x ∈ tr, (∀ text o, x ≠ ⟨.generate text, o⟩) ∧
    ∀ text v, x ≠ ⟨.classify text, .returned (.AllowedDecision v false)⟩

theorem withheld_failed (code : FailureCode) : Withheld (.failed code) := by
  intro output v h
  cases h

/-- What a gate returns carries no output. -/
theorem withheld_gate {stage : Stage} {d : FilterDecision} {r : SafeGenerationResult}
    (h : gate stage d = some r) : Withheld r ∧ ∀ v, d ≠ .AllowedDecision v false := by
  cases d with
  | AllowedDecision v a => cases a <;> simp [gate, FilterDecision.allowed] at h
  | BlockedDecision c v ref a =>
    cases a with
    | true => simp [gate, FilterDecision.allowed] at h
    | false =>
      simp only [gate, FilterDecision.allowed, Bool.false_eq_true, if_false,
        Option.some.injEq] at h
      subst h
      constructor
      · intro output v h
        cases h
      · intro v h
        cases h

/-- A guarded classification returns a decision, or a failure after a quiet
stretch. -/
theorem runs_classify {text : Text} {tr : Trace}
    {r : Except SafeGenerationResult FilterDecision} (h : (classify text).Runs tr r) :
    (∃ d, tr = [⟨.classify text, .returned d⟩] ∧ r = .ok d) ∨
    (∃ code, Quiet tr ∧ r = .error (.failed code)) := by
  rcases runs_attempt h with ⟨d, hask, rfl⟩ | ⟨tr₁, tr₂, o, code, rfl, hask, ho, htr₂, rfl⟩
  · exact Or.inl ⟨d, Program.runs_ask.mp hask, rfl⟩
  · right
    refine ⟨code, ?_, rfl⟩
    rw [Program.runs_ask.mp hask]
    intro x hx
    rcases List.mem_append.mp hx with hx | hx
    · rw [List.mem_singleton] at hx
      subst hx
      refine ⟨by simp, ?_⟩
      intro text' v heq
      -- the answer was not a decision
      simp only [Sigma.mk.injEq, Call.classify.injEq] at heq
      rcases heq with ⟨rfl, heq⟩
      exact ho _ (eq_of_heq heq)
    · rcases htr₂ with rfl | ⟨b, rfl⟩
      · simp at hx
      · rw [List.mem_singleton] at hx
        subst hx
        simp

/-- A guarded generation returns an output, or a failure without a further
call. -/
theorem runs_generate {text : Text} {tr : Trace} {r : Except SafeGenerationResult Text}
    (h : (generate text).Runs tr r) :
    (∃ output, tr = [⟨.generate text, .returned output⟩] ∧ r = .ok output) ∨
    (∃ o tr' code, tr = ⟨.generate text, o⟩ :: tr' ∧ Quiet tr' ∧ r = .error (.failed code)) := by
  rcases runs_attempt h with ⟨output, hask, rfl⟩ | ⟨tr₁, tr₂, o, code, rfl, hask, -, htr₂, rfl⟩
  · exact Or.inl ⟨output, Program.runs_ask.mp hask, rfl⟩
  · right
    refine ⟨o, tr₂, code, ?_, ?_, rfl⟩
    · rw [Program.runs_ask.mp hask]
      rfl
    · rcases htr₂ with rfl | ⟨b, rfl⟩
      · simp [Quiet]
      · simp [Quiet]

/-- A classification and its gate: the run stops quietly, or goes on after a
decision that passes the gate. -/
theorem runs_gated {stage : Stage} {text : Text}
    {next : FilterDecision → Coroutine SafeGenerationResult} {tr : Trace}
    {r : SafeGenerationResult}
    (h : Program.Runs (do
      if ← is_cancelled then
        return .failed .cancelled
      else
        match ← classify text with
        | .error r => return r
        | .ok decision =>
          match gate stage decision with
          | some r => return r
          | none => next decision) tr r) :
    (Withheld r ∧ Quiet tr) ∨
    (∃ d tr', tr = ⟨.is_set, false⟩ :: ⟨.classify text, .returned d⟩ :: tr' ∧
      gate stage d = none ∧ (next d).Runs tr' r) := by
  rcases runs_unless_cancelled h with ⟨rfl, rfl⟩ | ⟨tr', rfl, hrun⟩
  · exact Or.inl ⟨withheld_failed _, by simp [Quiet]⟩
  · rcases Program.runs_bind.mp hrun with ⟨tr₁, tr₂, a, rfl, hclassify, hrest⟩
    rcases runs_classify hclassify with ⟨d, rfl, rfl⟩ | ⟨code, hquiet, rfl⟩
    · cases hgate : gate stage d with
      | none =>
        simp only [hgate] at hrest
        exact Or.inr ⟨d, tr₂, rfl, hgate, hrest⟩
      | some r' =>
        simp only [hgate] at hrest
        rcases hrest with ⟨rfl, rfl⟩
        have hwith := withheld_gate hgate
        refine Or.inl ⟨hwith.1, ?_⟩
        simp [Quiet, hwith.2]
    · rcases hrest with ⟨rfl, rfl⟩
      refine Or.inl ⟨withheld_failed _, ?_⟩
      simpa [Quiet] using hquiet

/-- Steps 4 and 5. -/
theorem runs_filterOutput {output : Text} {tr : Trace} {r : SafeGenerationResult}
    (h : (filterOutput output).Runs tr r) :
    (Withheld r ∧ Quiet tr) ∨
    (∃ d, tr = [⟨.is_set, false⟩, ⟨.classify output, .returned d⟩] ∧
      gate .output d = none ∧ r = .completed output d.policyVersion) := by
  rcases runs_gated h with hquiet | ⟨d, tr', rfl, hgate, rfl, rfl⟩
  · exact Or.inl hquiet
  · exact Or.inr ⟨d, rfl, hgate, rfl⟩

/-- Steps 3 to 5. -/
theorem runs_generateOutput {text : Text} {tr : Trace} {r : SafeGenerationResult}
    (h : (generateOutput text).Runs tr r) :
    (Withheld r ∧ tr = [⟨.is_set, true⟩]) ∨
    (∃ o tr', Withheld r ∧ tr = ⟨.is_set, false⟩ :: ⟨.generate text, o⟩ :: tr' ∧ Quiet tr') ∨
    (∃ output d, tr = [⟨.is_set, false⟩, ⟨.generate text, .returned output⟩, ⟨.is_set, false⟩,
        ⟨.classify output, .returned d⟩] ∧
      gate .output d = none ∧ r = .completed output d.policyVersion) := by
  rcases runs_unless_cancelled h with ⟨rfl, rfl⟩ | ⟨tr', rfl, hrun⟩
  · exact Or.inl ⟨withheld_failed _, rfl⟩
  · rcases Program.runs_bind.mp hrun with ⟨tr₁, tr₂, a, rfl, hgenerate, hrest⟩
    rcases runs_generate hgenerate with ⟨output, rfl, rfl⟩ | ⟨o, tr₃, code, rfl, hquiet, rfl⟩
    · rcases runs_filterOutput hrest with ⟨hwith, hquiet⟩ | ⟨d, rfl, hgate, rfl⟩
      · exact Or.inr (Or.inl ⟨_, tr₂, hwith, rfl, hquiet⟩)
      · exact Or.inr (Or.inr ⟨output, d, rfl, hgate, rfl⟩)
    · rcases hrest with ⟨rfl, rfl⟩
      refine Or.inr (Or.inl ⟨o, tr₃, withheld_failed _, ?_, hquiet⟩)
      simp

/-- Steps 2 to 5: the run stops before the generator, or a decision passes the
first gate. -/
theorem runs_filterInput {text : Text} {tr : Trace} {r : SafeGenerationResult}
    (h : (filterInput text).Runs tr r) :
    (Withheld r ∧ Quiet tr) ∨
    (∃ d tr', tr = ⟨.is_set, false⟩ :: ⟨.classify text, .returned d⟩ :: tr' ∧
      gate .input d = none ∧ (generateOutput text).Runs tr' r) :=
  runs_gated h

/-- The whole coroutine. -/
theorem runs_generate_with_safety {input_text : InputText} {tr : Trace}
    {r : SafeGenerationResult} (h : (generate_with_safety input_text).Runs tr r) :
    (Withheld r ∧ Quiet tr) ∨
    (∃ s d tr', input_text = .str s ∧
      tr = ⟨.is_set, false⟩ :: ⟨.is_set, false⟩ ::
        ⟨.classify (s.take max_input_length), .returned d⟩ :: tr' ∧
      gate .input d = none ∧ (generateOutput (s.take max_input_length)).Runs tr' r) := by
  rcases runs_unless_cancelled h with ⟨rfl, rfl⟩ | ⟨tr', rfl, hrun⟩
  · exact Or.inl ⟨withheld_failed _, by simp [Quiet]⟩
  · cases input_text with
    | other =>
      rcases hrun with ⟨rfl, rfl⟩
      exact Or.inl ⟨withheld_failed _, by simp [Quiet]⟩
    | str s =>
      by_cases hblank : strip s = []
      · simp only [hblank, if_true] at hrun
        rcases hrun with ⟨rfl, rfl⟩
        exact Or.inl ⟨withheld_failed _, by simp [Quiet]⟩
      · simp only [hblank, if_false] at hrun
        rcases runs_filterInput hrun with ⟨hwith, hquiet⟩ | ⟨d, tr₂, rfl, hgate, hgen⟩
        · refine Or.inl ⟨hwith, ?_⟩
          simpa [Quiet] using hquiet
        · exact Or.inr ⟨s, d, tr₂, rfl, rfl, hgate, hgen⟩

/-! ## Fail-closed or not -/

/-- Every result is an output, a block or a failure. -/
theorem result_cases (r : SafeGenerationResult) : (∃ output v, r = .completed output v) ∨
    (∃ stage category reviewRef, r = .blocked stage category reviewRef) ∨
    ∃ code, r = .failed code := by
  cases r with
  | completed output v => exact Or.inl ⟨output, v, rfl⟩
  | blocked stage category ref => exact Or.inr (Or.inl ⟨stage, category, ref, rfl⟩)
  | failed code => exact Or.inr (Or.inr ⟨code, rfl⟩)

/-- A position of a query that does not occur. -/
theorem Quiet.not_generate {tr pre post : Trace} {text : Text} {o : Outcome Text}
    (h : Quiet tr) : tr ≠ pre ++ ⟨.generate text, o⟩ :: post := by
  rintro rfl
  exact (h ⟨.generate text, o⟩ (by simp)).1 text o rfl

theorem Quiet.not_fallThrough {tr pre post : Trace} {text v : Text} (h : Quiet tr) :
    tr ≠ pre ++ ⟨.classify text, .returned (.AllowedDecision v false)⟩ :: post := by
  rintro rfl
  exact (h ⟨.classify text, .returned (.AllowedDecision v false)⟩ (by simp)).2 text v rfl

/-- A decision that passes a gate is allowed unless it falls through. -/
theorem allowed_iff_of_gate {stage : Stage} {d : FilterDecision} (h : gate stage d = none) :
    d.allowed = true ↔ ∀ v, d ≠ .AllowedDecision v false := by
  rcases gate_eq_none_iff.mp h with hallowed | ⟨v, rfl⟩
  · simp only [hallowed, true_iff]
    rintro v rfl
    cases hallowed
  · simp [FilterDecision.allowed]

variable {s : Text} {d d' : FilterDecision} {tr' : Trace} {r : SafeGenerationResult}

/-- The start of a run that reaches the generator. -/
def reached (s : Text) (d : FilterDecision) : Trace :=
  [⟨.is_set, false⟩, ⟨.is_set, false⟩, ⟨.classify (s.take max_input_length), .returned d⟩,
    ⟨.is_set, false⟩]

/-- The generator was called and nothing came out: the first decision
matters. -/
theorem failClosed_generated {o : Outcome Text} (hwith : Withheld r) (hquiet : Quiet tr') :
    FailClosed (.str s) (reached s d ++ ⟨.generate (s.take max_input_length), o⟩ :: tr') r ↔
      d.allowed = true := by
  constructor
  · intro h
    rcases (h.generator _ _ _ _ rfl).2 with ⟨d₀, hallowed, hmem⟩
    have hd : d₀ = d := by simpa [reached] using hmem
    rw [← hd]
    exact hallowed
  · intro hallowed
    refine ⟨?_, fun output v hr => (hwith output v hr).elim, result_cases r⟩
    intro pre text o' post htr
    -- the only generation of the trace
    have hpos : pre = reached s d ∧ text = s.take max_input_length := by
      simp [reached, hquiet.not_generate] at htr
      exact ⟨htr.1, htr.2.1.1.symm⟩
    rcases hpos with ⟨rfl, rfl⟩
    exact ⟨⟨s, rfl, rfl⟩, d, hallowed, by simp [reached]⟩

theorem noFallThrough_generated {o : Outcome Text} (hquiet : Quiet tr') :
    NoFallThrough (reached s d ++ ⟨.generate (s.take max_input_length), o⟩ :: tr') ↔
      ∀ v, d ≠ .AllowedDecision v false := by
  constructor
  · rintro h v rfl
    rcases h [⟨.is_set, false⟩, ⟨.is_set, false⟩] _ v _ rfl with ⟨post, hpost⟩
    simp at hpost
  · intro h pre text v post htr
    simp [reached, hquiet.not_fallThrough, h] at htr

/-- The exchanges after `reached` in a run that completes. -/
def released (s output : Text) (d' : FilterDecision) : Trace :=
  [⟨.generate (s.take max_input_length), .returned output⟩, ⟨.is_set, false⟩,
    ⟨.classify output, .returned d'⟩]

/-- An output came out: both decisions matter. -/
theorem failClosed_completed {output : Text} :
    FailClosed (.str s) (reached s d ++ released s output d')
        (.completed output d'.policyVersion) ↔ d.allowed = true ∧ d'.allowed = true := by
  constructor
  · intro h
    constructor
    · rcases (h.generator (reached s d) _ _ _ rfl).2 with ⟨d₀, hallowed, hmem⟩
      have hd : d₀ = d := by simpa [reached] using hmem
      rw [← hd]
      exact hallowed
    · rcases h.completed _ _ rfl with ⟨pre, d₀, post, htr, hallowed, text, hmem⟩
      -- a classification after the generation is the second one
      simp [reached, released] at htr
      rcases htr with ⟨pre', rfl, ⟨rfl, -, -⟩ | ⟨-, hd, -⟩⟩
      · simp at hmem
      · rw [hd]
        exact hallowed
  · intro h
    refine ⟨?_, ?_, result_cases _⟩
    · intro pre text o post htr
      have hpos : pre = reached s d ∧ text = s.take max_input_length := by
        simp [reached, released] at htr
        exact ⟨htr.1, htr.2.1.1.symm⟩
      rcases hpos with ⟨rfl, rfl⟩
      exact ⟨⟨s, rfl, rfl⟩, d, h.1, by simp [reached]⟩
    · intro output' v hr
      cases hr
      refine ⟨reached s d ++ [⟨.generate (s.take max_input_length), .returned output⟩,
        ⟨.is_set, false⟩], d', [], ?_, h.2, s.take max_input_length, ?_⟩
      · simp [released]
      · simp

theorem noFallThrough_completed {output : Text} :
    NoFallThrough (reached s d ++ released s output d') ↔
      (∀ v, d ≠ .AllowedDecision v false) ∧ ∀ v, d' ≠ .AllowedDecision v false := by
  constructor
  · intro h
    constructor
    · rintro v rfl
      rcases h [⟨.is_set, false⟩, ⟨.is_set, false⟩] _ v _ rfl with ⟨post, hpost⟩
      simp at hpost
    · rintro v rfl
      have hsplit : reached s d ++ released s output (.AllowedDecision v false) =
          (reached s d ++ [⟨.generate (s.take max_input_length), .returned output⟩,
            ⟨.is_set, false⟩]) ++
            ⟨.classify output, .returned (.AllowedDecision v false)⟩ :: [] := by
        simp [released]
      rcases h _ _ v _ hsplit with ⟨post, hpost⟩
      cases hpost
  · rintro ⟨hd, hd'⟩ pre text v post htr
    simp [reached, released, hd, hd'] at htr

/-- `generate_with_safety` fails closed in exactly the runs in which no decision
falls through. -/
theorem fail_closed_iff {input_text : InputText} {tr : Trace} {r : SafeGenerationResult}
    (hrun : (generate_with_safety input_text).Runs tr r) :
    FailClosed input_text tr r ↔ NoFallThrough tr := by
  rcases runs_generate_with_safety hrun with ⟨hwith, hquiet⟩ | ⟨s, d, tr', rfl, rfl, hgate, hgen⟩
  · have hclosed : FailClosed input_text tr r :=
      ⟨fun _ _ _ _ htr => (hquiet.not_generate htr).elim,
        fun output v hr => (hwith output v hr).elim, result_cases r⟩
    have hpass : NoFallThrough tr := fun _ _ _ _ htr => (hquiet.not_fallThrough htr).elim
    exact iff_of_true hclosed hpass
  · rcases runs_generateOutput hgen with
      ⟨hwith, rfl⟩ | ⟨o, tr₂, hwith, rfl, hquiet⟩ | ⟨output, d', rfl, hgate', rfl⟩
    · -- cancelled between the first gate and the generator
      refine iff_of_true ⟨?_, fun output v hr => (hwith output v hr).elim, result_cases r⟩ ?_
      · intro pre text o post htr
        simp at htr
      · intro pre text v post htr
        simp at htr
        exact ⟨[], htr.2.2.symm⟩
    · -- generated, and then withheld
      have hsplit : (⟨.is_set, false⟩ :: ⟨.is_set, false⟩ ::
          ⟨.classify (s.take max_input_length), .returned d⟩ :: ⟨.is_set, false⟩ ::
          ⟨.generate (s.take max_input_length), o⟩ :: tr₂ : Trace) =
          reached s d ++ ⟨.generate (s.take max_input_length), o⟩ :: tr₂ := rfl
      rw [hsplit, failClosed_generated hwith hquiet, noFallThrough_generated hquiet,
        allowed_iff_of_gate hgate]
    · -- completed
      have hsplit : (⟨.is_set, false⟩ :: ⟨.is_set, false⟩ ::
          ⟨.classify (s.take max_input_length), .returned d⟩ ::
          [⟨.is_set, false⟩, ⟨.generate (s.take max_input_length), .returned output⟩,
            ⟨.is_set, false⟩, ⟨.classify output, .returned d'⟩] : Trace) =
          reached s d ++ released s output d' := rfl
      rw [hsplit, failClosed_completed, noFallThrough_completed, allowed_iff_of_gate hgate,
        allowed_iff_of_gate hgate']

/-- A run that meets the condition: the filter allows "hi" and the generated
"ok". -/
theorem fail_closed_allowed :
    FailClosed (.str "hi".toList)
      (reached "hi".toList (.AllowedDecision "1".toList true) ++
        released "hi".toList "ok".toList (.AllowedDecision "1".toList true))
      (.completed "ok".toList "1".toList) := by
  have hrun : (generate_with_safety (.str "hi".toList)).Runs
      (reached "hi".toList (.AllowedDecision "1".toList true) ++
        released "hi".toList "ok".toList (.AllowedDecision "1".toList true))
      (.completed "ok".toList "1".toList) :=
    ⟨_, _, rfl, _, _, rfl, _, _, rfl, _, _, rfl, _, _, rfl, _, _, rfl, _, _, rfl, rfl, rfl⟩
  apply (fail_closed_iff hrun).mpr
  exact noFallThrough_completed.mpr ⟨by simp, by simp⟩

/-- The filter answers "hi" and the generated "leak" with an `AllowedDecision`
whose `allowed` is false; the output is returned. -/
theorem fail_closed_falls_through :
    ∃ (tr : Trace) (r : SafeGenerationResult),
      (generate_with_safety (.str "hi".toList)).Runs tr r ∧
      r = .completed "leak".toList "1".toList ∧
      (∀ text d, ⟨.classify text, .returned d⟩ ∈ tr → d.allowed = false) ∧
      ¬ FailClosed (.str "hi".toList) tr r := by
  refine ⟨reached "hi".toList (.AllowedDecision "1".toList false) ++
    released "hi".toList "leak".toList (.AllowedDecision "1".toList false), _,
    ⟨_, _, rfl, _, _, rfl, _, _, rfl, _, _, rfl, _, _, rfl, _, _, rfl, _, _, rfl, rfl, rfl⟩,
    rfl, ?_, ?_⟩
  · intro text d hmem
    simp only [reached, released, List.cons_append, List.nil_append, List.mem_cons,
      Sigma.mk.injEq, reduceCtorEq, false_and, false_or, List.not_mem_nil, or_false] at hmem
    rcases hmem with ⟨h, heq⟩ | ⟨h, heq⟩
    · cases h
      cases heq
      rfl
    · cases h
      cases heq
      rfl
  · intro h
    have hallowed := failClosed_completed.mp h
    simp [FilterDecision.allowed] at hallowed

end InterviewPrep.ContentFilter
