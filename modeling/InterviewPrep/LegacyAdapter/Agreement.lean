import InterviewPrep.LegacyAdapter.Python

/-!
# Where the two adapters agree

Both adapters dispatch on the status alike. They differ in what they read from a
retry header (`int` against `Number`), in timestamps that are absent, in codes
that name a member of `Object.prototype`, and in what is white space.
`same_result_iff` says that this is all: the responses on which both give the
same result are those with a `HeaderAlike` header and a `BodyAlike` body.
-/

namespace InterviewPrep.LegacyAdapter

open JavaScript Numeral

/-! ## Bodies -/

/-- An account without a timestamp, which is `None` to Python and malformed to
TypeScript. -/
def MissingTime (body : Json) : Prop :=
  ErrorFree body ∧ ∃ version, versionOf body = some version ∧
    ∃ accountId code state, body.get? version.accountField = some (.str accountId) ∧
      InterviewPrep.Python.stripped accountId ≠ "" ∧
      body.get? version.codeField = some (.str code) ∧ (code, state) ∈ version.stateMap ∧
      body.get? version.timeField = none

/-- An account whose id is blank to one of the two languages. -/
def BlankToOne (body : Json) : Prop :=
  ErrorFree body ∧ ∃ version, versionOf body = some version ∧
    ∃ accountId code state updatedAt, body.get? version.accountField = some (.str accountId) ∧
      ¬ (trim accountId = "" ↔ InterviewPrep.Python.stripped accountId = "") ∧
      body.get? version.codeField = some (.str code) ∧ (code, state) ∈ version.stateMap ∧
      body.get? version.timeField = some (ofTimestamp updatedAt)

/-- A body that both adapters read alike. -/
structure BodyAlike (body : Json) : Prop where
  time : ¬ MissingTime body
  code : ¬ NamesMember body
  account : ¬ BlankToOne body

section Body

variable {body : Json}

/-- A code of the table finds its state. -/
theorem literalGet?_of_mem {version : Version} (hversion : versionOf body = some version)
    {code : String} {state : State} (h : (code, state) ∈ version.stateMap) :
    literalGet? version.stateMap code = some (.own state) :=
  (literalGet?_eq_some_iff hversion).mpr (Or.inl ⟨state, h, rfl⟩)

/-- An error member is read alike. -/
theorem read_body_of_error {error : Json} (h : body.get? "error" = some error) :
    (Python.read_body body).toTypeScript = readBody body := by
  by_cases hmissing : error.get? "code" = some (.str "MISSING")
  · have hpython : Python.read_body body = .failed .not_found := by
      simp [Python.read_body, h, hmissing]
    have htypeScript : readBody body = .failed .not_found := by
      simp [readBody, h, hmissing]
    rw [hpython, htypeScript]
    rfl
  · have hpython : Python.read_body body = .failed .malformed_response := by
      simp [Python.read_body, h]
    have htypeScript : readBody body = .failed .malformed_response := by
      simp [readBody, h]
    rw [hpython, htypeScript]
    rfl

/-- With an error member, or without an object, both adapters do the same. -/
theorem read_body_of_not_errorFree (h : ¬ ErrorFree body) :
    (Python.read_body body).toTypeScript = readBody body := by
  cases body with
  | obj members =>
    cases herror : (Json.obj members).get? "error" with
    | none => exact absurd ⟨⟨members, rfl⟩, herror⟩ h
    | some error => exact read_body_of_error herror
  | _ => rfl

/-- An account of one adapter is one of the other, if they agree. -/
theorem ok_of_same (h : (Python.read_body body).toTypeScript = readBody body)
    {account : AccountStatus (Member State)} (hok : readBody body = .ok account) :
    ∃ account', Python.read_body body = .ok account' ∧
      account = { account' with state := .own account'.state } := by
  rw [hok] at h
  cases hpython : Python.read_body body with
  | ok account' =>
    rw [hpython] at h
    exact ⟨account', rfl, (AdapterResult.ok.inj h).symm⟩
  | failed error =>
    rw [hpython] at h
    cases h

/-- A timestamp that is absent is read by Python alone. -/
theorem not_missingTime_of_same (h : (Python.read_body body).toTypeScript = readBody body) :
    ¬ MissingTime body := by
  rintro ⟨hfree, version, hversion, accountId, code, state, haccount, hblank, hcode, hmem, htime⟩
  have hpython : Python.read_body body = .ok ⟨accountId, state, none⟩ :=
    Python.read_body_eq_ok_iff.mpr
      ⟨hfree, version, hversion, code, ⟨haccount, hblank, hcode, Or.inr ⟨htime, rfl⟩⟩, hmem⟩
  rw [hpython] at h
  rcases readBody_eq_ok_iff.mp h.symm with ⟨-, version', hversion', code', htyped, -⟩
  rw [hversion, Option.some.injEq] at hversion'
  subst hversion'
  rw [htyped.time] at htime
  cases htime

/-- An inherited member is a state to TypeScript alone. -/
theorem not_namesMember_of_same (h : (Python.read_body body).toTypeScript = readBody body) :
    ¬ NamesMember body := by
  rintro ⟨hfree, version, hversion, accountId, code, updatedAt, htyped, hproto⟩
  have hmember := (literalGet?_eq_some_iff hversion).mpr (Or.inr ⟨hproto, rfl⟩)
  have hok : readBody body = .ok ⟨accountId, .inherited code, updatedAt⟩ :=
    readBody_eq_ok_iff.mpr ⟨hfree, version, hversion, code, htyped, hmember⟩
  rcases ok_of_same h hok with ⟨account', -, hsame⟩
  cases (AccountStatus.mk.inj hsame).2.1

/-- An id that is blank to one language is an account to the other. -/
theorem not_blankToOne_of_same (h : (Python.read_body body).toTypeScript = readBody body) :
    ¬ BlankToOne body := by
  rintro ⟨hfree, version, hversion, accountId, code, state, updatedAt, haccount, hblank, hcode,
    hmem, htime⟩
  by_cases htrim : trim accountId = ""
  · -- blank to TypeScript
    have hstripped : InterviewPrep.Python.stripped accountId ≠ "" :=
      fun hstripped => hblank ⟨fun _ => hstripped, fun _ => htrim⟩
    have hpython : Python.read_body body = .ok ⟨accountId, state, updatedAt⟩ :=
      Python.read_body_eq_ok_iff.mpr
        ⟨hfree, version, hversion, code, ⟨haccount, hstripped, hcode, Or.inl htime⟩, hmem⟩
    rw [hpython] at h
    rcases readBody_eq_ok_iff.mp h.symm with ⟨-, _, -, _, htyped, -⟩
    exact htyped.notBlank htrim
  · -- blank to Python
    have hok : readBody body = .ok ⟨accountId, .own state, updatedAt⟩ :=
      readBody_eq_ok_iff.mpr ⟨hfree, version, hversion, code, ⟨haccount, htrim, hcode, htime⟩,
        literalGet?_of_mem hversion hmem⟩
    rcases ok_of_same h hok with ⟨account', hpython, hsame⟩
    rcases Python.read_body_eq_ok_iff.mp hpython with ⟨-, _, -, _, htyped, -⟩
    have hid : accountId = account'.accountId := (AccountStatus.mk.inj hsame).1
    refine hblank ⟨fun h => absurd h htrim, fun hstripped => ?_⟩
    rw [hid] at hstripped
    exact absurd hstripped htyped.notBlank

/-- A body that is read alike is an account to both adapters or to neither. -/
theorem same_of_bodyAlike (h : BodyAlike body) :
    (Python.read_body body).toTypeScript = readBody body := by
  by_cases hfree : ErrorFree body
  · rcases readBody_cases hfree with ⟨⟨accountId, member, updatedAt⟩, hok⟩ | hfailed
    · rcases readBody_eq_ok_iff.mp hok with ⟨-, version, hversion, code, htyped, hmember⟩
      rcases (literalGet?_eq_some_iff hversion).mp hmember with ⟨state, hmem, hstate⟩ | ⟨hproto, -⟩
      · have hblank : InterviewPrep.Python.stripped accountId ≠ "" := by
          intro hstripped
          refine h.account ⟨hfree, version, hversion, accountId, code, state, updatedAt,
            htyped.account, ?_, htyped.code, hmem, htyped.time⟩
          exact fun hiff => htyped.notBlank (hiff.mpr hstripped)
        have hpython : Python.read_body body = .ok ⟨accountId, state, updatedAt⟩ :=
          Python.read_body_eq_ok_iff.mpr ⟨hfree, version, hversion, code,
            ⟨htyped.account, hblank, htyped.code, Or.inl htyped.time⟩, hmem⟩
        have hmember : member = .own state := hstate
        rw [hpython, hok, hmember]
        rfl
      · exact absurd ⟨hfree, version, hversion, _, code, _, htyped, hproto⟩ h.code
    · rcases Python.read_body_cases hfree with ⟨⟨accountId, state, updatedAt⟩, hpython⟩ | hpython
      · rcases Python.read_body_eq_ok_iff.mp hpython with ⟨-, version, hversion, code, htyped, hmem⟩
        rcases htyped.time with htime | ⟨htime, -⟩
        · -- the id must be blank to TypeScript
          by_cases htrim : trim accountId = ""
          · refine absurd ⟨hfree, version, hversion, accountId, code, state, updatedAt,
              htyped.account, ?_, htyped.code, hmem, htime⟩ h.account
            exact fun hiff => htyped.notBlank (hiff.mp htrim)
          · have hok : readBody body = .ok ⟨accountId, .own state, updatedAt⟩ :=
              readBody_eq_ok_iff.mpr ⟨hfree, version, hversion, code,
                ⟨htyped.account, htrim, htyped.code, htime⟩, literalGet?_of_mem hversion hmem⟩
            rw [hfailed] at hok
            cases hok
        · exact absurd ⟨hfree, version, hversion, accountId, code, state, htyped.account,
            htyped.notBlank, htyped.code, hmem, htime⟩ h.time
      · rw [hpython, hfailed]
        rfl
  · exact read_body_of_not_errorFree hfree

theorem same_body_iff :
    (Python.read_body body).toTypeScript = readBody body ↔ BodyAlike body :=
  ⟨fun h => ⟨not_missingTime_of_same h, not_namesMember_of_same h, not_blankToOne_of_same h⟩,
    same_of_bodyAlike⟩

end Body

/-! ## Headers -/

/-- A plain integer that both languages read as the same number, or neither as one
that is finite and not negative. -/
def SameInteger (negative : Bool) (ds : List Char) : Prop :=
  (negative = true ∧ decimalValue ds ≠ 0) ∨
  (ds.length ≤ InterviewPrep.Python.maxDigits ∧ Binary64.Representable (decimalValue ds)) ∨
  (InterviewPrep.Python.maxDigits < ds.length ∧ Number.round (decimalValue ds) = .infinity)

/-- A retry header that both adapters read alike: where it is a plain integer,
that is a `SameInteger`; any other one is no delay to either language. The empty
header is none to both. -/
structure HeaderAlike (raw : String) : Prop where
  plain : ∀ negative ds, Plain raw negative ds → SameInteger negative ds
  python : (∀ negative ds, ¬ Plain raw negative ds) →
    ∀ n, InterviewPrep.Python.int raw = some n → n < 0
  javaScript : (∀ negative ds, ¬ Plain raw negative ds) → raw ≠ "" →
    ∀ q, number raw = .finite q → q < 0

section Header

variable {raw : String} {negative : Bool} {ds : List Char}

/-- What Python takes from a header. -/
theorem retry_after_seconds_some :
    Python.retry_after_seconds (some raw) = (InterviewPrep.Python.int raw).filter (0 ≤ ·) := by
  cases hint : InterviewPrep.Python.int raw with
  | none => simp [Python.retry_after_seconds, hint]
  | some n => simp [Python.retry_after_seconds, hint, Option.filter]

/-- What TypeScript does. -/
theorem retryAfterSeconds_some (hne : raw ≠ "") :
    retryAfterSeconds number (some raw) =
      match number raw with
      | .finite q => if 0 ≤ q then some (.finite q) else none
      | _ => none := by
  unfold retryAfterSeconds
  simp only [hne, if_false]
  cases number raw with
  | finite q => simp [Number.isFinite, Number.isNonnegative]
  | _ => rfl

theorem retry_after_seconds_eq_none_iff :
    Python.retry_after_seconds (some raw) = none ↔
      ∀ n, InterviewPrep.Python.int raw = some n → n < 0 := by
  rw [retry_after_seconds_some, Option.filter_eq_none_iff]
  simp

theorem retryAfterSeconds_eq_none_iff (hne : raw ≠ "") :
    retryAfterSeconds number (some raw) = none ↔ ∀ q, number raw = .finite q → q < 0 := by
  rw [retryAfterSeconds_some hne]
  cases number raw with
  | finite q => simp
  | _ => simp

/-- A plain integer is not the empty header. -/
theorem ne_empty_of_plain (h : Plain raw negative ds) : raw ≠ "" := by
  rintro rfl
  exact h.nonempty (Prod.mk.inj h.text).2.symm

/-- A text is one plain integer at most. -/
theorem headerAlike_of_plain_iff (h : Plain raw negative ds) :
    HeaderAlike raw ↔ SameInteger negative ds := by
  constructor
  · exact fun halike => halike.plain negative ds h
  · intro hsame
    refine ⟨?_, fun hnot => absurd h (hnot negative ds), fun hnot => absurd h (hnot negative ds)⟩
    intro negative' ds' h'
    have heq := h'.text.symm.trans h.text
    rw [(Prod.mk.inj heq).1, (Prod.mk.inj heq).2]
    exact hsame

/-- A negative integer is no delay. -/
theorem same_header_of_negative (h : Plain raw true ds) (hne : decimalValue ds ≠ 0) :
    (Python.retry_after_seconds (some raw)).map (fun n : ℤ => Number.finite n) =
      retryAfterSeconds number (some raw) := by
  have hpython : Python.retry_after_seconds (some raw) = none := by
    rw [retry_after_seconds_eq_none_iff, int_of_plain h]
    intro n hn
    split at hn
    · have hn' : -(decimalValue ds : ℤ) = n := Option.some.inj hn
      omega
    · cases hn
  have hround := Number.round_neg_natCast hne
  have htypeScript : retryAfterSeconds number (some raw) = none := by
    rw [retryAfterSeconds_eq_none_iff (ne_empty_of_plain h), number_of_plain h]
    intro q hq
    have hq' : Number.round (-decimalValue ds) = .finite q := hq
    rw [hq'] at hround
    simpa [Number.isNonnegative] using hround
  rw [hpython, htypeScript, Option.map_none]

/-- An integer that is not negative is the same delay if it is a double, and none
to both if it is too long for Python and too large for a double. -/
theorem same_header_of_nonnegative (h : Plain raw negative ds)
    (hzero : negative = true → decimalValue ds = 0) :
    (Python.retry_after_seconds (some raw)).map (fun n : ℤ => Number.finite n) =
        retryAfterSeconds number (some raw) ↔ SameInteger negative ds := by
  have hint : InterviewPrep.Python.int raw =
      if ds.length ≤ InterviewPrep.Python.maxDigits then some (decimalValue ds : ℤ) else none := by
    rw [int_of_plain h]
    cases negative with
    | false => rfl
    | true => simp [hzero rfl]
  have hnumber : number raw = .round (decimalValue ds) := by
    rw [number_of_plain h]
    cases negative with
    | false => rfl
    | true => simp [hzero rfl]
  have hfirst : ¬ (negative = true ∧ decimalValue ds ≠ 0) := fun hneg => hneg.2 (hzero hneg.1)
  rw [retry_after_seconds_some, retryAfterSeconds_some (ne_empty_of_plain h), hint, hnumber,
    SameInteger, or_iff_right hfirst, ← Number.round_natCast_eq_self_iff]
  by_cases hlength : ds.length ≤ InterviewPrep.Python.maxDigits
  · rcases Number.round_natCast_cases (decimalValue ds) with hround | ⟨q, hq, hround⟩
    · simp [hlength, hround, Option.filter, not_lt.mpr hlength]
    · simp [hlength, hround, hq, Option.filter, not_lt.mpr hlength, eq_comm]
  · rcases Number.round_natCast_cases (decimalValue ds) with hround | ⟨q, hq, hround⟩
    · simp [hlength, hround, not_le.mp hlength]
    · simp [hlength, hround, hq, not_le.mp hlength]

/-- Any other header is a delay to one language at most. -/
theorem same_header_of_not_plain (h : ∀ negative ds, ¬ Plain raw negative ds) :
    (Python.retry_after_seconds (some raw)).map (fun n : ℤ => Number.finite n) =
        retryAfterSeconds number (some raw) ↔ HeaderAlike raw := by
  by_cases hempty : raw = ""
  · subst hempty
    have hnone : InterviewPrep.Python.int "" = none := by decide
    have hsame : (Python.retry_after_seconds (some "")).map (fun n : ℤ => Number.finite n) =
        retryAfterSeconds number (some "") := by
      rw [retry_after_seconds_some, hnone]
      rfl
    refine ⟨fun _ => ⟨fun negative ds hplain => absurd hplain (h negative ds), ?_, ?_⟩,
      fun _ => hsame⟩
    · intro _ n hn
      rw [hnone] at hn
      cases hn
    · exact fun _ hne => absurd rfl hne
  · have hpython : Python.retry_after_seconds (some raw) = none ↔
        ∀ n, InterviewPrep.Python.int raw = some n → n < 0 := retry_after_seconds_eq_none_iff
    have htypeScript := retryAfterSeconds_eq_none_iff hempty
    constructor
    · intro hsame
      have hnone : Python.retry_after_seconds (some raw) = none := by
        by_contra hsome
        -- Python reads a delay, so JavaScript reads no number
        have hex := mt hpython.mpr hsome
        simp only [not_forall] at hex
        rcases hex with ⟨n, hint, -⟩
        have hnan : number raw = .nan := by
          by_contra hnumber
          rcases plain_of_both hint hnumber with ⟨negative, ds, hplain⟩
          exact h negative ds hplain
        have hnone' : retryAfterSeconds number (some raw) = none := by
          rw [htypeScript, hnan]
          intro q hq
          cases hq
        rw [hnone', Option.map_eq_none_iff] at hsame
        exact hsome hsame
      rw [hnone, Option.map_none] at hsame
      exact ⟨fun negative ds hplain => absurd hplain (h negative ds),
        fun _ => hpython.mp hnone, fun _ _ => htypeScript.mp hsame.symm⟩
    · intro halike
      rw [hpython.mpr (halike.python h), htypeScript.mpr (halike.javaScript h hempty),
        Option.map_none]

theorem same_header_iff :
    (Python.retry_after_seconds (some raw)).map (fun n : ℤ => Number.finite n) =
        retryAfterSeconds number (some raw) ↔ HeaderAlike raw := by
  by_cases hplain : ∃ negative ds, Plain raw negative ds
  · rcases hplain with ⟨negative, ds, h⟩
    rw [headerAlike_of_plain_iff h]
    by_cases hnegative : negative = true ∧ decimalValue ds ≠ 0
    · rcases hnegative with ⟨rfl, hne⟩
      exact ⟨fun _ => Or.inl ⟨rfl, hne⟩, fun _ => same_header_of_negative h hne⟩
    · apply same_header_of_nonnegative h
      intro htrue
      by_contra hne
      exact hnegative ⟨htrue, hne⟩
  · exact same_header_of_not_plain fun negative ds h => hplain ⟨negative, ds, h⟩

end Header

/-! ## Responses -/

/-- A response that both adapters read alike. -/
structure Alike (resp : Python.LegacyResponse) : Prop where
  header : resp.status = 429 → ∀ raw, resp.headers "retry-after" = some raw → HeaderAlike raw
  body : resp.status = 200 → BodyAlike resp.body

/-- The two adapters on one response. -/
theorem same_response_iff (resp : Python.LegacyResponse) (account_id : String) :
    (Python.get_status (fun _ => .responded resp) account_id).toTypeScript =
        getStatus number (fun _ => .responded resp.toTypeScript) account_id ↔ Alike resp := by
  have hstatus : ∀ code : ℤ, Number.finite (resp.status : ℚ) = .finite (code : ℚ) ↔
      resp.status = code := by
    intro code
    rw [Number.finite.injEq, Int.cast_inj]
  have h404 := hstatus 404
  have h429 := hstatus 429
  have h503 := hstatus 503
  have h200 := hstatus 200
  simp only [Int.cast_ofNat] at h404 h429 h503 h200
  simp only [Python.get_status, getStatus, Python.LegacyResponse.toTypeScript, ne_eq, h404, h429,
    h503, h200]
  by_cases hlimited : resp.status = 429
  · have hbody : resp.status = 200 → BodyAlike resp.body := fun h => absurd (hlimited ▸ h) (by decide)
    simp only [hlimited, Int.reduceEq, if_false, if_true, Python.AdapterResult.toTypeScript,
      Python.AdapterError.toTypeScript, AdapterResult.failed.injEq,
      AdapterError.rate_limited.injEq]
    cases hraw : resp.headers "retry-after" with
    | none =>
      refine ⟨fun _ => ⟨fun _ raw h => ?_, hbody⟩, fun _ => rfl⟩
      rw [hraw] at h
      cases h
    | some raw =>
      rw [same_header_iff]
      refine ⟨fun h => ⟨fun _ raw' h' => ?_, hbody⟩, fun h => h.header hlimited raw hraw⟩
      rw [hraw, Option.some.injEq] at h'
      exact h' ▸ h
  · have hheader : resp.status = 429 → ∀ raw, resp.headers "retry-after" = some raw →
        HeaderAlike raw := fun h => absurd h hlimited
    by_cases hok : resp.status = 200
    · simp only [hok, Int.reduceEq, if_false, not_true_eq_false]
      rw [same_body_iff]
      exact ⟨fun h => ⟨hheader, fun _ => h⟩, fun h => h.body hok⟩
    · have halike : Alike resp := ⟨hheader, fun h => absurd h hok⟩
      simp only [hlimited, hok, if_false, not_false_eq_true, if_true, halike, iff_true]
      -- both say that nothing was found, or that the service is unavailable
      split
      · rfl
      · split
        · rfl
        · rfl

/-- The adapters give the same result exactly if the call of the client fails, or
its response has status 429 and no header or a `HeaderAlike` one, or it has
status 200 and a `BodyAlike` body, or it has another status. -/
theorem same_result_iff (client : String → Python.Outcome) (account_id : String) :
    (Python.get_status client account_id).toTypeScript =
        getStatus number (fun id => (client id).toTypeScript) account_id ↔
      ∀ resp, client account_id = .responded resp → Alike resp := by
  cases hclient : client account_id with
  | timed_out => simp [Python.get_status, getStatus, hclient, Python.Outcome.toTypeScript,
      Python.AdapterResult.toTypeScript, Python.AdapterError.toTypeScript]
  | exception => simp [Python.get_status, getStatus, hclient, Python.Outcome.toTypeScript,
      Python.AdapterResult.toTypeScript, Python.AdapterError.toTypeScript]
  | responded resp =>
    have hpython : Python.get_status client account_id =
        Python.get_status (fun _ => .responded resp) account_id := by
      simp only [Python.get_status, hclient]
    have htypeScript : getStatus number (fun id => (client id).toTypeScript) account_id =
        getStatus number (fun _ => .responded resp.toTypeScript) account_id := by
      simp only [getStatus, hclient, Python.Outcome.toTypeScript]
    rw [hpython, htypeScript, same_response_iff]
    exact ⟨fun h resp' heq => Python.Outcome.responded.inj heq ▸ h, fun h => h resp rfl⟩

/-- A response with a retry header. -/
def limited (raw : String) : Python.LegacyResponse :=
  ⟨429, fun name => if name = "retry-after" then some raw else none, .null⟩

/-- An active account without a timestamp, in the first version. -/
def untimed : Python.LegacyResponse :=
  ⟨200, fun _ => none, .obj [("status_code", .str "A"), ("account_id", .str "a1")]⟩

/-- One and a half seconds are a delay to TypeScript alone, and an account without
a timestamp is one to Python alone. -/
theorem results_differ :
    (Python.get_status (fun _ => .responded (limited "1.5")) "a1").toTypeScript =
      .failed (.rate_limited none) ∧
    getStatus number (fun _ => .responded (limited "1.5").toTypeScript) "a1" =
      .failed (.rate_limited (some (.finite (3 / 2)))) ∧
    (Python.get_status (fun _ => .responded untimed) "a1").toTypeScript =
      .ok ⟨"a1", .own .active, none⟩ ∧
    getStatus number (fun _ => .responded untimed.toTypeScript) "a1" =
      .failed .malformed_response := by
  refine ⟨?_, ?_, ?_, ?_⟩
  · decide +kernel
  · decide +kernel
  · decide +kernel
  · decide +kernel

end InterviewPrep.LegacyAdapter
