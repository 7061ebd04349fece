import InterviewPrep.Lib.Numerals
import InterviewPrep.LegacyAdapter.States

/-!
# The Python adapter

`LegacyAccountAdapter` of `technical/legacy_api_adapter/answer.py`. The tables of
the two versions are those of the TypeScript adapter, read with `dict.get`.

`read_body_eq_ok_iff` says which bodies give an account.
-/

namespace InterviewPrep.LegacyAdapter.Python

open JavaScript (Json Member trim)

/-! ## The data -/

inductive AdapterError where
  | not_found
  | rate_limited (retryAfterSeconds : Option ℤ)
  | timeout
  | unavailable
  | malformed_response
deriving DecidableEq

inductive AdapterResult where
  | ok (account : AccountStatus State)
  | failed (error : AdapterError)
deriving DecidableEq

structure LegacyResponse where
  status : ℤ
  headers : String → Option String
  body : Json

/-- How the call of the client ends: with a response, with a `TimeoutError`, or
with another exception. -/
inductive Outcome where
  | responded (resp : LegacyResponse)
  | timed_out
  | exception

/-! ## The adapter -/

/-- `isinstance(value, dict)` -/
def isDict : Json → Bool
  | .obj _ => true
  | _ => false

/-- A string that is not blank. -/
def identifier? (value : Option Json) : Option String :=
  (text? value).filter fun s => InterviewPrep.Python.stripped s ≠ ""

/-- A string or `None`, which `get` gives for an absent member too. -/
def timestamp? : Option Json → Option (Option String)
  | none => some none
  | some .null => some none
  | some (.str s) => some (some s)
  | _ => none

/-- `_normalize_account` for one version. -/
def read_account (version : Version) (body : Json) : Option (AccountStatus State) := do
  let account_id ← identifier? (body.get? version.accountField)
  let code ← text? (body.get? version.codeField)
  let updated_at ← timestamp? (body.get? version.timeField)
  let state ← version.stateMap.lookup code
  return ⟨account_id, state, updated_at⟩

/-- `_normalize_account` -/
def normalize_account (body : Json) : Option (AccountStatus State) :=
  if !isDict body then none
  else
    match versionOf body with
    | none => none
    | some version => read_account version body

/-- The value of `retry_after_seconds`. -/
def retry_after_seconds (raw_retry_after : Option String) : Option ℤ :=
  match raw_retry_after with
  | none => none
  | some raw =>
    match InterviewPrep.Python.int raw with
    | none => none
    | some parsed => if 0 ≤ parsed then some parsed else none

/-- `get_status` for a response with status 200. -/
def read_body (body : Json) : AdapterResult :=
  match body.get? "error" with
  -- a logical error with status 200
  | some error =>
    match error.get? "code" with
    | some (.str "MISSING") => .failed .not_found
    | _ => .failed .malformed_response
  | none =>
    match normalize_account body with
    | none => .failed .malformed_response
    | some account => .ok account

/-- `get_status`; `client` is `self.client.get_account`. -/
def get_status (client : String → Outcome) (account_id : String) : AdapterResult :=
  match client account_id with
  | .timed_out => .failed .timeout
  | .exception => .failed .unavailable
  | .responded resp =>
    if resp.status = 404 then .failed .not_found
    else if resp.status = 429 then
      .failed (.rate_limited (retry_after_seconds (resp.headers "retry-after")))
    else if resp.status = 503 then .failed .unavailable
    else if resp.status ≠ 200 then .failed .unavailable
    else read_body resp.body

/-! ## The same in TypeScript -/

/-- An integer is a number. -/
def AdapterError.toTypeScript : AdapterError → LegacyAdapter.AdapterError
  | .not_found => .not_found
  | .rate_limited seconds => .rate_limited (seconds.map fun n : ℤ => .finite n)
  | .timeout => .timeout
  | .unavailable => .unavailable
  | .malformed_response => .malformed_response

def AdapterResult.toTypeScript : AdapterResult → LegacyAdapter.AdapterResult (Member State)
  | .ok account => .ok { account with state := .own account.state }
  | .failed error => .failed error.toTypeScript

def LegacyResponse.toTypeScript (resp : LegacyResponse) : LegacyAdapter.LegacyResponse where
  status := .finite resp.status
  headers := resp.headers
  body := resp.body

def Outcome.toTypeScript : Outcome → LegacyAdapter.Outcome
  | .responded resp => .responded resp.toTypeScript
  | .timed_out => .aborted
  | .exception => .exception

/-! ## What is read -/

/-- The fields of a body for a version, with the expected types. -/
structure WellTyped (version : Version) (body : Json) (account_id code : String)
    (updated_at : Option String) : Prop where
  account : body.get? version.accountField = some (.str account_id)
  notBlank : InterviewPrep.Python.stripped account_id ≠ ""
  code : body.get? version.codeField = some (.str code)
  time : body.get? version.timeField = some (ofTimestamp updated_at) ∨
    (body.get? version.timeField = none ∧ updated_at = none)

theorem identifier?_eq_some_iff {value : Option Json} {s : String} :
    identifier? value = some s ↔
      value = some (.str s) ∧ InterviewPrep.Python.stripped s ≠ "" := by
  rw [identifier?, Option.filter_eq_some_iff, text?_eq_some_iff, decide_eq_true_eq]

/-- Python reads what TypeScript reads, and `None` where there is nothing. -/
theorem timestamp?_eq_some_iff {value : Option Json} {t : Option String} :
    timestamp? value = some t ↔ value = some (ofTimestamp t) ∨ (value = none ∧ t = none) := by
  cases value with
  | none => simp [timestamp?, eq_comm]
  | some value =>
    have hsame : timestamp? (some value) = LegacyAdapter.timestamp? (some value) := by
      cases value <;> rfl
    rw [hsame, LegacyAdapter.timestamp?_eq_some_iff]
    simp

theorem read_account_eq_some_iff {version : Version} {body : Json} {account : AccountStatus State}
    (hversion : versionOf body = some version) :
    read_account version body = some account ↔
      ∃ code, WellTyped version body account.accountId code account.updatedAt ∧
        (code, account.state) ∈ version.stateMap := by
  have hnodup : (version.stateMap.map Prod.fst).Nodup := by
    rcases version_cases hversion with rfl | rfl <;> decide
  obtain ⟨accountId, state, updatedAt⟩ := account
  simp only [read_account, Option.bind_eq_bind, Option.bind_eq_some_iff, identifier?_eq_some_iff,
    text?_eq_some_iff, timestamp?_eq_some_iff, Option.pure_def, Option.some.injEq,
    AccountStatus.mk.injEq, OrderedDict.lookup_eq_some_iff_mem hnodup]
  constructor
  · rintro ⟨_, ⟨haccount, hblank⟩, code, hcode, _, htime, _, hstate, rfl, rfl, rfl⟩
    exact ⟨code, ⟨haccount, hblank, hcode, htime⟩, hstate⟩
  · rintro ⟨code, ⟨haccount, hblank, hcode, htime⟩, hstate⟩
    exact ⟨_, ⟨haccount, hblank⟩, code, hcode, _, htime, _, hstate, rfl, rfl, rfl⟩

/-- A body of status 200 gives an account exactly if it is an object without an
error whose fields are well typed and whose code is in the table. -/
theorem read_body_eq_ok_iff {body : Json} {account : AccountStatus State} :
    read_body body = .ok account ↔
      ErrorFree body ∧ ∃ version, versionOf body = some version ∧
        ∃ code, WellTyped version body account.accountId code account.updatedAt ∧
          (code, account.state) ∈ version.stateMap := by
  unfold read_body ErrorFree
  split
  · -- with an error member, no account
    rename_i error herror
    simp only [herror, reduceCtorEq, and_false, false_and, iff_false]
    split <;> simp
  · rename_i herror
    have hnormal : normalize_account body = some account ↔
        (∃ members, body = .obj members) ∧
          ∃ version, versionOf body = some version ∧ read_account version body = some account := by
      unfold normalize_account
      cases body with
      | obj members =>
        cases versionOf (.obj members) with
        | none => simp [isDict]
        | some version => simp [isDict]
      | _ => simp [isDict]
    have haccounts : (∃ version, versionOf body = some version ∧
          read_account version body = some account) ↔
        ∃ version, versionOf body = some version ∧
          ∃ code, WellTyped version body account.accountId code account.updatedAt ∧
            (code, account.state) ∈ version.stateMap := by
      constructor
      · rintro ⟨version, hversion, h⟩
        exact ⟨version, hversion, (read_account_eq_some_iff hversion).mp h⟩
      · rintro ⟨version, hversion, h⟩
        exact ⟨version, hversion, (read_account_eq_some_iff hversion).mpr h⟩
    rw [← haccounts]
    simp only [herror, and_true]
    rw [← hnormal]
    cases normalize_account body with
    | none => simp
    | some account' => simp

/-- Without an error member, what is no account is a malformed response. -/
theorem read_body_cases {body : Json} (h : ErrorFree body) :
    (∃ account, read_body body = .ok account) ∨
      read_body body = .failed .malformed_response := by
  unfold read_body
  rw [h.2]
  cases normalize_account body with
  | none => exact Or.inr rfl
  | some account => exact Or.inl ⟨account, rfl⟩

end InterviewPrep.LegacyAdapter.Python
