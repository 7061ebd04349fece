import InterviewPrep.Lib.JavaScript

/-!
# Legacy API adapter

`LegacyAccountAdapter` of `technical/legacy_api_adapter/answer.ts`: one call of
the legacy client, whose answer is turned into an account or an error. The
versions of the legacy body are read alike, from other fields and with other
codes; a `Version` holds what differs.

`Number(...)` on the text of the retry header is a parameter.
-/

namespace InterviewPrep.LegacyAdapter

open JavaScript

/-! ## The data -/

inductive State where
  | active
  | suspended
  | closed
deriving DecidableEq

/-- An account; `S` is the type of what stands for its state. -/
structure AccountStatus (S : Type) where
  accountId : String
  state : S
  updatedAt : Option String
deriving DecidableEq

inductive AdapterError where
  | not_found
  | rate_limited (retryAfterSeconds : Option Number)
  | timeout
  | unavailable
  | malformed_response
deriving DecidableEq

inductive AdapterResult (S : Type) where
  | ok (account : AccountStatus S)
  | failed (error : AdapterError)
deriving DecidableEq

structure LegacyResponse where
  status : Number
  headers : String → Option String
  body : Json

/-- How the call of the client ends: with a response, with an `AbortError`, or
with another exception. -/
inductive Outcome where
  | responded (resp : LegacyResponse)
  | aborted
  | exception

/-! ## The versions of a body -/

structure Version where
  codeField : String
  accountField : String
  timeField : String
  stateMap : List (String × State)

def version1 : Version where
  codeField := "status_code"
  accountField := "account_id"
  timeField := "updated_at"
  stateMap := [("A", .active), ("S", .suspended), ("C", .closed)]

def version2 : Version where
  codeField := "state"
  accountField := "accountId"
  timeField := "updatedAt"
  stateMap := [("ACTIVE", .active), ("SUSPENDED", .suspended), ("CLOSED", .closed)]

/-- The version of a body, by the field that is in it. -/
def versionOf (body : Json) : Option Version :=
  if (body.get? version1.codeField).isSome then some version1
  else if (body.get? version2.codeField).isSome then some version2
  else none

/-! ## The adapter -/

/-- A string. -/
def text? : Option Json → Option String
  | some (.str s) => some s
  | _ => none

/-- A string that is not blank. -/
def identifier? (value : Option Json) : Option String :=
  (text? value).filter (fun s => trim s ≠ "")

/-- A string or `null`. -/
def timestamp? : Option Json → Option (Option String)
  | some .null => some none
  | some (.str s) => some (some s)
  | _ => none

/-- `normalizeAccount` for one version. -/
def readAccount (version : Version) (value : Json) : Option (AccountStatus (Member State)) := do
  let accountId ← identifier? (value.get? version.accountField)
  let code ← text? (value.get? version.codeField)
  let updatedAt ← timestamp? (value.get? version.timeField)
  let state ← literalGet? version.stateMap code
  return ⟨accountId, state, updatedAt⟩

/-- `normalizeAccount` -/
def normalizeAccount (body : Json) : Option (AccountStatus (Member State)) :=
  if !body.isObject then none
  else
    match versionOf body with
    | none => none
    | some version => readAccount version body

/-- The value of `retryAfterSeconds`. -/
def retryAfterSeconds (parseNumber : String → Number) (rawRetryAfter : Option String) :
    Option Number :=
  let parsedRetryAfter :=
    match rawRetryAfter with
    -- an absent or empty header is falsy
    | none => .nan
    | some raw => if raw = "" then .nan else parseNumber raw
  if parsedRetryAfter.isFinite && parsedRetryAfter.isNonnegative then some parsedRetryAfter
  else none

/-- `getStatus` for a response with status 200. -/
def readBody (body : Json) : AdapterResult (Member State) :=
  match body.get? "error" with
  -- a logical error with status 200
  | some error =>
    match error.get? "code" with
    | some (.str "MISSING") => .failed .not_found
    | _ => .failed .malformed_response
  | none =>
    match normalizeAccount body with
    | none => .failed .malformed_response
    | some account => .ok account

/-- `getStatus`; `client` is `this.client.getAccount`. -/
def getStatus (parseNumber : String → Number) (client : String → Outcome) (accountId : String) :
    AdapterResult (Member State) :=
  match client accountId with
  | .aborted => .failed .timeout
  | .exception => .failed .unavailable
  | .responded resp =>
    if resp.status = .finite 404 then .failed .not_found
    else if resp.status = .finite 429 then
      .failed (.rate_limited (retryAfterSeconds parseNumber (resp.headers "retry-after")))
    else if resp.status = .finite 503 then .failed .unavailable
    else if resp.status ≠ .finite 200 then .failed .unavailable
    else readBody resp.body

end InterviewPrep.LegacyAdapter
