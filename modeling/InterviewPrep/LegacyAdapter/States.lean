import InterviewPrep.Lib.OrderedDict
import InterviewPrep.LegacyAdapter.Model

/-!
# Account states

What a body of status 200 says is `Genuine`: an object without an error whose
code is in the table of its version, with an account id and a timestamp. The
adapter returns the accounts that are said so, and others: the table is an object
literal, and indexing it with the name of a member of `Object.prototype` finds
that member. `never_invents_iff` says that this is all.
-/

namespace InterviewPrep.LegacyAdapter

open JavaScript

/-! ## What a body says -/

/-- An object without an error member. -/
def ErrorFree (body : Json) : Prop :=
  (∃ members, body = .obj members) ∧ body.get? "error" = none

/-- How a timestamp is written. -/
def ofTimestamp : Option String → Json
  | none => .null
  | some s => .str s

/-- The fields of a body for a version, with the expected types. -/
structure WellTyped (version : Version) (body : Json) (accountId code : String)
    (updatedAt : Option String) : Prop where
  account : body.get? version.accountField = some (.str accountId)
  notBlank : trim accountId ≠ ""
  code : body.get? version.codeField = some (.str code)
  time : body.get? version.timeField = some (ofTimestamp updatedAt)

/-- A body that says that an account has a state. -/
def Genuine (body : Json) (account : AccountStatus State) : Prop :=
  ErrorFree body ∧ ∃ version, versionOf body = some version ∧
    ∃ code, WellTyped version body account.accountId code account.updatedAt ∧
      (code, account.state) ∈ version.stateMap

/-- The adapter invents no state: an account is returned only if the body says
so, and any other code is a malformed response. -/
structure NeverInvents (body : Json) (result : AdapterResult (Member State)) : Prop where
  genuine : ∀ account, result = .ok account →
    ∃ state, account.state = .own state ∧ Genuine body { account with state }
  unknown : ErrorFree body → ∀ version, versionOf body = some version →
    ∀ code, body.get? version.codeField = some (.str code) →
      (∀ state, (code, state) ∉ version.stateMap) → result = .failed .malformed_response

/-- A well-typed body whose code is the name of a member of `Object.prototype`. -/
def NamesMember (body : Json) : Prop :=
  ErrorFree body ∧ ∃ version, versionOf body = some version ∧
    ∃ accountId code updatedAt, WellTyped version body accountId code updatedAt ∧
      code ∈ objectPrototype

/-! ## What is read -/

theorem text?_eq_some_iff {value : Option Json} {s : String} :
    text? value = some s ↔ value = some (.str s) := by
  unfold text?
  split
  · simp
  · rename_i hne
    simp only [reduceCtorEq, false_iff]
    rintro rfl
    exact hne s rfl

theorem identifier?_eq_some_iff {value : Option Json} {s : String} :
    identifier? value = some s ↔ value = some (.str s) ∧ trim s ≠ "" := by
  rw [identifier?, Option.filter_eq_some_iff, text?_eq_some_iff, decide_eq_true_eq]

theorem timestamp?_eq_some_iff {value : Option Json} {t : Option String} :
    timestamp? value = some t ↔ value = some (ofTimestamp t) := by
  unfold timestamp?
  split
  · cases t <;> simp [ofTimestamp]
  · cases t <;> simp [ofTimestamp]
  · rename_i hnull hstr
    simp only [reduceCtorEq, false_iff]
    rintro rfl
    cases t with
    | none => exact hnull rfl
    | some s => exact hstr s rfl

/-- The fields are read exactly if they are well typed. -/
theorem readAccount_eq_some_iff {version : Version} {body : Json}
    {account : AccountStatus (Member State)} :
    readAccount version body = some account ↔
      ∃ code, WellTyped version body account.accountId code account.updatedAt ∧
        literalGet? version.stateMap code = some account.state := by
  obtain ⟨accountId, state, updatedAt⟩ := account
  simp only [readAccount, Option.bind_eq_bind, Option.bind_eq_some_iff, identifier?_eq_some_iff,
    text?_eq_some_iff, timestamp?_eq_some_iff, Option.pure_def, Option.some.injEq,
    AccountStatus.mk.injEq]
  constructor
  · rintro ⟨_, ⟨haccount, hblank⟩, code, hcode, _, htime, _, hstate, rfl, rfl, rfl⟩
    exact ⟨code, ⟨haccount, hblank, hcode, htime⟩, hstate⟩
  · rintro ⟨code, ⟨haccount, hblank, hcode, htime⟩, hstate⟩
    exact ⟨_, ⟨haccount, hblank⟩, code, hcode, _, htime, _, hstate, rfl, rfl, rfl⟩

/-- The tables of the two versions. -/
theorem version_cases {body : Json} {version : Version} (h : versionOf body = some version) :
    version = version1 ∨ version = version2 := by
  unfold versionOf at h
  split at h
  · exact Or.inl (Option.some.inj h).symm
  · split at h
    · exact Or.inr (Option.some.inj h).symm
    · simp at h

/-- Indexing the table of a version. -/
theorem literalGet?_eq_some_iff {body : Json} {version : Version}
    (h : versionOf body = some version) {code : String} {member : Member State} :
    literalGet? version.stateMap code = some member ↔
      (∃ state, (code, state) ∈ version.stateMap ∧ member = .own state) ∨
      (code ∈ objectPrototype ∧ member = .inherited code) := by
  have hnodup : (version.stateMap.map Prod.fst).Nodup := by
    rcases version_cases h with rfl | rfl <;> decide
  -- no code of the table is the name of an inherited member
  have hdisjoint : ∀ p ∈ version.stateMap, p.1 ∉ objectPrototype := by
    rcases version_cases h with rfl | rfl <;> decide
  unfold literalGet?
  cases hlookup : version.stateMap.lookup code with
  | some state =>
    -- a code of the table finds its own state
    have hmem := (OrderedDict.lookup_eq_some_iff_mem hnodup code state).mp hlookup
    simp only [Option.some.injEq]
    constructor
    · rintro rfl
      exact Or.inl ⟨state, hmem, rfl⟩
    · rintro (⟨state', hmem', rfl⟩ | ⟨hproto, -⟩)
      · rw [← OrderedDict.lookup_eq_some_iff_mem hnodup, hlookup] at hmem'
        rw [Option.some.inj hmem']
      · exact absurd hproto (hdisjoint _ hmem)
  | none =>
    -- another one what `Object.prototype` has
    have hnone : ∀ state, (code, state) ∉ version.stateMap := by
      intro state hmem
      rw [← OrderedDict.lookup_eq_some_iff_mem hnodup, hlookup] at hmem
      simp at hmem
    by_cases hproto : code ∈ objectPrototype
    · simp [hproto, hnone, eq_comm]
    · simp [hproto, hnone]

theorem normalizeAccount_eq_some_iff {body : Json} {account : AccountStatus (Member State)} :
    normalizeAccount body = some account ↔
      (∃ members, body = .obj members) ∧
        ∃ version, versionOf body = some version ∧ readAccount version body = some account := by
  unfold normalizeAccount
  cases body with
  | obj members =>
    cases versionOf (.obj members) with
    | none => simp [Json.isObject]
    | some version => simp [Json.isObject]
  | arr items =>
    -- an array has none of the fields
    have hversion : versionOf (.arr items) = none := rfl
    simp [hversion]
  | _ => simp [Json.isObject]

/-- A body of status 200 gives an account exactly if it is an object without an
error whose fields are well typed and whose code finds a member. -/
theorem readBody_eq_ok_iff {body : Json} {account : AccountStatus (Member State)} :
    readBody body = .ok account ↔
      ErrorFree body ∧ ∃ version, versionOf body = some version ∧
        ∃ code, WellTyped version body account.accountId code account.updatedAt ∧
          literalGet? version.stateMap code = some account.state := by
  have hnormal : normalizeAccount body = some account ↔
      (∃ members, body = .obj members) ∧ ∃ version, versionOf body = some version ∧
        ∃ code, WellTyped version body account.accountId code account.updatedAt ∧
          literalGet? version.stateMap code = some account.state := by
    rw [normalizeAccount_eq_some_iff]
    simp only [readAccount_eq_some_iff]
  unfold readBody ErrorFree
  split
  · -- with an error member, no account
    rename_i error herror
    simp only [herror, reduceCtorEq, and_false, false_and, iff_false]
    split <;> simp
  · rename_i herror
    rw [and_assoc, and_comm (a := body.get? "error" = none), ← and_assoc]
    simp only [herror, and_true]
    rw [← hnormal]
    cases normalizeAccount body with
    | none => simp
    | some account' => simp

/-- Without an error member, what is no account is a malformed response. -/
theorem readBody_cases {body : Json} (h : ErrorFree body) :
    (∃ account, readBody body = .ok account) ∨ readBody body = .failed .malformed_response := by
  unfold readBody
  rw [h.2]
  cases normalizeAccount body with
  | none => exact Or.inr rfl
  | some account => exact Or.inl ⟨account, rfl⟩

/-! ## When no state is invented -/

theorem neverInvents_iff {body : Json} :
    NeverInvents body (readBody body) ↔ ¬ NamesMember body := by
  constructor
  · -- the inherited member becomes the state
    rintro h ⟨hfree, version, hversion, accountId, code, updatedAt, htyped, hproto⟩
    have hmember := (literalGet?_eq_some_iff hversion).mpr (Or.inr ⟨hproto, rfl⟩)
    have hok : readBody body = .ok ⟨accountId, .inherited code, updatedAt⟩ :=
      readBody_eq_ok_iff.mpr ⟨hfree, version, hversion, code, htyped, hmember⟩
    obtain ⟨state, hstate, -⟩ := h.genuine _ hok
    simp at hstate
  · intro h
    constructor
    · intro account hok
      obtain ⟨hfree, version, hversion, code, htyped, hmember⟩ := readBody_eq_ok_iff.mp hok
      rcases (literalGet?_eq_some_iff hversion).mp hmember with ⟨state, hmem, hstate⟩ | ⟨hproto, -⟩
      · exact ⟨state, hstate, hfree, version, hversion, code, htyped, hmem⟩
      · exact absurd ⟨hfree, version, hversion, _, code, _, htyped, hproto⟩ h
    · intro hfree version hversion code hcode hunknown
      rcases readBody_cases hfree with ⟨account, hok⟩ | hfailed
      · obtain ⟨-, version', hversion', code', htyped, hmember⟩ := readBody_eq_ok_iff.mp hok
        rw [hversion, Option.some.injEq] at hversion'
        subst hversion'
        rw [htyped.code, Option.some.injEq, Json.str.injEq] at hcode
        subst hcode
        -- a code outside the table can only have found an inherited member
        rcases (literalGet?_eq_some_iff hversion).mp hmember with ⟨state, hmem, -⟩ | ⟨hproto, -⟩
        · exact absurd hmem (hunknown state)
        · exact absurd ⟨hfree, version, hversion, _, _, _, htyped, hproto⟩ h
      · exact hfailed

/-- For a response with status 200, the adapter invents no state exactly if the
body does not name a member of `Object.prototype` in place of a code. -/
theorem never_invents_iff {parseNumber : String → Number} {client : String → Outcome}
    {accountId : String} {headers : String → Option String} {body : Json}
    (h : client accountId = .responded ⟨.finite 200, headers, body⟩) :
    NeverInvents body (getStatus parseNumber client accountId) ↔ ¬ NamesMember body := by
  have hbody : getStatus parseNumber client accountId = readBody body := by
    unfold getStatus
    rw [h]
    rfl
  rw [hbody]
  exact neverInvents_iff

/-- A client that answers with a body and status 200. -/
def answering (body : Json) : String → Outcome :=
  fun _ => .responded ⟨.finite 200, fun _ => none, body⟩

/-- A suspended account, in the second version. -/
def suspendedBody : Json :=
  .obj [("state", .str "SUSPENDED"), ("accountId", .str "a1"), ("updatedAt", .null)]

theorem never_invents_iff_suspended :
    getStatus (fun _ => .nan) (answering suspendedBody) "a1" =
      .ok ⟨"a1", .own .suspended, none⟩ ∧
    NeverInvents suspendedBody (getStatus (fun _ => .nan) (answering suspendedBody) "a1") := by
  refine ⟨by decide +kernel, (never_invents_iff rfl).mpr ?_⟩
  rintro ⟨-, version, hversion, accountId, code, updatedAt, htyped, hproto⟩
  have hv : version = version2 := (Option.some.inj hversion).symm
  have hcode := htyped.code
  rw [hv] at hcode
  have hget : suspendedBody.get? version2.codeField = some (.str "SUSPENDED") := rfl
  rw [hget, Option.some.injEq, Json.str.injEq] at hcode
  rw [← hcode] at hproto
  exact absurd hproto (by decide)

/-- A body whose code is the name of an inherited member. -/
def constructorBody : Json :=
  .obj [("status_code", .str "constructor"), ("account_id", .str "a1"), ("updated_at", .null)]

/-- The code `constructor` gives an account whose state is none. -/
theorem constructor_is_no_state :
    getStatus (fun _ => .nan) (answering constructorBody) "a1" =
      .ok ⟨"a1", .inherited "constructor", none⟩ ∧
    ¬ NeverInvents constructorBody
      (getStatus (fun _ => .nan) (answering constructorBody) "a1") := by
  have hok : getStatus (fun _ => .nan) (answering constructorBody) "a1" =
      .ok ⟨"a1", .inherited "constructor", none⟩ := by decide +kernel
  refine ⟨hok, fun h => ?_⟩
  obtain ⟨state, hstate, -⟩ := h.genuine _ hok
  simp at hstate

end InterviewPrep.LegacyAdapter
