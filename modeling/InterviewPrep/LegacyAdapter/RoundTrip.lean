import InterviewPrep.LegacyAdapter.Python

/-!
# Accounts written and read back

Bodies written for an account, in either version and with other members around them.
Both adapters read back what was written (`readBody_encode`, `read_body_encode`), so a
legacy API may change its version under them: what was read from one body is read again
from the account rewritten in the other version (`adapter_roundtrip`).
-/

namespace InterviewPrep.LegacyAdapter

open JavaScript

/-! ## Bodies that are written -/

def versions : List Version := [version1, version2]

/-- The code of a state in the table of a version. -/
def Version.code (version : Version) (state : State) : Option String :=
  (version.stateMap.find? fun entry => entry.2 = state).map Prod.fst

/-- An account in the fields of a version, behind other members, of which it replaces
those with the names of its fields. -/
def encode (version : Version) (account : AccountStatus State) (others : List (String × Json)) :
    Json :=
  .obj (others ++ [(version.accountField, .str account.accountId),
    (version.codeField, .str ((version.code account.state).getD "")),
    (version.timeField, ofTimestamp account.updatedAt)])

/-- The other members neither report an error nor make it a body of another version. -/
structure Unobtrusive (version : Version) (others : List (String × Json)) : Prop where
  error : others.reverse.lookup "error" = none
  version1 : version ≠ LegacyAdapter.version1 →
    others.reverse.lookup LegacyAdapter.version1.codeField = none

/-- The account as TypeScript returns it. -/
def AccountStatus.own (account : AccountStatus State) : AccountStatus (Member State) :=
  { account with state := .own account.state }

section Encode

variable {version : Version} {account : AccountStatus State} {others : List (String × Json)}

theorem version_of_mem (h : version ∈ versions) : version = version1 ∨ version = version2 := by
  simpa [versions] using h

/-- The fields of the account come first, then the other members. -/
theorem get?_encode (name : String) :
    (encode version account others).get? name =
      ([(version.timeField, ofTimestamp account.updatedAt),
        (version.codeField, .str ((version.code account.state).getD "")),
        (version.accountField, .str account.accountId)].lookup name).or
          (others.reverse.lookup name) := by
  rw [encode, Json.get?, List.reverse_append, List.lookup_append]
  rfl

theorem errorFree_encode (hversion : version ∈ versions) (hothers : Unobtrusive version others) :
    ErrorFree (encode version account others) := by
  refine ⟨⟨_, rfl⟩, ?_⟩
  rw [get?_encode, hothers.error, Option.or_none]
  rcases version_of_mem hversion with rfl | rfl <;> rfl

theorem versionOf_encode (hversion : version ∈ versions) (hothers : Unobtrusive version others) :
    versionOf (encode version account others) = some version := by
  rcases version_of_mem hversion with rfl | rfl
  · rw [versionOf, get?_encode]
    rfl
  · -- without the code of the first version
    have hfirst := hothers.version1 fun h => absurd (congrArg Version.codeField h) (by decide)
    rw [versionOf, get?_encode, get?_encode, hfirst, Option.or_none]
    rfl

theorem accountField_encode (hversion : version ∈ versions) :
    (encode version account others).get? version.accountField = some (.str account.accountId) := by
  rcases version_of_mem hversion with rfl | rfl <;> exact get?_encode _

/-- The code is in the table. -/
theorem code_mem (hversion : version ∈ versions) (state : State) :
    ((version.code state).getD "", state) ∈ version.stateMap := by
  rcases version_of_mem hversion with rfl | rfl <;> cases state <;> decide

theorem wellTyped_encode (hversion : version ∈ versions) (hblank : trim account.accountId ≠ "") :
    WellTyped version (encode version account others) account.accountId
      ((version.code account.state).getD "") account.updatedAt := by
  refine ⟨accountField_encode hversion, hblank, ?_, ?_⟩
  · rcases version_of_mem hversion with rfl | rfl <;> exact get?_encode _
  · rcases version_of_mem hversion with rfl | rfl <;> exact get?_encode _

theorem python_wellTyped_encode (hversion : version ∈ versions)
    (hblank : InterviewPrep.Python.stripped account.accountId ≠ "") :
    Python.WellTyped version (encode version account others) account.accountId
      ((version.code account.state).getD "") account.updatedAt := by
  refine ⟨accountField_encode hversion, hblank, ?_, Or.inl ?_⟩
  · rcases version_of_mem hversion with rfl | rfl <;> exact get?_encode _
  · rcases version_of_mem hversion with rfl | rfl <;> exact get?_encode _

/-! ## Reading them back -/

/-- TypeScript reads back what was written, unless the id is blank. -/
theorem readBody_encode (hversion : version ∈ versions) (hothers : Unobtrusive version others) :
    readBody (encode version account others) =
      if trim account.accountId = "" then .failed .malformed_response else .ok account.own := by
  have hfree : ErrorFree (encode version account others) := errorFree_encode hversion hothers
  have hof : versionOf (encode version account others) = some version :=
    versionOf_encode hversion hothers
  by_cases hblank : trim account.accountId = ""
  · rw [if_pos hblank]
    rcases readBody_cases hfree with ⟨account', hok⟩ | hfailed
    · -- the id that is read is the one that was written
      obtain ⟨-, version', hversion', code, htyped, -⟩ := readBody_eq_ok_iff.mp hok
      have hsame := Option.some.inj (hof.symm.trans hversion')
      subst hsame
      have hid := htyped.account.symm.trans (accountField_encode hversion)
      rw [Option.some.injEq, Json.str.injEq] at hid
      exact absurd (hid ▸ hblank) htyped.notBlank
    · exact hfailed
  · rw [if_neg hblank, readBody_eq_ok_iff]
    refine ⟨hfree, version, hof, _, wellTyped_encode hversion hblank, ?_⟩
    exact (literalGet?_eq_some_iff hof).mpr (Or.inl ⟨account.state, code_mem hversion _, rfl⟩)

/-- So does Python, with its own notion of a blank id. -/
theorem read_body_encode (hversion : version ∈ versions) (hothers : Unobtrusive version others) :
    Python.read_body (encode version account others) =
      if InterviewPrep.Python.stripped account.accountId = "" then .failed .malformed_response
      else .ok account := by
  have hfree : ErrorFree (encode version account others) := errorFree_encode hversion hothers
  have hof : versionOf (encode version account others) = some version :=
    versionOf_encode hversion hothers
  by_cases hblank : InterviewPrep.Python.stripped account.accountId = ""
  · rw [if_pos hblank]
    rcases Python.read_body_cases hfree with ⟨account', hok⟩ | hfailed
    · obtain ⟨-, version', hversion', code, htyped, -⟩ := Python.read_body_eq_ok_iff.mp hok
      have hsame := Option.some.inj (hof.symm.trans hversion')
      subst hsame
      have hid := htyped.account.symm.trans (accountField_encode hversion)
      rw [Option.some.injEq, Json.str.injEq] at hid
      exact absurd (hid ▸ hblank) htyped.notBlank
    · exact hfailed
  · rw [if_neg hblank, Python.read_body_eq_ok_iff]
    exact ⟨hfree, version, hof, _, python_wellTyped_encode hversion hblank, code_mem hversion _⟩

end Encode

/-! ## Rewriting what was read -/

/-- What the adapters make of the accounts that are written in a version. -/
structure RoundTrip (version : Version) (others : List (String × Json)) : Prop where
  typescript : ∀ account, readBody (encode version account others) =
    if trim account.accountId = "" then .failed .malformed_response else .ok account.own
  python : ∀ account, Python.read_body (encode version account others) =
    if InterviewPrep.Python.stripped account.accountId = "" then .failed .malformed_response
    else .ok account
  /-- an account that was read from any body is read again, from this version -/
  rewritten : ∀ body account, readBody body = .ok account.own →
    readBody (encode version account others) = .ok account.own
  rewritten_python : ∀ body account, Python.read_body body = .ok account →
    Python.read_body (encode version account others) = .ok account
  /-- the adapters may differ on a body, but not on what is rewritten -/
  agree : ∀ account, (Python.read_body (encode version account others)).toTypeScript =
      readBody (encode version account others) ↔
    (InterviewPrep.Python.stripped account.accountId = "" ↔ trim account.accountId = "")

/-- Both adapters read back what is written in one of the versions, and agree on it if
they agree on which ids are blank. -/
theorem adapter_roundtrip {version : Version} {others : List (String × Json)}
    (hversion : version ∈ versions) (hothers : Unobtrusive version others) :
    RoundTrip version others where
  typescript account := readBody_encode hversion hothers
  python account := read_body_encode hversion hothers
  rewritten body account hok := by
    -- an id that was read is not blank
    obtain ⟨-, _, -, _, htyped, -⟩ := readBody_eq_ok_iff.mp hok
    have hblank : trim account.accountId ≠ "" := htyped.notBlank
    rw [readBody_encode hversion hothers, if_neg hblank]
  rewritten_python body account hok := by
    obtain ⟨-, _, -, _, htyped, -⟩ := Python.read_body_eq_ok_iff.mp hok
    rw [read_body_encode hversion hothers, if_neg htyped.notBlank]
  agree account := by
    rw [readBody_encode hversion hothers, read_body_encode hversion hothers]
    by_cases hpython : InterviewPrep.Python.stripped account.accountId = ""
    · by_cases htrim : trim account.accountId = ""
      · simp [hpython, htrim, Python.AdapterResult.toTypeScript, Python.AdapterError.toTypeScript]
      · simp [hpython, htrim, Python.AdapterResult.toTypeScript]
    · by_cases htrim : trim account.accountId = ""
      · simp [hpython, htrim, Python.AdapterResult.toTypeScript]
      · simp [hpython, htrim, Python.AdapterResult.toTypeScript, AccountStatus.own]

/-- An account of the second version, rewritten in the first beside an old timestamp. -/
theorem adapter_roundtrip_suspended :
    readBody (encode version1 ⟨"a1", .suspended, none⟩
      [("updated_at", .str "2024"), ("plan", .null)]) = .ok ⟨"a1", .own .suspended, none⟩ := by
  have hread : readBody suspendedBody = .ok ⟨"a1", .own .suspended, none⟩ := by decide +kernel
  have hothers : Unobtrusive version1 [("updated_at", .str "2024"), ("plan", .null)] :=
    ⟨rfl, fun h => absurd rfl h⟩
  exact (adapter_roundtrip (by simp [versions]) hothers).rewritten suspendedBody
    ⟨"a1", .suspended, none⟩ hread

end InterviewPrep.LegacyAdapter
