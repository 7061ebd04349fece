import Mathlib.Data.Rat.Defs
import Mathlib.Data.String.Basic
import InterviewPrep.Lib.Delimited

/-!
# JavaScript values

The values of JavaScript that programs read from outside: numbers with the ones
that are not finite, strings that are trimmed, and what `JSON.parse` returns.
Finite numbers are exact rationals. `JSON.stringify` of strings is injective
(`stringify_injective`).
-/

namespace InterviewPrep

namespace JavaScript

/-! ## Numbers -/

inductive Number where
  | finite (q : ℚ)
  | infinity
  | negInfinity
  | nan
deriving DecidableEq

namespace Number

/-- `Number.isFinite(x)` -/
def isFinite : Number → Bool
  | finite _ => true
  | _ => false

/-- `Number.isInteger(x)` -/
def isInteger : Number → Bool
  | finite q => q.isInt
  | _ => false

/-- `x < 0` -/
def isNegative : Number → Bool
  | finite q => q < 0
  | negInfinity => true
  | _ => false

/-- `x >= 0` -/
def isNonnegative : Number → Bool
  | finite q => 0 ≤ q
  | infinity => true
  | _ => false

end Number

/-! ## Strings -/

/-- The code units of a string. -/
abbrev CodeUnits := List UInt16

/-- The code units of a character: one, or two surrogates. -/
def charUnits (c : Char) : CodeUnits :=
  if c.toNat < 0x10000 then [UInt16.ofNat c.toNat]
  else
    [UInt16.ofNat (0xD800 + (c.toNat - 0x10000) / 0x400),
      UInt16.ofNat (0xDC00 + (c.toNat - 0x10000) % 0x400)]

/-- The code units of a string of characters. -/
def units (s : String) : CodeUnits := s.toList.flatMap charUnits

def isHighSurrogate (u : UInt16) : Bool := 0xD800 ≤ u && u ≤ 0xDBFF

def isLowSurrogate (u : UInt16) : Bool := 0xDC00 ≤ u && u ≤ 0xDFFF

/-- What `for (const c of s)` goes through: the surrogate pairs, and all other code units
by themselves. -/
def codePoints : CodeUnits → List CodeUnits
  | [] => []
  | [u] => [[u]]
  | u :: v :: rest =>
    if isHighSurrogate u && isLowSurrogate v then [u, v] :: codePoints rest
    else [u] :: codePoints (v :: rest)

/-- For what is not written with surrogates, the code points are as good as the code
units. -/
theorem filterMap_codePoints {α : Type} {f : CodeUnits → Option α} (hpair : ∀ u v, f [u, v] = none)
    (hsurrogate : ∀ u, isHighSurrogate u = true ∨ isLowSurrogate u = true → f [u] = none)
    (s : CodeUnits) : (codePoints s).filterMap f = s.filterMap fun u => f [u] := by
  induction s using codePoints.induct with
  | case1 => rfl
  | case2 u => rfl
  | case3 u v rest hsurrogates ih =>
    rcases Bool.and_eq_true_iff.mp hsurrogates with ⟨hu, hv⟩
    rw [codePoints, if_pos hsurrogates, List.filterMap_cons_none (hpair u v), ih,
      List.filterMap_cons_none (f := fun u => f [u]) (hsurrogate u (Or.inl hu)),
      List.filterMap_cons_none (f := fun u => f [u]) (hsurrogate v (Or.inr hv))]
  | case4 u v rest hsurrogates ih =>
    rw [codePoints, if_neg hsurrogates]
    cases hu : f [u] with
    | none =>
      rw [List.filterMap_cons_none hu, ih, List.filterMap_cons_none (f := fun u => f [u]) hu]
    | some a =>
      rw [List.filterMap_cons_some hu, ih, List.filterMap_cons_some (f := fun u => f [u]) hu]

/-- The white space and the line terminators that `trim` removes, by their code. -/
def isSpace (n : ℕ) : Bool :=
  (0x09 ≤ n && n ≤ 0x0D) || n == 0x20 || n == 0xA0 || n == 0x1680 ||
    (0x2000 ≤ n && n ≤ 0x200A) || n == 0x2028 || n == 0x2029 || n == 0x202F || n == 0x205F ||
    n == 0x3000 || n == 0xFEFF

/-- What is left of a list between its first and last elements that are kept. -/
def strip {α : Type} (space : α → Bool) (l : List α) : List α :=
  ((l.dropWhile space).reverse.dropWhile space).reverse

/-- `s.trim()` -/
def trim (s : String) : String := String.ofList (strip (fun c => isSpace c.toNat) s.toList)

/-- `s.trim()` on code units. -/
def trimUnits (s : CodeUnits) : CodeUnits := strip (fun u => isSpace u.toNat) s

/-! ## JSON values -/

/-- What `JSON.parse` returns. -/
inductive Json where
  | null
  | bool (b : Bool)
  | num (q : ℚ)
  | str (s : String)
  | arr (items : List Json)
  | obj (members : List (String × Json))

namespace Json

/-- `value[name]`, or nothing for `undefined`, where no prototype has a member of
that name. Of several members of one name the last one counts. -/
def get? (name : String) : Json → Option Json
  | obj members => members.reverse.lookup name
  | _ => none

/-- `typeof value === "object" && value !== null` -/
def isObject : Json → Bool
  | arr _ => true
  | obj _ => true
  | _ => false

/-- `Boolean(value)` -/
def truthy : Json → Bool
  | null => false
  | bool b => b
  | num q => q ≠ 0
  | str s => s ≠ ""
  | arr _ => true
  | obj _ => true

end Json

/-- The names of the members that every object literal inherits. -/
def objectPrototype : List String :=
  ["constructor", "__defineGetter__", "__defineSetter__", "hasOwnProperty", "__lookupGetter__",
    "__lookupSetter__", "isPrototypeOf", "propertyIsEnumerable", "toString", "valueOf",
    "__proto__", "toLocaleString"]

/-- A member that indexing an object literal finds: one of its own, or one of
`Object.prototype`, of which only the name is kept. -/
inductive Member (α : Type) where
  | own (a : α)
  | inherited (name : String)
deriving DecidableEq

/-- `literal[name]`, or nothing for `undefined`. -/
def literalGet? {α : Type} (literal : List (String × α)) (name : String) : Option (Member α) :=
  match literal.lookup name with
  | some a => some (.own a)
  | none => if name ∈ objectPrototype then some (.inherited name) else none

/-! ## `JSON.stringify` -/

def quotationMark : Char := Char.ofNat 0x22

def backslash : Char := Char.ofNat 0x5C

/-- The letter of a two-character escape. -/
def shortEscape? (n : ℕ) : Option Char :=
  match n with
  | 0x08 => some 'b'
  | 0x09 => some 't'
  | 0x0A => some 'n'
  | 0x0C => some 'f'
  | 0x0D => some 'r'
  | 0x22 => some quotationMark
  | 0x5C => some backslash
  | _ => none

/-- How a character is written inside the quotation marks. -/
def escape (c : Char) : List Char :=
  match shortEscape? c.toNat with
  | some d => [backslash, d]
  | none =>
    if c.toNat < 0x20 then
      [backslash, 'u', '0', '0', (c.toNat / 16).digitChar, (c.toNat % 16).digitChar]
    else [c]

/-- A string between quotation marks, in front of what follows. -/
def quote (s : String) (rest : List Char) : List Char :=
  quotationMark :: (s.toList.flatMap escape ++ quotationMark :: rest)

/-- The strings of an array behind its first one. -/
def quoteRest : List String → List Char
  | [] => [']']
  | s :: strings => ',' :: quote s (quoteRest strings)

/-- `JSON.stringify` of an array of strings. -/
def stringify : List String → String
  | [] => "[]"
  | s :: strings => String.ofList ('[' :: quote s (quoteRest strings))

theorem shortEscape?_inj {m n : ℕ} {d : Char} (hm : shortEscape? m = some d)
    (hn : shortEscape? n = some d) : m = n := by
  unfold shortEscape? at hm hn
  split at hm <;> split at hn <;> simp_all [quotationMark, backslash] <;> grind

theorem shortEscape?_ne_u (n : ℕ) : shortEscape? n ≠ some 'u' := by
  unfold shortEscape?
  split <;> decide

theorem shortEscape?_quotationMark : shortEscape? quotationMark.toNat = some quotationMark := by
  decide

theorem shortEscape?_backslash : shortEscape? backslash.toNat = some backslash := by
  decide

theorem digitChar_inj : ∀ m < 32, ∀ n < 32, (m / 16).digitChar = (n / 16).digitChar →
    (m % 16).digitChar = (n % 16).digitChar → m = n := by
  decide

/-- A character is written as itself, or with a backslash in front. -/
theorem escape_cases (c : Char) :
    (∃ d, shortEscape? c.toNat = some d ∧ escape c = [backslash, d]) ∨
    (c.toNat < 0x20 ∧ escape c =
      [backslash, 'u', '0', '0', (c.toNat / 16).digitChar, (c.toNat % 16).digitChar]) ∨
    (c ≠ backslash ∧ c ≠ quotationMark ∧ escape c = [c]) := by
  unfold escape
  cases hshort : shortEscape? c.toNat with
  | some d => exact Or.inl ⟨d, rfl, rfl⟩
  | none =>
    by_cases hc : c.toNat < 0x20
    · exact Or.inr (Or.inl ⟨hc, if_pos hc⟩)
    · -- the backslash and the mark have short escapes
      refine Or.inr (Or.inr ⟨?_, ?_, if_neg hc⟩)
      · rintro rfl
        simp [shortEscape?_backslash] at hshort
      · rintro rfl
        simp [shortEscape?_quotationMark] at hshort

theorem toNat_inj {c c' : Char} (h : c.toNat = c'.toNat) : c = c' := by
  rw [← Char.ofNat_toNat c, h, Char.ofNat_toNat]

theorem escape_append_inj (c c' : Char) (r r' : List Char)
    (h : escape c ++ r = escape c' ++ r') : c = c' ∧ r = r' := by
  rcases escape_cases c with ⟨d, hd, hc⟩ | ⟨hlow, hc⟩ | ⟨hb, -, hc⟩
  · rcases escape_cases c' with ⟨d', hd', hc'⟩ | ⟨-, hc'⟩ | ⟨hb', -, hc'⟩
    · simp only [hc, hc', List.cons_append, List.nil_append, List.cons.injEq, true_and] at h
      rw [h.1] at hd
      exact ⟨toNat_inj (shortEscape?_inj hd hd'), h.2⟩
    · -- no short escape is the letter of a long one
      simp only [hc, hc', List.cons_append, List.cons.injEq, true_and] at h
      rw [h.1] at hd
      exact absurd hd (shortEscape?_ne_u _)
    · -- no plain character is a backslash
      simp only [hc, hc', List.cons_append, List.cons.injEq] at h
      exact absurd h.1.symm hb'
  · rcases escape_cases c' with ⟨d', hd', hc'⟩ | ⟨hlow', hc'⟩ | ⟨hb', -, hc'⟩
    · simp only [hc, hc', List.cons_append, List.cons.injEq, true_and] at h
      rw [← h.1] at hd'
      exact absurd hd' (shortEscape?_ne_u _)
    · -- two long escapes: the digits tell the characters apart
      simp only [hc, hc', List.cons_append, List.nil_append, List.cons.injEq, true_and] at h
      exact ⟨toNat_inj (digitChar_inj _ hlow _ hlow' h.1 h.2.1), h.2.2⟩
    · simp only [hc, hc', List.cons_append, List.cons.injEq] at h
      exact absurd h.1.symm hb'
  · rcases escape_cases c' with ⟨d', hd', hc'⟩ | ⟨hlow', hc'⟩ | ⟨hb', -, hc'⟩
    · simp only [hc, hc', List.cons_append, List.cons.injEq] at h
      exact absurd h.1 hb
    · simp only [hc, hc', List.cons_append, List.cons.injEq] at h
      exact absurd h.1 hb
    · simpa only [hc, hc', List.cons_append, List.nil_append, List.cons.injEq] using h

theorem escape_append_ne (c : Char) (r r' : List Char) : escape c ++ r ≠ quotationMark :: r' := by
  have hne : backslash ≠ quotationMark := by decide
  rcases escape_cases c with ⟨d, -, hc⟩ | ⟨-, hc⟩ | ⟨-, hq, hc⟩
  · simp [hc, hne]
  · simp [hc, hne]
  · simp [hc, hq]

theorem quote_inj {s s' : String} {rest rest' : List Char}
    (h : quote s rest = quote s' rest') : s = s' ∧ rest = rest' := by
  obtain ⟨hs, hrest⟩ := Delimited.flatMap_cons_inj escape_append_inj escape_append_ne
    (List.cons.inj h).2
  exact ⟨String.toList_inj.mp hs, hrest⟩

theorem quoteRest_inj {strings strings' : List String}
    (h : quoteRest strings = quoteRest strings') : strings = strings' := by
  induction strings generalizing strings' with
  | nil =>
    cases strings' with
    | nil => rfl
    | cons s' strings' => simp [quoteRest] at h
  | cons s strings ih =>
    cases strings' with
    | nil => simp [quoteRest] at h
    | cons s' strings' =>
      obtain ⟨hs, hrest⟩ := quote_inj (List.cons.inj h).2
      rw [hs, ih hrest]

/-- Arrays of strings are told apart by what they are written as. -/
theorem stringify_injective : Function.Injective stringify := by
  intro strings strings' h
  cases strings with
  | nil =>
    cases strings' with
    | nil => rfl
    | cons s' strings' =>
      rw [← String.toList_inj] at h
      simp [stringify, quote, quotationMark] at h
  | cons s strings =>
    cases strings' with
    | nil =>
      rw [← String.toList_inj] at h
      simp [stringify, quote, quotationMark] at h
    | cons s' strings' =>
      rw [← String.toList_inj] at h
      simp only [stringify, String.toList_ofList, List.cons.injEq, true_and] at h
      obtain ⟨hs, hrest⟩ := quote_inj h
      rw [hs, quoteRest_inj hrest]

end JavaScript

end InterviewPrep
