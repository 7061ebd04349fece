import Mathlib.Data.List.TakeWhile
import InterviewPrep.Lib.Binary64

/-!
# Numbers in text

`JavaScript.number` is `Number(s)` and `Python.int` is `int(s)`. Both strip white
space and read a sign and digits; JavaScript reads fractions, exponents and other
bases besides, Python underscores and the digits of all scripts, and the white
space differs. What both read is a `Plain` integer (`plain_of_both`), which each
reads as expected (`number_of_plain`, `int_of_plain`) but for the limits of a
double and of Python's conversion.
-/

namespace InterviewPrep

open JavaScript (strip)

namespace Numeral

/-! ## Digits -/

/-- The value of digits, the most significant one first. -/
def ofDigits (base : ℕ) (digits : List ℕ) : ℕ := digits.foldl (fun n d => base * n + d) 0

/-- An ASCII digit or letter as a digit. -/
def digit? (base : ℕ) (c : Char) : Option ℕ :=
  Option.filter (fun d => decide (d < base))
    (if 48 ≤ c.toNat ∧ c.toNat < 58 then some (c.toNat - 48)
    else if 97 ≤ c.toNat ∧ c.toNat < 103 then some (c.toNat - 87)
    else if 65 ≤ c.toNat ∧ c.toNat < 71 then some (c.toNat - 55)
    else none)

/-- One or more digits. -/
def digits? (base : ℕ) (cs : List Char) : Option ℕ :=
  if !cs.isEmpty && cs.all fun c => (digit? base c).isSome then
    some (ofDigits base (cs.filterMap (digit? base)))
  else none

/-- A sign in front, if there is one, and what follows. -/
def splitSign : List Char → Bool × List Char
  | '-' :: cs => (true, cs)
  | '+' :: cs => (false, cs)
  | cs => (false, cs)

end Numeral

/-! ## JavaScript -/

namespace JavaScript

open Numeral

/-- An integer in base 16, 8 or 2, with its prefix. -/
def nonDecimal? : List Char → Option ℕ
  | '0' :: c :: cs =>
    if c = 'x' ∨ c = 'X' then digits? 16 cs
    else if c = 'o' ∨ c = 'O' then digits? 8 cs
    else if c = 'b' ∨ c = 'B' then digits? 2 cs
    else none
  | _ => none

/-- Digits with at most one point, of which one side may be empty. -/
def mantissa? (cs : List Char) : Option ℚ :=
  let whole := cs.takeWhile (· != '.')
  let fraction := (cs.dropWhile (· != '.')).drop 1
  (digits? 10 (whole ++ fraction)).map fun n : ℕ => (n : ℚ) / 10 ^ fraction.length

/-- A sign and digits. -/
def exponent? (cs : List Char) : Option ℤ :=
  (digits? 10 (splitSign cs).2).map fun n : ℕ => if (splitSign cs).1 then -(n : ℤ) else n

def isExponentMark (c : Char) : Bool := c == 'e' || c == 'E'

/-- A decimal literal without a sign, by its exact value. -/
def unsigned? (cs : List Char) : Option Number :=
  if cs = ['I', 'n', 'f', 'i', 'n', 'i', 't', 'y'] then some .infinity
  else
    let mantissa := cs.takeWhile (!isExponentMark ·)
    match cs.dropWhile (!isExponentMark ·) with
    | [] => (mantissa? mantissa).map .finite
    | _ :: exponent =>
      match mantissa? mantissa, exponent? exponent with
      | some q, some e => some (.finite (q * 10 ^ e))
      | _, _ => none

/-- A literal without white space, by its exact value. -/
def literal? (cs : List Char) : Option Number :=
  match nonDecimal? cs with
  | some n => some (.finite n)
  | none => (unsigned? (splitSign cs).2).map fun x =>
    match x, (splitSign cs).1 with
    | .finite q, true => .finite (-q)
    | .infinity, true => .negInfinity
    | x, _ => x

/-- `Number(s)` -/
def number (s : String) : Number :=
  let cs := strip (fun c => isSpace c.toNat) s.toList
  if cs = [] then .finite 0
  else
    match literal? cs with
    | none => .nan
    | some (.finite q) => .round q
    | some x => x

end JavaScript

/-! ## Python -/

namespace Python

open Numeral

/-- What `str.strip` removes, by its code. -/
def isSpace (n : ℕ) : Bool :=
  (0x09 ≤ n && n ≤ 0x0D) || (0x1C ≤ n && n ≤ 0x20) || n == 0x85 || n == 0xA0 || n == 0x1680 ||
    (0x2000 ≤ n && n ≤ 0x200A) || n == 0x2028 || n == 0x2029 || n == 0x202F || n == 0x205F ||
    n == 0x3000

/-- What `int` skips: it leaves the separators 0x1C to 0x1F. -/
def isIntSpace (n : ℕ) : Bool := isSpace n && !(0x1C ≤ n && n ≤ 0x1F)

/-- `s.strip()` -/
def stripped (s : String) : String := String.ofList (strip (fun c => isSpace c.toNat) s.toList)

/-- The zeros of the decimal digits of all scripts; the other nine follow each. -/
def zeros : List ℕ :=
  [0x30, 0x660, 0x6F0, 0x7C0, 0x966, 0x9E6, 0xA66, 0xAE6, 0xB66, 0xBE6, 0xC66, 0xCE6, 0xD66, 0xDE6,
    0xE50, 0xED0, 0xF20, 0x1040, 0x1090, 0x17E0, 0x1810, 0x1946, 0x19D0, 0x1A80, 0x1A90, 0x1B50,
    0x1BB0, 0x1C40, 0x1C50, 0xA620, 0xA8D0, 0xA900, 0xA9D0, 0xA9F0, 0xAA50, 0xABF0, 0xFF10, 0x104A0,
    0x10D30, 0x11066, 0x110F0, 0x11136, 0x111D0, 0x112F0, 0x11450, 0x114D0, 0x11650, 0x116C0,
    0x11730, 0x118E0, 0x11950, 0x11C50, 0x11D50, 0x11DA0, 0x16A60, 0x16AC0, 0x16B50, 0x1D7CE,
    0x1D7D8, 0x1D7E2, 0x1D7EC, 0x1D7F6, 0x1E140, 0x1E2F0, 0x1E950, 0x1FBF0]

/-- The value of a decimal digit, by its code. -/
def decimal? (n : ℕ) : Option ℕ :=
  (zeros.find? fun z => z ≤ n && n < z + 10).map (n - ·)

/-- The digits that `int` converts at most. -/
def maxDigits : ℕ := 4300

/-- Digits, with single underscores between them, or nothing for a
`ValueError`. -/
def unsigned? (cs : List Char) : Option ℕ :=
  let groups := cs.splitOn '_'
  let digits := groups.flatten
  if groups.all (!·.isEmpty) && digits.all (fun c => (decimal? c.toNat).isSome) &&
      digits.length ≤ maxDigits then
    some (ofDigits 10 (digits.filterMap fun c => decimal? c.toNat))
  else none

/-- `int(s)`, or nothing for a `ValueError`. -/
def int (s : String) : Option ℤ :=
  let cs := strip (fun c => isIntSpace c.toNat) s.toList
  (unsigned? (splitSign cs).2).map fun n : ℕ => if (splitSign cs).1 then -(n : ℤ) else n

end Python

/-! ## Stripping -/

namespace JavaScript

section Strip

variable {α : Type} {p q : α → Bool} {l w w' core : List α}

/-- What is stripped from the two ends. -/
theorem strip_decomposition (p : α → Bool) (l : List α) :
    ∃ w w', l = w ++ (strip p l ++ w') ∧ (∀ c ∈ w, p c = true) ∧ ∀ c ∈ w', p c = true := by
  have hall : ∀ l : List α, ∀ c ∈ l.takeWhile p, p c = true := by
    intro l c hc
    exact List.all_eq_true.mp List.all_takeWhile c hc
  refine ⟨l.takeWhile p, ((l.dropWhile p).reverse.takeWhile p).reverse, ?_, hall l, ?_⟩
  · rw [strip, ← List.reverse_append, List.takeWhile_append_dropWhile, List.reverse_reverse,
      List.takeWhile_append_dropWhile]
  · intro c hc
    exact hall _ c (List.mem_reverse.mp hc)

theorem strip_subset (p : α → Bool) (l : List α) : strip p l ⊆ l := by
  rcases strip_decomposition p l with ⟨w, w', hl, -, -⟩
  intro c hc
  rw [hl]
  exact List.mem_append_right w (List.mem_append_left w' hc)

/-- An element is stripped or stays. -/
theorem mem_or_mem_strip {c : α} (hc : c ∈ l) : p c = true ∨ c ∈ strip p l := by
  rcases strip_decomposition p l with ⟨w, w', hl, hw, hw'⟩
  rw [hl, List.mem_append, List.mem_append] at hc
  rcases hc with hc | hc | hc
  · exact Or.inl (hw c hc)
  · exact Or.inr hc
  · exact Or.inl (hw' c hc)

theorem dropWhile_of_none (h : ∀ c ∈ l, p c = false) : l.dropWhile p = l := by
  cases l with
  | nil => rfl
  | cons c l => exact List.dropWhile_cons_of_neg (by simp [h c (by simp)])

/-- What stays between what is stripped. -/
theorem strip_append (hw : ∀ c ∈ w, p c = true) (hw' : ∀ c ∈ w', p c = true)
    (hcore : ∀ c ∈ core, p c = false) : strip p (w ++ (core ++ w')) = core := by
  rw [strip, List.dropWhile_append_of_pos hw]
  cases core with
  | nil =>
    have hnil : w'.dropWhile p = [] := List.dropWhile_eq_nil_iff.mpr hw'
    simp [hnil]
  | cons c core =>
    rw [List.cons_append, List.dropWhile_cons_of_neg (by simp [hcore c (by simp)]),
      ← List.cons_append, List.reverse_append,
      List.dropWhile_append_of_pos (fun c hc => hw' c (List.mem_reverse.mp hc)),
      dropWhile_of_none (fun c hc => hcore c (List.mem_reverse.mp hc)), List.reverse_reverse]

theorem dropWhile_congr (h : ∀ c ∈ l, p c = q c) : l.dropWhile p = l.dropWhile q := by
  induction l with
  | nil => rfl
  | cons c l ih =>
    have hrest := ih fun d hd => h d (List.mem_cons_of_mem c hd)
    rw [List.dropWhile_cons, List.dropWhile_cons, h c (by simp), hrest]

/-- Two kinds of white space that the list does not tell apart. -/
theorem strip_congr (h : ∀ c ∈ l, p c = q c) : strip p l = strip q l := by
  rw [strip, strip, dropWhile_congr h]
  apply congrArg
  apply dropWhile_congr
  intro c hc
  exact h c (List.dropWhile_subset q (List.mem_reverse.mp hc))

/-- What is not white space of one kind stays when a larger kind is stripped, if
it has none of that either. -/
theorem strip_of_strip (hpq : ∀ c, p c = true → q c = true)
    (hcore : ∀ c ∈ strip p l, q c = false) : strip q l = strip p l := by
  rcases strip_decomposition p l with ⟨w, w', hl, hw, hw'⟩
  have hstrip := strip_append (p := q) (fun c hc => hpq c (hw c hc))
    (fun c hc => hpq c (hw' c hc)) hcore
  rwa [← hl] at hstrip

end Strip

end JavaScript

/-! ## The characters -/

namespace Numeral

/-- An ASCII digit. -/
def IsDigit (c : Char) : Prop := 48 ≤ c.toNat ∧ c.toNat < 58

instance (c : Char) : Decidable (IsDigit c) := instDecidableAnd

/-- What a JavaScript literal is written with: ASCII digits and letters, signs and
the point. -/
def isLiteral (n : ℕ) : Bool :=
  (48 ≤ n && n < 58) || (65 ≤ n && n < 91) || (97 ≤ n && n < 123) || n == 43 || n == 45 || n == 46

/-- White space to both languages. -/
def isCommonSpace (n : ℕ) : Bool := JavaScript.isSpace n && Python.isIntSpace n

theorem isLiteral_lt {n : ℕ} (h : isLiteral n = true) : n < 128 := by
  simp [isLiteral] at h
  omega

/-- The white space of JavaScript. -/
def spaces : List ℕ :=
  [0x09, 0x0A, 0x0B, 0x0C, 0x0D, 0x20, 0xA0, 0x1680, 0x2000, 0x2001, 0x2002, 0x2003, 0x2004, 0x2005,
    0x2006, 0x2007, 0x2008, 0x2009, 0x200A, 0x2028, 0x2029, 0x202F, 0x205F, 0x3000, 0xFEFF]

theorem mem_spaces {n : ℕ} (h : JavaScript.isSpace n = true) : n ∈ spaces := by
  simp [JavaScript.isSpace] at h
  simp [spaces]
  omega

/-- White space is no digit of any script and no sign. -/
theorem space_cases : ∀ n ∈ spaces, Python.decimal? n = none ∧ n ≠ 43 ∧ n ≠ 45 ∧ n ≠ 95 := by
  decide

/-- A character of a literal is no white space and no underscore, and a decimal
digit only if it is an ASCII one. -/
theorem literal_cases : ∀ n < 128, isLiteral n = true →
    JavaScript.isSpace n = false ∧ Python.isIntSpace n = false ∧ n ≠ 95 ∧
      (Python.decimal? n ≠ none → 48 ≤ n ∧ n < 58) := by
  decide

/-- The ASCII digits. -/
theorem decimal?_ascii : ∀ n < 58, 48 ≤ n →
    Python.decimal? n = some (n - 48) ∧ isLiteral n = true := by
  decide

/-- A sign is taken off, or there is none. -/
theorem splitSign_cases (cs : List Char) :
    (∃ rest, cs = '-' :: rest ∧ splitSign cs = (true, rest)) ∨
    (∃ rest, cs = '+' :: rest ∧ splitSign cs = (false, rest)) ∨ splitSign cs = (false, cs) := by
  unfold splitSign
  split
  · exact Or.inl ⟨_, rfl, rfl⟩
  · exact Or.inr (Or.inl ⟨_, rfl, rfl⟩)
  · exact Or.inr (Or.inr rfl)

/-- A character is a sign in front or stands behind it. -/
theorem mem_splitSign {cs : List Char} {c : Char} (hc : c ∈ cs) :
    c = '-' ∨ c = '+' ∨ c ∈ (splitSign cs).2 := by
  rcases splitSign_cases cs with ⟨rest, rfl, hsplit⟩ | ⟨rest, rfl, hsplit⟩ | hsplit
  · rw [hsplit]
    rcases List.mem_cons.mp hc with rfl | hc
    · exact Or.inl rfl
    · exact Or.inr (Or.inr hc)
  · rw [hsplit]
    rcases List.mem_cons.mp hc with rfl | hc
    · exact Or.inr (Or.inl rfl)
    · exact Or.inr (Or.inr hc)
  · rw [hsplit]
    exact Or.inr (Or.inr hc)

theorem splitSign_subset (cs : List Char) : (splitSign cs).2 ⊆ cs := by
  rcases splitSign_cases cs with ⟨rest, rfl, hsplit⟩ | ⟨rest, rfl, hsplit⟩ | hsplit
  · rw [hsplit]
    exact List.subset_cons_self _ _
  · rw [hsplit]
    exact List.subset_cons_self _ _
  · rw [hsplit]
    exact List.Subset.refl _

theorem isLiteral_of_digit? {base : ℕ} {c : Char} (h : (digit? base c).isSome = true) :
    isLiteral c.toNat = true := by
  unfold digit? at h
  by_cases hdigit : 48 ≤ c.toNat ∧ c.toNat < 58
  · simp [isLiteral, hdigit]
  · by_cases hlower : 97 ≤ c.toNat ∧ c.toNat < 103
    · simp [isLiteral]
      omega
    · by_cases hupper : 65 ≤ c.toNat ∧ c.toNat < 71
      · simp [isLiteral]
        omega
      · simp [hdigit, hlower, hupper] at h

theorem isLiteral_of_digits? {base n : ℕ} {cs : List Char} (h : digits? base cs = some n) :
    ∀ c ∈ cs, isLiteral c.toNat = true := by
  unfold digits? at h
  split at h
  · rename_i hall
    have hdigits := (Bool.and_eq_true_iff.mp hall).2
    exact fun c hc => isLiteral_of_digit? (List.all_eq_true.mp hdigits c hc)
  · cases h

end Numeral

/-! ## What JavaScript reads -/

namespace JavaScript

open Numeral

theorem isLiteral_of_nonDecimal? {cs : List Char} {n : ℕ} (h : nonDecimal? cs = some n) :
    ∀ c ∈ cs, isLiteral c.toNat = true := by
  unfold nonDecimal? at h
  split at h
  · rename_i c cs
    -- the letter of the prefix, and the digits behind it
    have hletter : isLiteral c.toNat = true ∧ ∃ base, digits? base cs = some n := by
      split at h
      · rename_i hc
        exact ⟨by rcases hc with rfl | rfl <;> decide, 16, h⟩
      · split at h
        · rename_i hc
          exact ⟨by rcases hc with rfl | rfl <;> decide, 8, h⟩
        · split at h
          · rename_i hc
            exact ⟨by rcases hc with rfl | rfl <;> decide, 2, h⟩
          · cases h
    rcases hletter with ⟨hletter, base, hdigits⟩
    intro d hd
    simp only [List.mem_cons] at hd
    rcases hd with rfl | rfl | hd
    · decide
    · exact hletter
    · exact isLiteral_of_digits? hdigits d hd
  · cases h

/-- What stops `dropWhile`, and what follows. -/
theorem mem_split_of_mem {cs : List Char} {p : Char → Bool} {c : Char} (hc : c ∈ cs) :
    c ∈ cs.takeWhile p ∨ p c = false ∨ c ∈ (cs.dropWhile p).drop 1 := by
  rw [← List.takeWhile_append_dropWhile (p := p) (l := cs), List.mem_append] at hc
  rcases hc with hc | hc
  · exact Or.inl hc
  · right
    cases hdrop : cs.dropWhile p with
    | nil =>
      rw [hdrop] at hc
      cases hc
    | cons d rest =>
      rw [hdrop] at hc
      rcases List.mem_cons.mp hc with rfl | hc
      · have hhead := List.head?_dropWhile_not p cs
        rw [hdrop] at hhead
        exact Or.inl (by simpa using hhead)
      · exact Or.inr (by simpa using hc)

theorem isLiteral_of_mantissa? {cs : List Char} {q : ℚ} (h : mantissa? cs = some q) :
    ∀ c ∈ cs, isLiteral c.toNat = true := by
  rcases Option.map_eq_some_iff.mp h with ⟨n, hdigits, -⟩
  intro c hc
  rcases mem_split_of_mem (p := (· != '.')) hc with hc | hc | hc
  · exact isLiteral_of_digits? hdigits c (List.mem_append_left _ hc)
  · have hpoint : c = '.' := by simpa using hc
    rw [hpoint]
    decide
  · exact isLiteral_of_digits? hdigits c (List.mem_append_right _ hc)

theorem isLiteral_of_exponent? {cs : List Char} {e : ℤ} (h : exponent? cs = some e) :
    ∀ c ∈ cs, isLiteral c.toNat = true := by
  rcases Option.map_eq_some_iff.mp h with ⟨n, hdigits, -⟩
  intro c hc
  rcases mem_splitSign hc with rfl | rfl | hc
  · decide
  · decide
  · exact isLiteral_of_digits? hdigits c hc

theorem isLiteral_of_isExponentMark {c : Char} (h : (!isExponentMark c) = false) :
    isLiteral c.toNat = true := by
  rw [Bool.not_eq_false', isExponentMark, Bool.or_eq_true, beq_iff_eq, beq_iff_eq] at h
  rcases h with rfl | rfl
  · decide
  · decide

theorem isLiteral_of_unsigned? {cs : List Char} {x : Number} (h : unsigned? cs = some x) :
    ∀ c ∈ cs, isLiteral c.toNat = true := by
  unfold unsigned? at h
  split at h
  · rename_i hinfinity
    have hall : cs.all (fun c => isLiteral c.toNat) = true := by
      rw [hinfinity]
      decide
    exact List.all_eq_true.mp hall
  · intro c hc
    have hsplit := mem_split_of_mem (p := (!isExponentMark ·)) hc
    simp only at h
    split at h
    · -- no exponent
      rename_i hdrop
      rcases Option.map_eq_some_iff.mp h with ⟨q, hmantissa, -⟩
      rw [hdrop] at hsplit
      rcases hsplit with hc | hc | hc
      · exact isLiteral_of_mantissa? hmantissa c hc
      · exact isLiteral_of_isExponentMark hc
      · cases hc
    · rename_i d exponent hdrop
      rw [hdrop] at hsplit
      split at h
      · rename_i q e hmantissa hexponent
        rcases hsplit with hc | hc | hc
        · exact isLiteral_of_mantissa? hmantissa c hc
        · exact isLiteral_of_isExponentMark hc
        · exact isLiteral_of_exponent? hexponent c (by simpa using hc)
      · cases h

theorem isLiteral_of_literal? {cs : List Char} {x : Number} (h : literal? cs = some x) :
    ∀ c ∈ cs, isLiteral c.toNat = true := by
  unfold literal? at h
  split at h
  · exact isLiteral_of_nonDecimal? ‹_›
  · rcases Option.map_eq_some_iff.mp h with ⟨y, hunsigned, -⟩
    intro c hc
    rcases mem_splitSign hc with rfl | rfl | hc
    · decide
    · decide
    · exact isLiteral_of_unsigned? hunsigned c hc

/-- What is a number is written with white space and the characters of a
literal. -/
theorem chars_of_number {s : String} (h : number s ≠ .nan) :
    ∀ c ∈ s.toList, isSpace c.toNat = true ∨ isLiteral c.toNat = true := by
  intro c hc
  rcases mem_or_mem_strip (p := fun c => isSpace c.toNat) hc with hspace | hstrip
  · exact Or.inl hspace
  · right
    unfold number at h
    simp only at h
    split at h
    · rename_i hnil
      rw [hnil] at hstrip
      cases hstrip
    · split at h
      · exact absurd rfl h
      · exact isLiteral_of_literal? ‹_› c hstrip
      · exact isLiteral_of_literal? ‹_› c hstrip

end JavaScript

/-! ## What Python reads -/

namespace Python

open Numeral

/-- An element is the separator or in a group. -/
theorem mem_splitOn (separator : Char) {cs : List Char} {c : Char} (hc : c ∈ cs) :
    c = separator ∨ c ∈ (cs.splitOn separator).flatten := by
  induction cs with
  | nil => cases hc
  | cons d cs ih =>
    rw [List.splitOn_cons_eq_if_modifyHead]
    by_cases hd : d = separator
    · rw [if_pos (beq_iff_eq.mpr hd), List.flatten_cons, List.nil_append]
      rcases List.mem_cons.mp hc with rfl | hc
      · exact Or.inl hd
      · exact ih hc
    · rw [if_neg fun h => hd (beq_iff_eq.mp h)]
      cases hgroups : cs.splitOn separator with
      | nil => exact absurd hgroups (List.splitOn_ne_nil separator cs)
      | cons group groups =>
        rw [hgroups, List.flatten_cons] at ih
        rw [List.modifyHead_cons, List.flatten_cons, List.cons_append]
        rcases List.mem_cons.mp hc with rfl | hc
        · exact Or.inr (by simp)
        · exact (ih hc).imp_right (List.mem_cons_of_mem d)

/-- The characters of digits with underscores. -/
theorem mem_of_unsigned? {cs : List Char} {n : ℕ} (h : unsigned? cs = some n) :
    ∀ c ∈ cs, c = '_' ∨ (decimal? c.toNat).isSome = true := by
  unfold unsigned? at h
  simp only at h
  split at h
  · rename_i hall
    have hdecimal := (Bool.and_eq_true_iff.mp (Bool.and_eq_true_iff.mp hall).1).2
    intro c hc
    rcases mem_splitOn '_' hc with hunderscore | hflatten
    · exact Or.inl hunderscore
    · exact Or.inr (List.all_eq_true.mp hdecimal c hflatten)
  · cases h

theorem ne_nil_of_unsigned? {cs : List Char} {n : ℕ} (h : unsigned? cs = some n) : cs ≠ [] := by
  rintro rfl
  simp [unsigned?] at h

end Python

/-! ## What both read -/

namespace Numeral

open JavaScript Python

/-- The value of ASCII digits. -/
def decimalValue (ds : List Char) : ℕ := ofDigits 10 (ds.map fun c => c.toNat - 48)

/-- The text of a plain integer: white space to both languages around a sign, if
there is one, and ASCII digits. -/
structure Plain (s : String) (negative : Bool) (ds : List Char) : Prop where
  text : splitSign (strip (fun c => isCommonSpace c.toNat) s.toList) = (negative, ds)
  nonempty : ds ≠ []
  digits : ∀ c ∈ ds, IsDigit c

variable {s : String} {negative : Bool} {ds : List Char}

theorem isLiteral_of_isDigit {c : Char} (h : IsDigit c) : isLiteral c.toNat = true :=
  (decimal?_ascii c.toNat h.2 h.1).2

/-- A plain integer is a literal between white space. -/
theorem Plain.literal (h : Plain s negative ds) :
    ∀ c ∈ strip (fun c => isCommonSpace c.toNat) s.toList, isLiteral c.toNat = true := by
  intro c hc
  rcases mem_splitSign hc with rfl | rfl | hc
  · decide
  · decide
  · rw [h.text] at hc
    exact isLiteral_of_isDigit (h.digits c hc)

/-- Either language strips the same. -/
theorem Plain.strip_eq (h : Plain s negative ds) {p : ℕ → Bool}
    (hspace : ∀ n, isCommonSpace n = true → p n = true)
    (hliteral : ∀ n < 128, isLiteral n = true → p n = false) :
    strip (fun c => p c.toNat) s.toList =
      strip (fun c => isCommonSpace c.toNat) s.toList := by
  apply strip_of_strip
  · exact fun c hc => hspace c.toNat hc
  · intro c hc
    exact hliteral c.toNat (isLiteral_lt (h.literal c hc)) (h.literal c hc)

theorem Plain.javaScript_strip (h : Plain s negative ds) :
    strip (fun c => JavaScript.isSpace c.toNat) s.toList =
      strip (fun c => isCommonSpace c.toNat) s.toList :=
  h.strip_eq (fun _ hn => (Bool.and_eq_true_iff.mp hn).1)
    (fun n hlt hn => (literal_cases n hlt hn).1)

theorem Plain.python_strip (h : Plain s negative ds) :
    strip (fun c => isIntSpace c.toNat) s.toList =
      strip (fun c => isCommonSpace c.toNat) s.toList :=
  h.strip_eq (fun _ hn => (Bool.and_eq_true_iff.mp hn).2)
    (fun n hlt hn => (literal_cases n hlt hn).2.1)

/-- Neither the letter of a prefix, nor the mark of an exponent, nor a point. -/
theorem digit_ne {c d : Char} (h : IsDigit c) (hd : ¬ IsDigit d) : c ≠ d := by
  rintro rfl
  exact hd h

theorem nonDecimal?_eq_none {cs : List Char} (h : ∀ c ∈ (splitSign cs).2, IsDigit c) :
    nonDecimal? cs = none := by
  unfold nonDecimal?
  split
  · rename_i c cs
    have hc : IsDigit c := h c (by simp [splitSign])
    rw [if_neg, if_neg, if_neg]
    · exact fun hc' => hc'.elim (digit_ne hc (by decide)) (digit_ne hc (by decide))
    · exact fun hc' => hc'.elim (digit_ne hc (by decide)) (digit_ne hc (by decide))
    · exact fun hc' => hc'.elim (digit_ne hc (by decide)) (digit_ne hc (by decide))
  · rfl

theorem digit?_of_isDigit {c : Char} (h : IsDigit c) : digit? 10 c = some (c.toNat - 48) := by
  have hlt : c.toNat - 48 < 10 := by
    have hc := h
    unfold IsDigit at hc
    omega
  have hdigit : 48 ≤ c.toNat ∧ c.toNat < 58 := h
  rw [digit?, if_pos hdigit, Option.filter_some, if_pos (decide_eq_true hlt)]

theorem filterMap_eq_map {f : Char → Option ℕ} (h : ∀ c ∈ ds, f c = some (c.toNat - 48)) :
    ds.filterMap f = ds.map fun c => c.toNat - 48 := by
  induction ds with
  | nil => rfl
  | cons c ds ih =>
    rw [List.filterMap_cons_some (h c (by simp)), List.map_cons,
      ih fun d hd => h d (List.mem_cons_of_mem c hd)]

theorem digits?_of_isDigit (hne : ds ≠ []) (h : ∀ c ∈ ds, IsDigit c) :
    digits? 10 ds = some (decimalValue ds) := by
  have hdigit : ∀ c ∈ ds, digit? 10 c = some (c.toNat - 48) :=
    fun c hc => digit?_of_isDigit (h c hc)
  have hall : ds.all (fun c => (digit? 10 c).isSome) = true :=
    List.all_eq_true.mpr fun c hc => by rw [hdigit c hc]; rfl
  have hnonempty : (!ds.isEmpty) = true := by simpa using hne
  rw [digits?, hall, hnonempty, Bool.true_and, if_pos rfl, filterMap_eq_map hdigit, decimalValue]

/-- Nothing is left where every element passes the test. -/
theorem takeWhile_dropWhile_of_all {cs : List Char} {p : Char → Bool}
    (h : ∀ c ∈ cs, p c = true) : cs.takeWhile p = cs ∧ cs.dropWhile p = [] := by
  have hdrop : cs.dropWhile p = [] := List.dropWhile_eq_nil_iff.mpr h
  have happend := List.takeWhile_append_dropWhile (p := p) (l := cs)
  rw [hdrop, List.append_nil] at happend
  exact ⟨happend, hdrop⟩

theorem unsigned?_of_isDigit (hne : ds ≠ []) (h : ∀ c ∈ ds, IsDigit c) :
    JavaScript.unsigned? ds = some (.finite (decimalValue ds)) := by
  have hinfinity : ds ≠ ['I', 'n', 'f', 'i', 'n', 'i', 't', 'y'] := by
    rintro rfl
    exact absurd (h 'I' (by decide)) (by decide)
  have hmark : ∀ c ∈ ds, (!isExponentMark c) = true := by
    intro c hc
    have he := digit_ne (d := 'e') (h c hc) (by decide)
    have hE := digit_ne (d := 'E') (h c hc) (by decide)
    simp [isExponentMark, he, hE]
  have hpoint : ∀ c ∈ ds, (c != '.') = true := fun c hc =>
    bne_iff_ne.mpr (digit_ne (h c hc) (by decide))
  have hmantissa : mantissa? ds = some (decimalValue ds : ℚ) := by
    simp [mantissa?, takeWhile_dropWhile_of_all hpoint, digits?_of_isDigit hne h]
  rw [JavaScript.unsigned?, if_neg hinfinity]
  simp [takeWhile_dropWhile_of_all hmark, hmantissa]

/-- `Number` of a plain integer: its value, rounded. -/
theorem number_of_plain (h : Plain s negative ds) :
    number s = .round (if negative then -decimalValue ds else decimalValue ds) := by
  have hne : strip (fun c => isCommonSpace c.toNat) s.toList ≠ [] := by
    intro hnil
    have htext := h.text
    rw [hnil] at htext
    exact h.nonempty (Prod.mk.inj htext).2.symm
  have hnone : nonDecimal? (strip (fun c => isCommonSpace c.toNat) s.toList) = none :=
    nonDecimal?_eq_none (by rw [h.text]; exact h.digits)
  have hliteral : literal? (strip (fun c => isCommonSpace c.toNat) s.toList) =
      some (.finite (if negative then -decimalValue ds else decimalValue ds)) := by
    rw [literal?, hnone, h.text]
    simp only [unsigned?_of_isDigit h.nonempty h.digits, Option.map_some]
    cases negative with
    | false => rfl
    | true => rfl
  rw [number, h.javaScript_strip]
  simp only [hne, if_false, hliteral]

/-- `int` of a plain integer: its value, unless it has too many digits. -/
theorem int_of_plain (h : Plain s negative ds) :
    int s = if ds.length ≤ maxDigits then
      some (if negative then -(decimalValue ds : ℤ) else decimalValue ds) else none := by
  have hdecimal : ∀ c ∈ ds, decimal? c.toNat = some (c.toNat - 48) := fun c hc =>
    (decimal?_ascii c.toNat (h.digits c hc).2 (h.digits c hc).1).1
  have hunderscore : '_' ∉ ds := fun hmem => absurd (h.digits '_' hmem) (by decide)
  have hvalue : Python.unsigned? ds =
      if ds.length ≤ maxDigits then some (decimalValue ds) else none := by
    have hgroups : [ds].all (!·.isEmpty) = true := by simpa using h.nonempty
    have hall : ds.all (fun c => (decimal? c.toNat).isSome) = true :=
      List.all_eq_true.mpr fun c hc => by rw [hdecimal c hc]; rfl
    rw [Python.unsigned?, List.splitOn_eq_singleton hunderscore, List.flatten_singleton,
      filterMap_eq_map hdecimal, hgroups, hall, Bool.true_and, Bool.true_and]
    by_cases hlength : ds.length ≤ maxDigits
    · rw [if_pos (decide_eq_true hlength), if_pos hlength, decimalValue]
    · rw [if_neg fun hc => hlength (of_decide_eq_true hc), if_neg hlength]
  rw [int, h.python_strip]
  simp only [h.text, hvalue]
  by_cases hlength : ds.length ≤ maxDigits
  · rw [if_pos hlength, if_pos hlength, Option.map_some]
  · rw [if_neg hlength, if_neg hlength, Option.map_none]

/-- What both languages read is a plain integer. -/
theorem plain_of_both {k : ℤ} (hint : int s = some k) (hnumber : number s ≠ .nan) :
    ∃ negative ds, Plain s negative ds := by
  have hchars : ∀ c ∈ s.toList, isIntSpace c.toNat = isCommonSpace c.toNat ∧
      ((decimal? c.toNat).isSome = true → IsDigit c) ∧ c ≠ '_' := by
    intro c hc
    rcases chars_of_number hnumber c hc with hspace | hliteral
    · -- white space to JavaScript
      have hcases := space_cases c.toNat (mem_spaces hspace)
      refine ⟨by rw [isCommonSpace, hspace, Bool.true_and], ?_, ?_⟩
      · intro hsome
        rw [hcases.1] at hsome
        cases hsome
      · rintro rfl
        exact hcases.2.2.2 rfl
    · -- a character of a literal
      have hcases := literal_cases c.toNat (isLiteral_lt hliteral) hliteral
      refine ⟨by rw [isCommonSpace, hcases.1, hcases.2.1, Bool.false_and], ?_, ?_⟩
      · intro hsome
        exact hcases.2.2.2 (Option.ne_none_iff_isSome.mpr hsome)
      · rintro rfl
        exact hcases.2.2.1 rfl
  have hstrip : strip (fun c => isIntSpace c.toNat) s.toList =
      strip (fun c => isCommonSpace c.toNat) s.toList :=
    strip_congr fun c hc => (hchars c hc).1
  rcases Option.map_eq_some_iff.mp hint with ⟨n, hunsigned, -⟩
  rw [hstrip] at hunsigned
  refine ⟨_, _, ⟨rfl, ne_nil_of_unsigned? hunsigned, ?_⟩⟩
  intro c hc
  have hmem := hchars c (strip_subset _ _ (splitSign_subset _ hc))
  rcases mem_of_unsigned? hunsigned c hc with hunderscore | hdecimal
  · exact absurd hunderscore hmem.2.2
  · exact hmem.2.1 hdecimal

end Numeral

end InterviewPrep
