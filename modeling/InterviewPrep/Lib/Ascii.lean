import Mathlib.Data.List.Infix
import InterviewPrep.Lib.Numerals

/-!
# Printable ASCII text

On printable ASCII, JavaScript and Python see the same strings: each character is
one code unit, so lengths, equality and substrings agree, and both languages strip
the blank only (`trimUnits_units`).
-/

namespace InterviewPrep

namespace Ascii

open JavaScript

/-- From the blank to the tilde. -/
def isPrintable (c : Char) : Bool := 0x20 ≤ c.toNat && c.toNat ≤ 0x7E

/-- Every character is printable ASCII. -/
def Printable (s : String) : Prop := s.toList.all isPrintable = true

instance (s : String) : Decidable (Printable s) :=
  inferInstanceAs (Decidable (s.toList.all isPrintable = true))

variable {s t : String} {c : Char}

/-- The code unit of a character that has one. -/
def unit (c : Char) : UInt16 := UInt16.ofNat c.toNat

theorem isPrintable_of_mem (h : Printable s) (hc : c ∈ s.toList) :
    0x20 ≤ c.toNat ∧ c.toNat ≤ 0x7E := by
  have hprint := List.all_eq_true.mp h c hc
  rwa [isPrintable, Bool.and_eq_true, decide_eq_true_eq, decide_eq_true_eq] at hprint

theorem toNat_unit (h : c.toNat ≤ 0x7E) : (unit c).toNat = c.toNat := by
  rw [unit, UInt16.toNat_ofNat']
  omega

/-- Each character is one unit. -/
theorem units_eq_map (h : Printable s) : units s = s.toList.map unit := by
  have hone : ∀ c ∈ s.toList, charUnits c = [unit c] := by
    intro c hc
    have hcode := isPrintable_of_mem h hc
    exact if_pos (by omega)
  rw [units, List.flatMap_congr hone, ← List.map_eq_flatMap]

theorem length_units (h : Printable s) : (units s).length = s.length := by
  rw [units_eq_map h, List.length_map, String.length_toList]

/-- The characters can be read back from the units. -/
theorem map_unit_eq (h : Printable s) :
    (units s).map (fun u => Char.ofNat u.toNat) = s.toList := by
  have hback : ∀ c ∈ s.toList, Char.ofNat (unit c).toNat = c := by
    intro c hc
    rw [toNat_unit (isPrintable_of_mem h hc).2, Char.ofNat_toNat]
  rw [units_eq_map h, List.map_map]
  exact (List.map_congr_left hback).trans (List.map_id' _)

theorem units_inj (hs : Printable s) (ht : Printable t) : units s = units t ↔ s = t := by
  constructor
  · intro h
    rw [← String.toList_inj, ← map_unit_eq hs, ← map_unit_eq ht, h]
  · exact congrArg units

theorem infix_units_iff (hs : Printable s) (ht : Printable t) :
    units s <:+: units t ↔ s.toList <:+: t.toList := by
  constructor
  · intro h
    have hmap := h.map (fun u : UInt16 => Char.ofNat u.toNat)
    rwa [map_unit_eq hs, map_unit_eq ht] at hmap
  · intro h
    rw [units_eq_map hs, units_eq_map ht]
    exact h.map unit

/-! ## White space -/

/-- Of printable characters, both languages strip the blank. -/
theorem isSpace_eq : ∀ n ≤ 0x7E, 0x20 ≤ n → JavaScript.isSpace n = Python.isSpace n := by
  decide

theorem strip_map {α β : Type} (f : α → β) (p : β → Bool) (l : List α) :
    strip p (l.map f) = (strip (fun a => p (f a)) l).map f := by
  simp only [strip, List.dropWhile_map, ← List.map_reverse, Function.comp_def]

theorem printable_stripped (h : Printable s) : Printable (Python.stripped s) := by
  rw [Printable, Python.stripped, String.toList_ofList, List.all_eq_true]
  intro c hc
  exact List.all_eq_true.mp h c (strip_subset _ _ hc)

/-- Trimming the units is stripping the string. -/
theorem trimUnits_units (h : Printable s) : trimUnits (units s) = units (Python.stripped s) := by
  rw [units_eq_map (printable_stripped h), units_eq_map h, trimUnits, strip_map, Python.stripped,
    String.toList_ofList]
  apply congrArg (List.map unit)
  apply strip_congr
  intro c hc
  have hcode := isPrintable_of_mem h hc
  rw [toNat_unit hcode.2]
  exact isSpace_eq c.toNat hcode.2 hcode.1

end Ascii

end InterviewPrep
