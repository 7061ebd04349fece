import Mathlib.Data.List.Basic
import InterviewPrep.Lib.Windows

/-!
# Document chunking

The function `chunk` that `technical/document_chunking_review/question.md` gives for
review. A chunk is a window of 1200 characters from every 800th character, and its id
names the document and the character.

* `chunk_covers`: what the chunks hold of a text: all of it, every short passage in one
  piece, and which characters twice;
* `ids_determine`: an id belongs to one document and one place in it;
* `edit_keeps`: what an edit leaves of the chunks of a document.
-/

namespace InterviewPrep.DocumentChunking

/-! ## The program -/

structure Chunk where
  id : String
  text : String
deriving DecidableEq

def size : ℕ := 1200

def overlap : ℕ := 400

/-- `f"{document_id}:{start}"` -/
def chunkId (document_id : String) (start : ℕ) : String := document_id ++ ":" ++ toString start

/-- `range(0, n, size - overlap)` -/
def starts (n : ℕ) : List ℕ :=
  (List.range ((n + (size - overlap - 1)) / (size - overlap))).map ((size - overlap) * ·)

/-- `chunk` -/
def chunk (text document_id : String) : List Chunk :=
  (starts text.length).map fun start =>
    ⟨chunkId document_id start, String.ofList (slice text.toList start (start + size))⟩

/-! ## The chunks of a text -/

/-- The chunk number `k`. -/
def chunkAt (text document_id : String) (k : ℕ) : Chunk :=
  ⟨chunkId document_id (800 * k), String.ofList (slice text.toList (800 * k) (800 * k + 1200))⟩

theorem getElem?_chunk (text document_id : String) (k : ℕ) :
    (chunk text document_id)[k]? =
      if 800 * k < text.length then some (chunkAt text document_id k) else none := by
  have hstep : size - overlap = 800 := rfl
  rw [chunk, starts, List.map_map, List.getElem?_map, hstep]
  split
  · rename_i hlt
    rw [List.getElem?_range ((lt_count_iff (by decide) _ _).mpr hlt)]
    rfl
  · rename_i hge
    rw [← lt_count_iff (by decide)] at hge
    rw [List.getElem?_eq_none (by rw [List.length_range]; omega)]
    rfl

/-- A chunk that is there. -/
theorem getElem?_chunk_eq_some {text document_id : String} {k : ℕ} {c : Chunk} :
    (chunk text document_id)[k]? = some c ↔
      800 * k < text.length ∧ c = chunkAt text document_id k := by
  rw [getElem?_chunk]
  split
  · rename_i hlt
    exact ⟨fun h => ⟨hlt, (Option.some.inj h).symm⟩, fun h => congrArg some h.2.symm⟩
  · rename_i hge
    exact ⟨fun h => (by cases h), fun h => absurd h.1 hge⟩

/-- The texts of the chunks are windows of the text. -/
theorem texts_eq_windows (text document_id : String) :
    (chunk text document_id).map (fun c => c.text.toList) = windows 1200 800 text.toList := by
  rw [chunk, starts, windows, List.map_map, List.map_map, String.length_toList]
  apply List.map_congr_left
  intro k _
  exact String.toList_ofList

/-! ## What the chunks hold -/

/-- What the chunks of a text hold of it. -/
structure Covers (text : String) (chunks : List Chunk) : Prop where
  /-- the heads of the chunks are the text -/
  whole : chunks.flatMap (fun c => c.text.toList.take 800) = text.toList
  /-- a passage stands in one chunk exactly if it ends in the last one that starts before it -/
  passage : ∀ a b, a < b → b ≤ text.length →
    ((∃ (k : ℕ) (c : Chunk), chunks[k]? = some c ∧ 800 * k ≤ a ∧
      slice c.text.toList (a - 800 * k) (b - 800 * k) = slice text.toList a b) ↔
      b ≤ 800 * (a / 800) + 1200)
  /-- so every passage of 401 characters does -/
  short : ∀ a b, a < b → b ≤ text.length → b ≤ a + 401 →
    ∃ (k : ℕ) (c : Chunk), chunks[k]? = some c ∧ 800 * k ≤ a ∧
      slice c.text.toList (a - 800 * k) (b - 800 * k) = slice text.toList a b
  /-- the first 400 characters of every chunk but the first stand in the one before, too -/
  twice : ∀ i < text.length, ∀ k : ℕ,
    (∃ c, chunks[k]? = some c ∧ 800 * k ≤ i ∧ i - 800 * k < c.text.length) ↔
      k = i / 800 ∨ (800 ≤ i ∧ i % 800 < 400 ∧ k + 1 = i / 800)

theorem length_chunkAt (text document_id : String) (k : ℕ) :
    (chunkAt text document_id k).text.length = min (800 * k + 1200) text.length - 800 * k := by
  rw [chunkAt, ← String.length_toList, String.toList_ofList, length_slice, String.length_toList]

theorem passage_iff (text document_id : String) {a b : ℕ} (hab : a < b) (hb : b ≤ text.length) :
    (∃ (k : ℕ) (c : Chunk), (chunk text document_id)[k]? = some c ∧ 800 * k ≤ a ∧
      slice c.text.toList (a - 800 * k) (b - 800 * k) = slice text.toList a b) ↔
      b ≤ 800 * (a / 800) + 1200 := by
  have hlength : b ≤ text.toList.length := by
    rw [String.length_toList]
    exact hb
  have hwindow := @exists_window_iff _ 1200 800 (by decide) text.toList _ _ hab hlength
  rw [← hwindow, ← texts_eq_windows text document_id]
  simp only [List.getElem?_map, Option.map_eq_some_iff]
  constructor
  · rintro ⟨k, c, hc, hk, hslice⟩
    exact ⟨k, c.text.toList, ⟨c, hc, rfl⟩, hk, hslice⟩
  · rintro ⟨k, w, ⟨c, hc, rfl⟩, hk, hslice⟩
    exact ⟨k, c, hc, hk, hslice⟩

/-- **What the chunks hold.** -/
theorem chunk_covers (text document_id : String) : Covers text (chunk text document_id) := by
  refine ⟨?_, fun a b hab hb => passage_iff text document_id hab hb, ?_, ?_⟩
  · have hflatten := @flatten_take_windows _ 1200 800 (by decide) (by decide) text.toList
    rw [← texts_eq_windows text document_id, List.map_map] at hflatten
    rw [List.flatMap_def]
    exact hflatten
  · intro a b hab hb hshort
    refine (passage_iff text document_id hab hb).mpr ?_
    -- the last chunk that starts before the passage has 401 characters left behind its start
    have hdiv := Nat.div_add_mod a 800
    have hmod := Nat.mod_lt a (by decide : 800 > 0)
    omega
  · intro i hi k
    constructor
    · rintro ⟨c, hc, hk, hlt⟩
      rcases getElem?_chunk_eq_some.mp hc with ⟨-, rfl⟩
      rw [length_chunkAt] at hlt
      omega
    · intro h
      refine ⟨chunkAt text document_id k, getElem?_chunk_eq_some.mpr ⟨?_, rfl⟩, ?_, ?_⟩
      · omega
      · omega
      · rw [length_chunkAt]
        omega

/-- The last chunk of 2000 characters stands in the one before, too. -/
example : starts 2000 = [0, 800, 1600] := by decide

/-! ## Ids -/

theorem toList_chunkId (document_id : String) (start : ℕ) :
    (chunkId document_id start).toList =
      document_id.toList ++ ':' :: Nat.toDigits 10 start := by
  have hrepr : (toString start).toList = Nat.toDigits 10 start := Nat.toList_repr
  rw [chunkId, String.toList_append, String.toList_append, hrepr, List.append_assoc]
  rfl

theorem ne_colon_of_mem_toDigits {n : ℕ} {c : Char} (h : c ∈ (Nat.toDigits 10 n).reverse) :
    decide (c ≠ ':') = true := by
  have hdigit := Nat.isDigit_of_mem_toDigits (by decide) (by decide) (List.mem_reverse.mp h)
  refine decide_eq_true ?_
  rintro rfl
  exact absurd hdigit (by decide)

/-- The number stands behind the last colon. -/
theorem chunkId_inj {document_id document_id' : String} {start start' : ℕ}
    (h : chunkId document_id start = chunkId document_id' start') :
    document_id = document_id' ∧ start = start' := by
  have hlist := congrArg (fun s => s.toList.reverse) h
  simp only [toList_chunkId, List.reverse_append, List.reverse_cons, List.append_assoc,
    List.singleton_append] at hlist
  -- from the back: the digits, the colon, the document
  have hdigits := congrArg (List.takeWhile fun c => decide (c ≠ ':')) hlist
  rw [List.takeWhile_append_of_pos fun c => ne_colon_of_mem_toDigits,
    List.takeWhile_append_of_pos fun c => ne_colon_of_mem_toDigits,
    List.takeWhile_cons_of_neg (by decide), List.takeWhile_cons_of_neg (by decide),
    List.append_nil, List.append_nil] at hdigits
  rw [hdigits] at hlist
  have hdocument := List.cons.inj (List.append_cancel_left hlist)
  refine ⟨String.toList_inj.mp (List.reverse_injective hdocument.2), ?_⟩
  rw [← Nat.ofDigitChars_ten_toDigits (n := start), List.reverse_injective hdigits,
    Nat.ofDigitChars_ten_toDigits]

/-- An id belongs to one document and one place in it. -/
theorem ids_determine {text text' document_id document_id' : String} {k k' : ℕ} {c c' : Chunk}
    (hc : (chunk text document_id)[k]? = some c)
    (hc' : (chunk text' document_id')[k']? = some c') (hid : c.id = c'.id) :
    document_id = document_id' ∧ k = k' := by
  rcases getElem?_chunk_eq_some.mp hc with ⟨-, rfl⟩
  rcases getElem?_chunk_eq_some.mp hc' with ⟨-, rfl⟩
  rcases chunkId_inj hid with ⟨hdocument, hstart⟩
  exact ⟨hdocument, by omega⟩

/-! ## Edits -/

/-- What is left of the chunks of a document when `old` is replaced by `new` behind
`before`. -/
structure Survives (document_id before old new after : String) : Prop where
  /-- a chunk that ends before the edit is the same -/
  earlier : ∀ k, 800 * k + 1200 ≤ before.length →
    (chunk (before ++ new ++ after) document_id)[k]? =
      (chunk (before ++ old ++ after) document_id)[k]?
  /-- a chunk that starts behind it stands elsewhere in the text as it was -/
  later : ∀ k c, (chunk (before ++ new ++ after) document_id)[k]? = some c →
    before.length + new.length ≤ 800 * k →
      ∃ start, start + new.length = 800 * k + old.length ∧
        c.text.toList = slice (before ++ old ++ after).toList start (start + 1200)
  /-- where whole strides were put in, a chunk behind the edit has the text of an old one -/
  moved : ∀ k m, new.length = old.length + 800 * m → before.length + old.length ≤ 800 * k →
    ((chunk (before ++ new ++ after) document_id)[k + m]?).map Chunk.text =
      ((chunk (before ++ old ++ after) document_id)[k]?).map Chunk.text
  /-- and another id -/
  renamed : ∀ k m c c', 0 < m →
    (chunk (before ++ new ++ after) document_id)[k + m]? = some c →
    (chunk (before ++ old ++ after) document_id)[k]? = some c' → c.id ≠ c'.id
  /-- an edit that keeps the length keeps the chunks behind it -/
  kept : ∀ k, new.length = old.length → before.length + old.length ≤ 800 * k →
    (chunk (before ++ new ++ after) document_id)[k]? =
      (chunk (before ++ old ++ after) document_id)[k]?

section Edits

variable {document_id before old new after : String} {k : ℕ}

/-- Behind the edit the text goes on as `after`. -/
theorem slice_behind {a b : ℕ} (h : before.length + new.length ≤ a) :
    slice (before ++ new ++ after).toList a b =
      slice after.toList (a - (before.length + new.length)) (b - (before.length + new.length)) := by
  rw [String.toList_append, slice_append_right _ _ (by
    rw [String.length_toList, String.length_append]; exact h)]
  rw [String.length_toList, String.length_append]

/-- **What an edit leaves.** For every edit of every document. -/
theorem edit_keeps (document_id before old new after : String) :
    Survives document_id before old new after := by
  have hlength : ∀ middle : String, (before ++ middle ++ after).length =
      before.length + middle.length + after.length := fun middle => by
    rw [String.length_append, String.length_append]
  have hmoved : ∀ k m, new.length = old.length + 800 * m → before.length + old.length ≤ 800 * k →
      slice (before ++ new ++ after).toList (800 * (k + m)) (800 * (k + m) + 1200) =
        slice (before ++ old ++ after).toList (800 * k) (800 * k + 1200) := by
    intro k m hm hk
    rw [slice_behind (by omega), slice_behind hk]
    congr 1
    · omega
    · omega
  refine ⟨?_, ?_, ?_, ?_, ?_⟩
  · intro k hk
    -- whatever stands in the middle
    have hsame : ∀ middle : String, slice (before ++ middle ++ after).toList (800 * k)
        (800 * k + 1200) = slice before.toList (800 * k) (800 * k + 1200) := fun middle => by
      rw [String.append_assoc, String.toList_append, slice_append_left _ _ (by
        rw [String.length_toList]; exact hk)]
    rw [getElem?_chunk, getElem?_chunk, hlength, hlength, if_pos (by omega), if_pos (by omega),
      chunkAt, chunkAt, hsame, hsame]
  · intro k c hc hk
    rcases getElem?_chunk_eq_some.mp hc with ⟨-, rfl⟩
    -- as far behind the old middle as behind the new one
    refine ⟨800 * k + old.length - new.length, by omega, ?_⟩
    rw [chunkAt, String.toList_ofList, slice_behind hk, slice_behind (by omega)]
    congr 1
    · omega
    · omega
  · intro k m hm hk
    rw [getElem?_chunk, getElem?_chunk, hlength, hlength]
    by_cases hlt : 800 * k < before.length + old.length + after.length
    · rw [if_pos hlt, if_pos (by omega), Option.map_some, Option.map_some, chunkAt, chunkAt,
        hmoved k m hm hk]
    · rw [if_neg hlt, if_neg (by omega)]
  · intro k m c c' hm hc hc' hid
    -- an id names its place
    have hplace := (ids_determine hc hc' hid).2
    omega
  · intro k hsame hk
    -- moved by no stride
    have hslice := hmoved k 0 (by omega) hk
    rw [Nat.add_zero] at hslice
    rw [getElem?_chunk, getElem?_chunk, hlength, hlength, hsame, chunkAt, chunkAt, hslice]

end Edits

end InterviewPrep.DocumentChunking
