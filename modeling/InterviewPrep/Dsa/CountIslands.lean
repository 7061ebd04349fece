import Mathlib.Data.List.Basic
import InterviewPrep.Lib.FloodFill

/-!
# Counting islands

`countIslands` of `dsa/count_connected_islands/answer.py` and `answer.ts`: a scan of
the grid that starts a flood fill (`Lib/FloodFill.lean`) at every land cell without a
mark. Python marks pairs, TypeScript strings of them. On a rectangular grid both
count the connected parts of the land and mark the land (`islands_counted`).

The recursion of `explore` has no depth limit here.
-/

namespace InterviewPrep.CountIslands

open FloodFill Relation

/-! ## The program -/

/-- `"0"` and `"1"` -/
inductive Tile where
  | water
  | land
deriving DecidableEq

abbrev Grid := List (List Tile)

/-- A row and a column. -/
abbrev Cell := ℤ × ℤ

inductive Error where
  | indexError
  | outOfFuel
deriving DecidableEq

/-- The tile of a cell, if the grid has it. -/
def tile? (grid : Grid) (cell : Cell) : Option Tile :=
  if 0 ≤ cell.1 ∧ 0 ≤ cell.2 then grid[cell.1.toNat]?.bind (·[cell.2.toNat]?) else none

/-- What the languages do in their own way: reading `grid[row][col]`, and the elements
of `visited`. -/
structure Version (κ : Type) where
  read : Grid → Cell → Except Error (Option Tile)
  key : Cell → κ

/-- Down, up, right, left. -/
def neighbours (cell : Cell) : List Cell :=
  [(cell.1 + 1, cell.2), (cell.1 - 1, cell.2), (cell.1, cell.2 + 1), (cell.1, cell.2 - 1)]

section Scan

variable {κ : Type} [DecidableEq κ]

/-- The three tests of `explore`: out of bounds, visited, water. -/
def enter (L : Version κ) (grid : Grid) (rows cols : ℕ) (cell : Cell) (visited : Finset κ) :
    Except Error Bool :=
  if cell.1 < 0 ∨ rows ≤ cell.1 ∨ cell.2 < 0 ∨ cols ≤ cell.2 then .ok false
  else if L.key cell ∈ visited then .ok false
  else do
    let tile ← L.read grid cell
    return decide (tile ≠ some .water)

/-- The test of the loops. -/
def isStart (L : Version κ) (grid : Grid) (cell : Cell) (visited : Finset κ) :
    Except Error Bool := do
  let tile ← L.read grid cell
  return decide (tile = some .land ∧ L.key cell ∉ visited)

/-- The variables `visited` and `islandCount` at the end. -/
def scan (L : Version κ) (grid : Grid) : Except Error (Tally κ) :=
  match grid with
  | [] => .ok ⟨∅, 0⟩
  | first :: _ =>
    let rows := grid.length
    let cols := first.length
    let explore := explore .outOfFuel (enter L grid rows cols) L.key neighbours (rows * cols + 1)
    (List.range rows).foldlM (fun t (row : ℕ) =>
      (List.range cols).foldlM (fun t (col : ℕ) => tally (isStart L grid) explore t (row, col)) t)
      ⟨∅, 0⟩

end Scan

namespace Python

/-- `grid[row][col]` -/
def read (grid : Grid) (cell : Cell) : Except Error (Option Tile) :=
  match tile? grid cell with
  | none => .error .indexError
  | some tile => .ok (some tile)

def version : Version Cell := ⟨read, id⟩

def countIslands (grid : Grid) : Except Error ℕ := (scan version grid).map Tally.count

end Python

namespace TypeScript

/-- `grid[row][col]`, which is `undefined` outside the row. -/
def read (grid : Grid) (cell : Cell) : Except Error (Option Tile) := .ok (tile? grid cell)

/-- `${row},${col}` -/
def key (cell : Cell) : String := toString cell.1 ++ "," ++ toString cell.2

def version : Version String := ⟨read, key⟩

def countIslands (grid : Grid) : Except Error ℕ := (scan version grid).map Tally.count

end TypeScript

/-! ## Islands -/

/-- All rows have the length of the first. -/
def Rectangular (grid : Grid) : Prop :=
  ∀ first ∈ grid.head?, ∀ row ∈ grid, row.length = first.length

def Land (grid : Grid) (cell : Cell) : Prop := tile? grid cell = some .land

/-- Cells that share an edge. -/
def Adjacent (a b : Cell) : Prop :=
  a.1 = b.1 ∧ (a.2 + 1 = b.2 ∨ b.2 + 1 = a.2) ∨ a.2 = b.2 ∧ (a.1 + 1 = b.1 ∨ b.1 + 1 = a.1)

theorem mem_neighbours_iff {a b : Cell} : b ∈ neighbours a ↔ Adjacent a b := by
  rcases a with ⟨row, col⟩
  rcases b with ⟨row', col'⟩
  simp only [neighbours, List.mem_cons, Prod.mk.injEq, List.not_mem_nil, or_false, Adjacent]
  omega

theorem Adjacent.symm {a b : Cell} (h : Adjacent a b) : Adjacent b a := by
  unfold Adjacent at h ⊢
  omega

theorem joins_eq (grid : Grid) :
    Joins (Land grid) neighbours = fun a b => Adjacent a.1 b.1 := by
  funext a b
  exact propext mem_neighbours_iff

theorem joins_symm (grid : Grid) (a b : {c // Land grid c})
    (h : Joins (Land grid) neighbours a b) : Joins (Land grid) neighbours b a :=
  mem_neighbours_iff.mpr (mem_neighbours_iff.mp h).symm

/-- The islands: land cells that are connected along edges. -/
def islands (grid : Grid) : Setoid {c // Land grid c} where
  r := ReflTransGen fun a b => Adjacent a.1 b.1
  iseqv := by
    have h := (parts (joins_symm grid)).iseqv
    change Equivalence (ReflTransGen (Joins (Land grid) neighbours)) at h
    rwa [joins_eq] at h

theorem parts_eq_islands (grid : Grid) : parts (joins_symm grid) = islands grid := by
  apply Setoid.ext
  intro a b
  change ReflTransGen (Joins (Land grid) neighbours) a b ↔ _
  rw [joins_eq]
  rfl

/-! ## The scan -/

/-- The cells in the order of the loops. -/
def cells (rows cols : ℕ) : List Cell :=
  (List.range rows).flatMap fun (row : ℕ) =>
    (List.range cols).map fun (col : ℕ) => ((row : ℤ), (col : ℤ))

theorem mem_cells {rows cols : ℕ} {c : Cell} :
    c ∈ cells rows cols ↔ (0 ≤ c.1 ∧ c.1 < rows) ∧ 0 ≤ c.2 ∧ c.2 < cols := by
  rcases c with ⟨row, col⟩
  simp only [cells, List.mem_flatMap, List.mem_map, List.mem_range, Prod.mk.injEq]
  constructor
  · rintro ⟨i, hi, j, hj, rfl, rfl⟩
    omega
  · rintro ⟨⟨hrow, hrows⟩, hcol, hcols⟩
    exact ⟨row.toNat, by omega, col.toNat, by omega, by omega, by omega⟩

/-- Two loops are one over the cells. -/
theorem foldlM_cells {σ : Type} (f : σ → Cell → Except Error σ) (rows cols : ℕ) (s : σ) :
    (List.range rows).foldlM (fun s (row : ℕ) =>
      (List.range cols).foldlM (fun s (col : ℕ) => f s (row, col)) s) s =
        (cells rows cols).foldlM f s := by
  unfold cells
  induction List.range rows generalizing s with
  | nil => rfl
  | cons row rest ih =>
    rw [List.foldlM_cons, List.flatMap_cons, List.foldlM_append, List.foldlM_map]
    exact congrArg _ (funext fun s => ih s)

section Rectangular

variable {first : List Tile} {rest : List (List Tile)}

/-- A rectangular grid has the cells of its bounds. -/
theorem tile?_isSome_iff (h : Rectangular (first :: rest)) (c : Cell) :
    (tile? (first :: rest) c).isSome = true ↔ c ∈ cells (first :: rest).length first.length := by
  have hwidth : ∀ row ∈ first :: rest, row.length = first.length := h first rfl
  rw [mem_cells, tile?]
  split
  · rename_i hpos
    constructor
    · intro hsome
      rcases Option.isSome_iff_exists.mp hsome with ⟨tile, htile⟩
      rcases Option.bind_eq_some_iff.mp htile with ⟨row, hrow, hcol⟩
      have hlt := (List.getElem?_eq_some_iff.mp hrow).1
      have hlt' := (List.getElem?_eq_some_iff.mp hcol).1
      rw [hwidth row (List.mem_of_getElem? hrow)] at hlt'
      omega
    · rintro ⟨⟨-, hrows⟩, -, hcols⟩
      have hrow : c.1.toNat < (first :: rest).length := by omega
      have hlength := hwidth _ (List.getElem_mem hrow)
      rw [List.getElem?_eq_getElem hrow, Option.bind_some,
        List.getElem?_eq_getElem (by rw [hlength]; omega)]
      rfl
  · rename_i hneg
    constructor
    · intro hsome
      cases hsome
    · omega

theorem land_mem_cells (h : Rectangular (first :: rest)) {c : Cell}
    (hc : Land (first :: rest) c) : c ∈ cells (first :: rest).length first.length := by
  rw [← tile?_isSome_iff h, hc]
  rfl

end Rectangular

/-- A version reads the tiles that are there, and its keys tell cells apart. -/
structure Lawful {κ : Type} (L : Version κ) : Prop where
  read : ∀ grid c tile, tile? grid c = some tile → L.read grid c = .ok (some tile)
  key : ∀ a b : Cell, 0 ≤ a.1 → 0 ≤ a.2 → 0 ≤ b.1 → 0 ≤ b.2 → L.key a = L.key b → a = b

theorem Python.lawful : Lawful Python.version where
  read := by
    intro grid c tile htile
    simp [Python.version, Python.read, htile]
  key := fun _ _ _ _ _ _ h => h

theorem comma_notMem_toDigits (n : ℕ) : ',' ∉ Nat.toDigits 10 n := by
  intro h
  exact absurd (Nat.isDigit_of_mem_toDigits (by decide) (by decide) h) (by decide)

theorem toDigits_inj {m n : ℕ} (h : Nat.toDigits 10 m = Nat.toDigits 10 n) : m = n := by
  rw [← Nat.ofDigitChars_toDigits (by decide : 1 < 10) (by decide) (n := m), h,
    Nat.ofDigitChars_toDigits (by decide) (by decide)]

theorem TypeScript.toList_key (row col : ℕ) :
    (TypeScript.key (row, col)).toList = Nat.toDigits 10 row ++ ',' :: Nat.toDigits 10 col := by
  have hrepr : ∀ n : ℕ, toString (n : ℤ) = String.ofList (Nat.toDigits 10 n) := fun _ => rfl
  simp [TypeScript.key, hrepr]

theorem TypeScript.lawful : Lawful TypeScript.version where
  read := by
    intro grid c tile htile
    simp [TypeScript.version, TypeScript.read, htile]
  key := by
    rintro ⟨row, col⟩ ⟨row', col'⟩ hrow hcol hrow' hcol' h
    lift row to ℕ using hrow
    lift col to ℕ using hcol
    lift row' to ℕ using hrow'
    lift col' to ℕ using hcol'
    have hlist := congrArg String.toList h
    change (TypeScript.key _).toList = (TypeScript.key _).toList at hlist
    rw [TypeScript.toList_key, TypeScript.toList_key,
      List.append_cons_inj_of_notMem (comma_notMem_toDigits _) (comma_notMem_toDigits _)] at hlist
    rw [toDigits_inj hlist.1, toDigits_inj hlist.2.2]

section Count

variable {κ : Type} [DecidableEq κ] {L : Version κ} {first : List Tile} {rest : List (List Tile)}

/-- `explore` marks a cell if it is land without a mark. -/
theorem enters_enter (hL : Lawful L) (h : Rectangular (first :: rest)) (c : Cell) :
    Enters (enter L (first :: rest) (first :: rest).length first.length)
      (Land (first :: rest)) L.key c := by
  intro visited
  unfold enter
  split
  · rename_i hout
    refine Or.inr ⟨rfl, fun hland => ?_⟩
    have hin := mem_cells.mp (land_mem_cells h hland)
    omega
  · rename_i hin
    split
    · rename_i hvisited
      exact Or.inr ⟨rfl, fun _ => hvisited⟩
    · rename_i hnot
      have hcell : c ∈ cells (first :: rest).length first.length := by
        rw [mem_cells]
        omega
      rcases Option.isSome_iff_exists.mp ((tile?_isSome_iff h c).mpr hcell) with ⟨tile, htile⟩
      rw [hL.read _ _ _ htile]
      cases tile with
      | land => exact Or.inl ⟨rfl, htile, hnot⟩
      | water =>
        refine Or.inr ⟨rfl, fun hland => ?_⟩
        rw [Land, htile] at hland
        cases hland

/-- The loops start at a cell if it is land without a mark. -/
theorem enters_isStart (hL : Lawful L) (h : Rectangular (first :: rest)) {c : Cell}
    (hc : c ∈ cells (first :: rest).length first.length) :
    Enters (isStart L (first :: rest)) (Land (first :: rest)) L.key c := by
  intro visited
  rcases Option.isSome_iff_exists.mp ((tile?_isSome_iff h c).mpr hc) with ⟨tile, htile⟩
  have hstart : isStart L (first :: rest) c visited =
      .ok (decide (some tile = some .land ∧ L.key c ∉ visited)) := by
    rw [isStart, hL.read _ _ _ htile]
    rfl
  rw [hstart]
  by_cases hgo : some tile = some Tile.land ∧ L.key c ∉ visited
  · exact Or.inl ⟨by rw [decide_eq_true hgo], htile.trans hgo.1, hgo.2⟩
  · refine Or.inr ⟨by rw [decide_eq_false hgo], fun hland => ?_⟩
    by_contra hnot
    exact hgo ⟨htile.symm.trans hland, hnot⟩

/-- What a version is to do with a grid: count the islands and mark the land. -/
def Counts (L : Version κ) (grid : Grid) : Prop :=
  ∃ t, scan L grid = .ok t ∧ t.count = Nat.card (Quotient (islands grid)) ∧
    ∀ k, k ∈ t.visited ↔ ∃ c, Land grid c ∧ L.key c = k

theorem land_nonneg {grid : Grid} {c : Cell} (h : Land grid c) : 0 ≤ c.1 ∧ 0 ≤ c.2 := by
  unfold Land tile? at h
  split at h
  · assumption
  · cases h

omit [DecidableEq κ] in
theorem key_inj (hL : Lawful L) {grid : Grid} (a b : {c // Land grid c})
    (h : L.key a = L.key b) : a = b := by
  rcases land_nonneg a.2 with ⟨ha, ha'⟩
  rcases land_nonneg b.2 with ⟨hb, hb'⟩
  exact Subtype.ext (hL.key a b ha ha' hb hb' h)

theorem length_cells (rows cols : ℕ) : (cells rows cols).length = rows * cols := by
  simp [cells, List.length_flatMap]

/-- The scan of a grid with rows. -/
theorem scan_counted (hL : Lawful L) (h : Rectangular (first :: rest)) :
    ∃ starts t, scan L (first :: rest) = .ok t ∧
      Counted (Land (first :: rest)) neighbours L.key
        (cells (first :: rest).length first.length) starts t := by
  have hvisit : ∀ c visited, ∃ new,
      explore .outOfFuel (enter L (first :: rest) (first :: rest).length first.length) L.key
          neighbours ((first :: rest).length * first.length + 1) c visited = .ok new ∧
        Fills (Land (first :: rest)) neighbours L.key [c] visited new := by
    intro c visited
    have hland : ∀ v, Land (first :: rest) v →
        v ∈ (cells (first :: rest).length first.length).toFinset :=
      fun v hv => List.mem_toFinset.mpr (land_mem_cells h hv)
    refine explore_fills hland (key_inj hL) (enters_enter hL h) c ?_
    have hcard := List.toFinset_card_le (cells (first :: rest).length first.length)
    rw [length_cells] at hcard
    exact Nat.lt_succ_of_le (le_trans (Finset.card_filter_le _ _) hcard)
  rcases counted_start.foldlM_tally (key_inj hL) (joins_symm _)
    (fun c hc => enters_isStart hL h hc) hvisit with ⟨starts, t, hrun, hcounted⟩
  refine ⟨starts, t, ?_, hcounted⟩
  unfold scan
  rw [← hrun]
  exact foldlM_cells _ _ _ _

theorem counts (hL : Lawful L) {grid : Grid} (h : Rectangular grid) :
    Finite (Quotient (islands grid)) ∧ Counts L grid := by
  rw [← parts_eq_islands]
  cases grid with
  | nil =>
    have hnone : ∀ c, Land [] c → c ∈ ([] : List Cell) := by
      intro c hc
      simp [Land, tile?] at hc
    have hstart : Counted (Land []) neighbours L.key [] [] ⟨∅, 0⟩ := counted_start
    rcases hstart.card_parts (key_inj hL) (joins_symm []) hnone with ⟨hfinite, hcard⟩
    refine ⟨hfinite, _, rfl, ?_, hstart.mem_visited_iff hnone⟩
    rw [← parts_eq_islands, hcard]
  | cons first rest =>
    rcases scan_counted hL h with ⟨starts, t, hrun, hcounted⟩
    have hall : ∀ c, Land (first :: rest) c → c ∈ [] ++ cells (first :: rest).length first.length :=
      fun c hc => land_mem_cells h hc
    rcases hcounted.card_parts (key_inj hL) (joins_symm _) hall with ⟨hfinite, hcard⟩
    refine ⟨hfinite, t, hrun, ?_, hcounted.mem_visited_iff hall⟩
    rw [← parts_eq_islands, hcard]

end Count

/-- On a rectangular grid both versions return the number of islands, and have marked
the land and nothing else. -/
theorem islands_counted {grid : Grid} (h : Rectangular grid) :
    Finite (Quotient (islands grid)) ∧
    (Python.countIslands grid = .ok (Nat.card (Quotient (islands grid))) ∧
      Counts Python.version grid) ∧
    (TypeScript.countIslands grid = .ok (Nat.card (Quotient (islands grid))) ∧
      Counts TypeScript.version grid) := by
  rcases counts Python.lawful h with ⟨hfinite, hpython⟩
  rcases counts TypeScript.lawful h with ⟨-, hscript⟩
  refine ⟨hfinite, ⟨?_, hpython⟩, ?_, hscript⟩
  · rcases hpython with ⟨t, hrun, hcount, -⟩
    rw [Python.countIslands, hrun, ← hcount]
    rfl
  · rcases hscript with ⟨t, hrun, hcount, -⟩
    rw [TypeScript.countIslands, hrun, ← hcount]
    rfl

/-- Cells that share a corner are not connected. -/
theorem islands_counted_diagonal :
    Nat.card (Quotient (islands [[.land, .water], [.water, .land]])) = 2 := by
  have hrectangular : Rectangular [[.land, .water], [.water, .land]] := by simp [Rectangular]
  have hcount := (islands_counted hrectangular).2.1.1
  have hrun : Python.countIslands [[.land, .water], [.water, .land]] = .ok 2 := by decide +kernel
  rw [hrun] at hcount
  exact (Except.ok.inj hcount).symm

end InterviewPrep.CountIslands
