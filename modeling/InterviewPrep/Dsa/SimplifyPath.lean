import InterviewPrep.Lib.JavaScript
import InterviewPrep.Lib.Locations

/-!
# Simplified paths

`simplifyPath` of `dsa/evaluate_postfix_expression/answer.ts`. The stack has the names of
the place where the parts so far lead (`foldl_visit`), so the function prints the place
that a path denotes (`simplifyPath_eq`). What is printed denotes the same place again
(`locate_print`), and all laws of the function follow (`simplifyPath_canonical`).
-/

namespace InterviewPrep.SimplifyPath

open JavaScript (CodeUnits)

/-! ## The program -/

def slash : UInt16 := 0x2F

def dot : UInt16 := 0x2E

/-- The turn of the loop for a part. -/
def visit (stack : List CodeUnits) (part : CodeUnits) : List CodeUnits :=
  -- the empty parts are those between and around slashes
  if part = [] ∨ part = [dot] then stack
  else if part = [dot, dot] then if 0 < stack.length then stack.dropLast else stack
  else stack ++ [part]

def simplifyPath (path : CodeUnits) : CodeUnits :=
  slash :: Delimited.joined slash ((path.splitOn slash).foldl visit [])

/-! ## The place that a path denotes -/

/-- What a component of a path says. -/
def component (part : CodeUnits) : Component CodeUnits :=
  if part = [] ∨ part = [dot] then .stay else if part = [dot, dot] then .up else .down part

/-- The components of a path. -/
def components (path : CodeUnits) : List (Component CodeUnits) :=
  (path.splitOn slash).map component

/-- The place that a path denotes, from the root. -/
def locate (path : CodeUnits) : Location CodeUnits := Location.root.resolve (components path)

/-- What names a place: neither empty, nor one or two dots, and without slashes. -/
structure IsName (part : CodeUnits) : Prop where
  ne_nil : part ≠ []
  ne_dot : part ≠ [dot]
  ne_dots : part ≠ [dot, dot]
  slash_notMem : slash ∉ part

/-- The path from the root to a place. -/
def print (l : Location CodeUnits) : CodeUnits := slash :: Delimited.joined slash l.names

theorem IsName.component_eq {part : CodeUnits} (h : IsName part) :
    component part = .down part := by
  rw [component, if_neg (not_or.mpr ⟨h.ne_nil, h.ne_dot⟩), if_neg h.ne_dots]

theorem eq_of_component_eq {part name : CodeUnits} (h : component part = .down name) :
    part = name ∧ part ≠ [] ∧ part ≠ [dot] ∧ part ≠ [dot, dot] := by
  unfold component at h
  split at h
  · cases h
  · rename_i hstay
    split at h
    · cases h
    · rename_i hup
      rw [Component.down.injEq] at h
      exact ⟨h, fun hnil => hstay (Or.inl hnil), fun hdot => hstay (Or.inr hdot), hup⟩

/-! ## The stack -/

/-- The part moves the place of the stack. -/
theorem visit_names (l : Location CodeUnits) (part : CodeUnits) :
    visit l.names part = (l.move (component part)).names := by
  unfold visit component
  split
  · rfl
  · split
    · rw [Location.move, Location.names_parent]
      split
      · rfl
      · -- the root, where there is nothing to pop
        rename_i hempty
        rw [List.eq_nil_of_length_eq_zero (Nat.eq_zero_of_not_pos hempty)]
        rfl
    · rfl

theorem foldl_visit (l : Location CodeUnits) (parts : List CodeUnits) :
    parts.foldl visit l.names = (l.resolve (parts.map component)).names := by
  induction parts generalizing l with
  | nil => rfl
  | cons part parts ih =>
    rw [List.foldl_cons, visit_names, ih]
    rfl

/-- The function prints the place that the path denotes. -/
theorem simplifyPath_eq (path : CodeUnits) : simplifyPath path = print (locate path) := by
  have hstack := foldl_visit .root (path.splitOn slash)
  rw [Location.names] at hstack
  rw [simplifyPath, hstack]
  rfl

/-! ## Printed places -/

/-- The places that paths denote have proper names. -/
theorem isName_of_mem_locate {path name : CodeUnits} (h : name ∈ (locate path).names) :
    IsName name := by
  rcases Location.mem_names_resolve h with hroot | hpath
  · cases hroot
  · rcases List.mem_map.mp hpath with ⟨part, hpart, hdown⟩
    rcases eq_of_component_eq hdown with ⟨rfl, hnil, hdot, hdots⟩
    exact ⟨hnil, hdot, hdots, Delimited.sep_notMem_of_mem_splitOn hpart⟩

/-- What stands behind a slash is resolved from the place in front of it. -/
theorem locate_append (p q : CodeUnits) :
    locate (p ++ slash :: q) = (locate p).resolve (components q) := by
  rw [locate, components, List.splitOn_append_cons_self, List.map_append,
    Location.resolve_append]
  rfl

/-- The names between the slashes are read back as components. -/
theorem components_joined {names : List CodeUnits} (hne : names ≠ [])
    (h : ∀ name ∈ names, IsName name) :
    components (Delimited.joined slash names) = names.map .down := by
  have hcut : (Delimited.joined slash names).splitOn slash = names := by
    rw [Delimited.splitOn_joined slash hne,
      Delimited.pieces_eq_self fun name hname => (h name hname).slash_notMem]
  rw [components, hcut]
  exact List.map_congr_left fun name hname => (h name hname).component_eq

/-- The path that is printed for a place denotes it. -/
theorem locate_print {l : Location CodeUnits} (h : ∀ name ∈ l.names, IsName name) :
    locate (print l) = l := by
  -- the part in front of the first slash is empty
  have hslash : locate (print l) =
      Location.root.resolve (components (Delimited.joined slash l.names)) :=
    locate_append [] (Delimited.joined slash l.names)
  rw [hslash]
  by_cases hempty : l.names = []
  · -- the root is printed without names
    have hroot := Location.resolve_down_names l
    rw [hempty] at hroot ⊢
    exact hroot
  · rw [components_joined hempty h, Location.resolve_down_names]

/-- For all paths: the result is made of proper names, it denotes what the path denotes,
it is its own result, and in front of a slash it may stand for the path. -/
theorem simplifyPath_canonical (p q : CodeUnits) :
    (∃ names : List CodeUnits, simplifyPath p = slash :: Delimited.joined slash names ∧
      ∀ name ∈ names, IsName name) ∧
    locate (simplifyPath p) = locate p ∧
    simplifyPath (simplifyPath p) = simplifyPath p ∧
    simplifyPath (p ++ slash :: q) = simplifyPath (simplifyPath p ++ slash :: q) := by
  -- the other laws follow from this one
  have hlocate : locate (simplifyPath p) = locate p := by
    rw [simplifyPath_eq]
    exact locate_print fun name hname => isName_of_mem_locate hname
  refine ⟨⟨(locate p).names, simplifyPath_eq p, fun name => isName_of_mem_locate⟩, hlocate,
    ?_, ?_⟩
  · rw [simplifyPath_eq (simplifyPath p), hlocate, ← simplifyPath_eq]
  · rw [simplifyPath_eq, simplifyPath_eq, locate_append, locate_append, hlocate]

example : simplifyPath (JavaScript.units "/a/./b/../../..//c/") = JavaScript.units "/c" := by
  decide

end InterviewPrep.SimplifyPath
