import Mathlib.Data.List.Basic

/-!
# Locations

Places in a tree of directories, and the paths that lead to them. The components of a
path move from place to place, and one that leads upwards stays at the root. The names
of a place lead to it from the root (`resolve_down_names`).
-/

namespace InterviewPrep

/-- What a component of a path says: to stay, to go up, or to go down to a name. -/
inductive Component (N : Type*) where
  | stay
  | up
  | down (name : N)

/-- A place: the root, or a name in a place. -/
inductive Location (N : Type*) where
  | root
  | child (parent : Location N) (name : N)

namespace Location

variable {N : Type*}

/-- The place above. The root is its own parent. -/
def parent : Location N → Location N
  | root => root
  | child l _ => l

/-- The names from the root to the place. -/
def names : Location N → List N
  | root => []
  | child l name => l.names ++ [name]

def move (l : Location N) : Component N → Location N
  | .stay => l
  | .up => l.parent
  | .down name => l.child name

/-- Where the components lead, from left to right. -/
def resolve (l : Location N) (path : List (Component N)) : Location N := path.foldl move l

theorem resolve_append (l : Location N) (path path' : List (Component N)) :
    l.resolve (path ++ path') = (l.resolve path).resolve path' := List.foldl_append

theorem names_parent (l : Location N) : l.parent.names = l.names.dropLast := by
  cases l with
  | root => rfl
  | child l name => rw [parent, names, List.dropLast_concat]

/-- The names of a place lead to it from the root. -/
theorem resolve_down_names (l : Location N) : root.resolve (l.names.map .down) = l := by
  induction l with
  | root => rfl
  | child l name ih =>
    rw [names, List.map_append, resolve_append, ih]
    rfl

/-- A name of the place where a path leads is one that the path says, or was one before. -/
theorem mem_names_resolve {l : Location N} {path : List (Component N)} {name : N}
    (h : name ∈ (l.resolve path).names) : name ∈ l.names ∨ .down name ∈ path := by
  -- over the path, from the place that its first component leads to
  induction path generalizing l with
  | nil => exact Or.inl h
  | cons c path ih =>
    rcases ih (l := l.move c) h with hmoved | hpath
    · cases c with
      | stay => exact Or.inl hmoved
      | up =>
        rw [move, names_parent] at hmoved
        exact Or.inl (List.dropLast_subset _ hmoved)
      | down name' =>
        rw [move, names, List.mem_append, List.mem_singleton] at hmoved
        rcases hmoved with hname | rfl
        · exact Or.inl hname
        · exact Or.inr (List.mem_cons_self)
    · exact Or.inr (List.mem_cons_of_mem c hpath)

end Location

end InterviewPrep
