import Mathlib.Computability.ContextFreeGrammar
import Mathlib.Data.Finset.Image
import Mathlib.Data.Fintype.Defs
import Mathlib.Order.CompletePartialOrder

/-!
# Brackets of several kinds

Words of opening and closing brackets, each of a kind. The nested ones are those of the
grammar `B → ε | ( B ) B`, with a rule for each kind (`mem_language_iff_nested`), and a
stack of the kinds that are still open recognises them (`read_eq_nil_iff`).

While there is a stack, what is left to read is not nested itself: nested words alternate
with the closing brackets of the stack. `Closes` says so.
-/

namespace InterviewPrep

/-- A bracket of a kind. -/
inductive Bracket (K : Type*) where
  | opening (kind : K)
  | closing (kind : K)
deriving DecidableEq

namespace Bracket

variable {K : Type*}

/-! ## Nested words -/

/-- A nested word is empty, or a pair of brackets with a nested word in it, in front of
a nested word. -/
inductive Nested : List (Bracket K) → Prop where
  | nil : Nested []
  | pair (k : K) {inner rest : List (Bracket K)} (hinner : Nested inner) (hrest : Nested rest) :
    Nested (opening k :: inner ++ closing k :: rest)

theorem Nested.append {u v : List (Bracket K)} (hu : Nested u) (hv : Nested v) :
    Nested (u ++ v) := by
  induction hu with
  | nil => exact hv
  | pair k hinner _ _ ih =>
    rw [List.append_assoc, List.cons_append]
    exact .pair k hinner ih

/-- The word closes all open brackets, the last one first, with nested words in
between. -/
def Closes : List K → List (Bracket K) → Prop
  | [], w => Nested w
  | k :: stack, w => ∃ inner rest, w = inner ++ closing k :: rest ∧ Nested inner ∧
      Closes stack rest

/-- A nested word in front changes nothing. -/
theorem Closes.append {stack : List K} {u v : List (Bracket K)} (hu : Nested u)
    (hv : Closes stack v) : Closes stack (u ++ v) := by
  cases stack with
  | nil => exact hu.append hv
  | cons k stack =>
    rcases hv with ⟨inner, rest, rfl, hinner, hrest⟩
    exact ⟨u ++ inner, rest, (List.append_assoc _ _ _).symm, hu.append hinner, hrest⟩

/-! ## The grammar -/

section Grammar

variable {K : Type} [Fintype K] [DecidableEq K]

/-- `B → k B k B`, with the brackets of a kind. -/
def pairRule (k : K) : ContextFreeRule (Bracket K) Unit :=
  ⟨(), [.terminal (opening k), .nonterminal (), .terminal (closing k), .nonterminal ()]⟩

/-- `B → ε | ( B ) B`, for all kinds. -/
abbrev grammar (K : Type) [Fintype K] [DecidableEq K] : ContextFreeGrammar (Bracket K) where
  NT := Unit
  initial := ()
  rules := insert ⟨(), []⟩ (Finset.univ.image pairRule)

/-- The nested words. -/
def nestedWords (K : Type) : Language (Bracket K) := {w | Nested w}

/-- The words that a symbol of the grammar stands for. -/
def symbolLanguage {K : Type} : Symbol (Bracket K) Unit → Language (Bracket K)
  | .terminal b => {[b]}
  | .nonterminal _ => nestedWords K

/-- The words that a sentential form stands for. -/
def formLanguage {K : Type} (form : List (Symbol (Bracket K) Unit)) : Language (Bracket K) :=
  (form.map symbolLanguage).prod

theorem formLanguage_append {K : Type} (s t : List (Symbol (Bracket K) Unit)) :
    formLanguage (s ++ t) = formLanguage s * formLanguage t := by
  rw [formLanguage, List.map_append, List.prod_append]
  rfl

theorem mem_formLanguage_terminals {K : Type} (w : List (Bracket K)) :
    w ∈ formLanguage (w.map .terminal) := by
  induction w with
  | nil => rfl
  | cons b w ih =>
    rw [List.map_cons, formLanguage, List.map_cons, List.prod_cons]
    exact Language.mem_mul.mpr ⟨[b], rfl, w, ih, rfl⟩

/-- What a rule puts for the nonterminal stands for nested words. -/
theorem formLanguage_output_le {r : ContextFreeRule (Bracket K) Unit}
    (h : r ∈ (grammar K).rules) : formLanguage r.output ≤ nestedWords K := by
  rcases Finset.mem_insert.mp h with rfl | hpair
  · rintro w rfl
    exact Nested.nil
  · rcases Finset.mem_image.mp hpair with ⟨k, -, rfl⟩
    intro w hw
    simp only [pairRule, formLanguage, List.map_cons, List.map_nil, List.prod_cons,
      List.prod_nil, mul_one, symbolLanguage] at hw
    rcases Language.mem_mul.mp hw with ⟨_, rfl, _, hinside, rfl⟩
    rcases Language.mem_mul.mp hinside with ⟨inner, hinner, _, hbehind, rfl⟩
    rcases Language.mem_mul.mp hbehind with ⟨_, rfl, rest, hrest, rfl⟩
    exact Nested.pair k hinner hrest

/-- A derivation narrows what a form stands for. -/
theorem formLanguage_le_of_derives {s t : List (Symbol (Bracket K) Unit)}
    (h : (grammar K).Derives s t) : formLanguage t ≤ formLanguage s := by
  induction h with
  | refl => exact le_refl _
  | tail _ hstep ih =>
    refine le_trans ?_ ih
    rcases hstep with ⟨r, hr, hrewrites⟩
    rcases hrewrites.exists_parts with ⟨p, q, rfl, rfl⟩
    rw [formLanguage_append, formLanguage_append, formLanguage_append, formLanguage_append]
    refine mul_le_mul' (mul_le_mul' (le_refl _) ?_) (le_refl _)
    exact le_trans (formLanguage_output_le hr) (le_of_eq (mul_one _).symm)

theorem derives_of_nested {w : List (Bracket K)} (h : Nested w) :
    (grammar K).Derives [.nonterminal ()] (w.map .terminal) := by
  induction h with
  | nil =>
    refine ContextFreeGrammar.Produces.single ⟨⟨(), []⟩, Finset.mem_insert_self _ _, ?_⟩
    exact ContextFreeRule.Rewrites.input_output
  | @pair k inner rest _ _ hinner hrest =>
    have hrule : (grammar K).Produces [.nonterminal ()] (pairRule k).output :=
      ⟨pairRule k, Finset.mem_insert_of_mem (Finset.mem_image_of_mem _ (Finset.mem_univ k)),
        ContextFreeRule.Rewrites.input_output⟩
    -- the word between the brackets is derived first
    have hfirst := (hinner.append_right
      [.terminal (closing k), .nonterminal ()]).append_left [.terminal (opening k)]
    have hsecond := hrest.append_left
      (.terminal (opening k) :: inner.map .terminal ++ [.terminal (closing k)])
    have hmiddle : (.terminal (opening k) :: inner.map .terminal ++ [.terminal (closing k)]) ++
        [.nonterminal ()] = [.terminal (opening k)] ++ (inner.map .terminal ++
          [.terminal (closing k), (.nonterminal () : Symbol (Bracket K) Unit)]) := by
      simp
    have hword : (.terminal (opening k) :: inner.map .terminal ++ [.terminal (closing k)]) ++
        rest.map .terminal = ((opening k :: inner ++ closing k :: rest).map
          .terminal : List (Symbol (Bracket K) Unit)) := by
      simp
    rw [hmiddle, hword] at hsecond
    exact hrule.single.trans (hfirst.trans hsecond)

/-- The words of the grammar are the nested ones. -/
theorem mem_language_iff_nested {w : List (Bracket K)} :
    w ∈ (grammar K).language ↔ Nested w := by
  constructor
  · intro h
    have hform := formLanguage_le_of_derives h (mem_formLanguage_terminals w)
    rwa [formLanguage, List.map_singleton, List.prod_singleton] at hform
  · exact derives_of_nested

end Grammar

/-! ## The stack of open brackets -/

section Stack

variable [DecidableEq K] {w rest : List (Bracket K)} {stack : List K}

/-- An opening bracket is stacked, and a closing one takes one of its kind from the top. -/
def step : List K → Bracket K → Option (List K)
  | stack, opening k => some (k :: stack)
  | [], closing _ => none
  | k' :: stack, closing k => if k' = k then some stack else none

/-- The stack behind a word, unless a closing bracket does not fit. -/
def read (w : List (Bracket K)) (stack : List K) : Option (List K) := w.foldlM step stack

@[simp] theorem read_nil (stack : List K) : read [] stack = some stack := rfl

@[simp] theorem read_opening (k : K) (w : List (Bracket K)) (stack : List K) :
    read (opening k :: w) stack = read w (k :: stack) := rfl

@[simp] theorem read_closing (k : K) (w : List (Bracket K)) (stack : List K) :
    read (closing k :: w) (k :: stack) = read w stack := by
  rw [read, List.foldlM_cons, step, if_pos rfl]
  rfl

/-- A closing bracket that is read stands on top of the stack. -/
theorem exists_of_read_closing {k : K} {result : List K}
    (h : read (closing k :: w) stack = some result) :
    ∃ below, stack = k :: below ∧ read w below = some result := by
  cases stack with
  | nil => cases h
  | cons k' below =>
    rw [read, List.foldlM_cons, step] at h
    split at h
    · rename_i hk
      exact ⟨below, by rw [hk], h⟩
    · cases h

/-- A nested word leaves the stack as it was. -/
theorem read_nested (h : Nested w) (rest : List (Bracket K)) (stack : List K) :
    read (w ++ rest) stack = read rest stack := by
  induction h generalizing rest stack with
  | nil => rfl
  | @pair k inner behind _ _ hinner hbehind =>
    calc read (opening k :: inner ++ closing k :: behind ++ rest) stack
        = read (inner ++ closing k :: (behind ++ rest)) (k :: stack) := by simp
      _ = read (behind ++ rest) stack := by rw [hinner, read_closing]
      _ = read rest stack := hbehind rest stack

theorem Closes.read (h : Closes stack w) : read w stack = some [] := by
  induction stack generalizing w with
  | nil =>
    have hread := read_nested h [] []
    rwa [List.append_nil] at hread
  | cons k stack ih =>
    rcases h with ⟨inner, rest, rfl, hinner, hrest⟩
    rw [read_nested hinner, read_closing]
    exact ih hrest

/-- What empties the stack closes it: the first bracket is read, and the induction
hypothesis is about the stack behind it. -/
theorem closes_of_read (h : read w stack = some []) : Closes stack w := by
  induction w generalizing stack with
  | nil =>
    obtain rfl : stack = [] := Option.some.inj h
    exact Nested.nil
  | cons b w ih =>
    cases b with
    | opening k =>
      rcases ih h with ⟨inner, rest, rfl, hinner, hrest⟩
      have hpair := Closes.append (Nested.pair k hinner .nil) hrest
      simpa using hpair
    | closing k =>
      rcases exists_of_read_closing h with ⟨below, rfl, hread⟩
      exact ⟨[], w, rfl, .nil, ih hread⟩

theorem read_eq_nil_iff : read w stack = some [] ↔ Closes stack w :=
  ⟨closes_of_read, Closes.read⟩

end Stack

end Bracket

end InterviewPrep
