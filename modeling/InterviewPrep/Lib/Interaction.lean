import Mathlib.Logic.Basic

/-!
# Programs that ask their environment

A sequential program that calls out, to a service, a clock or a cancellation
flag, is a tree: at each node it asks a query and goes on with the answer.
`Program A α` is such a tree, where `A q` is the type of the answers to the
query `q`. What happened in a run is its trace, the queries with the answers
they received; `Runs p tr a` says that `p` can ask its way through `tr` and end
with `a`. A property of all runs is then a property for every environment and
for every moment at which the environment changes its mind.
-/

namespace InterviewPrep

universe u v w

/-- A program with queries `Q`, answers `A` and results `α`. -/
inductive Program {Q : Type u} (A : Q → Type v) (α : Type w) where
  | pure (a : α)
  | query (q : Q) (k : A q → Program A α)

namespace Program

variable {Q : Type u} {A : Q → Type v} {α β : Type w}

/-- Run a program and continue with its result. -/
protected def bind : Program A α → (α → Program A β) → Program A β
  | pure a, f => f a
  | query q k, f => query q (fun x => (k x).bind f)

instance : Monad (Program (Q := Q) A) where
  pure := Program.pure
  bind := Program.bind

/-- Ask one query. -/
def ask (A : Q → Type v) (q : Q) : Program A (A q) := query q pure

/-- `p` asks exactly the queries of `tr`, receives the answers of `tr`, and
ends with `a`. -/
def Runs : Program A α → List (Sigma A) → α → Prop
  | pure b, tr, a => tr = [] ∧ a = b
  | query q k, tr, a => ∃ x tr', tr = ⟨q, x⟩ :: tr' ∧ (k x).Runs tr' a

@[simp] theorem runs_pure {a b : α} {tr : List (Sigma A)} :
    (Pure.pure b : Program A α).Runs tr a ↔ tr = [] ∧ a = b := Iff.rfl

/-- A run of a sequence splits at the end of its first part. -/
theorem runs_bind {p : Program A α} {f : α → Program A β} {tr : List (Sigma A)} {b : β} :
    (p >>= f).Runs tr b ↔
      ∃ tr₁ tr₂ a, tr = tr₁ ++ tr₂ ∧ p.Runs tr₁ a ∧ (f a).Runs tr₂ b := by
  change (p.bind f).Runs tr b ↔ _
  induction p generalizing tr with
  | pure c =>
    constructor
    · intro h
      exact ⟨[], tr, c, rfl, ⟨rfl, rfl⟩, h⟩
    · rintro ⟨tr₁, tr₂, a, rfl, ⟨rfl, rfl⟩, h⟩
      exact h
  | query q k ih =>
    constructor
    · rintro ⟨x, tr', rfl, h⟩
      rcases (ih x).mp h with ⟨tr₁, tr₂, a, rfl, h₁, h₂⟩
      exact ⟨⟨q, x⟩ :: tr₁, tr₂, a, rfl, ⟨x, tr₁, rfl, h₁⟩, h₂⟩
    · rintro ⟨tr₁, tr₂, a, rfl, ⟨x, tr', rfl, h₁⟩, h₂⟩
      exact ⟨x, tr' ++ tr₂, rfl, (ih x).mpr ⟨tr', tr₂, a, rfl, h₁, h₂⟩⟩

end Program

section Ask

variable {Q : Type u} {A : Q → Type v} {β : Type v}

/-- One query is one exchange. -/
@[simp] theorem Program.runs_ask {q : Q} {tr : List (Sigma A)} {x : A q} :
    (Program.ask A q).Runs tr x ↔ tr = [⟨q, x⟩] := by
  constructor
  · rintro ⟨y, tr', rfl, rfl, rfl⟩
    rfl
  · rintro rfl
    exact ⟨x, [], rfl, rfl, rfl⟩

/-- A run that starts with a query starts with its exchange. -/
@[simp] theorem Program.runs_ask_bind {q : Q} {f : A q → Program A β}
    {tr : List (Sigma A)} {b : β} :
    (Program.ask A q >>= f).Runs tr b ↔
      ∃ x tr', tr = ⟨q, x⟩ :: tr' ∧ (f x).Runs tr' b := Iff.rfl

end Ask

/-! ## Positions in a trace -/

section Positions

variable {β : Type u}

/-- A position in a non-empty list is its head or a position in its tail. -/
@[simp] theorem cons_eq_split_iff {e x : β} {tr pre post : List β} :
    e :: tr = pre ++ x :: post ↔
      (pre = [] ∧ e = x ∧ tr = post) ∨ ∃ pre', pre = e :: pre' ∧ tr = pre' ++ x :: post := by
  cases pre with
  | nil => simp
  | cons a pre =>
    simp only [List.cons_append, List.cons.injEq, reduceCtorEq, false_and, false_or]
    constructor
    · rintro ⟨rfl, rfl⟩
      exact ⟨pre, ⟨rfl, rfl⟩, rfl⟩
    · rintro ⟨pre', ⟨rfl, rfl⟩, rfl⟩
      exact ⟨rfl, rfl⟩

end Positions

end InterviewPrep
