import Mathlib.Data.List.Forall2
import Mathlib.Data.List.Infix

/-!
# Postfix notation

Expressions over arbitrary operands and operators, and the stack machine that evaluates
their post-orders. From the stack of any state the machine evaluates an expression to its
value on top (`run_postorder`). Every list of tokens starts with the post-orders of
expressions, and behind them there is nothing, or an operator that lacks operands
(`exists_forest`). So the machine accepts exactly the post-orders of expressions that have
a value (`evaluate_eq_ok_iff`), and its failures are told apart (`evaluate_eq_error_iff`).
-/

namespace InterviewPrep.Postfix

variable {L O V W ε : Type*}

inductive Token (L O : Type*) where
  | operand (a : L)
  | operator (o : O)

inductive Expr (L O : Type*) where
  | leaf (a : L)
  | node (o : O) (left right : Expr L O)

/-- The tokens of an expression, each operator behind its operands. -/
def Expr.postorder : Expr L O → List (Token L O)
  | leaf a => [.operand a]
  | node o left right => left.postorder ++ (right.postorder ++ [.operator o])

/-- The tokens of several expressions, one expression after the other. -/
def postorders (forest : List (Expr L O)) : List (Token L O) := forest.flatMap Expr.postorder

theorem postorders_cons (t : Expr L O) (forest : List (Expr L O)) :
    postorders (t :: forest) = t.postorder ++ postorders forest := List.flatMap_cons

theorem postorders_append (forest forest' : List (Expr L O)) :
    postorders (forest ++ forest') = postorders forest ++ postorders forest' :=
  List.flatMap_append

/-- What operands and operators mean, and how an operator without operands fails. -/
structure Meaning (L O V ε : Type*) where
  value : L → Except ε V
  apply : O → V → V → Except ε V
  malformed : ε

/-- The value of an expression, its operands from left to right. -/
def Expr.eval (m : Meaning L O V ε) : Expr L O → Except ε V
  | leaf a => m.value a
  | node o left right => do
    let x ← left.eval m
    let y ← right.eval m
    m.apply o x y

theorem Expr.eval_node {m : Meaning L O V ε} {o : O} {left right : Expr L O} {x y : V}
    (hx : left.eval m = .ok x) (hy : right.eval m = .ok y) :
    (node o left right).eval m = m.apply o x y := by
  rw [Expr.eval, hx, hy]
  rfl

/-- The operands of an operator have values, or the first of them that has none fails. -/
theorem Expr.eval_node_cases (m : Meaning L O V ε) (o : O) (left right : Expr L O) :
    (∃ e, left.eval m = .error e ∧ (node o left right).eval m = .error e) ∨
    (∃ x e, left.eval m = .ok x ∧ right.eval m = .error e ∧
      (node o left right).eval m = .error e) ∨
    ∃ x y, left.eval m = .ok x ∧ right.eval m = .ok y ∧
      (node o left right).eval m = m.apply o x y := by
  rw [Expr.eval]
  cases left.eval m with
  | error e => exact Or.inl ⟨e, rfl, rfl⟩
  | ok x =>
    cases right.eval m with
    | error e => exact Or.inr (Or.inl ⟨x, e, rfl, rfl, rfl⟩)
    | ok y => exact Or.inr (Or.inr ⟨x, y, rfl, rfl, rfl⟩)

/-- The operands of an expression that has a value have values. -/
theorem Expr.exists_value {m : Meaning L O V ε} {t : Expr L O} {v : V} {a : L}
    (hv : t.eval m = .ok v) (ha : .operand a ∈ t.postorder) : ∃ x, m.value a = .ok x := by
  induction t generalizing v with
  | leaf b =>
    rw [Expr.postorder, List.mem_singleton, Token.operand.injEq] at ha
    exact ⟨v, ha ▸ hv⟩
  | node o left right ihl ihr =>
    rcases Expr.eval_node_cases m o left right with
      ⟨e, -, he⟩ | ⟨x, e, -, -, he⟩ | ⟨x, y, hx, hy, -⟩
    · rw [hv] at he
      cases he
    · rw [hv] at he
      cases he
    · rw [Expr.postorder, List.mem_append, List.mem_append, List.mem_singleton] at ha
      rcases ha with ha | ha | ha
      · exact ihl hx ha
      · exact ihr hy ha
      · cases ha

/-- Several expressions have values if each has one. -/
theorem mapM_eval_eq_ok_iff {m : Meaning L O V ε} {forest : List (Expr L O)} {values : List V} :
    forest.mapM (Expr.eval m) = .ok values ↔
      List.Forall₂ (fun t v => t.eval m = .ok v) forest values := by
  induction forest generalizing values with
  | nil =>
    rw [List.forall₂_nil_left_iff]
    exact ⟨fun h => (Except.ok.inj h).symm, fun h => congrArg Except.ok h.symm⟩
  | cons t forest ih =>
    rw [List.mapM_cons, List.forall₂_cons_left_iff]
    cases ht : t.eval m with
    | error e => simp [bind, Except.bind]
    | ok v =>
      cases hforest : forest.mapM (Expr.eval m) with
      | error e =>
        simp only [bind, Except.bind, reduceCtorEq, ← ih, hforest, false_and, and_false,
          exists_false]
      | ok vs =>
        simp only [← ih, hforest, bind, Except.bind, pure, Except.pure, Except.ok.injEq]
        constructor
        · intro h
          exact ⟨v, vs, rfl, rfl, h.symm⟩
        · rintro ⟨v', vs', rfl, rfl, rfl⟩
          rfl

theorem forall_exists_value_iff {m : Meaning L O V ε} {forest : List (Expr L O)} :
    (∀ t ∈ forest, ∃ v, t.eval m = .ok v) ↔
      ∃ values, forest.mapM (Expr.eval m) = .ok values := by
  simp only [mapM_eval_eq_ok_iff]
  constructor
  · intro h
    induction forest with
    | nil => exact ⟨[], .nil⟩
    | cons t forest ih =>
      rcases h t List.mem_cons_self with ⟨v, hv⟩
      rcases ih fun s hs => h s (List.mem_cons_of_mem t hs) with ⟨values, hvalues⟩
      exact ⟨v :: values, .cons hv hvalues⟩
  · rintro ⟨values, hvalues⟩
    induction hvalues with
    | nil => simp
    | cons hv _ ih => exact List.forall_mem_cons.mpr ⟨⟨_, hv⟩, ih⟩

/-! ## The machine -/

namespace Meaning

/-- An operand is put on the stack. An operator takes the two values on top. -/
def step (m : Meaning L O V ε) (stack : List V) : Token L O → Except ε (List V)
  | .operand a => (m.value a).map (· :: stack)
  | .operator o =>
    match stack with
    | right :: left :: stack => (m.apply o left right).map (· :: stack)
    | _ => .error m.malformed

def run (m : Meaning L O V ε) (tokens : List (Token L O)) (stack : List V) :
    Except ε (List V) :=
  tokens.foldlM m.step stack

/-- The only value on the stack. -/
def result (m : Meaning L O V ε) : List V → Except ε V
  | [v] => .ok v
  | _ => .error m.malformed

def evaluate (m : Meaning L O V ε) (tokens : List (Token L O)) : Except ε V :=
  m.run tokens [] >>= m.result

variable {m : Meaning L O V ε} {tokens : List (Token L O)}

theorem run_operand (m : Meaning L O V ε) (a : L) (rest : List (Token L O)) (stack : List V) :
    m.run (.operand a :: rest) stack = m.value a >>= fun v => m.run rest (v :: stack) := by
  rw [run, List.foldlM_cons, step]
  cases m.value a with
  | error e => rfl
  | ok v => rfl

theorem run_operator (m : Meaning L O V ε) (o : O) (rest : List (Token L O)) (x y : V)
    (stack : List V) :
    m.run (.operator o :: rest) (y :: x :: stack) =
      m.apply o x y >>= fun v => m.run rest (v :: stack) := by
  rw [run, List.foldlM_cons, step]
  cases m.apply o x y with
  | error e => rfl
  | ok v => rfl

/-- An operator that lacks operands stops the machine. -/
theorem run_underflow (m : Meaning L O V ε) (o : O) (rest : List (Token L O)) {stack : List V}
    (h : stack.length < 2) : m.run (.operator o :: rest) stack = .error m.malformed := by
  rw [run, List.foldlM_cons]
  match stack with
  | [] => rfl
  | [_] => rfl
  | _ :: _ :: _ => exact absurd h (by simp)

/-- An expression is evaluated on top of what the stack has. -/
theorem run_postorder (m : Meaning L O V ε) (t : Expr L O) (rest : List (Token L O))
    (stack : List V) :
    m.run (t.postorder ++ rest) stack = t.eval m >>= fun v => m.run rest (v :: stack) := by
  -- over the expression, because its operands are evaluated on larger stacks
  induction t generalizing rest stack with
  | leaf a => exact m.run_operand a rest stack
  | node o left right ihl ihr =>
    rw [Expr.postorder, List.append_assoc, List.append_assoc, ihl]
    simp only [ihr, List.singleton_append, run_operator, Expr.eval, bind_assoc]

/-- Several expressions are evaluated one after the other. -/
theorem run_postorders (m : Meaning L O V ε) (forest : List (Expr L O))
    (rest : List (Token L O)) (stack : List V) :
    m.run (postorders forest ++ rest) stack =
      forest.mapM (Expr.eval m) >>= fun values => m.run rest (values.reverse ++ stack) := by
  induction forest generalizing stack with
  | nil => simp [postorders]
  | cons t forest ih =>
    rw [postorders_cons, List.append_assoc, run_postorder]
    simp only [ih, List.mapM_cons, bind_assoc, pure_bind, List.reverse_cons,
      List.append_assoc, List.singleton_append]

end Meaning

/-! ## Expressions in front -/

/-- Every list of tokens starts with expressions. Behind them it ends, or an operator
lacks operands. -/
theorem exists_forest (tokens : List (Token L O)) :
    ∃ forest rest, tokens = postorders forest ++ rest ∧
      (rest = [] ∨ ∃ o rest', rest = .operator o :: rest' ∧ forest.length < 2) := by
  -- the expressions so far stand in front, the last one first
  suffices h : ∀ front : List (Expr L O), ∃ forest rest,
      postorders front.reverse ++ tokens = postorders forest ++ rest ∧
        (rest = [] ∨ ∃ o rest', rest = .operator o :: rest' ∧ forest.length < 2) from h []
  induction tokens with
  | nil => exact fun front => ⟨front.reverse, [], rfl, Or.inl rfl⟩
  | cons token tokens ih =>
    intro front
    cases token with
    | operand a =>
      rcases ih (.leaf a :: front) with ⟨forest, rest, heq, hrest⟩
      refine ⟨forest, rest, ?_, hrest⟩
      rw [← heq, List.reverse_cons, postorders_append, List.append_assoc]
      rfl
    | operator o =>
      -- the operator takes the last two expressions, if there are two
      match front with
      | [] => exact ⟨[], .operator o :: tokens, rfl, Or.inr ⟨o, tokens, rfl, by simp⟩⟩
      | [t] => exact ⟨[t], .operator o :: tokens, rfl, Or.inr ⟨o, tokens, rfl, by simp⟩⟩
      | right :: left :: front =>
        rcases ih (.node o left right :: front) with ⟨forest, rest, heq, hrest⟩
        refine ⟨forest, rest, ?_, hrest⟩
        rw [← heq]
        simp [postorders, Expr.postorder]

namespace Meaning

/-! ## What the machine accepts -/

theorem evaluate_postorder (m : Meaning L O V ε) (t : Expr L O) :
    m.evaluate t.postorder = t.eval m := by
  have hrun := m.run_postorder t [] []
  rw [List.append_nil] at hrun
  rw [evaluate, hrun, bind_assoc]
  cases t.eval m with
  | error e => rfl
  | ok v => rfl

/-- Expressions are built from operands and operators. -/
def build : Meaning L O (Expr L O) Unit where
  value a := .ok (.leaf a)
  apply o left right := .ok (.node o left right)
  malformed := ()

theorem eval_build (t : Expr L O) : t.eval build = .ok t := by
  induction t with
  | leaf a => rfl
  | node o left right ihl ihr =>
    rw [Expr.eval, ihl, ihr]
    rfl

/-- Expressions are told apart by their post-orders. -/
theorem postorder_injective :
    Function.Injective (Expr.postorder : Expr L O → List (Token L O)) := by
  intro t t' h
  have hbuild := build.evaluate_postorder t
  rw [h, evaluate_postorder, eval_build, eval_build] at hbuild
  exact (Except.ok.inj hbuild).symm

/-- What is not the post-order of an expression fails, in one of the expressions it
starts with or behind them. -/
theorem evaluate_of_forall_ne (m : Meaning L O V ε) {tokens : List (Token L O)}
    (h : ∀ t : Expr L O, t.postorder ≠ tokens) :
    ∃ forest, postorders forest <+: tokens ∧
      m.evaluate tokens = forest.mapM (Expr.eval m) >>= fun _ => .error m.malformed := by
  rcases exists_forest tokens with ⟨forest, rest, rfl, hrest⟩
  refine ⟨forest, List.prefix_append _ _, ?_⟩
  rw [evaluate, run_postorders, bind_assoc]
  cases hvalues : forest.mapM (Expr.eval m) with
  | error e => rfl
  | ok values =>
    have hlength : forest.length = values.length := (mapM_eval_eq_ok_iff.mp hvalues).length_eq
    show m.run rest (values.reverse ++ []) >>= m.result = .error m.malformed
    rw [List.append_nil]
    rcases hrest with rfl | ⟨o, rest', rfl, hlt⟩
    · -- the stack has not one value, because the list is not one expression
      have hne : values.reverse.length ≠ 1 := by
        intro hone
        rw [List.length_reverse, ← hlength] at hone
        rcases List.length_eq_one_iff.mp hone with ⟨t, rfl⟩
        exact h t (by simp [postorders])
      show m.result values.reverse = .error m.malformed
      match hstack : values.reverse with
      | [] => rfl
      | [_] => simp [hstack] at hne
      | _ :: _ :: _ => rfl
    · -- the operator that lacks operands
      have hstack : values.reverse.length < 2 := by
        rw [List.length_reverse, ← hlength]
        exact hlt
      rw [run_underflow m o rest' hstack]
      rfl

/-- The tokens start with expressions of which the first that has no value fails
with `e`. -/
def Aborts (m : Meaning L O V ε) (tokens : List (Token L O)) (e : ε) : Prop :=
  ∃ forest, postorders forest <+: tokens ∧ forest.mapM (Expr.eval m) = .error e

variable {m : Meaning L O V ε} {tokens : List (Token L O)}

theorem evaluate_of_aborts {e : ε} (h : m.Aborts tokens e) : m.evaluate tokens = .error e := by
  rcases h with ⟨forest, ⟨rest, rfl⟩, hvalues⟩
  rw [evaluate, run_postorders, hvalues]
  rfl

/-- The machine accepts exactly the post-orders of expressions that have a value. -/
theorem evaluate_eq_ok_iff {v : V} :
    m.evaluate tokens = .ok v ↔ ∃ t : Expr L O, t.postorder = tokens ∧ t.eval m = .ok v := by
  constructor
  · intro h
    by_cases htree : ∃ t : Expr L O, t.postorder = tokens
    · rcases htree with ⟨t, rfl⟩
      rw [evaluate_postorder] at h
      exact ⟨t, rfl, h⟩
    · rcases m.evaluate_of_forall_ne (not_exists.mp htree) with ⟨forest, -, hfails⟩
      rw [hfails] at h
      cases hvalues : forest.mapM (Expr.eval m) with
      | error e => simp [hvalues, bind, Except.bind] at h
      | ok values => simp [hvalues, bind, Except.bind] at h
  · rintro ⟨t, rfl, hv⟩
    rw [evaluate_postorder, hv]

/-- The machine fails in an expression, or because the tokens are not those of one. -/
theorem evaluate_eq_error_iff {e : ε} :
    m.evaluate tokens = .error e ↔ m.Aborts tokens e ∨
      e = m.malformed ∧ (∀ t : Expr L O, t.postorder ≠ tokens) ∧ ∀ e', ¬ m.Aborts tokens e' := by
  constructor
  · intro h
    -- failing expressions come first: behind them nothing is read
    by_cases habort : ∃ e', m.Aborts tokens e'
    · rcases habort with ⟨e', habort⟩
      rw [evaluate_of_aborts habort, Except.error.injEq] at h
      exact Or.inl (h ▸ habort)
    · have hnone : ∀ e', ¬ m.Aborts tokens e' := not_exists.mp habort
      have htree : ∀ t : Expr L O, t.postorder ≠ tokens := by
        rintro t rfl
        rw [evaluate_postorder] at h
        exact hnone e ⟨[t], by simp [postorders], by simp [h, bind, Except.bind]⟩
      rcases m.evaluate_of_forall_ne htree with ⟨forest, hstart, hfails⟩
      rw [hfails] at h
      cases hvalues : forest.mapM (Expr.eval m) with
      | error e' => exact absurd ⟨forest, hstart, hvalues⟩ (hnone e')
      | ok values =>
        rw [hvalues] at h
        exact Or.inr ⟨(Except.error.inj h).symm, htree, hnone⟩
  · rintro (habort | ⟨rfl, htree, hnone⟩)
    · exact evaluate_of_aborts habort
    · rcases m.evaluate_of_forall_ne htree with ⟨forest, hstart, hfails⟩
      rw [hfails]
      cases hvalues : forest.mapM (Expr.eval m) with
      | error e' => exact absurd ⟨forest, hstart, hvalues⟩ (hnone e')
      | ok values => rfl

/-! ## What the machine comes to -/

/-- The machine comes to an expression of the tokens: those in front of it have values. -/
def Reaches (m : Meaning L O V ε) (tokens : List (Token L O)) (t : Expr L O) : Prop :=
  ∃ forest, (∀ s ∈ forest, ∃ v, s.eval m = .ok v) ∧ postorders (forest ++ [t]) <+: tokens

/-- A value is an operand or an intermediate result. -/
def Computes (m : Meaning L O V ε) (tokens : List (Token L O)) (v : V) : Prop :=
  ∃ t, m.Reaches tokens t ∧ t.eval m = .ok v

/-- An operator is applied to two values. -/
def Applies (m : Meaning L O V ε) (tokens : List (Token L O)) (o : O) (x y : V) : Prop :=
  ∃ left right, m.Reaches tokens (.node o left right) ∧ left.eval m = .ok x ∧
    right.eval m = .ok y

theorem reaches_postorder (m : Meaning L O V ε) (t : Expr L O) : m.Reaches t.postorder t :=
  ⟨[], by simp, by simp [postorders]⟩

theorem reaches_of_front {front forest : List (Expr L O)} {t : Expr L O}
    (hfront : ∀ s ∈ front, ∃ v, s.eval m = .ok v)
    (hstart : postorders (front ++ t :: forest) <+: tokens) : m.Reaches tokens t := by
  refine ⟨front, hfront, List.IsPrefix.trans ?_ hstart⟩
  simp [postorders]

theorem forall_mem_concat {forest : List (Expr L O)} {t : Expr L O} {v : V}
    (h : ∀ s ∈ forest, ∃ v, s.eval m = .ok v) (ht : t.eval m = .ok v) :
    ∀ s ∈ forest ++ [t], ∃ v, s.eval m = .ok v := by
  intro s hs
  rcases List.mem_append.mp hs with hs | hs
  · exact h s hs
  · exact ⟨v, List.mem_singleton.mp hs ▸ ht⟩

theorem Reaches.operand_mem {a : L} (h : m.Reaches tokens (.leaf a)) : .operand a ∈ tokens := by
  rcases h with ⟨forest, -, hstart⟩
  exact hstart.subset (by simp [postorders, Expr.postorder])

theorem Reaches.left {o : O} {left right : Expr L O}
    (h : m.Reaches tokens (.node o left right)) : m.Reaches tokens left := by
  rcases h with ⟨forest, hvalues, hstart⟩
  refine ⟨forest, hvalues, List.IsPrefix.trans ?_ hstart⟩
  simp [postorders, Expr.postorder]

theorem Reaches.right {o : O} {left right : Expr L O} {x : V}
    (h : m.Reaches tokens (.node o left right)) (hx : left.eval m = .ok x) :
    m.Reaches tokens right := by
  rcases h with ⟨forest, hvalues, hstart⟩
  refine ⟨forest ++ [left], forall_mem_concat hvalues hx, List.IsPrefix.trans ?_ hstart⟩
  simp [postorders, Expr.postorder]

theorem Applies.computes_left {o : O} {x y : V} (h : m.Applies tokens o x y) :
    m.Computes tokens x := by
  rcases h with ⟨left, right, hreach, hx, -⟩
  exact ⟨left, hreach.left, hx⟩

theorem Applies.computes_right {o : O} {x y : V} (h : m.Applies tokens o x y) :
    m.Computes tokens y := by
  rcases h with ⟨left, right, hreach, hx, hy⟩
  exact ⟨right, hreach.right hx, hy⟩

theorem Applies.computes {o : O} {x y v : V} (h : m.Applies tokens o x y)
    (hv : m.apply o x y = .ok v) : m.Computes tokens v := by
  rcases h with ⟨left, right, hreach, hx, hy⟩
  exact ⟨.node o left right, hreach, (Expr.eval_node hx hy).trans hv⟩

/-- What is computed is put on the stack. -/
theorem Computes.exists_run {v : V} (h : m.Computes tokens v) :
    ∃ done stack, done <+: tokens ∧ m.run done [] = .ok (v :: stack) := by
  rcases h with ⟨t, ⟨forest, hforest, hstart⟩, hv⟩
  rcases forall_exists_value_iff.mp hforest with ⟨values, hvalues⟩
  refine ⟨postorders (forest ++ [t]), values.reverse, hstart, ?_⟩
  have hrun := m.run_postorders (forest ++ [t]) [] []
  rw [List.append_nil] at hrun
  rw [hrun, List.mapM_append, hvalues]
  simp [hv, bind, Except.bind, pure, Except.pure, run]

/-- A property of all stacks, which are finitely many, is one of all that is computed. -/
theorem Computes.of_stacks {P : V → Prop} {v : V} (h : m.Computes tokens v)
    (hstacks : ∀ done ∈ tokens.inits, ∀ stack ∈ (m.run done []).toOption, ∀ w ∈ stack, P w) :
    P v := by
  rcases h.exists_run with ⟨done, stack, hstart, hrun⟩
  refine hstacks done ((List.mem_inits done tokens).mpr hstart) (v :: stack) ?_ v
    List.mem_cons_self
  rw [hrun]
  rfl

/-- Where an expression fails, an operand or an operator fails. -/
theorem Reaches.exists_failure {t : Expr L O} {e : ε} (h : m.Reaches tokens t)
    (he : t.eval m = .error e) :
    (∃ a, m.Reaches tokens (.leaf a) ∧ m.value a = .error e) ∨
      ∃ o x y, m.Applies tokens o x y ∧ m.apply o x y = .error e := by
  induction t with
  | leaf a => exact Or.inl ⟨a, h, he⟩
  | node o left right ihl ihr =>
    rcases Expr.eval_node_cases m o left right with
      ⟨e', hx, he'⟩ | ⟨x, e', hx, hy, he'⟩ | ⟨x, y, hx, hy, hnode⟩
    -- the failure is inside an operand, or it is that of the operator
    · exact ihl h.left (hx.trans (he'.symm.trans he))
    · exact ihr (h.right hx) (hy.trans (he'.symm.trans he))
    · exact Or.inr ⟨o, x, y, ⟨left, right, h, hx, hy⟩, hnode.symm.trans he⟩

/-- An expression that the machine comes to and that fails makes it fail. -/
theorem Reaches.aborts {t : Expr L O} {e : ε} (h : m.Reaches tokens t)
    (he : t.eval m = .error e) : m.Aborts tokens e := by
  rcases h with ⟨forest, hvalues, hstart⟩
  rcases forall_exists_value_iff.mp hvalues with ⟨values, hforest⟩
  refine ⟨forest ++ [t], hstart, ?_⟩
  rw [List.mapM_append, hforest]
  simp [he, bind, Except.bind]

/-- Of the expressions that follow on ones that have values, the machine comes to the first
one that fails. -/
theorem exists_failing {e : ε} (front forest : List (Expr L O))
    (hfront : ∀ s ∈ front, ∃ v, s.eval m = .ok v)
    (hstart : postorders (front ++ forest) <+: tokens)
    (he : forest.mapM (Expr.eval m) = .error e) :
    ∃ t, m.Reaches tokens t ∧ t.eval m = .error e := by
  induction forest generalizing front with
  | nil => cases he
  | cons t forest ih =>
    have hreach : m.Reaches tokens t := reaches_of_front hfront hstart
    rw [List.mapM_cons] at he
    cases ht : t.eval m with
    | error e' =>
      rw [ht] at he
      exact ⟨t, hreach, ht.trans (congrArg Except.error (Except.error.inj he))⟩
    | ok v =>
      cases hforest : forest.mapM (Expr.eval m) with
      | error e' =>
        rw [ht, hforest] at he
        apply ih (front ++ [t]) (forall_mem_concat hfront ht)
        · rwa [List.append_assoc]
        · exact hforest.trans (congrArg Except.error (Except.error.inj he))
      | ok values =>
        rw [ht, hforest] at he
        cases he

/-- The machine fails in an expression if it comes to an operand or an operator that
fails. -/
theorem aborts_iff {e : ε} :
    m.Aborts tokens e ↔ (∃ a, m.Reaches tokens (.leaf a) ∧ m.value a = .error e) ∨
      ∃ o x y, m.Applies tokens o x y ∧ m.apply o x y = .error e := by
  constructor
  · rintro ⟨forest, hstart, hfails⟩
    rcases exists_failing [] forest (by simp) hstart hfails with ⟨t, hreach, he⟩
    exact hreach.exists_failure he
  · rintro (⟨a, hreach, he⟩ | ⟨o, x, y, ⟨left, right, hreach, hx, hy⟩, he⟩)
    · exact hreach.aborts he
    · exact hreach.aborts ((Expr.eval_node hx hy).trans he)

/-! ## Two meanings -/

section Map

variable {n : Meaning L O W ε} {f : V → W}

/-- One meaning is another one seen through `f`, as far as the values that are computed
of these tokens. -/
structure Agree (m : Meaning L O V ε) (n : Meaning L O W ε) (f : V → W)
    (tokens : List (Token L O)) : Prop where
  value : ∀ a, m.Reaches tokens (.leaf a) → n.value a = (m.value a).map f
  apply : ∀ o x y, m.Applies tokens o x y → n.apply o (f x) (f y) = (m.apply o x y).map f
  malformed : n.malformed = m.malformed

theorem Agree.eval (h : Agree m n f tokens) {t : Expr L O} (hreach : m.Reaches tokens t) :
    t.eval n = (t.eval m).map f := by
  induction t with
  | leaf a => exact h.value a hreach
  | node o left right ihl ihr =>
    have hleft := ihl hreach.left
    rcases Expr.eval_node_cases m o left right with
      ⟨e, hx, he⟩ | ⟨x, e, hx, hy, he⟩ | ⟨x, y, hx, hy, hnode⟩
    · rw [hx] at hleft
      rw [he, Expr.eval, hleft]
      rfl
    · have hright := ihr (hreach.right hx)
      rw [hx] at hleft
      rw [hy] at hright
      rw [he, Expr.eval, hleft]
      show right.eval n >>= _ = _
      rw [hright]
      rfl
    · have hright := ihr (hreach.right hx)
      rw [hx] at hleft
      rw [hy] at hright
      rw [hnode, Expr.eval_node hleft hright]
      exact h.apply o x y ⟨left, right, hreach, hx, hy⟩

theorem Agree.mapM_eval (h : Agree m n f tokens) {forest : List (Expr L O)}
    (hstart : postorders forest <+: tokens) :
    forest.mapM (Expr.eval n) = (forest.mapM (Expr.eval m)).map (List.map f) := by
  -- the expressions in front of the rest have values
  suffices hrest : ∀ front : List (Expr L O), (∀ s ∈ front, ∃ v, s.eval m = .ok v) →
      postorders (front ++ forest) <+: tokens →
      forest.mapM (Expr.eval n) = (forest.mapM (Expr.eval m)).map (List.map f) from
    hrest [] (by simp) hstart
  clear hstart
  induction forest with
  | nil => exact fun _ _ _ => rfl
  | cons t forest ih =>
    intro front hfront hstart
    rw [List.mapM_cons, List.mapM_cons, h.eval (reaches_of_front hfront hstart)]
    cases ht : t.eval m with
    | error e => rfl
    | ok v =>
      rw [ih (front ++ [t]) (forall_mem_concat hfront ht) (by rwa [List.append_assoc])]
      cases forest.mapM (Expr.eval m) with
      | error e => rfl
      | ok values => rfl

theorem Agree.aborts_iff (h : Agree m n f tokens) {e : ε} :
    n.Aborts tokens e ↔ m.Aborts tokens e := by
  constructor
  · rintro ⟨forest, hstart, he⟩
    rw [h.mapM_eval hstart] at he
    cases hvalues : forest.mapM (Expr.eval m) with
    | error e' =>
      rw [hvalues] at he
      exact ⟨forest, hstart, hvalues.trans (congrArg Except.error (Except.error.inj he))⟩
    | ok values =>
      rw [hvalues] at he
      cases he
  · rintro ⟨forest, hstart, he⟩
    refine ⟨forest, hstart, ?_⟩
    rw [h.mapM_eval hstart, he]
    rfl

/-- The machine comes to the same expressions with both meanings. -/
theorem Agree.reaches_iff (h : Agree m n f tokens) {t : Expr L O} :
    n.Reaches tokens t ↔ m.Reaches tokens t := by
  have hvalues : ∀ forest, postorders (forest ++ [t]) <+: tokens →
      ((∀ s ∈ forest, ∃ w, s.eval n = .ok w) ↔ ∀ s ∈ forest, ∃ v, s.eval m = .ok v) := by
    intro forest hstart
    have hfront : postorders forest <+: tokens := by
      rw [postorders_append] at hstart
      exact (List.prefix_append _ _).trans hstart
    rw [forall_exists_value_iff, forall_exists_value_iff, h.mapM_eval hfront]
    cases forest.mapM (Expr.eval m) with
    | error e => simp [Except.map]
    | ok values => simp [Except.map]
  constructor
  · rintro ⟨forest, hforest, hstart⟩
    exact ⟨forest, (hvalues forest hstart).mp hforest, hstart⟩
  · rintro ⟨forest, hforest, hstart⟩
    exact ⟨forest, (hvalues forest hstart).mpr hforest, hstart⟩

theorem Agree.exists_value (h : Agree m n f tokens) {t : Expr L O} {w : W}
    (hreach : m.Reaches tokens t) (hw : t.eval n = .ok w) : ∃ v, t.eval m = .ok v ∧ f v = w := by
  rw [h.eval hreach] at hw
  cases hv : t.eval m with
  | error e =>
    rw [hv] at hw
    cases hw
  | ok v =>
    rw [hv] at hw
    exact ⟨v, rfl, Except.ok.inj hw⟩

/-- The values that an operator is applied to are those of the other meaning. -/
theorem Agree.exists_applies (h : Agree m n f tokens) {o : O} {x' y' : W}
    (happlies : n.Applies tokens o x' y') :
    ∃ x y, m.Applies tokens o x y ∧ f x = x' ∧ f y = y' := by
  rcases happlies with ⟨left, right, hreach, hx', hy'⟩
  have hnode := h.reaches_iff.mp hreach
  rcases h.exists_value hnode.left hx' with ⟨x, hx, rfl⟩
  rcases h.exists_value (hnode.right hx) hy' with ⟨y, hy, rfl⟩
  exact ⟨x, y, ⟨left, right, hnode, hx, hy⟩, rfl, rfl⟩

/-- The machine computes the same with both meanings. -/
theorem Agree.evaluate (h : Agree m n f tokens) :
    n.evaluate tokens = (m.evaluate tokens).map f := by
  by_cases htree : ∃ t : Expr L O, t.postorder = tokens
  · rcases htree with ⟨t, rfl⟩
    rw [evaluate_postorder, evaluate_postorder, h.eval (m.reaches_postorder t)]
  · -- no expression, so both fail, and in the same way
    cases hm : m.evaluate tokens with
    | ok v =>
      rcases evaluate_eq_ok_iff.mp hm with ⟨t, ht, -⟩
      exact absurd ⟨t, ht⟩ htree
    | error e =>
      show n.evaluate tokens = .error e
      rw [evaluate_eq_error_iff, h.aborts_iff]
      rcases evaluate_eq_error_iff.mp hm with habort | ⟨he, hne, hnone⟩
      · exact Or.inl habort
      · exact Or.inr ⟨he.trans h.malformed.symm, hne, fun e' he' =>
          hnone e' (h.aborts_iff.mp he')⟩

end Map

end Meaning

end InterviewPrep.Postfix
