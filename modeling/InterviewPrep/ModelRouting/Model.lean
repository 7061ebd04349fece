import Mathlib.Algebra.Order.Group.Defs
import Mathlib.Data.Finset.Basic
import Mathlib.Data.List.Lex
import Mathlib.Data.Prod.Lex
import Mathlib.Data.String.Basic
import InterviewPrep.Lib.StableSort

/-!
# Model router decision function

`choose_model` of `technical/model_router_decision_function/answer.py`. The
numbers of a candidate and of a request come from one linear order with a
negation that reverses it. Python compares tuples lexicographically and strings
by code points, as the orders on `List`, `×ₗ` and `String` do, and `sorted` is
stable, as `List.insertionSort` is.
-/

namespace InterviewPrep.ModelRouting

/-- The numbers: a linear order, and `-x`, which reverses it. -/
class Numeric (N : Type*) [LinearOrder N] extends Neg N where
  neg_le_neg_iff (a b : N) : -a ≤ -b ↔ b ≤ a

-- only here: elsewhere a group keeps its own negation
scoped instance {N : Type*} [AddCommGroup N] [LinearOrder N] [IsOrderedAddMonoid N] :
    Numeric N where
  neg_le_neg_iff _ _ := neg_le_neg_iff

structure ModelCandidate (N : Type*) where
  id : String
  healthy : Bool
  allowed_tenants : Finset String
  regions : Finset String
  capabilities : Finset String
  max_context_tokens : N
  estimated_cost_usd : N
  estimated_latency_ms : N
  quality_score : N

structure RouteRequest (N : Type*) where
  tenant_id : String
  region : String
  required_capabilities : Finset String
  context_tokens : N
  max_cost_usd : N
  max_latency_ms : N

/-- The codes of a decision that fails. -/
inductive Code where
  | invalid_policy
  | no_eligible_model
deriving DecidableEq

/-- A decision: `ok` with the model and the reason's preference order, or a code. -/
inductive RouteResult (N : Type*) where
  | failed (code : Code)
  | ok (model : ModelCandidate N) (preference_order : List String)

section Program

variable {N : Type*} [LinearOrder N]

/-- The hard constraints, in the order of the loop's `continue`s. -/
def satisfies (request : RouteRequest N) (model : ModelCandidate N) : Bool :=
  if !model.healthy then false
  else if request.tenant_id ∉ model.allowed_tenants then false
  else if request.region ∉ model.regions then false
  else if ¬ request.required_capabilities ⊆ model.capabilities then false
  else if request.context_tokens > model.max_context_tokens then false
  else if model.estimated_cost_usd > request.max_cost_usd then false
  else if model.estimated_latency_ms > request.max_latency_ms then false
  else true

/-- `sort_key`: the values of the preferences, and the id behind them. -/
def sort_key [Numeric N] (preference_order : List String) (model : ModelCandidate N) :
    List N ×ₗ String :=
  toLex (preference_order.flatMap (fun preference =>
    if preference = "quality" then [-model.quality_score]
    else if preference = "cost" then [model.estimated_cost_usd]
    else if preference = "latency" then [model.estimated_latency_ms]
    else []), model.id)

/-- `sorted(models, key=sort_key)` -/
def sortedModels [Numeric N] (preference_order : List String)
    (models : List (ModelCandidate N)) : List (ModelCandidate N) :=
  models.insertionSort (fun a b => sort_key preference_order a ≤ sort_key preference_order b)

theorem sortedModels_perm [Numeric N] (preference_order : List String)
    (models : List (ModelCandidate N)) : (sortedModels preference_order models).Perm models :=
  List.perm_insertionSort _ _

theorem sortedModels_ne_nil [Numeric N] (preference_order : List String)
    {models : List (ModelCandidate N)} (h : models ≠ []) :
    sortedModels preference_order models ≠ [] :=
  StableSort.insertionSort_ne_nil _ h

/-- The policy is rejected. -/
def invalidPolicy (preference_order : List String) : Bool :=
  preference_order.count "quality" ≠ 1 || preference_order.count "cost" ≠ 1 ||
    preference_order.count "latency" ≠ 1 || preference_order.length ≠ 3

/-- `choose_model` -/
def choose_model [Numeric N] (request : RouteRequest N) (candidates : List (ModelCandidate N))
    (preference_order : List String) : RouteResult N :=
  if invalidPolicy preference_order then .failed .invalid_policy
  else
    let valid_models := candidates.filter (satisfies request)
    if h : valid_models = [] then .failed .no_eligible_model
    else
      .ok ((sortedModels preference_order valid_models).head
        (sortedModels_ne_nil preference_order h)) preference_order

end Program

end InterviewPrep.ModelRouting
