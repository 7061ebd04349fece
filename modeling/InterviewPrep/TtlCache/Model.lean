import Mathlib.Algebra.Order.Ring.Rat
import InterviewPrep.Lib.Machine
import InterviewPrep.Lib.OrderedDict

/-!
# TTL cache

The class `TTLCache` of `technical/ttl_cache/cache.py` (`answer.py` is the same
text). Every public operation runs under one lock, so an operation is one step
and a run is a sequence of operations. The readings of `time.monotonic` are
arguments of the operations: one for the lookup and one for the store.

`None` is not a cacheable value, so the values are those of a type `V` and a
lookup answers in `Option V`. Times and TTLs are exact numbers.
-/

namespace InterviewPrep.TtlCache

/-- `CacheItem` -/
structure CacheItem (V : Type*) where
  value : V
  expiry : ℚ
deriving DecidableEq

/-- The arguments of the constructor, with its defaults. -/
structure Options where
  capacity : ℤ := 100
  default_ttl_seconds : ℚ := 90

/-- The mutable fields of `TTLCache`. -/
structure TTLCache (V : Type*) where
  cache : OrderedDict String (CacheItem V)
  hits : ℕ
  misses : ℕ

/-- What `next(iter({}))` raises. -/
inductive StopIteration where
  | stopIteration
deriving DecidableEq

/-- The exceptions an operation can leave with: that of an empty iterator, or
whatever the factory raises. -/
inductive Raised (Err : Type*) where
  | iterator (e : StopIteration)
  | factory (err : Err)
deriving DecidableEq

variable {V Err : Type*}

namespace TTLCache

def new : TTLCache V where
  cache := OrderedDict.empty
  hits := 0
  misses := 0

/-- The item `_set` stores: the TTL runs from the reading `now`. -/
def newItem (o : Options) (value : V) (ttl_seconds : Option ℚ) (now : ℚ) : CacheItem V where
  value := value
  expiry := now + ttl_seconds.getD o.default_ttl_seconds

/-- `_set`, reading the clock as `now`. -/
def _set (o : Options) (c : TTLCache V) (key : String) (value : V) (ttl_seconds : Option ℚ)
    (now : ℚ) : TTLCache V × Except StopIteration Unit :=
  let item := newItem o value ttl_seconds now
  let cache := c.cache.pop key
  if (cache.length : ℤ) ≥ o.capacity then
    match cache.firstKey? with
    | none => ({ c with cache := cache }, .error .stopIteration)
    | some lru_key =>
      -- evict the least recently used item, the first in insertion order
      ({ c with cache := (cache.pop lru_key).setItem key item }, .ok ())
  else
    ({ c with cache := cache.setItem key item }, .ok ())

/-- `_get`, reading the clock as `now`. -/
def _get (c : TTLCache V) (key : String) (now : ℚ) : TTLCache V × Option V :=
  match c.cache.get? key with
  | none => ({ c with misses := c.misses + 1 }, none)
  | some item =>
    if now > item.expiry then
      ({ c with cache := c.cache.pop key, misses := c.misses + 1 }, none)
    else
      -- popped and inserted again: the item becomes the most recent one
      ({ c with cache := (c.cache.pop key).setItem key item, hits := c.hits + 1 },
        some item.value)

/-- `get_or_set`; the lookup reads the clock as `t₁`, the store as `t₂`, and
`factory` is what the supplied factory does when it is called. -/
def get_or_set (o : Options) (c : TTLCache V) (key : String) (ttl_seconds : ℚ)
    (factory : Except Err V) (t₁ t₂ : ℚ) : TTLCache V × Except (Raised Err) V :=
  match c._get key t₁ with
  | (c₁, some val) => (c₁, .ok val)
  | (c₁, none) =>
    match factory with
    | .error err => (c₁, .error (.factory err))
    | .ok new_val =>
      match c₁._set o key new_val (some ttl_seconds) t₂ with
      | (c₂, .ok ()) => (c₂, .ok new_val)
      | (c₂, .error e) => (c₂, .error (.iterator e))

/-- `delete` -/
def delete (c : TTLCache V) (key : String) : TTLCache V :=
  { c with cache := c.cache.pop key }

end TTLCache

/-! ## Runs -/

/-- The public operations, with the readings of the clock. -/
inductive Op (V Err : Type*) where
  | set (key : String) (value : V) (ttl_seconds : Option ℚ) (now : ℚ)
  | get (key : String) (now : ℚ)
  | get_or_set (key : String) (ttl_seconds : ℚ) (factory : Except Err V) (t₁ t₂ : ℚ)
  | delete (key : String)
  | stats

/-- What an operation does: a lookup hits or misses, a value is stored under a
TTL, a key is deleted, an exception leaves the operation. -/
inductive Obs (V Err : Type*) where
  | hit (key : String) (value : V) (now : ℚ)
  | missed (key : String) (now : ℚ)
  | stored (key : String) (value : V) (now ttl : ℚ)
  | deleted (key : String)
  | raised (e : Raised Err)
  | stats (hits misses : ℕ)
deriving DecidableEq

/-- How a store ends. -/
def storeObs (key : String) (value : V) (now ttl : ℚ) :
    Except StopIteration Unit → Obs V Err
  | .ok () => .stored key value now ttl
  | .error e => .raised (.iterator e)

/-- One operation under the lock. -/
def step (o : Options) (c : TTLCache V) : Op V Err → TTLCache V × List (Obs V Err)
  | .set key value ttl now =>
    let r := c._set o key value ttl now
    (r.1, [storeObs key value now (ttl.getD o.default_ttl_seconds) r.2])
  | .get key now =>
    match c._get key now with
    | (c', some v) => (c', [.hit key v now])
    | (c', none) => (c', [.missed key now])
  | .get_or_set key ttl factory t₁ t₂ =>
    let r := c.get_or_set o key ttl factory t₁ t₂
    match (c._get key t₁).2, r.2 with
    | some v, _ => (r.1, [.hit key v t₁])
    | none, .ok v => (r.1, [.missed key t₁, .stored key v t₂ ttl])
    | none, .error e => (r.1, [.missed key t₁, .raised e])
  | .delete key => (c.delete key, [.deleted key])
  | .stats => (c, [.stats c.hits c.misses])

/-- All sequences of operations on a new cache. -/
def machine (o : Options) : Machine (TTLCache V) (Op V Err) (Obs V Err) where
  init := TTLCache.new
  step c op := some (step o c op)

/-! ## What each function does -/

/-- The three ways through `_get`. -/
theorem _get_cases (c : TTLCache V) (key : String) (now : ℚ) :
    (c.cache.get? key = none ∧
      c._get key now = ({ c with misses := c.misses + 1 }, none)) ∨
    (∃ item, c.cache.get? key = some item ∧ item.expiry < now ∧
      c._get key now = ({ c with cache := c.cache.pop key, misses := c.misses + 1 }, none)) ∨
    (∃ item, c.cache.get? key = some item ∧ now ≤ item.expiry ∧
      c._get key now =
        ({ c with cache := (c.cache.pop key).setItem key item, hits := c.hits + 1 },
          some item.value)) := by
  unfold TTLCache._get
  cases hget : c.cache.get? key with
  | none => exact Or.inl ⟨rfl, rfl⟩
  | some item =>
    right
    by_cases hexp : now > item.expiry
    · exact Or.inl ⟨item, rfl, hexp, by simp [hexp]⟩
    · exact Or.inr ⟨item, rfl, not_lt.mp hexp, by simp [hexp]⟩

/-- The three ways through `_set`; the first is closed when `capacity ≥ 1`. -/
theorem _set_cases (o : Options) (c : TTLCache V) (key : String) (value : V)
    (ttl : Option ℚ) (now : ℚ) :
    (o.capacity ≤ ((c.cache.pop key).length : ℤ) ∧ (c.cache.pop key).length = 0 ∧
      c._set o key value ttl now =
        ({ c with cache := c.cache.pop key }, .error .stopIteration)) ∨
    (∃ lru, o.capacity ≤ ((c.cache.pop key).length : ℤ) ∧
      (c.cache.pop key).firstKey? = some lru ∧
      c._set o key value ttl now =
        (⟨((c.cache.pop key).pop lru).setItem key (TTLCache.newItem o value ttl now),
          c.hits, c.misses⟩, .ok ())) ∨
    (((c.cache.pop key).length : ℤ) < o.capacity ∧
      c._set o key value ttl now =
        (⟨(c.cache.pop key).setItem key (TTLCache.newItem o value ttl now),
          c.hits, c.misses⟩, .ok ())) := by
  unfold TTLCache._set
  by_cases hfull : ((c.cache.pop key).length : ℤ) ≥ o.capacity
  · cases hfirst : (c.cache.pop key).firstKey? with
    | none =>
      left
      exact ⟨hfull, OrderedDict.firstKey?_eq_none_iff.mp hfirst, by simp [hfull, hfirst]⟩
    | some lru =>
      right; left
      exact ⟨lru, hfull, rfl, by simp [hfull, hfirst]⟩
  · right; right
    exact ⟨not_le.mp hfull, by simp [hfull]⟩

/-- The three ways through `get_or_set`: a hit, a factory that raises, a fill. -/
theorem step_get_or_set_cases (o : Options) (c : TTLCache V) (key : String) (ttl : ℚ)
    (factory : Except Err V) (t₁ t₂ : ℚ) :
    (∃ v, (c._get key t₁).2 = some v ∧
      step o c (.get_or_set key ttl factory t₁ t₂) =
        ((c._get key t₁).1, [.hit key v t₁])) ∨
    (∃ err, factory = .error err ∧ (c._get key t₁).2 = none ∧
      step o c (.get_or_set key ttl factory t₁ t₂) =
        ((c._get key t₁).1, [.missed key t₁, .raised (.factory err)])) ∨
    (∃ v, factory = .ok v ∧ (c._get key t₁).2 = none ∧
      step o c (.get_or_set key ttl factory t₁ t₂) =
        (((c._get key t₁).1._set o key v (some ttl) t₂).1,
          [.missed key t₁,
            storeObs key v t₂ ttl ((c._get key t₁).1._set o key v (some ttl) t₂).2])) := by
  simp only [step, TTLCache.get_or_set]
  rcases hget : c._get key t₁ with ⟨c₁, r⟩
  cases r with
  | some v => exact Or.inl ⟨v, rfl, rfl⟩
  | none =>
    right
    cases factory with
    | error err => exact Or.inl ⟨err, rfl, rfl, rfl⟩
    | ok v =>
      refine Or.inr ⟨v, rfl, rfl, ?_⟩
      rcases hset : c₁._set o key v (some ttl) t₂ with ⟨c₂, r⟩
      cases r with
      | ok u => simp [hset, storeObs]
      | error e => simp [hset, storeObs]

end InterviewPrep.TtlCache
