import Mathlib.Algebra.Order.Group.Defs
import InterviewPrep.Lib.Machine

/-!
# Sliding-window rate limiter

The class `RateLimiter` of `technical/rate_limiter/limiter.py`. A call of
`allow_request` is one step, with the reading of `time.time` as its event. The
readings are elements of an ordered group, so that the arithmetic is exact.
-/

namespace InterviewPrep.RateLimiting

variable {T : Type*} [AddCommGroup T] [LinearOrder T]

/-- The arguments of the constructor. -/
structure Options (T : Type*) where
  max_requests : ℤ
  window_seconds : T

/-- The defaults of the constructor. -/
def defaults : Options ℤ where
  max_requests := 3
  window_seconds := 60

/-- The field of `RateLimiter` that changes: the deque, oldest reading first. -/
structure RateLimiter (T : Type*) where
  timestamps : List T
deriving DecidableEq

/-- `while self.timestamps and self.timestamps[0] <= cutoff: popleft()` -/
def evict (cutoff : T) : List T → List T
  | [] => []
  | t :: timestamps => if t ≤ cutoff then evict cutoff timestamps else t :: timestamps

/-- `allow_request`, reading the clock as `now`. -/
def allow_request (o : Options T) (s : RateLimiter T) (now : T) : RateLimiter T × Bool :=
  let cutoff := now - o.window_seconds
  let timestamps := evict cutoff s.timestamps
  if (timestamps.length : ℤ) < o.max_requests then (⟨timestamps ++ [now]⟩, true)
  else (⟨timestamps⟩, false)

/-- All sequences of calls on a new limiter; a call shows its reading and its
answer. -/
def machine (o : Options T) : Machine (RateLimiter T) T (T × Bool) where
  init := ⟨[]⟩
  step s now :=
    let r := allow_request o s now
    some (r.1, [(now, r.2)])

end InterviewPrep.RateLimiting
