import Mathlib.Tactic.NormNum
import InterviewPrep.TtlCache.Model

/-!
# Soundness of the TTL cache

What the six paths through the store have in common: every entry of the cache
is the latest store to its key, not deleted since, and carries the expiry that
store gave it. Overwrites, evictions, lazy expiry, recency refreshes, deletes
and fills all keep this (`inv_step`), so a hit answers with the latest store
and never later than its TTL allows (`cache_sound`).
-/

namespace InterviewPrep.TtlCache

variable {V Err : Type*}

/-! ## The history of a key -/

/-- One observation's effect on the store that is in force for `key`: its value,
its clock reading and its TTL. -/
def recordStore (key : String) (last : Option (V × ℚ × ℚ)) :
    Obs V Err → Option (V × ℚ × ℚ)
  | .stored k v now ttl => if k = key then some (v, now, ttl) else last
  | .deleted k => if k = key then none else last
  | _ => last

/-- The latest store to `key`, unless a delete came after it. -/
def latestStore (key : String) (tr : List (Obs V Err)) : Option (V × ℚ × ℚ) :=
  tr.foldl (recordStore key) none

theorem latestStore_append (key : String) (tr out : List (Obs V Err)) :
    latestStore key (tr ++ out) = out.foldl (recordStore key) (latestStore key tr) := by
  simp [latestStore]

/-- The operations that look a key up. -/
def Op.isLookup : Op V Err → Bool
  | .get _ _ => true
  | .get_or_set _ _ _ _ _ => true
  | _ => false

/-- The number of lookups made. -/
def lookups (ops : List (Op V Err)) : ℕ := ops.countP Op.isLookup

/-! ## What `_get` and `_set` keep -/

theorem _get_counts (c : TTLCache V) (key : String) (now : ℚ) :
    (c._get key now).1.hits + (c._get key now).1.misses = c.hits + c.misses + 1 := by
  rcases _get_cases c key now with ⟨-, h⟩ | ⟨item, -, -, h⟩ | ⟨item, -, -, h⟩ <;> rw [h] <;>
    simp only <;> omega

theorem _set_counts (o : Options) (c : TTLCache V) (key : String) (value : V)
    (ttl : Option ℚ) (now : ℚ) :
    (c._set o key value ttl now).1.hits = c.hits ∧
    (c._set o key value ttl now).1.misses = c.misses := by
  rcases _set_cases o c key value ttl now with ⟨-, -, h⟩ | ⟨lru, -, -, h⟩ | ⟨-, h⟩ <;>
    rw [h] <;> exact ⟨rfl, rfl⟩

/-- A lookup only loses entries. -/
theorem _get_subset {c : TTLCache V} {key k : String} {now : ℚ} {item : CacheItem V}
    (h : (c._get key now).1.cache.get? k = some item) : c.cache.get? k = some item := by
  rcases _get_cases c key now with ⟨-, he⟩ | ⟨it, -, -, he⟩ | ⟨it, hit, -, he⟩ <;> rw [he] at h
  · exact h
  · exact (OrderedDict.get?_of_get?_pop h).1
  · -- a hit puts the same item back
    by_cases hk : k = key
    · subst hk
      rw [OrderedDict.get?_setItem_self] at h
      rw [hit, h]
    · rw [OrderedDict.get?_setItem_of_ne _ _ hk] at h
      exact (OrderedDict.get?_of_get?_pop h).1

theorem _get_length_le (c : TTLCache V) (key : String) (now : ℚ) :
    (c._get key now).1.cache.length ≤ c.cache.length := by
  rcases _get_cases c key now with ⟨-, h⟩ | ⟨item, -, -, h⟩ | ⟨item, hget, -, h⟩ <;> rw [h]
  · exact OrderedDict.length_pop_le _ _
  · have hkey : key ∈ c.cache.keys := OrderedDict.mem_keys_iff.mpr ⟨item, hget⟩
    have hlt := OrderedDict.length_pop_lt hkey
    simp only [OrderedDict.length_setItem_of_get?_eq_none item (OrderedDict.get?_pop_self _ _)]
    omega

/-- A hit is an unexpired entry. -/
theorem _get_eq_some {c : TTLCache V} {key : String} {now : ℚ} {v : V}
    (h : (c._get key now).2 = some v) :
    ∃ item, c.cache.get? key = some item ∧ now ≤ item.expiry ∧ item.value = v := by
  rcases _get_cases c key now with ⟨-, he⟩ | ⟨it, -, -, he⟩ | ⟨it, hit, hle, he⟩ <;> rw [he] at h
  · simp at h
  · simp at h
  · exact ⟨it, hit, hle, Option.some.inj h⟩

/-- After a store the key holds the new item, and every other entry was there. -/
theorem _set_get? {o : Options} {c : TTLCache V} {key k : String} {value : V}
    {ttl : Option ℚ} {now : ℚ} {item : CacheItem V}
    (h : (c._set o key value ttl now).1.cache.get? k = some item) :
    (k = key ∧ item = TTLCache.newItem o value ttl now ∧
      (c._set o key value ttl now).2 = .ok ()) ∨
    (k ≠ key ∧ c.cache.get? k = some item) := by
  rcases _set_cases o c key value ttl now with ⟨-, -, he⟩ | ⟨lru, -, -, he⟩ |
    ⟨-, he⟩ <;> rw [he] at h ⊢
  · obtain ⟨hget, hne⟩ := OrderedDict.get?_of_get?_pop h
    exact Or.inr ⟨hne, hget⟩
  · by_cases hk : k = key
    · subst hk
      rw [OrderedDict.get?_setItem_self] at h
      exact Or.inl ⟨rfl, (Option.some.inj h).symm, rfl⟩
    · rw [OrderedDict.get?_setItem_of_ne _ _ hk] at h
      have hpop := (OrderedDict.get?_of_get?_pop h).1
      exact Or.inr ⟨hk, (OrderedDict.get?_of_get?_pop hpop).1⟩
  · by_cases hk : k = key
    · subst hk
      rw [OrderedDict.get?_setItem_self] at h
      exact Or.inl ⟨rfl, (Option.some.inj h).symm, rfl⟩
    · rw [OrderedDict.get?_setItem_of_ne _ _ hk] at h
      exact Or.inr ⟨hk, (OrderedDict.get?_of_get?_pop h).1⟩

/-- A store leaves at most `capacity` entries. -/
theorem _set_length_le {o : Options} {c : TTLCache V} (key : String) (value : V)
    (ttl : Option ℚ) (now : ℚ) (h : (c.cache.length : ℤ) ≤ o.capacity) :
    ((c._set o key value ttl now).1.cache.length : ℤ) ≤ o.capacity := by
  have hpop := OrderedDict.length_pop_le c.cache key
  have habsent := OrderedDict.get?_pop_self c.cache key
  rcases _set_cases o c key value ttl now with ⟨-, -, he⟩ | ⟨lru, -, hlru, he⟩ |
    ⟨hlt, he⟩ <;> rw [he] <;> simp only
  · omega
  · -- the eviction makes room for the new entry
    have hroom := OrderedDict.length_pop_lt (OrderedDict.mem_keys_of_firstKey? hlru)
    have hgone : ((c.cache.pop key).pop lru).get? key = none := by
      by_cases hk : key = lru
      · rw [← hk]; exact OrderedDict.get?_pop_self _ _
      · rw [OrderedDict.get?_pop_of_ne _ hk]; exact habsent
    rw [OrderedDict.length_setItem_of_get?_eq_none _ hgone]
    omega
  · rw [OrderedDict.length_setItem_of_get?_eq_none _ habsent]
    omega

/-! ## The invariant -/

/-- The cache against its history: bounded, every entry the latest store to its
key, and every lookup counted. -/
structure Inv (o : Options) (ops : List (Op V Err)) (tr : List (Obs V Err))
    (c : TTLCache V) : Prop where
  size : (c.cache.length : ℤ) ≤ o.capacity
  latest : ∀ k item, c.cache.get? k = some item →
    ∃ now ttl, latestStore k tr = some (item.value, now, ttl) ∧ item.expiry = now + ttl
  counts : c.hits + c.misses = lookups ops

theorem inv_init (o : Options) (ho : 1 ≤ o.capacity) :
    Inv o ([] : List (Op V Err)) [] TTLCache.new := by
  refine ⟨?_, ?_, rfl⟩
  · simp only [TTLCache.new, OrderedDict.length_empty]
    omega
  · intro k item h
    simp [TTLCache.new] at h

/-- Observations that neither store nor delete leave the stores in force. -/
theorem latestStore_append_of_lookup (key : String) (tr : List (Obs V Err))
    {out : List (Obs V Err)}
    (hout : ∀ o ∈ out, ∀ last, recordStore key last o = last) :
    latestStore key (tr ++ out) = latestStore key tr := by
  rw [latestStore_append]
  induction out generalizing tr with
  | nil => rfl
  | cons o out ih =>
    rw [List.foldl_cons, hout o (by simp)]
    exact ih tr (fun o' ho' => hout o' (by simp [ho']))

section Steps

variable {o : Options} {ops : List (Op V Err)} {tr out : List (Obs V Err)} {c : TTLCache V}
  {op : Op V Err}

theorem lookups_concat (ops : List (Op V Err)) (op : Op V Err) :
    lookups (ops ++ [op]) = lookups ops + if op.isLookup then 1 else 0 := by
  simp [lookups, List.countP_append, List.countP_cons]

/-- An operation that is no lookup is not counted. -/
theorem Inv.of_not_lookup (h : Inv o ops tr c) (hop : op.isLookup = false) :
    Inv o (ops ++ [op]) tr c := by
  refine ⟨h.size, h.latest, ?_⟩
  rw [lookups_concat, hop]
  exact h.counts

/-- A lookup is counted, and keeps every entry that remains in step with the
history. -/
theorem Inv.get (h : Inv o ops tr c) (hop : op.isLookup = true) (key : String) (now : ℚ)
    (hout : ∀ x ∈ out, ∀ k last, recordStore k last x = last) :
    Inv o (ops ++ [op]) (tr ++ out) (c._get key now).1 := by
  constructor
  · have hle := _get_length_le c key now
    have hsize := h.size
    omega
  · intro k item hitem
    rw [latestStore_append_of_lookup k tr (fun x hx => hout x hx k)]
    exact h.latest k item (_get_subset hitem)
  · rw [lookups_concat, hop, _get_counts, h.counts]
    rfl

/-- A store that does not raise is the latest one of its key. -/
theorem Inv.set (h : Inv o ops tr c) (key : String) (value : V) (ttl : Option ℚ) (now : ℚ) :
    Inv o ops
      (tr ++ [storeObs key value now (ttl.getD o.default_ttl_seconds)
        (c._set o key value ttl now).2])
      (c._set o key value ttl now).1 := by
  have hcounts := _set_counts o c key value ttl now
  refine ⟨_set_length_le key value ttl now h.size, ?_, ?_⟩
  · intro k item hitem
    rcases _set_get? hitem with ⟨rfl, rfl, hok⟩ | ⟨hne, hold⟩
    · refine ⟨now, ttl.getD o.default_ttl_seconds, ?_, rfl⟩
      rw [hok, latestStore_append]
      simp [storeObs, recordStore, TTLCache.newItem]
    · -- another key: its entry was there
      rcases h.latest k item hold with ⟨t, ttl', hlatest, hexp⟩
      refine ⟨t, ttl', ?_, hexp⟩
      rw [latestStore_append, hlatest]
      cases hr : (c._set o key value ttl now).2 with
      | ok u => simp [storeObs, recordStore, Ne.symm hne]
      | error e => simp [storeObs, recordStore]
  · rw [hcounts.1, hcounts.2]
    exact h.counts

theorem Inv.delete (h : Inv o ops tr c) (key : String) :
    Inv o ops (tr ++ [.deleted key]) (c.delete key) := by
  refine ⟨?_, ?_, h.counts⟩
  · have hle := OrderedDict.length_pop_le c.cache key
    have hsize := h.size
    show ((c.cache.pop key).length : ℤ) ≤ o.capacity
    omega
  · intro k item hitem
    have hitem : (c.cache.pop key).get? k = some item := hitem
    rcases OrderedDict.get?_of_get?_pop hitem with ⟨hold, hne⟩
    rcases h.latest k item hold with ⟨t, ttl, hlatest, hexp⟩
    refine ⟨t, ttl, ?_, hexp⟩
    rw [latestStore_append, hlatest]
    simp [recordStore, Ne.symm hne]

/-- Every operation keeps the invariant. -/
theorem inv_step (h : Inv o ops tr c) (op : Op V Err) :
    Inv o (ops ++ [op]) (tr ++ (step o c op).2) (step o c op).1 := by
  cases op with
  | set key value ttl now => exact (h.of_not_lookup rfl).set key value ttl now
  | get key now =>
    have hget : ∀ out : List (Obs V Err), (∀ x ∈ out, ∀ k last, recordStore k last x = last) →
        Inv o (ops ++ [.get key now]) (tr ++ out) (c._get key now).1 :=
      fun _ => h.get rfl key now
    simp only [step]
    rcases hr : c._get key now with ⟨c', _ | v⟩ <;> rw [hr] at hget
    · exact hget _ (by simp [recordStore])
    · exact hget _ (by simp [recordStore])
  | get_or_set key ttl factory t₁ t₂ =>
    rcases step_get_or_set_cases o c key ttl factory t₁ t₂ with ⟨v, -, hstep⟩ |
      ⟨err, -, -, hstep⟩ | ⟨v, -, -, hstep⟩ <;> rw [hstep]
    · -- the lookup hits
      exact h.get rfl key t₁ (by simp [recordStore])
    · -- the factory raises: the miss has happened, nothing is stored
      exact h.get rfl key t₁ (by simp [recordStore])
    · -- the fill stores into what the lookup left
      have hmissed : Inv o (ops ++ [.get_or_set key ttl factory t₁ t₂])
          (tr ++ [.missed key t₁]) (c._get key t₁).1 := h.get rfl key t₁ (by simp [recordStore])
      have hfilled := hmissed.set key v (some ttl) t₂
      rw [List.append_assoc] at hfilled
      exact hfilled
  | delete key => exact (h.of_not_lookup rfl).delete key
  | stats =>
    have hstats : Inv o (ops ++ [.stats]) tr c := h.of_not_lookup rfl
    refine ⟨hstats.size, ?_, hstats.counts⟩
    intro k item hitem
    rw [latestStore_append_of_lookup k tr (by simp [step, recordStore])]
    exact hstats.latest k item hitem

end Steps

theorem inv_run {o : Options} (ho : 1 ≤ o.capacity) {ops : List (Op V Err)}
    {tr : List (Obs V Err)} {c : TTLCache V} (h : (machine o).Run ops tr c) :
    Inv o ops tr c := by
  refine h.history_invariant (fun ops tr c => Inv o ops tr c) (inv_init o ho) ?_
  intro ops tr c op c' out _ hinv hs
  simp only [machine, Option.some.injEq] at hs
  have hstep := inv_step hinv op
  rw [hs] at hstep
  exact hstep

/-! ## Soundness -/

theorem storeObs_ne_hit (key k : String) (value v : V) (now ttl t : ℚ)
    (r : Except StopIteration Unit) :
    (storeObs key value now ttl r : Obs V Err) ≠ .hit k v t := by
  cases r <;> simp [storeObs]

/-- The step that emits a hit is a lookup that answered with the value. -/
theorem hit_of_step {o : Options} {c : TTLCache V} {op : Op V Err} {k : String} {v : V}
    {t : ℚ} {pre post : List (Obs V Err)} (h : (step o c op).2 = pre ++ .hit k v t :: post) :
    pre = [] ∧ (c._get k t).2 = some v := by
  cases op with
  | set key value ttl now =>
    cases pre <;> simp [step, storeObs_ne_hit] at h
  | get key now =>
    simp only [step] at h
    rcases hget : c._get key now with ⟨c', _ | w⟩ <;> rw [hget] at h <;>
      cases pre <;> simp at h
    obtain ⟨⟨rfl, rfl, rfl⟩, -⟩ := h
    exact ⟨rfl, by rw [hget]⟩
  | get_or_set key ttl factory t₁ t₂ =>
    rcases step_get_or_set_cases o c key ttl factory t₁ t₂ with ⟨w, hget, hstep⟩ |
      ⟨err, -, -, hstep⟩ | ⟨w, -, -, hstep⟩ <;> rw [hstep] at h
    · cases pre <;> simp at h
      obtain ⟨⟨rfl, rfl, rfl⟩, -⟩ := h
      exact ⟨rfl, hget⟩
    · rcases pre with _ | ⟨a, _ | ⟨b, pre⟩⟩ <;> simp at h
    · rcases pre with _ | ⟨a, _ | ⟨b, pre⟩⟩ <;> simp [storeObs_ne_hit] at h
  | delete key => cases pre <;> simp [step] at h
  | stats => cases pre <;> simp [step] at h

/-- **Soundness over whole runs.** For every sequence of operations on a cache
of capacity at least one: it never holds more than `capacity` entries; a lookup
of `k` that answers `v` at reading `t` does so because the latest store to `k`,
not deleted since, stored `v` at some reading `s` under some TTL with
`t ≤ s + ttl`; and hits and misses add up to the lookups made. The readings may
be any numbers. -/
theorem cache_sound (o : Options) (ho : 1 ≤ o.capacity) {ops : List (Op V Err)}
    {tr : List (Obs V Err)} {c : TTLCache V} (hrun : (machine o).Run ops tr c) :
    (c.cache.length : ℤ) ≤ o.capacity ∧
    (∀ pre post k v t, tr = pre ++ .hit k v t :: post →
      ∃ s ttl, latestStore k pre = some (v, s, ttl) ∧ t ≤ s + ttl) ∧
    c.hits + c.misses = lookups ops := by
  have hinv := inv_run ho hrun
  refine ⟨hinv.size, ?_, hinv.counts⟩
  intro pre post k v t htr
  rcases hrun.emitted htr with ⟨ops₀, tr₀, c₀, op, c₁, out, pre', post', hrun₀, hs, hout, hpre, -⟩
  simp only [machine, Option.some.injEq] at hs
  have hstep : (step o c₀ op).2 = pre' ++ .hit k v t :: post' := by rw [hs, hout]
  rcases hit_of_step hstep with ⟨rfl, hget⟩
  rcases _get_eq_some hget with ⟨item, hitem, hle, rfl⟩
  rcases (inv_run ho hrun₀).latest k item hitem with ⟨s, ttl, hlatest, hexp⟩
  rw [List.append_nil] at hpre
  refine ⟨s, ttl, ?_, ?_⟩
  · rw [hpre]; exact hlatest
  · rw [← hexp]; exact hle

/-- The example of the question: `policy:b` is evicted, `policy:a` is still
served, from the store at reading 0. -/
def policyRun : List (Op ℕ Unit) :=
  [.set "policy:a" 1 none 0, .set "policy:b" 2 none 1, .get "policy:a" 2,
    .set "policy:c" 3 none 3, .get "policy:b" 4, .get_or_set "policy:d" 10 (.ok 4) 5 5,
    .get "policy:c" 6]

theorem cache_sound_policyRun :
    ∃ c tr, (machine { capacity := 2, default_ttl_seconds := 30 }).Run policyRun tr c ∧
      (c.hits, c.misses) = (2, 2) ∧
      ((c.cache.length : ℤ) ≤ 2 ∧ c.hits + c.misses = lookups policyRun) := by
  have hexec : ((machine { capacity := 2, default_ttl_seconds := 30 }).exec policyRun).map
      (fun r => (r.1.hits, r.1.misses)) = some (2, 2) := by decide +kernel
  obtain ⟨c, tr, hrun, hs⟩ := Machine.Run.of_exec_map hexec
  have hsound := cache_sound { capacity := 2, default_ttl_seconds := 30 } (by norm_num) hrun
  exact ⟨c, tr, hrun, hs, hsound.1, hsound.2.2⟩

end InterviewPrep.TtlCache
