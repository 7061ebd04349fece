import Mathlib.Data.Finset.Card
import InterviewPrep.TtlCache.Soundness

/-!
# Recency and eviction in the TTL cache

The dictionary's order is the order of last use: a key stands before another
only if the other has been stored or looked up successfully since the last use
of the first (`Recency.order`). So the first key is the least recently used one
(`evicted_least_recently_used`), and evicting `k` takes `capacity` other keys
used since `k` was (`Recency.retained`), which is the retention guarantee
(`retained_until_capacity`).

Expiry plays no part in the eviction: a live entry can make room while a dead
one stays (`live_evicted_before_dead`).
-/

namespace InterviewPrep.TtlCache

variable {V Err : Type*}

/-! ## The use of keys -/

/-- One observation's effect on the set of other keys used since the last use of
`key`. A use is a store or a successful lookup. -/
def recordUse (key : String) (used : Finset String) : Obs V Err → Finset String
  | .stored k _ _ _ => if k = key then ∅ else insert k used
  | .hit k _ _ => if k = key then ∅ else insert k used
  | _ => used

/-- The keys other than `key` used since the last use of `key`. -/
def usedSince (key : String) (tr : List (Obs V Err)) : Finset String :=
  tr.foldl (recordUse key) ∅

/-- The readings of the clock, in the order in which they were taken. A lookup of
an absent key takes none in the source; here it has one, of any value in order. -/
def readings : List (Obs V Err) → List ℚ
  | [] => []
  | .hit _ _ now :: tr => now :: readings tr
  | .missed _ now :: tr => now :: readings tr
  | .stored _ _ now _ :: tr => now :: readings tr
  | _ :: tr => readings tr

theorem readings_append (tr out : List (Obs V Err)) :
    readings (tr ++ out) = readings tr ++ readings out := by
  induction tr with
  | nil => rfl
  | cons x tr ih => cases x <;> simp [readings, ih]

/-- An observation is a use of `key`. -/
def IsUse (key : String) (x : Obs V Err) : Prop :=
  ∀ k used, recordUse k used x = if key = k then ∅ else insert key used

/-- An observation is no use of any key. -/
def NoUse (x : Obs V Err) : Prop :=
  ∀ k used, recordUse k used x = used

theorem usedSince_concat (key : String) (tr : List (Obs V Err)) (x : Obs V Err) :
    usedSince key (tr ++ [x]) = recordUse key (usedSince key tr) x := by
  simp [usedSince]

theorem IsUse.usedSince_of_ne {key k : String} {x : Obs V Err} (h : IsUse key x)
    (hk : k ≠ key) (tr : List (Obs V Err)) :
    usedSince k (tr ++ [x]) = insert key (usedSince k tr) := by
  rw [usedSince_concat, h, if_neg (Ne.symm hk)]

theorem NoUse.usedSince {x : Obs V Err} (h : NoUse x) (key : String)
    (tr : List (Obs V Err)) : usedSince key (tr ++ [x]) = TtlCache.usedSince key tr := by
  rw [usedSince_concat, h]

theorem isUse_stored (key : String) (value : V) (now ttl : ℚ) :
    IsUse key (.stored key value now ttl : Obs V Err) := fun _ _ => rfl

theorem isUse_hit (key : String) (value : V) (now : ℚ) :
    IsUse key (.hit key value now : Obs V Err) := fun _ _ => rfl

theorem noUse_missed (key : String) (now : ℚ) :
    NoUse (.missed key now : Obs V Err) := fun _ _ => rfl

/-! ## The order of the dictionary -/

/-- The cache against the uses of its keys: the order of the keys is the order
of last use, and a key leaves only when it expires, is deleted, or `capacity`
other keys have been used since. -/
structure Recency (o : Options) (tr : List (Obs V Err)) (c : TTLCache V) : Prop where
  order : c.cache.keys.Pairwise (fun a b => b ∈ usedSince a tr)
  retained : ∀ k v s ttl, latestStore k tr = some (v, s, ttl) →
    (∀ r ∈ readings tr, r ≤ s + ttl) → ((usedSince k tr).card : ℤ) < o.capacity →
    k ∈ c.cache.keys

theorem recency_init (o : Options) :
    Recency o ([] : List (Obs V Err)) (TTLCache.new : TTLCache V) := by
  constructor
  · exact List.Pairwise.nil
  · intro k v s ttl h
    simp [latestStore] at h

section Steps

variable {o : Options} {tr : List (Obs V Err)} {c : TTLCache V} {key : String}
  {x : Obs V Err}

/-- A use of `key` moves it to the end. -/
theorem order_of_use {ks l : List String}
    (h : ks.Pairwise (fun a b => b ∈ usedSince a tr)) (hl : l.Sublist ks) (hkey : key ∉ l)
    (hx : IsUse key x) :
    (l ++ [key]).Pairwise (fun a b => b ∈ usedSince a (tr ++ [x])) := by
  have hne : ∀ a ∈ l, a ≠ key := fun a ha haeq => hkey (haeq ▸ ha)
  refine List.pairwise_append.mpr ⟨?_, List.pairwise_singleton _ _, ?_⟩
  · refine (h.sublist hl).imp_of_mem ?_
    intro a b ha _ hab
    rw [hx.usedSince_of_ne (hne a ha)]
    exact Finset.mem_insert_of_mem hab
  · intro a ha b hb
    rw [List.mem_singleton.mp hb, hx.usedSince_of_ne (hne a ha)]
    exact Finset.mem_insert_self _ _

/-- Removing keys keeps the order. -/
theorem order_of_noUse {ks l : List String}
    (h : ks.Pairwise (fun a b => b ∈ usedSince a tr)) (hl : l.Sublist ks) (hx : NoUse x) :
    l.Pairwise (fun a b => b ∈ usedSince a (tr ++ [x])) := by
  refine (h.sublist hl).imp ?_
  intro a b hab
  rw [hx.usedSince]
  exact hab

/-- Behind the first key stand keys used since it was; with the key that is
being stored they fill the cache. -/
theorem length_le_usedSince_first {ks : List String} {lru : String}
    (h : ks.Pairwise (fun a b => b ∈ usedSince a tr)) (hnd : ks.Nodup)
    (hfirst : ks.head? = some lru) (hkey : key ∉ ks) :
    ks.length ≤ (insert key (usedSince lru tr)).card := by
  obtain ⟨rest, rfl⟩ : ∃ rest, ks = lru :: rest := List.head?_eq_some_iff.mp hfirst
  rw [List.pairwise_cons] at h
  rw [List.nodup_cons] at hnd
  rw [List.mem_cons, not_or] at hkey
  have hsub : insert key rest.toFinset ⊆ insert key (usedSince lru tr) := by
    apply Finset.insert_subset_insert
    intro k hk
    exact h.1 k (List.mem_toFinset.mp hk)
  calc (lru :: rest).length = rest.toFinset.card + 1 := by
        rw [List.toFinset_card_of_nodup hnd.2, List.length_cons]
    _ = (insert key rest.toFinset).card := by
        rw [Finset.card_insert_of_notMem]
        simpa using hkey.2
    _ ≤ (insert key (usedSince lru tr)).card := Finset.card_le_card hsub

/-- With a positive capacity a store never raises. -/
theorem _set_ok (ho : 1 ≤ o.capacity) (c : TTLCache V) (key : String) (value : V)
    (ttl : Option ℚ) (now : ℚ) : (c._set o key value ttl now).2 = .ok () := by
  rcases _set_cases o c key value ttl now with ⟨hfull, hzero, -⟩ | ⟨lru, -, -, he⟩ | ⟨-, he⟩
  · omega
  · rw [he]
  · rw [he]

/-- The keys after a store: `key` at the end, and the others without the evicted
one. -/
theorem _set_keys (ho : 1 ≤ o.capacity) (c : TTLCache V) (key : String) (value : V)
    (ttl : Option ℚ) (now : ℚ) :
    (∃ lru, o.capacity ≤ ((c.cache.pop key).length : ℤ) ∧
      (c.cache.pop key).firstKey? = some lru ∧
      (c._set o key value ttl now).1.cache.keys =
        ((c.cache.pop key).pop lru).keys ++ [key]) ∨
    (((c.cache.pop key).length : ℤ) < o.capacity ∧
      (c._set o key value ttl now).1.cache.keys = (c.cache.pop key).keys ++ [key]) := by
  have habsent := OrderedDict.get?_pop_self c.cache key
  rcases _set_cases o c key value ttl now with ⟨hfull, hzero, -⟩ | ⟨lru, hfull, hlru, he⟩ |
    ⟨hroom, he⟩
  · omega
  · refine Or.inl ⟨lru, hfull, hlru, ?_⟩
    rw [he]
    refine OrderedDict.keys_setItem_of_get?_eq_none _ ?_
    rw [OrderedDict.get?_eq_none_iff, OrderedDict.mem_keys_pop, OrderedDict.mem_keys_pop]
    exact fun h => h.1.2 rfl
  · refine Or.inr ⟨hroom, ?_⟩
    rw [he]
    exact OrderedDict.keys_setItem_of_get?_eq_none _ habsent

/-! ## The invariant -/

/-- What keeps the stores in force, adds no reading past an expiry and loses no
key keeps the retained keys. -/
theorem Recency.mem_keys (h : Recency o tr c) {k : String} {v : V} {s ttl : ℚ}
    (hlatest : latestStore k tr = some (v, s, ttl))
    (hreadings : ∀ r ∈ readings (tr ++ [x]), r ≤ s + ttl)
    (hcard : ((usedSince k tr).card : ℤ) < o.capacity) : k ∈ c.cache.keys := by
  refine h.retained k v s ttl hlatest ?_ hcard
  intro r hr
  rw [readings_append] at hreadings
  exact hreadings r (List.mem_append_left _ hr)

/-- An observation that neither uses nor stores nor deletes a key. -/
theorem Recency.of_silent (h : Recency o tr c) (hno : NoUse x)
    (hstore : ∀ k last, recordStore k last x = last) : Recency o (tr ++ [x]) c := by
  constructor
  · exact order_of_noUse h.order (List.Sublist.refl _) hno
  · intro k w s ttl hlatest hreadings hcard
    rw [hno.usedSince] at hcard
    rw [latestStore_append, List.foldl_cons, hstore, List.foldl_nil] at hlatest
    exact h.mem_keys hlatest hreadings hcard

/-- A key other than the one used has been passed by one more key at most. -/
theorem IsUse.card_lt (hx : IsUse key x) {k : String} (hk : k ≠ key) {n : ℤ}
    (hcard : ((usedSince k (tr ++ [x])).card : ℤ) < n) : ((usedSince k tr).card : ℤ) < n := by
  rw [hx.usedSince_of_ne hk] at hcard
  have hle := Finset.card_le_card (Finset.subset_insert key (usedSince k tr))
  omega

/-- A lookup that hits moves the key to the end. -/
theorem Recency.hit (h : Recency o tr c) {now : ℚ} {v : V}
    (hget : (c._get key now).2 = some v) :
    Recency o (tr ++ [.hit key v now]) (c._get key now).1 := by
  have huse : IsUse key (.hit key v now : Obs V Err) := isUse_hit key v now
  rcases _get_cases c key now with ⟨-, he⟩ | ⟨item, -, -, he⟩ | ⟨item, hitem, -, he⟩
  · rw [he] at hget; exact absurd hget (by simp)
  · rw [he] at hget; exact absurd hget (by simp)
  · have habsent := OrderedDict.get?_pop_self c.cache key
    rw [he]
    constructor
    · show ((c.cache.pop key).setItem key item).keys.Pairwise _
      rw [OrderedDict.keys_setItem_of_get?_eq_none _ habsent]
      refine order_of_use h.order ?_ ?_ huse
      · rw [OrderedDict.keys_pop]
        exact List.filter_sublist
      · rw [OrderedDict.mem_keys_pop]
        exact fun hmem => hmem.2 rfl
    · intro k w s ttl hlatest hreadings hcard
      rw [OrderedDict.mem_keys_setItem, OrderedDict.mem_keys_pop]
      by_cases hk : k = key
      · exact Or.inl hk
      · have hlatest' : latestStore k tr = some (w, s, ttl) := by
          rwa [latestStore_append] at hlatest
        exact Or.inr ⟨h.mem_keys hlatest' hreadings (huse.card_lt hk hcard), hk⟩

/-- A key may be removed where none is used. -/
theorem Recency.order_pop (h : Recency o tr c) (hno : NoUse x) :
    (c.cache.pop key).keys.Pairwise (fun a b => b ∈ usedSince a (tr ++ [x])) := by
  rw [OrderedDict.keys_pop]
  exact order_of_noUse h.order List.filter_sublist hno

/-- A lookup that misses removes at most an expired key. -/
theorem Recency.missed (h : Recency o tr c) {ops : List (Op V Err)} (hinv : Inv o ops tr c)
    {now : ℚ} (hget : (c._get key now).2 = none) :
    Recency o (tr ++ [.missed key now]) (c._get key now).1 := by
  have hno : NoUse (.missed key now : Obs V Err) := noUse_missed key now
  rcases _get_cases c key now with ⟨-, he⟩ | ⟨item, hitem, hexp, he⟩ | ⟨item, -, -, he⟩
  · rw [he]
    have hsilent := h.of_silent hno (fun _ _ => rfl)
    exact ⟨hsilent.order, hsilent.retained⟩
  · rw [he]
    constructor
    · exact h.order_pop hno
    · intro k w s ttl hlatest hreadings hcard
      rw [hno.usedSince] at hcard
      have hold : latestStore k tr = some (w, s, ttl) := by
        rwa [latestStore_append] at hlatest
      rw [OrderedDict.mem_keys_pop]
      refine ⟨h.mem_keys hold hreadings hcard, ?_⟩
      rintro rfl
      -- the reading that finds the entry expired is past the store's expiry
      rcases hinv.latest k item hitem with ⟨s', ttl', hlatest', hitem'⟩
      rw [hlatest'] at hold
      simp only [Option.some.injEq, Prod.mk.injEq] at hold
      obtain ⟨-, rfl, rfl⟩ := hold
      have hle : now ≤ s' + ttl' := hreadings now (by simp [readings_append, readings])
      rw [← hitem'] at hle
      exact absurd hexp (not_lt.mpr hle)
  · rw [he] at hget; exact absurd hget (by simp)

/-- A store puts its key at the end; the key it evicts has been passed by
`capacity` others. -/
theorem Recency.set (h : Recency o tr c) (ho : 1 ≤ o.capacity) (key : String) (value : V)
    (ttl : Option ℚ) (now : ℚ) :
    Recency o (tr ++ [.stored key value now (ttl.getD o.default_ttl_seconds)])
      (c._set o key value ttl now).1 := by
  have huse : IsUse key
      (.stored key value now (ttl.getD o.default_ttl_seconds) : Obs V Err) :=
    isUse_stored key value now _
  have hpopped : (c.cache.pop key).keys.Sublist c.cache.keys := by
    rw [OrderedDict.keys_pop]
    exact List.filter_sublist
  have hkey : key ∉ (c.cache.pop key).keys := by
    rw [OrderedDict.mem_keys_pop]
    exact fun hmem => hmem.2 rfl
  -- every other retained key was in the cache before the store
  have hkept : ∀ k w s t,
      latestStore k (tr ++ [.stored key value now (ttl.getD o.default_ttl_seconds)]) =
        some (w, s, t) →
      (∀ r ∈ readings (tr ++ [.stored key value now (ttl.getD o.default_ttl_seconds)]),
        r ≤ s + t) →
      ((usedSince k
        (tr ++ [.stored key value now (ttl.getD o.default_ttl_seconds)])).card : ℤ) <
        o.capacity → k ≠ key → k ∈ (c.cache.pop key).keys := by
    intro k w s t hlatest hreadings hcard hk
    rw [latestStore_append] at hlatest
    have hlatest' : latestStore k tr = some (w, s, t) := by
      simpa [recordStore, Ne.symm hk] using hlatest
    rw [OrderedDict.mem_keys_pop]
    exact ⟨h.mem_keys hlatest' hreadings (huse.card_lt hk hcard), hk⟩
  rcases _set_keys ho c key value ttl now with ⟨lru, hfull, hlru, hkeys⟩ | ⟨hroom, hkeys⟩
  · have hevicted : ((c.cache.pop key).pop lru).keys.Sublist (c.cache.pop key).keys := by
      rw [OrderedDict.keys_pop]
      exact List.filter_sublist
    constructor
    · rw [hkeys]
      exact order_of_use h.order (hevicted.trans hpopped) (fun hm => hkey (hevicted.subset hm))
        huse
    · intro k w s t hlatest hreadings hcard
      rw [hkeys, List.mem_append, List.mem_singleton]
      by_cases hk : k = key
      · exact Or.inr hk
      left
      rw [OrderedDict.mem_keys_pop]
      refine ⟨hkept k w s t hlatest hreadings hcard hk, ?_⟩
      rintro rfl
      -- the evicted key is the first: all others have been used since
      have hlen := length_le_usedSince_first (h.order.sublist hpopped)
        (c.cache.pop key).nodup hlru hkey
      rw [huse.usedSince_of_ne hk] at hcard
      have hlen' : ((c.cache.pop key).keys.length : ℤ) = (c.cache.pop key).length := by
        rw [OrderedDict.length_keys]
      omega
  · constructor
    · rw [hkeys]
      exact order_of_use h.order hpopped hkey huse
    · intro k w s t hlatest hreadings hcard
      rw [hkeys, List.mem_append, List.mem_singleton]
      by_cases hk : k = key
      · exact Or.inr hk
      · exact Or.inl (hkept k w s t hlatest hreadings hcard hk)

theorem Recency.delete (h : Recency o tr c) (key : String) :
    Recency o (tr ++ [.deleted key]) (c.delete key) := by
  have hno : NoUse (.deleted key : Obs V Err) := fun _ _ => rfl
  constructor
  · exact h.order_pop hno
  · intro k w s ttl hlatest hreadings hcard
    rw [hno.usedSince] at hcard
    rw [latestStore_append] at hlatest
    show k ∈ (c.cache.pop key).keys
    rw [OrderedDict.mem_keys_pop]
    by_cases hk : key = k
    · -- no store to a deleted key is in force
      simp [recordStore, hk] at hlatest
    · have hold : latestStore k tr = some (w, s, ttl) := by
        simpa [recordStore, hk] using hlatest
      exact ⟨h.mem_keys hold hreadings hcard, Ne.symm hk⟩

/-- Every operation keeps the order of use. -/
theorem recency_step (h : Recency o tr c) (ho : 1 ≤ o.capacity) {ops : List (Op V Err)}
    (hinv : Inv o ops tr c) (op : Op V Err) :
    Recency o (tr ++ (step o c op).2) (step o c op).1 := by
  cases op with
  | set key value ttl now =>
    simp only [step, _set_ok ho, storeObs]
    exact h.set ho key value ttl now
  | get key now =>
    simp only [step]
    rcases hr : c._get key now with ⟨c', _ | v⟩
    · have hget : (c._get key now).2 = none := by rw [hr]
      have hmissed := h.missed hinv hget
      rwa [hr] at hmissed
    · have hget : (c._get key now).2 = some v := by rw [hr]
      have hhit := h.hit hget
      rwa [hr] at hhit
  | get_or_set key ttl factory t₁ t₂ =>
    rcases step_get_or_set_cases o c key ttl factory t₁ t₂ with ⟨v, hget, hstep⟩ |
      ⟨err, -, hget, hstep⟩ | ⟨v, -, hget, hstep⟩ <;> rw [hstep]
    · exact h.hit hget
    · -- the factory raises after the miss
      have hmissed := h.missed hinv hget
      have hraised : NoUse (.raised (.factory err) : Obs V Err) := fun _ _ => rfl
      rw [List.append_cons]
      exact hmissed.of_silent hraised (fun _ _ => rfl)
    · -- the fill stores into what the lookup left
      have hfilled := (h.missed hinv hget).set ho key v (some ttl) t₂
      rw [List.append_assoc] at hfilled
      rw [_set_ok ho]
      exact hfilled
  | delete key => exact h.delete key
  | stats => exact h.of_silent (fun _ _ => rfl) (fun _ _ => rfl)

end Steps

theorem recency_run {o : Options} (ho : 1 ≤ o.capacity) {ops : List (Op V Err)}
    {tr : List (Obs V Err)} {c : TTLCache V} (h : (machine o).Run ops tr c) :
    Recency o tr c := by
  refine h.history_invariant (fun _ tr c => Recency o tr c) (recency_init o) ?_
  intro ops tr c op c' out hrun hrec hs
  simp only [machine, Option.some.injEq] at hs
  have hstep := recency_step hrec ho (inv_run ho hrun) op
  rw [hs] at hstep
  exact hstep

/-! ## Retention -/

/-- **The LRU guarantee.** For every capacity of at least one and every sequence
of operations whose readings of the clock do not decrease: while the reading
does not exceed the expiry of the latest store to `k`, not deleted since, and
fewer than `capacity` other keys have been used since the last use of `k`, a
`get` of `k` returns the stored value. -/
theorem retained_until_capacity (o : Options) (ho : 1 ≤ o.capacity)
    {ops : List (Op V Err)} {tr : List (Obs V Err)} {c : TTLCache V}
    (hrun : (machine o).Run ops tr c) {k : String} {v : V} {s ttl t : ℚ}
    (hmono : (readings tr ++ [t]).Pairwise (· ≤ ·))
    (hlatest : latestStore k tr = some (v, s, ttl)) (hlive : t ≤ s + ttl)
    (hused : ((usedSince k tr).card : ℤ) < o.capacity) :
    (c._get k t).2 = some v := by
  have hreadings : ∀ r ∈ readings tr, r ≤ s + ttl := by
    intro r hr
    exact le_trans ((List.pairwise_append.mp hmono).2.2 r hr t (by simp)) hlive
  have hmem := (recency_run ho hrun).retained k v s ttl hlatest hreadings hused
  obtain ⟨item, hitem⟩ := OrderedDict.mem_keys_iff.mp hmem
  -- what the cache holds is that store, with its expiry
  obtain ⟨s', ttl', hlatest', hexp⟩ := (inv_run ho hrun).latest k item hitem
  rw [hlatest] at hlatest'
  simp only [Option.some.injEq, Prod.mk.injEq] at hlatest'
  obtain ⟨rfl, rfl, rfl⟩ := hlatest'
  rcases _get_cases c k t with ⟨hnone, -⟩ | ⟨it, hit, hlt, -⟩ | ⟨it, hit, -, he⟩
  · rw [hnone] at hitem; exact absurd hitem (by simp)
  · rw [hitem, Option.some.injEq] at hit
    rw [← hit, hexp] at hlt
    exact absurd hlive (not_le.mpr hlt)
  · rw [hitem, Option.some.injEq] at hit
    rw [he, hit]

/-- The question's example with an overwrite: `policy:a` is last used by the hit
at reading 2; storing `policy:c` twice passes it by one key only. -/
def overwriteRun : List (Op ℕ Unit) :=
  [.set "policy:a" 1 none 0, .set "policy:b" 2 none 1, .get "policy:a" 2,
    .set "policy:c" 3 none 3, .set "policy:c" 4 none 3]

theorem retained_until_capacity_overwriteRun :
    ∃ c tr, (machine { capacity := 2, default_ttl_seconds := 30 }).Run overwriteRun tr c ∧
      (c._get "policy:a" 4).2 = some 1 := by
  have hexec : ((machine { capacity := 2, default_ttl_seconds := 30 }).exec overwriteRun).map
      (fun r => (readings r.2, latestStore "policy:a" r.2, (usedSince "policy:a" r.2).card)) =
      some ([0, 1, 2, 3, 3], some (1, 0, 30), 1) := by decide +kernel
  obtain ⟨c, tr, hrun, hs⟩ := Machine.Run.of_exec_map hexec
  simp only [Prod.mk.injEq] at hs
  obtain ⟨hreadings, hlatest, hcard⟩ := hs
  refine ⟨c, tr, hrun, ?_⟩
  refine retained_until_capacity { capacity := 2, default_ttl_seconds := 30 } (by norm_num)
    hrun ?_ hlatest (by norm_num) ?_
  · rw [hreadings]; decide
  · rw [hcard]; norm_num

/-! ## Eviction -/

/-- Storing `key` makes another key leave. -/
def Evicts (o : Options) (c : TTLCache V) (key : String) (value : V) (ttl : Option ℚ)
    (now : ℚ) (lru : String) : Prop :=
  lru ≠ key ∧ lru ∈ c.cache.keys ∧ lru ∉ (c._set o key value ttl now).1.cache.keys

instance (o : Options) (c : TTLCache V) (key : String) (value : V) (ttl : Option ℚ) (now : ℚ)
    (lru : String) : Decidable (Evicts o c key value ttl now lru) :=
  inferInstanceAs (Decidable (_ ∧ _ ∧ _))

/-- The cache is full without the key about to be stored, and every other key in
it has been used since `lru` was. -/
structure LeastRecentlyUsed (o : Options) (tr : List (Obs V Err)) (c : TTLCache V)
    (key lru : String) : Prop where
  full : ((c.cache.pop key).length : ℤ) = o.capacity
  least : ∀ k ∈ (c.cache.pop key).keys, k ≠ lru → k ∈ usedSince lru tr

/-- The key a store evicts is the first one. -/
theorem Evicts.firstKey {o : Options} (ho : 1 ≤ o.capacity) {c : TTLCache V} {key lru : String}
    {value : V} {ttl : Option ℚ} {now : ℚ} (h : Evicts o c key value ttl now lru) :
    o.capacity ≤ ((c.cache.pop key).length : ℤ) ∧ (c.cache.pop key).firstKey? = some lru := by
  obtain ⟨hne, hmem, hgone⟩ := h
  have hmem' : lru ∈ (c.cache.pop key).keys := OrderedDict.mem_keys_pop.mpr ⟨hmem, hne⟩
  rcases _set_keys ho c key value ttl now with ⟨lru', hfull, hlru, hkeys⟩ | ⟨-, hkeys⟩ <;>
    rw [hkeys, List.mem_append, not_or] at hgone
  · refine ⟨hfull, ?_⟩
    rw [OrderedDict.mem_keys_pop, not_and, not_not] at hgone
    rw [hgone.1 hmem']
    exact hlru
  · exact absurd hmem' hgone.1

/-- The order of the keys names the least recently used one. -/
theorem Recency.leastRecentlyUsed {o : Options} {tr : List (Obs V Err)} {c : TTLCache V}
    (h : Recency o tr c) (hsize : (c.cache.length : ℤ) ≤ o.capacity) {key lru : String}
    (hfull : o.capacity ≤ ((c.cache.pop key).length : ℤ))
    (hlru : (c.cache.pop key).firstKey? = some lru) : LeastRecentlyUsed o tr c key lru := by
  have hle := OrderedDict.length_pop_le c.cache key
  refine ⟨by omega, ?_⟩
  intro k hk hne
  have horder := h.order
  have hsub : (c.cache.pop key).keys.Sublist c.cache.keys := by
    rw [OrderedDict.keys_pop]
    exact List.filter_sublist
  obtain ⟨rest, hkeys⟩ := List.head?_eq_some_iff.mp hlru
  have hpairs := horder.sublist hsub
  rw [hkeys, List.pairwise_cons] at hpairs
  rw [hkeys, List.mem_cons] at hk
  exact hpairs.1 k (hk.resolve_left hne)

/-- **Eviction is by use alone.** In every state of every run, when a `set`
evicts another key, or a `get_or_set` that missed does by its fill, the cache
holds exactly `capacity` entries besides an old one of the stored key, and every
other of them has been used since the evicted key was. Expired entries count
like live ones. -/
theorem evicted_least_recently_used (o : Options) (ho : 1 ≤ o.capacity)
    {ops : List (Op V Err)} {tr : List (Obs V Err)} {c : TTLCache V}
    (hrun : (machine o).Run ops tr c) :
    (∀ key value ttl now lru, Evicts o c key value ttl now lru →
      LeastRecentlyUsed o tr c key lru) ∧
    (∀ key t₁ value ttl t₂ lru, (c._get key t₁).2 = none →
      Evicts o (c._get key t₁).1 key value (some ttl) t₂ lru →
      LeastRecentlyUsed o tr (c._get key t₁).1 key lru) := by
  have hrec := recency_run ho hrun
  have hinv := inv_run ho hrun
  constructor
  · intro key value ttl now lru hev
    obtain ⟨hfull, hlru⟩ := hev.firstKey ho
    exact hrec.leastRecentlyUsed hinv.size hfull hlru
  · intro key t₁ value ttl t₂ lru hget hev
    obtain ⟨hfull, hlru⟩ := hev.firstKey ho
    have hmissed := hrec.missed hinv hget
    have hle := _get_length_le c key t₁
    have hsize := hinv.size
    obtain ⟨hfull', hleast⟩ := hmissed.leastRecentlyUsed (by omega) hfull hlru
    refine ⟨hfull', ?_⟩
    intro k hk hne
    have hused := hleast k hk hne
    rwa [(noUse_missed key t₁).usedSince] at hused

theorem evicted_least_recently_used_policyRun :
    ∃ c tr, (machine { capacity := 2, default_ttl_seconds := 30 }).Run
      (policyRun.take 3) tr c ∧
      Evicts { capacity := 2, default_ttl_seconds := 30 } c "policy:c" 3 none 3 "policy:b" ∧
      LeastRecentlyUsed { capacity := 2, default_ttl_seconds := 30 } tr c
        "policy:c" "policy:b" := by
  have hexec : ((machine { capacity := 2, default_ttl_seconds := 30 }).exec
      (policyRun.take 3)).map (fun r => decide (Evicts
        { capacity := 2, default_ttl_seconds := 30 } r.1 "policy:c" 3 none 3 "policy:b")) =
      some true := by decide +kernel
  obtain ⟨c, tr, hrun, hs⟩ := Machine.Run.of_exec_map hexec
  have hev := of_decide_eq_true hs
  exact ⟨c, tr, hrun, hev, (evicted_least_recently_used
    { capacity := 2, default_ttl_seconds := 30 } (by norm_num) hrun).1 _ _ _ _ _ hev⟩

/-- Two entries whose lifetimes differ; the longer-lived one is the older. -/
def mixedTtlRun : List (Op ℕ Unit) :=
  [.set "a" 1 (some 100) 0, .set "b" 2 (some 1) 0]

/-- `b` has expired at reading 5, and `a`, live until 100, makes room for `c`. -/
theorem live_evicted_before_dead :
    ∃ c tr, (machine { capacity := 2 }).Run mixedTtlRun tr c ∧
      (readings tr ++ [5]).Pairwise (· ≤ ·) ∧
      Evicts { capacity := 2 } c "c" 3 none 5 "a" ∧
      c.cache.get? "a" = some ⟨1, 100⟩ ∧ (5 : ℚ) ≤ 100 ∧
      c.cache.get? "b" = some ⟨2, 1⟩ ∧ (1 : ℚ) < 5 := by
  have hexec : ((machine { capacity := 2 }).exec mixedTtlRun).map
        (fun r => (readings r.2, decide (Evicts { capacity := 2 } r.1 "c" 3 none 5 "a"),
          r.1.cache.get? "a", r.1.cache.get? "b")) =
      some ([0, 0], true, some ⟨1, 100⟩, some ⟨2, 1⟩) := by decide +kernel
  obtain ⟨c, tr, hrun, hs⟩ := Machine.Run.of_exec_map hexec
  simp only [Prod.mk.injEq] at hs
  obtain ⟨hreadings, hev, ha, hb⟩ := hs
  refine ⟨c, tr, hrun, ?_, of_decide_eq_true hev, ha, by norm_num, hb, by norm_num⟩
  rw [hreadings]
  decide

end InterviewPrep.TtlCache
