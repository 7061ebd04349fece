import InterviewPrep.Dsa.FirstAndLastMatch

/-!
# Searches with any probe

Where a search probes matters for whether it ends, but not for what it finds. With
any probe that is in the list, `left` never passes the end of the elements that are
too small, `right + 1` never passes the start of those that are too large, and an
end that lies next to a match was put there by that match (`FirstKnows`,
`LastKnows`). So a search that ends remembers the right match (`firstSearch_right`,
`lastSearch_right`): the searches of `answer.py`, which probe the wrong element, are
right whenever they end, and then they agree with those of `answer.ts`
(`ended_searches_agree`).
-/

namespace InterviewPrep.FirstAndLastMatch

variable {values : List ℤ} {target : ℤ} {midpoint : Search → ℤ}
  {read : ℤ → Except Error (Option ℤ)}

/-- As long as the interval lies in the list, the probe does. -/
def ProbesInside (values : List ℤ) (midpoint : Search → ℤ) : Prop :=
  ∀ s : Search, 0 ≤ s.left → s.left ≤ s.right → s.right < values.length →
    0 ≤ midpoint s ∧ midpoint s < values.length

/-! ## What the searches know -/

/-- The first match lies in the interval or right behind it, and in the latter case it
was found. -/
structure FirstKnows (values : List ℤ) (target : ℤ) (s : Search) : Prop where
  left : 0 ≤ s.left ∧ s.left ≤ below values target
  right : below values target ≤ s.right + 1 ∧ s.right < values.length
  found : below values target < upTo values target → s.right + 1 = below values target →
    s.result = s.right + 1
  absent : upTo values target ≤ below values target → s.result = -1

/-- The last match lies in the interval or right before it, and in the latter case it
was found. -/
structure LastKnows (values : List ℤ) (target : ℤ) (s : Search) : Prop where
  left : 0 ≤ s.left ∧ s.left ≤ upTo values target
  right : upTo values target ≤ s.right + 1 ∧ s.right < values.length
  found : below values target < upTo values target → s.left = upTo values target →
    s.result = s.left - 1
  absent : upTo values target ≤ below values target → s.result = -1

theorem firstKnows_start (values : List ℤ) (target : ℤ) :
    FirstKnows values target (Search.start values) := by
  have hle := below_le_upTo values target
  have hlen := upTo_le_length values target
  refine ⟨⟨Int.le_refl 0, ?_⟩, ⟨?_, ?_⟩, ?_, fun _ => rfl⟩ <;> simp only [Search.start] <;> omega

theorem lastKnows_start (values : List ℤ) (target : ℤ) :
    LastKnows values target (Search.start values) := by
  have hlen := upTo_le_length values target
  refine ⟨⟨Int.le_refl 0, ?_⟩, ⟨?_, ?_⟩, ?_, fun _ => rfl⟩ <;> simp only [Search.start] <;> omega

theorem FirstKnows.round (hsorted : values.Pairwise (· ≤ ·)) (hread : Reads values read)
    (hinside : ProbesInside values midpoint) {s : Search} (h : FirstKnows values target s)
    (hguard : (searchLoop midpoint read keepLeft target).guard s = true) :
    ∃ t, (searchLoop midpoint read keepLeft target).body s = .ok t ∧
      FirstKnows values target t := by
  rcases h with ⟨⟨hleft0, hleft⟩, ⟨hright, hlen⟩, hfound, habsent⟩
  have hle := below_le_upTo values target
  rcases hinside s hleft0 (of_decide_eq_true hguard) hlen with ⟨h0, hn⟩
  rcases body_cases hsorted target hread midpoint keepLeft s h0 hn with ⟨t, hbody, hcases⟩
  refine ⟨t, hbody, ?_⟩
  rcases hcases with ⟨hb, hu, rfl⟩ | ⟨hb, rfl⟩ | ⟨hu, rfl⟩
  · -- a match: the interval ends right before it
    refine ⟨?_, ?_, ?_, ?_⟩ <;> simp only [keepLeft, Search.found, Search.goLeft] <;> omega
  · -- too small: what is left of the probe cannot match
    refine ⟨?_, ?_, hfound, habsent⟩ <;> simp only [Search.goRight] <;> omega
  · -- too large: no match lies right behind the interval
    refine ⟨?_, ?_, ?_, habsent⟩ <;> simp only [Search.goLeft] <;> omega

theorem LastKnows.round (hsorted : values.Pairwise (· ≤ ·)) (hread : Reads values read)
    (hinside : ProbesInside values midpoint) {s : Search} (h : LastKnows values target s)
    (hguard : (searchLoop midpoint read keepRight target).guard s = true) :
    ∃ t, (searchLoop midpoint read keepRight target).body s = .ok t ∧
      LastKnows values target t := by
  rcases h with ⟨⟨hleft0, hleft⟩, ⟨hright, hlen⟩, hfound, habsent⟩
  have hle := below_le_upTo values target
  rcases hinside s hleft0 (of_decide_eq_true hguard) hlen with ⟨h0, hn⟩
  rcases body_cases hsorted target hread midpoint keepRight s h0 hn with ⟨t, hbody, hcases⟩
  refine ⟨t, hbody, ?_⟩
  rcases hcases with ⟨hb, hu, rfl⟩ | ⟨hb, rfl⟩ | ⟨hu, rfl⟩
  · -- a match: the interval starts right behind it
    refine ⟨?_, ?_, ?_, ?_⟩ <;> simp only [keepRight, Search.found, Search.goRight] <;> omega
  · refine ⟨?_, ?_, ?_, habsent⟩ <;> simp only [Search.goRight] <;> omega
  · refine ⟨?_, ?_, hfound, habsent⟩ <;> simp only [Search.goLeft] <;> omega

/-! ## Searches that end -/

/-- The first search with any probe: if it ends, it has not raised, and it remembers
the first match. -/
theorem firstSearch_right (hsorted : values.Pairwise (· ≤ ·)) (hread : Reads values read)
    (hinside : ProbesInside values midpoint) {bound : ℕ} {r : Except Error Search}
    (h : (searchLoop midpoint read keepLeft target).run bound (Search.start values) = some r) :
    ∃ t, r = .ok t ∧ t.result =
      if below values target < upTo values target then (below values target : ℤ) else -1 := by
  rcases WhileLoop.ended_of_invariant
    (fun s h hguard => FirstKnows.round hsorted hread hinside h hguard)
    (firstKnows_start values target) h with ⟨t, rfl, ht, hguard⟩
  refine ⟨t, rfl, ?_⟩
  rcases ht with ⟨⟨-, hleft⟩, ⟨hright, -⟩, hfound, habsent⟩
  -- the interval is empty, so that its ends meet at the match
  have hempty : ¬ t.left ≤ t.right := of_decide_eq_false hguard
  split <;> omega

/-- The last search with any probe. -/
theorem lastSearch_right (hsorted : values.Pairwise (· ≤ ·)) (hread : Reads values read)
    (hinside : ProbesInside values midpoint) {bound : ℕ} {r : Except Error Search}
    (h : (searchLoop midpoint read keepRight target).run bound (Search.start values) = some r) :
    ∃ t, r = .ok t ∧ t.result =
      if below values target < upTo values target then (upTo values target : ℤ) - 1 else -1 := by
  rcases WhileLoop.ended_of_invariant
    (fun s h hguard => LastKnows.round hsorted hread hinside h hguard)
    (lastKnows_start values target) h with ⟨t, rfl, ht, hguard⟩
  refine ⟨t, rfl, ?_⟩
  rcases ht with ⟨⟨-, hleft⟩, ⟨hright, -⟩, hfound, habsent⟩
  -- the interval is empty here as well
  have hempty : ¬ t.left ≤ t.right := of_decide_eq_false hguard
  split <;> omega

/-- What both searches give, when they end. -/
theorem both_right (hsorted : values.Pairwise (· ≤ ·)) (hread : Reads values read)
    (hinside : ProbesInside values midpoint) {bound : ℕ} {r : Except Error (ℤ × ℤ)}
    (h : both (searchLoop midpoint read keepLeft target)
      (searchLoop midpoint read keepRight target) values bound = some r) :
    r = .ok (if below values target < upTo values target
      then ((below values target : ℤ), (upTo values target : ℤ) - 1) else (-1, -1)) := by
  unfold both at h
  split at h
  · cases h
  · -- a search that ends has not raised
    rename_i e hfirst
    rcases firstSearch_right hsorted hread hinside hfirst with ⟨t, ht, -⟩
    cases ht
  · rename_i s hfirst
    rcases firstSearch_right hsorted hread hinside hfirst with ⟨s', hs', hresult⟩
    cases hs'
    split at h
    · cases h
    · rename_i e hlast
      rcases lastSearch_right hsorted hread hinside hlast with ⟨t, ht, -⟩
      cases ht
    · rename_i t hlast
      rcases lastSearch_right hsorted hread hinside hlast with ⟨t', ht', hresult'⟩
      cases ht'
      cases h
      rw [hresult, hresult']
      split <;> rfl

/-! ## The two files -/

theorem TypeScript.probesInside (values : List ℤ) : ProbesInside values TypeScript.midpoint := by
  intro s h0 hle hn
  -- the middle of the interval
  unfold TypeScript.midpoint
  omega

theorem Python.probesInside (values : List ℤ) : ProbesInside values Python.midpoint := by
  intro s h0 hle hn
  -- inside the list, if not in the interval
  unfold Python.midpoint
  omega

/-- On a sorted list, if both searches of the Python version end, it has not raised,
and it returns the first and the last match, as the TypeScript version does. -/
theorem ended_searches_agree (hsorted : values.Pairwise (· ≤ ·)) {bound bound' : ℕ}
    {r r' : Except Error (ℤ × ℤ)} (h : Python.firstAndLastMatch values target bound = some r)
    (h' : TypeScript.firstAndLastMatch values target bound' = some r') :
    r = r' ∧ ∃ answer, r = .ok answer ∧ FirstAndLast values target answer := by
  have hr := both_right hsorted (Python.reads values) (Python.probesInside values) h
  have hr' := both_right hsorted (TypeScript.reads values) (TypeScript.probesInside values) h'
  refine ⟨by rw [hr, hr'], _, hr, ?_⟩
  split
  · exact firstAndLast_of_counts hsorted (by rw [if_pos ‹_›]) (by rw [if_pos ‹_›])
  · exact firstAndLast_of_counts hsorted (by rw [if_neg ‹_›]) (by rw [if_neg ‹_›])

/-- A list on which the Python version ends: the target comes before all other
elements. -/
theorem ended_searches_agree_single :
    ∃ r r', Python.firstAndLastMatch [1, 5, 7, 8] 1 5 = some r ∧
      TypeScript.firstAndLastMatch [1, 5, 7, 8] 1 5 = some r' ∧
      r = r' ∧ ∃ answer, r = .ok answer ∧ FirstAndLast [1, 5, 7, 8] 1 answer := by
  have hsorted : List.Pairwise (· ≤ ·) [(1 : ℤ), 5, 7, 8] := by decide
  have hpython : Python.firstAndLastMatch [1, 5, 7, 8] 1 5 = some (.ok (0, 0)) := by decide +kernel
  have htypescript : TypeScript.firstAndLastMatch [1, 5, 7, 8] 1 5 = some (.ok (0, 0)) := by
    decide +kernel
  exact ⟨_, _, hpython, htypescript, ended_searches_agree hsorted hpython htypescript⟩

end InterviewPrep.FirstAndLastMatch
