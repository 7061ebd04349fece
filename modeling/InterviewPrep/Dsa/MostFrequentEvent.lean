import Mathlib.Data.List.MinMax
import InterviewPrep.Lib.Grouping

/-!
# The most frequent event

`most_frequent_event` of `dsa/event_frequency_counter/answer.py` and `mostFrequentEvent`
of `answer.ts`: a dictionary counts the events, and a scan of its entries keeps the first
entry with the highest count, as `List.argmax` does (`scan_eq`). The dictionary keeps
the events in the order of their first occurrences, so this entry is the first of the most
frequent events (`most_frequent_event_correct`). Events are strings, of which nothing but
equality is used.
-/

namespace InterviewPrep.MostFrequentEvent

variable {E : Type} [DecidableEq E]

/-! ## The program -/

/-- The result. -/
structure EventFrequency (E : Type) where
  event : E
  count : ℕ
deriving DecidableEq

/-- The variables of the scan. -/
structure Highest (E : Type) where
  event : Option E
  count : ℕ

/-- `counts[event] = counts.get(event, 0) + 1` -/
def countEvent (counts : OrderedDict E ℕ) (event : E) : OrderedDict E ℕ :=
  counts.setItem event ((counts.get? event).getD 0 + 1)

/-- The dictionary behind the first loop. -/
def countEvents (events : List E) : OrderedDict E ℕ := events.foldl countEvent OrderedDict.empty

/-- The turn of the scan for an entry. -/
def Highest.update (highest : Highest E) (entry : E × ℕ) : Highest E :=
  if entry.2 > highest.count then ⟨some entry.1, entry.2⟩ else highest

/-- The scan. -/
def scan (entries : List (E × ℕ)) : Highest E := entries.foldl Highest.update ⟨none, 0⟩

/-- What both languages do. -/
def mostFrequent (events : List E) : Option (EventFrequency E) :=
  if events.length = 0 then none
  else
    let highest := scan (countEvents events).entries
    match highest.event with
    | none => none
    | some event => some ⟨event, highest.count⟩

def Python.most_frequent_event (events : List E) : Option (EventFrequency E) :=
  mostFrequent events

def TypeScript.mostFrequentEvent (events : List E) : Option (EventFrequency E) :=
  mostFrequent events

/-! ## What is asked for -/

/-- An event with its number of occurrences, which is the highest, and of the events with
this number the one that occurs first. -/
structure MostFrequent (events : List E) (r : EventFrequency E) : Prop where
  count : r.count = events.count r.event
  highest : ∀ e, events.count e ≤ r.count
  first : ∀ e, e ≠ r.event → events.count e = r.count → events.idxOf r.event < events.idxOf e

theorem MostFrequent.unique {events : List E} {r s : EventFrequency E}
    (hr : MostFrequent events r) (hs : MostFrequent events s) : r = s := by
  have hcount : r.count = s.count :=
    le_antisymm (hr.count ▸ hs.highest r.event) (hs.count ▸ hr.highest s.event)
  have hevent : r.event = s.event := by
    by_contra hne
    have hlt := hr.first s.event (Ne.symm hne) (hs.count.symm.trans hcount.symm)
    have hgt := hs.first r.event hne (hr.count.symm.trans hcount)
    exact Nat.lt_asymm hlt hgt
  cases r
  cases s
  exact congrArg₂ EventFrequency.mk hevent hcount

/-! ## The counts -/

/-- The events are grouped, and the groups are their sizes. -/
theorem countEvents_eq (events : List E) :
    countEvents events = groupWith id (fun _ => 0) (fun count _ => count + 1) events := rfl

theorem mem_entries_countEvents {events : List E} {e : E} {c : ℕ} :
    (e, c) ∈ (countEvents events).entries ↔ e ∈ events ∧ c = events.count e := by
  have hcount : (withKey id e events).length = events.count e := by
    rw [withKey, ← List.countP_eq_length_filter, List.count]
    exact List.countP_congr fun a _ => by simp
  have hne : withKey id e events ≠ [] ↔ e ∈ events := by
    rw [← List.length_pos_iff, hcount, List.count_pos_iff]
  rw [countEvents_eq, mem_entries_groupWith, groupOf_counts_eq_some_iff, hcount, hne, and_comm]

/-- The events are counted in the order of their first occurrences. -/
theorem pairwise_entries_countEvents (events : List E) :
    (countEvents events).entries.Pairwise fun p q => events.idxOf p.1 < events.idxOf q.1 := by
  have hkeys : (groupWith id (fun _ => 0) (fun count _ => count + 1) events).keys.Pairwise
      fun d e => (events.map id).idxOf d < (events.map id).idxOf e := pairwise_keys_groupWith events
  rw [List.map_id, OrderedDict.keys, List.pairwise_map] at hkeys
  exact hkeys

/-! ## The scan -/

/-- The variables that stand for an entry, or for none. -/
def Highest.ofEntry : Option (E × ℕ) → Highest E
  | none => ⟨none, 0⟩
  | some entry => ⟨some entry.1, entry.2⟩

omit [DecidableEq E] in
/-- The scan keeps the first entry with the highest count. -/
theorem scan_eq {entries : List (E × ℕ)} (hpos : ∀ p ∈ entries, 0 < p.2) :
    scan entries = Highest.ofEntry (entries.argmax Prod.snd) := by
  induction entries using List.reverseRecOn with
  | nil => rfl
  | append_singleton entries entry ih =>
    have hentry : 0 < entry.2 := hpos entry (by simp)
    have hscan := ih fun p hp => hpos p (List.mem_append_left _ hp)
    rw [scan] at hscan ⊢
    rw [List.foldl_append, hscan, List.argmax_concat]
    cases entries.argmax Prod.snd with
    | none => exact if_pos hentry
    | some best =>
      by_cases hgt : best.2 < entry.2
      · simp [Highest.update, Highest.ofEntry, hgt]
      · simp [Highest.update, Highest.ofEntry, hgt]

theorem mostFrequent_eq (events : List E) : mostFrequent events =
    ((countEvents events).entries.argmax Prod.snd).map fun entry => ⟨entry.1, entry.2⟩ := by
  have hpos : ∀ p ∈ (countEvents events).entries, 0 < p.2 := by
    rintro ⟨e, c⟩ hp
    rcases mem_entries_countEvents.mp hp with ⟨he, rfl⟩
    exact List.count_pos_iff.mpr he
  unfold mostFrequent
  split
  · rename_i hlength
    rw [List.eq_nil_of_length_eq_zero hlength]
    rfl
  · rw [scan_eq hpos]
    cases (countEvents events).entries.argmax Prod.snd with
    | none => rfl
    | some entry => rfl

/-- The entry that the scan keeps is an answer. -/
theorem mostFrequent_of_argmax {events : List E} {entry : E × ℕ}
    (h : entry ∈ (countEvents events).entries.argmax Prod.snd) :
    MostFrequent events ⟨entry.1, entry.2⟩ := by
  rcases List.mem_argmax_iff.mp h with ⟨hmem, hmax, hfirst⟩
  rcases mem_entries_countEvents.mp hmem with ⟨hevent, hcount⟩
  refine ⟨hcount, ?_, ?_⟩
  · intro e
    by_cases he : e ∈ events
    · exact hmax (e, events.count e) (mem_entries_countEvents.mpr ⟨he, rfl⟩)
    · rw [List.count_eq_zero.mpr he]
      exact Nat.zero_le _
  · intro e hne he
    have hmem' : (e, entry.2) ∈ (countEvents events).entries := by
      refine mem_entries_countEvents.mpr ⟨?_, he.symm⟩
      rw [← List.count_pos_iff, he, hcount]
      exact List.count_pos_iff.mpr hevent
    -- of two entries with this count the scan keeps the one in front
    have hne' : entry ≠ (e, entry.2) := fun heq => hne (congrArg Prod.fst heq).symm
    have horder := rel_of_idxOf_le (pairwise_entries_countEvents events) hmem' hne'
      (hfirst _ hmem' (le_refl _))
    exact horder

theorem mostFrequent_eq_none_iff {events : List E} : mostFrequent events = none ↔ events = [] := by
  rw [mostFrequent_eq, Option.map_eq_none_iff, List.argmax_eq_none]
  constructor
  · intro hentries
    rw [List.eq_nil_iff_forall_not_mem] at hentries ⊢
    intro e he
    exact hentries (e, events.count e) (mem_entries_countEvents.mpr ⟨he, rfl⟩)
  · rintro rfl
    rfl

theorem mostFrequent_eq_some_iff {events : List E} {r : EventFrequency E} :
    mostFrequent events = some r ↔ events ≠ [] ∧ MostFrequent events r := by
  have hfound : ∀ s, mostFrequent events = some s → MostFrequent events s := by
    intro s hs
    rw [mostFrequent_eq] at hs
    rcases Option.map_eq_some_iff.mp hs with ⟨entry, hentry, rfl⟩
    exact mostFrequent_of_argmax hentry
  constructor
  · intro h
    refine ⟨?_, hfound r h⟩
    rintro rfl
    cases h
  · rintro ⟨hne, hr⟩
    cases hs : mostFrequent events with
    | none => exact absurd (mostFrequent_eq_none_iff.mp hs) hne
    | some s => rw [hr.unique (hfound s hs)]

/-- Both versions return nothing for no events, and otherwise the answer that is asked
for. -/
theorem most_frequent_event_correct (events : List E) :
    ((Python.most_frequent_event events = none ↔ events = []) ∧
      ∀ r, Python.most_frequent_event events = some r ↔
        events ≠ [] ∧ MostFrequent events r) ∧
    (TypeScript.mostFrequentEvent events = none ↔ events = []) ∧
      ∀ r, TypeScript.mostFrequentEvent events = some r ↔
        events ≠ [] ∧ MostFrequent events r :=
  ⟨⟨mostFrequent_eq_none_iff, fun _ => mostFrequent_eq_some_iff⟩, mostFrequent_eq_none_iff,
    fun _ => mostFrequent_eq_some_iff⟩

example : Python.most_frequent_event ["a", "b", "b", "a"] = some ⟨"a", 2⟩ := by decide

end InterviewPrep.MostFrequentEvent
