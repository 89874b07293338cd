import Omniscience.Lib.Dict

/-!
# Memories of recent keys

A memory keeps for every key the time at which it was last recorded, and forgets what was recorded
before a cutoff.  A key is live at a cutoff if it was recorded since; purging at an earlier cutoff
changes nothing (`live_purge`), so that it does not matter when and how often a memory is purged.
-/

namespace Omniscience.Recent

open Dict

variable {K T : Type*} [DecidableEq K] [LinearOrder T]

/-- Forget the keys that were recorded before the cutoff. -/
def purge (seen : Dict K T) (cutoff : T) : Dict K T := seen.filter fun _ ts => !decide (ts < cutoff)

/-- The key was recorded at the cutoff or later. -/
def Live (seen : Dict K T) (k : K) (cutoff : T) : Prop :=
  ∃ ts, seen.get? k = some ts ∧ cutoff ≤ ts

variable {seen : Dict K T} {k : K} {cutoff later : T}

theorem get?_purge {ts : T} :
    (purge seen cutoff).get? k = some ts ↔ seen.get? k = some ts ∧ cutoff ≤ ts := by
  constructor
  · intro h
    have hmem := (List.mem_filter.1 (mem_items_of_get? h)).2
    exact ⟨get?_of_filter h, by simpa using hmem⟩
  · rintro ⟨h, hle⟩
    have hmem : (k, ts) ∈ (purge seen cutoff).items :=
      List.mem_filter.2 ⟨mem_items_of_get? h, by simpa using hle⟩
    exact get?_of_mem_items hmem

theorem contains_purge : (purge seen cutoff).contains k = true ↔ Live seen k cutoff := by
  rw [contains, Option.isSome_iff_exists]
  exact exists_congr fun ts => get?_purge

/-- **An earlier purge does not change what is live.** -/
theorem live_purge (h : cutoff ≤ later) : Live (purge seen cutoff) k later ↔ Live seen k later := by
  refine exists_congr fun ts => ?_
  rw [get?_purge]
  constructor
  · rintro ⟨⟨hget, -⟩, hle⟩
    exact ⟨hget, hle⟩
  · rintro ⟨hget, hle⟩
    exact ⟨⟨hget, h.trans hle⟩, hle⟩

theorem Live.anti (hlive : Live seen k later) (h : cutoff ≤ later) : Live seen k cutoff := by
  obtain ⟨ts, hget, hle⟩ := hlive
  exact ⟨ts, hget, h.trans hle⟩

theorem live_set_self {ts : T} : Live (seen.set k ts) k cutoff ↔ cutoff ≤ ts := by
  simp only [Live, get?_set_self, Option.some.injEq, exists_eq_left']

theorem live_set_ne {j : K} {ts : T} (h : j ≠ k) :
    Live (seen.set k ts) j cutoff ↔ Live seen j cutoff := by
  rw [Live, Live, get?_set_ne _ _ h]

theorem not_live_empty : ¬ Live (Dict.empty : Dict K T) k cutoff := by
  rintro ⟨ts, hget, -⟩
  cases hget

end Omniscience.Recent
