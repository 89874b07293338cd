import Mathlib.Data.List.Dedup
import Mathlib.Data.List.Pairwise

/-!
# The first entry of every key

`firstBy key seen l` keeps the entries of `l` whose key has not occurred before, in their order.
What is left has no key twice (`nodup_firstBy`) and every key that was there (`mem_keys_firstBy`);
in a list that is ordered, the entry left for a key comes before all others of that key
(`firstBy_first`).
-/

namespace Omniscience

open List

variable {α κ : Type*} [DecidableEq κ] (key : α → κ)

/-- The entries whose key is neither among the seen ones nor that of an earlier entry. -/
def firstBy (seen : List κ) : List α → List α
  | [] => []
  | a :: rest =>
    if key a ∈ seen then firstBy seen rest else a :: firstBy (key a :: seen) rest

attribute [grind =] firstBy

variable {key} {seen : List κ} {l : List α} {a : α}

theorem firstBy_sublist (seen : List κ) (l : List α) : (firstBy key seen l).Sublist l := by
  induction l generalizing seen with
  | nil => exact List.Sublist.refl _
  | cons a rest ih =>
    rw [firstBy]
    split
    · exact (ih seen).cons a
    · exact (ih _).cons_cons a

theorem mem_keys_firstBy {k : κ} : k ∈ (firstBy key seen l).map key ↔ k ∈ l.map key ∧ k ∉ seen := by
  induction l generalizing seen with
  | nil => simp [firstBy]
  | cons a rest ih =>
    rw [firstBy, map_cons, mem_cons]
    split
    · rename_i ha
      rw [ih]
      constructor
      · exact fun h => ⟨.inr h.1, h.2⟩
      · rintro ⟨rfl | h, hk⟩
        · exact absurd ha hk
        · exact ⟨h, hk⟩
    · rename_i ha
      rw [map_cons, mem_cons, ih, mem_cons, not_or]
      by_cases hk : k = key a
      · subst hk
        simp [ha]
      · simp [hk]

theorem nodup_firstBy : ((firstBy key seen l).map key).Nodup := by
  induction l generalizing seen with
  | nil => exact nodup_nil
  | cons a rest ih =>
    rw [firstBy]
    split
    · exact ih
    · rw [map_cons, nodup_cons]
      exact ⟨fun h => (mem_keys_firstBy.1 h).2 mem_cons_self, ih⟩

theorem length_firstBy : (firstBy key [] l).length = (l.map key).dedup.length := by
  have hperm : ((firstBy key [] l).map key).Perm (l.map key).dedup := by
    refine (perm_ext_iff_of_nodup nodup_firstBy (nodup_dedup _)).2 fun k => ?_
    rw [mem_keys_firstBy, mem_dedup]
    exact and_iff_left not_mem_nil
  rw [← hperm.length_eq, length_map]

/-- **In an ordered list the entry that is left for a key comes first.** -/
theorem firstBy_first {r : α → α → Prop} (hrefl : ∀ a, r a a) (hl : l.Pairwise r) (ha : a ∈ l)
    (hseen : key a ∉ seen) : ∃ b ∈ firstBy key seen l, key b = key a ∧ r b a := by
  induction l generalizing seen with
  | nil => cases ha
  | cons c rest ih =>
    obtain ⟨hc, hrest⟩ := pairwise_cons.1 hl
    rw [firstBy]
    by_cases hkey : key c ∈ seen
    · rw [if_pos hkey]
      rcases mem_cons.1 ha with rfl | ha
      · exact absurd hkey hseen
      · exact ih hrest ha hseen
    · rw [if_neg hkey]
      by_cases hsame : key c = key a
      · refine ⟨c, mem_cons_self, hsame, ?_⟩
        rcases mem_cons.1 ha with rfl | ha
        · exact hrefl a
        · exact hc a ha
      · rcases mem_cons.1 ha with rfl | ha
        · exact absurd rfl hsame
        · have hseen' : key a ∉ key c :: seen := by
            rw [mem_cons, not_or]
            exact ⟨Ne.symm hsame, hseen⟩
          obtain ⟨b, hb, hbkey, hba⟩ := ih hrest ha hseen'
          exact ⟨b, mem_cons_of_mem _ hb, hbkey, hba⟩

end Omniscience
