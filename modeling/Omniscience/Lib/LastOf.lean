import Mathlib.Data.List.Induction

/-!
# What a log says last

A log whose elements belong to keys, and its elements that no later one of their key replaces.
What the log says at its end is what these say.  `IsLast.rule` is the induction for a log that grows
at its end: the new element brings its own fact, and the facts of the other keys have to be kept.

`lastUntil` is what a log of a single thing says of an earlier moment.
-/

namespace Omniscience

open List

variable {α κ : Type*} {key : α → κ} {l : List α} {a b : α}

/-- The element stands in the list, and no later one has its key. -/
def IsLast (key : α → κ) (l : List α) (a : α) : Prop :=
  ∃ pre post, l = pre ++ a :: post ∧ ∀ b ∈ post, key b ≠ key a

namespace IsLast

theorem mem (h : IsLast key l a) : a ∈ l := by
  obtain ⟨pre, post, rfl, -⟩ := h
  exact mem_append_right _ mem_cons_self

theorem not_nil : ¬ IsLast key [] a := fun h => not_mem_nil h.mem

theorem of_concat (l : List α) (a : α) : IsLast key (l ++ [a]) a :=
  ⟨l, [], rfl, fun _ h => absurd h not_mem_nil⟩

theorem append (h : IsLast key l a) (hb : key b ≠ key a) : IsLast key (l ++ [b]) a := by
  obtain ⟨pre, post, rfl, hpost⟩ := h
  refine ⟨pre, post ++ [b], by rw [append_assoc, cons_append], fun c hc => ?_⟩
  rcases mem_append.1 hc with hc | hc
  · exact hpost c hc
  · rw [mem_singleton.1 hc]
    exact hb

theorem concat_cases (h : IsLast key (l ++ [b]) a) : a = b ∨ (key b ≠ key a ∧ IsLast key l a) := by
  obtain ⟨pre, post, heq, hpost⟩ := h
  induction post using List.reverseRecOn with
  | nil =>
    obtain ⟨-, hlast⟩ := append_inj' heq rfl
    exact .inl (singleton_inj.1 hlast).symm
  | append_singleton post c _ =>
    rw [← cons_append, ← append_assoc] at heq
    obtain ⟨hl, hlast⟩ := append_inj' heq rfl
    obtain rfl := singleton_inj.1 hlast
    exact .inr ⟨hpost b (mem_append_right _ mem_cons_self),
      ⟨pre, post, hl, fun c hc => hpost c (mem_append_left _ hc)⟩⟩

theorem exists_of_mem [DecidableEq κ] (h : a ∈ l) : ∃ b, IsLast key l b ∧ key b = key a := by
  induction l using List.reverseRecOn with
  | nil => exact absurd h not_mem_nil
  | append_singleton l c ih =>
    by_cases hc : key c = key a
    · exact ⟨c, of_concat l c, hc⟩
    · rcases mem_append.1 h with h | h
      · obtain ⟨b, hb, hkey⟩ := ih h
        exact ⟨b, hb.append fun heq => hc (heq.trans hkey), hkey⟩
      · exact absurd (congrArg key (mem_singleton.1 h).symm) hc

/-- **The rule for logs**: each element brings its own fact, and keeps those of the other keys. -/
theorem rule {P : List α → α → Prop} (own : ∀ l a, P (l ++ [a]) a)
    (keep : ∀ l a b, IsLast key l a → key b ≠ key a → P l a → P (l ++ [b]) a)
    (h : IsLast key l a) : P l a := by
  induction l using List.reverseRecOn generalizing a with
  | nil => exact absurd h not_nil
  | append_singleton l b ih =>
    rcases h.concat_cases with rfl | ⟨hne, hlast⟩
    · exact own l a
    · exact keep l a b hlast hne (ih hlast)

end IsLast

theorem eq_or_before (ha : a ∈ l) (hb : b ∈ l) :
    a = b ∨ (∃ pre, pre ++ [a] <+: l ∧ b ∈ pre) ∨ ∃ pre, pre ++ [b] <+: l ∧ a ∈ pre := by
  induction l using List.reverseRecOn with
  | nil => exact absurd ha not_mem_nil
  | append_singleton l c ih =>
    rcases mem_append.1 ha with ha | ha
    · rcases mem_append.1 hb with hb | hb
      · have hpre := prefix_append l [c]
        obtain h | ⟨pre, h, hmem⟩ | ⟨pre, h, hmem⟩ := ih ha hb
        · exact .inl h
        · exact .inr (.inl ⟨pre, h.trans hpre, hmem⟩)
        · exact .inr (.inr ⟨pre, h.trans hpre, hmem⟩)
      · rw [mem_singleton.1 hb]
        exact .inr (.inr ⟨l, prefix_rfl, ha⟩)
    · rw [mem_singleton.1 ha]
      rcases mem_append.1 hb with hb | hb
      · exact .inr (.inl ⟨l, prefix_rfl, hb⟩)
      · exact .inl (mem_singleton.1 hb).symm

/-! ### The last until a moment -/

section

variable {time : α → ℕ} {moment : ℕ}

/-- The last element of the log whose time is not after the moment. -/
def lastUntil (time : α → ℕ) (moment : ℕ) (l : List α) : Option α :=
  (l.filter fun a => time a ≤ moment).getLast?

theorem lastUntil_concat_of_lt (l : List α) (h : moment < time a) :
    lastUntil time moment (l ++ [a]) = lastUntil time moment l := by
  simp [lastUntil, h]

theorem lastUntil_concat_of_le (l : List α) (h : time a ≤ moment) :
    lastUntil time moment (l ++ [a]) = some a := by
  simp [lastUntil, h]

theorem lastUntil_eq_getLast? (h : ∀ a ∈ l, time a ≤ moment) :
    lastUntil time moment l = l.getLast? := by
  rw [lastUntil, filter_eq_self.2 fun a ha => by simpa using h a ha]

end

/-! ### The last of every arrangement -/

section

variable {β : Type*} {f : α → Option β} {P : β → Prop}

theorem exists_perm_getLast? (ha : a ∈ l) {b : β} (hb : f a = some b) :
    ∃ l' : List α, l'.Perm l ∧ (l'.filterMap f).getLast? = some b := by
  obtain ⟨pre, post, rfl⟩ := append_of_mem ha
  refine ⟨pre ++ post ++ [a], ?_, by simp [hb]⟩
  rw [append_assoc]
  exact (perm_append_singleton a post).append_left pre

theorem unique_of_getLast?_perm
    (h : ∀ l' : List α, l'.Perm l → ∀ b, (l'.filterMap f).getLast? = some b ↔ P b) (ha : a ∈ l)
    {b b' : β} (hb : f a = some b) (hb' : P b') : b = b' := by
  obtain ⟨l', hperm, hlast⟩ := exists_perm_getLast? ha hb
  have hlast' := (h l' hperm b').2 hb'
  rw [hlast] at hlast'
  exact Option.some.inj hlast'

theorem getLast?_perm_of_unique (hall : ∀ a ∈ l, ∀ b, f a = some b → P b)
    (hunique : ∀ b b', P b → P b' → b = b') (hex : ∀ b, P b → ∃ a ∈ l, f a = some b) {l' : List α}
    (hperm : l'.Perm l) (b : β) : (l'.filterMap f).getLast? = some b ↔ P b := by
  have hmem : ∀ b ∈ l'.filterMap f, P b := by
    intro b hb
    obtain ⟨a, ha, hb⟩ := mem_filterMap.1 hb
    exact hall a (hperm.mem_iff.1 ha) b hb
  constructor
  · exact fun hlast => hmem b (List.mem_of_getLast? hlast)
  · intro hb
    obtain ⟨a, ha, hab⟩ := hex b hb
    have hne : l'.filterMap f ≠ [] :=
      ne_nil_of_mem (mem_filterMap.2 ⟨a, hperm.mem_iff.2 ha, hab⟩)
    rw [List.getLast?_eq_some_getLast hne, hunique _ b (hmem _ (getLast_mem hne)) hb]

end

end Omniscience
