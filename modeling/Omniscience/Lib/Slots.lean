import Mathlib.Data.List.Induction
import Mathlib.Data.Set.Basic

/-!
# Slots

A set of items, each of which lies in a slot (its `key`) and has a `stamp`.  An item that is `put`
drives out the items of its slot with another stamp, and stays itself if the slot was empty or it
drove something out; items of the slot with its own stamp stand for it.

Each slot lives on its own (`AgreeAt.putAll`).  Putting the same items again changes nothing
(`putAll_putAll`), although a list may hold several items of a slot that drive out each other.
-/

namespace Omniscience.Slots

open List

variable {α κ σ : Type*} (key : α → κ) (stamp : α → σ)

/-- The item takes its slot. -/
def put (items : Set α) (e : α) : Set α :=
  {x | (x ∈ items ∧ (key x = key e → stamp x = stamp e)) ∨
    (x = e ∧ ((∀ y ∈ items, key y ≠ key e) ∨ ∃ y ∈ items, key y = key e ∧ stamp y ≠ stamp e))}

/-- One item after the other. -/
def putAll (items : Set α) (l : List α) : Set α := l.foldl (put key stamp) items

/-- The sets are the same in the slot. -/
def AgreeAt (k : κ) (s t : Set α) : Prop := ∀ x, key x = k → (x ∈ s ↔ x ∈ t)

/-- The slot is taken, and by items with this stamp only. -/
def HasStamp (k : κ) (v : σ) (items : Set α) : Prop :=
  (∃ x ∈ items, key x = k) ∧ ∀ x ∈ items, key x = k → stamp x = v

variable {key stamp} {items s t : Set α} {k : κ} {v : σ} {l : List α} {e : α}

theorem AgreeAt.symm (h : AgreeAt key k s t) : AgreeAt key k t s := fun x hx => (h x hx).symm

theorem AgreeAt.trans {r : Set α} (h : AgreeAt key k r s) (h' : AgreeAt key k s t) :
    AgreeAt key k r t :=
  fun x hx => (h x hx).trans (h' x hx)

theorem agreeAt_refl (k : κ) (s : Set α) : AgreeAt key k s s := fun _ _ => Iff.rfl

theorem agreeAt_put_of_ne (h : key e ≠ k) : AgreeAt key k (put key stamp items e) items := by
  intro x hx
  have hne : key x ≠ key e := hx ▸ h.symm
  have hxe : x ≠ e := fun hxe => hne (congrArg key hxe)
  simp [put, hne, hxe]

theorem AgreeAt.put (h : AgreeAt key k s t) (e : α) :
    AgreeAt key k (put key stamp s e) (put key stamp t e) := by
  by_cases he : key e = k
  · subst he
    intro x hx
    have hfree : (∀ y ∈ s, key y ≠ key e) ↔ ∀ y ∈ t, key y ≠ key e :=
      ⟨fun hs y hy hk => hs y ((h y hk).2 hy) hk, fun ht y hy hk => ht y ((h y hk).1 hy) hk⟩
    have hother : (∃ y ∈ s, key y = key e ∧ stamp y ≠ stamp e) ↔
        ∃ y ∈ t, key y = key e ∧ stamp y ≠ stamp e := by
      constructor
      · rintro ⟨y, hy, hk, hv⟩
        exact ⟨y, (h y hk).1 hy, hk, hv⟩
      · rintro ⟨y, hy, hk, hv⟩
        exact ⟨y, (h y hk).2 hy, hk, hv⟩
    simp only [Slots.put, Set.mem_ofPred_eq, h x hx, hfree, hother]
  · exact (agreeAt_put_of_ne he).trans (h.trans (agreeAt_put_of_ne he).symm)

theorem AgreeAt.putAll (h : AgreeAt key k s t) (l : List α) :
    AgreeAt key k (putAll key stamp s l) (putAll key stamp t l) := by
  induction l generalizing s t with
  | nil => exact h
  | cons e l ih => exact ih (h.put e)

theorem agreeAt_putAll_of_ne (hl : ∀ e ∈ l, key e ≠ k) :
    AgreeAt key k (putAll key stamp items l) items := by
  induction l generalizing items with
  | nil => exact agreeAt_refl k items
  | cons e l ih =>
    have hput : AgreeAt key k (Slots.put key stamp items e) items :=
      agreeAt_put_of_ne (hl e mem_cons_self)
    exact (ih fun e' he' => hl e' (mem_cons_of_mem _ he')).trans hput

theorem putAll_append (items : Set α) (l l' : List α) :
    putAll key stamp items (l ++ l') = putAll key stamp (putAll key stamp items l) l' := by
  rw [putAll, foldl_append]
  rfl

theorem putAll_concat (items : Set α) (l : List α) (e : α) :
    putAll key stamp items (l ++ [e]) = put key stamp (putAll key stamp items l) e :=
  putAll_append items l [e]

/-! ### The stamp of a slot -/

theorem hasStamp_put (items : Set α) (e : α) :
    HasStamp key stamp (key e) (stamp e) (put key stamp items e) := by
  constructor
  · by_cases hsame : ∃ y ∈ items, key y = key e ∧ stamp y = stamp e
    · obtain ⟨y, hy, hk, hv⟩ := hsame
      exact ⟨y, .inl ⟨hy, fun _ => hv⟩, hk⟩
    · -- the slot is empty or holds another stamp, so that the item itself comes
      refine ⟨e, .inr ⟨rfl, ?_⟩, rfl⟩
      by_cases hfree : ∀ y ∈ items, key y ≠ key e
      · exact .inl hfree
      · simp only [not_forall, not_not] at hfree
        obtain ⟨y, hy, hk⟩ := hfree
        exact .inr ⟨y, hy, hk, fun hv => hsame ⟨y, hy, hk, hv⟩⟩
  · rintro x (⟨-, hx⟩ | ⟨rfl, -⟩) hk
    · exact hx hk
    · rfl

theorem HasStamp.congr (h : HasStamp key stamp k v s) (hst : AgreeAt key k s t) :
    HasStamp key stamp k v t := by
  obtain ⟨⟨x, hx, hk⟩, hall⟩ := h
  exact ⟨⟨x, (hst x hk).1 hx, hk⟩, fun y hy hk => hall y ((hst y hk).2 hy) hk⟩

theorem HasStamp.put_of_eq (h : HasStamp key stamp (key e) (stamp e) items) :
    AgreeAt key (key e) (put key stamp items e) items := by
  obtain ⟨⟨y, hy, hk⟩, hall⟩ := h
  intro x hx
  constructor
  · rintro (⟨hx, -⟩ | ⟨rfl, hfree | ⟨z, hz, hzk, hzv⟩⟩)
    · exact hx
    · exact absurd hk (hfree y hy)
    · exact absurd (hall z hz hzk) hzv
  · intro hmem
    exact .inl ⟨hmem, hall x hmem⟩

theorem HasStamp.put_of_ne (h : HasStamp key stamp (key e) v items) (hv : v ≠ stamp e) :
    AgreeAt key (key e) (put key stamp items e) {e} := by
  obtain ⟨⟨y, hy, hk⟩, hall⟩ := h
  intro x hx
  constructor
  · rintro (⟨hmem, hsame⟩ | ⟨rfl, -⟩)
    · exact absurd ((hall x hmem hx).symm.trans (hsame hx)) hv
    · rfl
  · rintro rfl
    exact .inr ⟨rfl, .inr ⟨y, hy, hk, (hall y hy hk).trans_ne hv⟩⟩

theorem HasStamp.putAll (h : HasStamp key stamp k v items)
    (hl : ∀ e ∈ l, key e = k → stamp e = v) : AgreeAt key k (putAll key stamp items l) items := by
  induction l generalizing items with
  | nil => exact agreeAt_refl k items
  | cons e l ih =>
    have hput : AgreeAt key k (put key stamp items e) items := by
      by_cases he : key e = k
      · subst he
        obtain rfl := hl e mem_cons_self rfl
        exact h.put_of_eq
      · exact agreeAt_put_of_ne he
    have hrest := ih (h.congr hput.symm) fun e' he' => hl e' (mem_cons_of_mem _ he')
    exact hrest.trans hput

/-! ### Putting the same items again -/

/-- The items of the list that lie in the slot have one stamp. -/
def Uniform (key : α → κ) (stamp : α → σ) (k : κ) (l : List α) : Prop :=
  ∀ e ∈ l, ∀ e' ∈ l, key e = k → key e' = k → stamp e = stamp e'

theorem hasStamp_putAll (items : Set α) (hl : Uniform key stamp k l) (he : e ∈ l)
    (hk : key e = k) : HasStamp key stamp k (stamp e) (putAll key stamp items l) := by
  induction l using List.reverseRecOn with
  | nil => cases he
  | append_singleton l e' ih =>
    rw [putAll_concat]
    have he' : e' ∈ l ++ [e'] := mem_append_right _ mem_cons_self
    by_cases hk' : key e' = k
    · rw [hl e he e' he' hk hk', ← hk']
      exact hasStamp_put _ e'
    · have hmem : e ∈ l := by
        obtain hmem | hmem := mem_append.1 he
        · exact hmem
        · obtain rfl := mem_singleton.1 hmem
          exact absurd hk hk'
      have hrest := ih (fun a ha b hb => hl a (mem_append_left _ ha) b
        (mem_append_left _ hb)) hmem
      exact hrest.congr (agreeAt_put_of_ne hk').symm

theorem putAll_agreeAt_or_uniform (key : α → κ) (stamp : α → σ) (k : κ) (l : List α) :
    (∀ s t : Set α, AgreeAt key k (putAll key stamp s l) (putAll key stamp t l)) ∨
      Uniform key stamp k l := by
  induction l using List.reverseRecOn with
  | nil => exact .inr fun e he => absurd he not_mem_nil
  | append_singleton l e ih =>
    obtain hfixed | huniform := ih
    · refine .inl fun s t => ?_
      rw [putAll_concat, putAll_concat]
      exact (hfixed s t).put e
    by_cases hsame : ∀ e' ∈ l, key e' = k → key e = k → stamp e' = stamp e
    · refine .inr fun a ha b hb hka hkb => ?_
      rw [mem_append, mem_singleton] at ha hb
      obtain ha | rfl := ha
      · obtain hb | rfl := hb
        · exact huniform a ha b hb hka hkb
        · exact hsame a ha hka hkb
      · obtain hb | rfl := hb
        · exact (hsame b hb hkb hka).symm
        · rfl
    · -- the last item drives out what the others left
      simp only [not_forall] at hsame
      obtain ⟨e', he', hk', hk, hne⟩ := hsame
      subst hk
      refine .inl fun s t => ?_
      rw [putAll_concat, putAll_concat]
      exact ((hasStamp_putAll s huniform he' hk').put_of_ne hne).trans
        ((hasStamp_putAll t huniform he' hk').put_of_ne hne).symm

/-- **Putting the same items again changes nothing.** -/
theorem putAll_putAll (items : Set α) (l : List α) :
    putAll key stamp (putAll key stamp items l) l = putAll key stamp items l := by
  ext x
  suffices h : AgreeAt key (key x) (putAll key stamp (putAll key stamp items l) l)
      (putAll key stamp items l) from h x rfl
  obtain hfixed | huniform := putAll_agreeAt_or_uniform key stamp (key x) l
  · exact hfixed _ _
  by_cases hany : ∃ e ∈ l, key e = key x
  · obtain ⟨e, he, hk⟩ := hany
    exact (hasStamp_putAll items huniform he hk).putAll fun e' he' hk' =>
      huniform e' he' e he hk' hk
  · -- nothing is put into the slot
    simp only [not_exists, not_and] at hany
    exact agreeAt_putAll_of_ne hany

end Omniscience.Slots
