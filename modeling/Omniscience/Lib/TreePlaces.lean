import Mathlib.Data.List.Infix
import Mathlib.Data.List.Nodup

/-!
# Places in a tree

A place is a node together with the way to it: the indices of the children that were taken (the last
one first) and the nodes above it (the nearest one first).

* `mem_places_iff` : walking down as many levels as the tree has visits every place.
* `nodup_places` : no place is visited twice.
-/

namespace Omniscience

open List

/-- A node and the way to it from the root. -/
structure TreePlace (α : Type*) where
  path : List ℕ
  above : List α
  node : α

namespace TreePlace

variable {α : Type*}

/-- The root of a tree. -/
def root (a : α) : TreePlace α := ⟨[], [], a⟩

/-- One level down. -/
def down (p : TreePlace α) (i : ℕ) (c : α) : TreePlace α := ⟨i :: p.path, p.node :: p.above, c⟩

/-- The places at and below a place, at most so many levels, parents first. -/
def places (children : α → List α) : ℕ → TreePlace α → List (TreePlace α)
  | 0, _ => []
  | n + 1, p => p :: (children p.node).zipIdx.flatMap fun ci => places children n (p.down ci.2 ci.1)

/-- The places of a tree. -/
inductive Within (children : α → List α) (a : α) : TreePlace α → Prop
  | root : Within children a (root a)
  | down {p : TreePlace α} {i : ℕ} {c : α} (hp : Within children a p)
      (hc : (children p.node)[i]? = some c) : Within children a (p.down i c)

/-- The tree has at most so many levels below its root. -/
def HeightLE (children : α → List α) : ℕ → α → Prop
  | 0, a => children a = []
  | n + 1, a => ∀ c ∈ children a, HeightLE children n c

/-- Bounds on the height can be tested. -/
instance decidableHeightLE (children : α → List α) : ∀ n a, Decidable (HeightLE children n a)
  | 0, _ => decidable_of_iff _ isEmpty_iff
  | n + 1, a =>
    have := decidableHeightLE children n
    inferInstanceAs (Decidable (∀ c ∈ children a, HeightLE children n c))

variable {children : α → List α} {a : α} {p q : TreePlace α} {n : ℕ}

theorem mem_places_succ : q ∈ places children (n + 1) p ↔
    q = p ∨ ∃ i c, (children p.node)[i]? = some c ∧ q ∈ places children n (p.down i c) := by
  rw [places, mem_cons, mem_flatMap]
  refine or_congr_right ⟨?_, ?_⟩
  · rintro ⟨⟨c, i⟩, hmem, hq⟩
    exact ⟨i, c, List.mem_zipIdx_iff_getElem?.1 hmem, hq⟩
  · rintro ⟨i, c, hc, hq⟩
    exact ⟨(c, i), List.mem_zipIdx_iff_getElem?.2 hc, hq⟩

theorem within_of_mem_places (hp : Within children a p) (hq : q ∈ places children n p) :
    Within children a q := by
  induction n generalizing p with
  | zero => exact absurd hq not_mem_nil
  | succ n ih =>
    rcases mem_places_succ.1 hq with rfl | ⟨i, c, hc, hq⟩
    · exact hp
    · exact ih (.down hp hc) hq

theorem down_mem_places (hheight : HeightLE children n p.node)
    (hq : q ∈ places children (n + 1) p) {i : ℕ} {c : α} (hc : (children q.node)[i]? = some c) :
    q.down i c ∈ places children (n + 1) p := by
  induction n generalizing p with
  | zero =>
    rcases mem_places_succ.1 hq with rfl | ⟨j, d, hd, -⟩
    · rw [HeightLE] at hheight
      rw [hheight] at hc
      cases hc
    · rw [HeightLE] at hheight
      rw [hheight] at hd
      cases hd
  | succ n ih =>
    rcases mem_places_succ.1 hq with rfl | ⟨j, d, hd, hq⟩
    · exact mem_places_succ.2 (.inr ⟨i, c, hc, mem_places_succ.2 (.inl rfl)⟩)
    · have hlow : HeightLE children n (p.down j d).node := hheight d (List.mem_of_getElem? hd)
      exact mem_places_succ.2 (.inr ⟨j, d, hd, ih hlow hq⟩)

theorem mem_places_iff (hheight : HeightLE children n a) :
    p ∈ places children (n + 1) (root a) ↔ Within children a p := by
  refine ⟨within_of_mem_places .root, fun h => ?_⟩
  induction h with
  | root => exact mem_places_succ.2 (.inl rfl)
  | down _ hc ih => exact down_mem_places hheight ih hc

theorem eq_of_path_eq (hp : Within children a p) (hq : Within children a q)
    (h : p.path = q.path) : p = q := by
  induction hp generalizing q with
  | root =>
    cases hq with
    | root => rfl
    | down _ _ => cases h
  | @down p i c _ hc ih =>
    cases hq with
    | root => cases h
    | @down q j d hq hd =>
      obtain ⟨rfl, hpath⟩ := List.cons.inj h
      obtain rfl := ih hq hpath
      rw [hc] at hd
      obtain rfl := Option.some.inj hd
      rfl

theorem path_of_mem_places (hq : q ∈ places children n p) : p.path <:+ q.path := by
  induction n generalizing p with
  | zero => exact absurd hq not_mem_nil
  | succ n ih =>
    rcases mem_places_succ.1 hq with rfl | ⟨i, c, -, hq⟩
    · exact suffix_rfl
    · exact (suffix_cons i p.path).trans (ih hq)

theorem nodup_places : (places children n p).Nodup := by
  induction n generalizing p with
  | zero => exact nodup_nil
  | succ n ih =>
    rw [places, nodup_cons]
    constructor
    · intro hmem
      obtain ⟨⟨c, i⟩, -, hmem⟩ := mem_flatMap.1 hmem
      have hlength := (path_of_mem_places hmem).length_le
      simp only [down, length_cons] at hlength
      omega
    · rw [nodup_flatMap]
      refine ⟨fun ci _ => ih, ?_⟩
      have hindices : ((children p.node).zipIdx.map Prod.snd).Nodup := by
        rw [zipIdx_map_snd]
        exact nodup_range'
      refine (pairwise_map.1 hindices).imp fun {ci dj} hne q hq hq' => ?_
      -- both ways end with the way to the parent and one index, which differ
      obtain ⟨u, hu⟩ := path_of_mem_places hq
      obtain ⟨v, hv⟩ := path_of_mem_places hq'
      rw [← hv] at hu
      have hsuffix := append_inj_right' hu rfl
      exact hne (List.cons.inj hsuffix).1

end TreePlace

end Omniscience
