import Omniscience.Lib.PropertyGraph
import Omniscience.Lib.Walks

/-!
# Trails

A variable-length pattern matches trails: paths along relationships, in either direction, that use
no relationship twice.  There are more trails than shortest walks, and longer ones, but a shortest
walk never needs a relationship twice.

* `walk_of_mem_trails` : a trail is a walk.
* `exists_mem_trails` : the shortest walks are among the trails.
-/

namespace Omniscience

open List

/-- The other end of a relationship, if it has an end at the node. -/
def Arc.otherEnd {R : Type*} (a : Arc R) (i : ℕ) : Option ℕ :=
  if a.source = i then some a.target else if a.target = i then some a.source else none

namespace Trails

variable {R : Type*}

/-- A trail goes on along a relationship that it has not used.  The relationships are given by their
positions, the last one first. -/
def extend (rels : List (Arc R)) (trail : List ℕ × ℕ) : List (List ℕ × ℕ) :=
  (List.range rels.length).filterMap fun k =>
    if k ∈ trail.1 then none
    else (rels[k]?.bind fun a => a.otherEnd trail.2).map fun j => (k :: trail.1, j)

/-- The trails of `n` relationships from a node, each with the node that it leads to. -/
def trails (rels : List (Arc R)) (start : ℕ) : ℕ → List (List ℕ × ℕ)
  | 0 => [([], start)]
  | n + 1 => (trails rels start n).flatMap (extend rels)

/-- All relationships of the trail satisfy the condition. -/
def all (rels : List (Arc R)) (p : Arc R → Bool) (path : List ℕ) : Bool :=
  path.all fun k => (rels[k]?).any p

/-- Two nodes are joined by a relationship that satisfies the condition. -/
def Joined (rels : List (Arc R)) (p : Arc R → Bool) (i j : ℕ) : Prop :=
  ∃ a ∈ rels, p a = true ∧ (a.source = i ∧ a.target = j ∨ a.target = i ∧ a.source = j)

variable {rels : List (Arc R)} {p : Arc R → Bool} {start i j k n : ℕ} {path : List ℕ}

theorem mem_extend_iff {trail : List ℕ × ℕ} : (path, j) ∈ extend rels trail ↔
      ∃ k a, k ∉ trail.1 ∧ rels[k]? = some a ∧ a.otherEnd trail.2 = some j ∧
        path = k :: trail.1 := by
  simp only [extend, mem_filterMap, mem_range]
  constructor
  · rintro ⟨k, hk, heq⟩
    split_ifs at heq with hmem
    obtain ⟨a, ha⟩ : ∃ a, rels[k]? = some a := ⟨_, List.getElem?_eq_getElem hk⟩
    rw [ha, Option.bind_some, Option.map_eq_some_iff] at heq
    obtain ⟨j', hj, heq⟩ := heq
    obtain ⟨rfl, rfl⟩ := Prod.mk.inj heq
    exact ⟨k, a, hmem, ha, hj, rfl⟩
  · rintro ⟨k, a, hmem, ha, hj, rfl⟩
    exact ⟨k, (List.getElem?_eq_some_iff.1 ha).1, by simp [hmem, ha, hj]⟩

theorem otherEnd_eq_some_iff {a : Arc R} : a.otherEnd i = some j ↔
      (a.source = i ∧ a.target = j) ∨ (a.source ≠ i ∧ a.target = i ∧ a.source = j) := by
  unfold Arc.otherEnd
  split_ifs with hs ht <;> simp_all

theorem length_of_mem_trails (h : (path, j) ∈ trails rels start n) : path.length = n := by
  induction n generalizing path j with
  | zero =>
    obtain ⟨rfl, -⟩ := Prod.mk.inj (mem_singleton.1 h)
    rfl
  | succ n ih =>
    obtain ⟨⟨earlier, i⟩, hearlier, hmem⟩ := mem_flatMap.1 h
    obtain ⟨k, a, -, -, -, rfl⟩ := mem_extend_iff.1 hmem
    rw [length_cons, ih hearlier]

theorem walk_of_mem_trails (h : (path, j) ∈ trails rels start n) (hall : all rels p path = true) :
    Walk (Joined rels p) start n j := by
  induction n generalizing path j with
  | zero =>
    obtain ⟨-, rfl⟩ := Prod.mk.inj (mem_singleton.1 h)
    exact .nil
  | succ n ih =>
    obtain ⟨⟨earlier, i⟩, hearlier, hmem⟩ := mem_flatMap.1 h
    obtain ⟨k, a, -, ha, hend, rfl⟩ := mem_extend_iff.1 hmem
    rw [all, all_cons, Bool.and_eq_true, ha] at hall
    refine .snoc (ih hearlier hall.2) ⟨a, List.mem_of_getElem? ha, hall.1, ?_⟩
    obtain hdir | ⟨-, hdir⟩ := otherEnd_eq_some_iff.1 hend
    · exact .inl hdir
    · exact .inr hdir

/-- The relationships of the path stay within a distance of the start. -/
def Near (rels : List (Arc R)) (p : Arc R → Bool) (start n : ℕ) (path : List ℕ) : Prop :=
  ∀ k ∈ path, ∀ a, rels[k]? = some a →
    (∃ m ≤ n, Walk (Joined rels p) start m a.source) ∧
      ∃ m ≤ n, Walk (Joined rels p) start m a.target

theorem exists_mem_trails (h : IsLeast {n | Walk (Joined rels p) start n j} n) :
    ∃ path, (path, j) ∈ trails rels start n ∧ all rels p path = true ∧
      Near rels p start n path := by
  induction n generalizing j with
  | zero =>
    obtain rfl : j = start := Walk.zero_iff.1 h.1
    exact ⟨[], mem_cons_self, rfl, fun k hk => absurd hk not_mem_nil⟩
  | succ n ih =>
    obtain ⟨i, hwalk, a, ha, hp, hdir⟩ := Walk.succ_iff.1 h.1
    have hleast : IsLeast {n | Walk (Joined rels p) start n i} n := by
      refine ⟨hwalk, fun m hm => ?_⟩
      have hle := h.2 (Walk.snoc hm ⟨a, ha, hp, hdir⟩)
      omega
    obtain ⟨path, hpath, hall, hnear⟩ := ih hleast
    obtain ⟨k, hk⟩ := List.getElem?_of_mem ha
    have hfar : ∀ m ≤ n, ¬ Walk (Joined rels p) start m j := fun m hm hwalk' => by
      have hle := h.2 hwalk'
      omega
    have hunused : k ∉ path := by
      intro hmem
      obtain ⟨⟨m, hm, hsource⟩, m', hm', htarget⟩ := hnear k hmem a hk
      obtain ⟨-, rfl⟩ | ⟨-, rfl⟩ := hdir
      · exact hfar m' hm' htarget
      · exact hfar m hm hsource
    have hend : a.otherEnd i = some j := by
      rw [otherEnd_eq_some_iff]
      obtain hdir | ⟨htarget, hsource⟩ := hdir
      · exact .inl hdir
      · by_cases hloop : a.source = i
        · -- a loop does not lead farther away
          exact absurd hwalk (hfar n le_rfl <| hsource ▸ hloop ▸ ·)
        · exact .inr ⟨hloop, htarget, hsource⟩
    refine ⟨k :: path, mem_flatMap.2 ⟨(path, i), hpath,
      mem_extend_iff.2 ⟨k, a, hunused, hk, hend, rfl⟩⟩, ?_, ?_⟩
    · rw [all, all_cons, hk, Option.any_some, hp]
      exact hall
    · intro k' hk' a' ha'
      obtain rfl | hk' := mem_cons.1 hk'
      · obtain rfl : a = a' := Option.some.inj (hk.symm.trans ha')
        obtain ⟨rfl, rfl⟩ | ⟨rfl, rfl⟩ := hdir
        · exact ⟨⟨n, Nat.le_succ n, hwalk⟩, n + 1, le_rfl, h.1⟩
        · exact ⟨⟨n + 1, le_rfl, h.1⟩, n, Nat.le_succ n, hwalk⟩
      · obtain ⟨⟨m, hm, hsource⟩, m', hm', htarget⟩ := hnear k' hk' a' ha'
        exact ⟨⟨m, hm.trans (Nat.le_succ n), hsource⟩, m', hm'.trans (Nat.le_succ n), htarget⟩

end Trails

end Omniscience
