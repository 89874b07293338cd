import Mathlib.Data.List.Nodup
import Mathlib.Data.List.Perm.Subperm

/-!
# Breadth-first search

A search goes on in rounds: a round visits the neighbours of the frontier, and those that are new
are the next frontier.  The search ends when a round finds nothing new.

* `mem_search_iff` : with as many rounds as there are vertices, the search finds exactly the
  vertices that are connected to the start.
-/

namespace Omniscience.Bfs

open List

variable {α : Type*} [DecidableEq α]

/-- A neighbour is visited: if it is new, it is marked and put into the next frontier. -/
def visit (state : List α × List α) (x : α) : List α × List α :=
  if x ∈ state.1 then state else (state.1 ++ [x], state.2 ++ [x])

/-- One round: the vertices marked after it, and the next frontier. -/
def round (next : α → List α) (marked frontier : List α) : List α × List α :=
  (frontier.flatMap next).foldl visit (marked, [])

/-- The rounds, at most `fuel` of them. -/
def search (next : α → List α) : ℕ → List α → List α → List α
  | 0, marked, _ => marked
  | _ + 1, marked, [] => marked
  | fuel + 1, marked, x :: frontier =>
    search next fuel (round next marked (x :: frontier)).1 (round next marked (x :: frontier)).2

attribute [grind =] search

variable {next : α → List α} {marked frontier : List α} {x : α}

theorem foldl_visit (xs marked front : List α) :
    ∃ new, xs.foldl visit (marked, front) = (marked ++ new, front ++ new) ∧ new.Nodup ∧
      (∀ x ∈ new, x ∉ marked ∧ x ∈ xs) ∧ ∀ x ∈ xs, x ∈ marked ++ new := by
  induction xs generalizing marked front with
  | nil => exact ⟨[], by simp⟩
  | cons x xs ih =>
    by_cases hx : x ∈ marked
    · obtain ⟨new, heq, hnodup, hnew, hall⟩ := ih marked front
      refine ⟨new, by simpa [visit, hx] using heq, hnodup, fun y hy => ?_, fun y hy => ?_⟩
      · exact ⟨(hnew y hy).1, mem_cons_of_mem _ (hnew y hy).2⟩
      · obtain rfl | hy := mem_cons.1 hy
        · exact mem_append_left _ hx
        · exact hall y hy
    · obtain ⟨new, heq, hnodup, hnew, hall⟩ := ih (marked ++ [x]) (front ++ [x])
      refine ⟨x :: new, by simpa [visit, hx] using heq, ?_, fun y hy => ?_, fun y hy => ?_⟩
      · refine nodup_cons.2 ⟨fun hmem => ?_, hnodup⟩
        exact (hnew x hmem).1 (by simp)
      · obtain rfl | hy := mem_cons.1 hy
        · exact ⟨hx, mem_cons_self⟩
        · obtain ⟨hnot, hin⟩ := hnew y hy
          exact ⟨fun hm => hnot (mem_append_left _ hm), mem_cons_of_mem _ hin⟩
      · obtain rfl | hy := mem_cons.1 hy
        · simp
        · simpa using hall y hy

theorem exists_of_mem_search {fuel : ℕ} (hfrontier : ∀ y ∈ frontier, y ∈ marked)
    (h : x ∈ search next fuel marked frontier) :
    ∃ s ∈ marked, Relation.ReflTransGen (fun a b => b ∈ next a) s x := by
  induction fuel generalizing marked frontier with
  | zero => exact ⟨x, h, .refl⟩
  | succ fuel ih =>
    cases frontier with
    | nil => exact ⟨x, h, .refl⟩
    | cons y frontier =>
      obtain ⟨new, heq, -, hnew, -⟩ := foldl_visit ((y :: frontier).flatMap next) marked []
      rw [search, round, heq] at h
      obtain ⟨s, hs, hpath⟩ := ih (fun z hz => mem_append_right _ (by simpa using hz)) h
      obtain hs | hs := mem_append.1 hs
      · exact ⟨s, hs, hpath⟩
      · obtain ⟨z, hz, hsz⟩ := mem_flatMap.1 (hnew s hs).2
        exact ⟨z, hfrontier z hz, .head hsz hpath⟩

theorem mem_search_of_mem {fuel : ℕ} (h : x ∈ marked) : x ∈ search next fuel marked frontier := by
  induction fuel generalizing marked frontier with
  | zero => exact h
  | succ fuel ih =>
    cases frontier with
    | nil => exact h
    | cons y frontier =>
      obtain ⟨new, heq, -⟩ := foldl_visit ((y :: frontier).flatMap next) marked []
      rw [search, round, heq]
      exact ih (mem_append_left _ h)

theorem closed_search {vertices : List α} {fuel : ℕ}
    (hvertices : ∀ x ∈ vertices, ∀ y ∈ next x, y ∈ vertices) (hnodup : marked.Nodup)
    (hmarked : ∀ x ∈ marked, x ∈ vertices) (hfrontier : ∀ x ∈ frontier, x ∈ marked)
    (hclosed : ∀ x ∈ marked, x ∉ frontier → ∀ y ∈ next x, y ∈ marked)
    (hfuel : vertices.length < fuel + marked.length) :
    ∀ x ∈ search next fuel marked frontier, ∀ y ∈ next x, y ∈ search next fuel marked frontier := by
  induction fuel generalizing marked frontier with
  | zero =>
    have hle := (subperm_of_subset hnodup hmarked).length_le
    omega
  | succ fuel ih =>
    cases frontier with
    | nil => exact fun x hx y hy => hclosed x hx (by simp) y hy
    | cons z frontier =>
      obtain ⟨new, heq, hnew₁, hnew, hall⟩ := foldl_visit ((z :: frontier).flatMap next) marked []
      rw [search, round, heq]
      have hdone : ∀ x ∈ marked ++ new, x ∉ new → ∀ y ∈ next x, y ∈ marked ++ new := by
        intro x hx hxnew y hy
        have hx := (mem_append.1 hx).resolve_right hxnew
        by_cases hxf : x ∈ z :: frontier
        · exact hall y (mem_flatMap.2 ⟨x, hxf, hy⟩)
        · exact mem_append_left _ (hclosed x hx hxf y hy)
      cases new with
      | nil =>
        -- nothing new: the search ends
        have hend : search next fuel (marked ++ []) ([] ++ []) = marked := by
          cases fuel <;> simp [search]
        rw [hend]
        intro x hx y hy
        simpa using hdone x (by simpa using hx) (by simp) y hy
      | cons w new =>
        refine ih ?_ ?_ (fun x hx => mem_append_right _ (by simpa using hx))
          (by simpa using hdone) ?_
        · refine nodup_append.2 ⟨hnodup, hnew₁, ?_⟩
          rintro a ha _ hb rfl
          exact (hnew a hb).1 ha
        · intro x hx
          obtain hx | hx := mem_append.1 hx
          · exact hmarked x hx
          · obtain ⟨v, hv, hxv⟩ := mem_flatMap.1 (hnew x hx).2
            exact hvertices v (hmarked v (hfrontier v hv)) x hxv
        · simp only [length_append, length_cons]
          omega

theorem mem_search_iff {vertices : List α} {start : α}
    (hvertices : ∀ x ∈ vertices, ∀ y ∈ next x, y ∈ vertices) (hstart : start ∈ vertices) :
    x ∈ search next vertices.length [start] [start] ↔
      Relation.ReflTransGen (fun a b => b ∈ next a) start x := by
  constructor
  · intro h
    obtain ⟨s, hs, hpath⟩ := exists_of_mem_search (by simp) h
    rwa [mem_singleton.1 hs] at hpath
  · intro h
    induction h with
    | refl => exact mem_search_of_mem (by simp)
    | tail _ hstep ih =>
      refine closed_search hvertices (nodup_singleton start) ?_ (by simp) ?_ (by simp) _ ih _
        hstep
      · simpa using hstart
      · simp

end Omniscience.Bfs
