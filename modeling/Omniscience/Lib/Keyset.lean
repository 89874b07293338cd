import Mathlib.Order.Lattice
import Mathlib.Data.List.Basic

/-!
# Keyset pagination

The rows of a listing in the order of a key.  A page takes the first rows behind a cursor, one more
than it shows to see whether another page follows, and its cursor is the key of the last row that
it shows.

`exists_walk` : from the first page the cursors lead through all rows once, and then there is none.
-/

namespace Omniscience.Keyset

open List

variable {α K : Type} [LinearOrder K] (key : α → K) (rows : List α) (limit : ℕ)

/-- The rows behind a cursor. -/
def behind : Option K → List α
  | none => rows
  | some c => rows.filter fun row => c < key row

/-- The rows of a page and the cursor of the next one. -/
def page (cursor : Option K) : List α × Option K :=
  let found := (behind key rows cursor).take (limit + 1)
  let shown := found.take limit
  (shown, if limit < found.length then shown.getLast?.map key else none)

/-- The pages from a cursor until there is none. -/
inductive Walk : Option K → List (List α) → Prop
  | last {cursor : Option K} (h : (page key rows limit cursor).2 = none) :
    Walk cursor [(page key rows limit cursor).1]
  | next {cursor : Option K} {c : K} {rest : List (List α)}
    (h : (page key rows limit cursor).2 = some c) (hrest : Walk (some c) rest) :
    Walk cursor ((page key rows limit cursor).1 :: rest)

variable {key rows limit}

theorem behind_some {l r : List α} {row : α}
    (hsorted : (l ++ row :: r).Pairwise fun a b => key a < key b) :
    behind key (l ++ row :: r) (some (key row)) = r := by
  rw [pairwise_append] at hsorted
  obtain ⟨-, hr, hlr⟩ := hsorted
  have hl : l.filter (fun a => key row < key a) = [] :=
    filter_eq_nil_iff.2 fun a ha => by
      simpa using le_of_lt (hlr a ha row mem_cons_self)
  have hr' : r.filter (fun a => key row < key a) = r :=
    filter_eq_self.2 fun a ha => by simpa using rel_of_pairwise_cons hr ha
  simp [behind, filter_append, hl, hr']

theorem page_fst (cursor : Option K) :
    (page key rows limit cursor).1 = (behind key rows cursor).take limit := by
  simp [page, take_take]

theorem mem_of_mem_page {cursor : Option K} {row : α} (h : row ∈ (page key rows limit cursor).1) :
    row ∈ rows := by
  rw [page_fst] at h
  have hbehind := mem_of_mem_take h
  cases cursor with
  | none => exact hbehind
  | some c => exact (mem_filter.1 hbehind).1

theorem page_snd_of_le {cursor : Option K} (h : (behind key rows cursor).length ≤ limit) :
    (page key rows limit cursor).2 = none := by
  have hle : ¬ limit < ((behind key rows cursor).take (limit + 1)).length := by
    rw [length_take]
    omega
  rw [page, if_neg hle]

theorem page_snd_of_lt {cursor : Option K} (hpos : 0 < limit)
    (hsorted : rows.Pairwise fun a b => key a < key b)
    (hsuffix : ∃ before, rows = before ++ behind key rows cursor)
    (h : limit < (behind key rows cursor).length) :
    ∃ c, (page key rows limit cursor).2 = some c ∧
      behind key rows (some c) = (behind key rows cursor).drop limit := by
  obtain ⟨before, hbefore⟩ := hsuffix
  set found := behind key rows cursor with hfound
  have hlt : limit - 1 < found.length := by omega
  have hsplit : found = found.take (limit - 1) ++ found[limit - 1] :: found.drop limit := by
    have hdrop := drop_eq_getElem_cons hlt
    rw [Nat.sub_add_cancel hpos] at hdrop
    rw [← hdrop, take_append_drop]
  have hlast : (found.take limit).getLast? = some found[limit - 1] := by
    rw [List.getLast?_take, if_neg (by omega), List.getElem?_eq_getElem hlt]
    rfl
  refine ⟨key found[limit - 1], ?_, ?_⟩
  · have hlen : limit < (found.take (limit + 1)).length := by
      rw [length_take]
      omega
    rw [page, ← hfound, if_pos hlen, take_take, Nat.min_eq_left (Nat.le_succ limit), hlast]
    rfl
  · -- the listing up to the last row that is shown, and the rest
    have hrows : rows = (before ++ found.take (limit - 1)) ++ found[limit - 1] ::
        found.drop limit := by
      rw [append_assoc, ← hsplit]
      exact hbefore
    have hsorted' := hsorted
    rw [hrows] at hsorted'
    have := behind_some hsorted'
    rwa [← hrows] at this

theorem exists_walk_of_suffix (hpos : 0 < limit)
    (hsorted : rows.Pairwise fun a b => key a < key b) :
    ∀ (n : ℕ) (cursor : Option K), (behind key rows cursor).length = n →
      (∃ before, rows = before ++ behind key rows cursor) →
      ∃ pages, Walk key rows limit cursor pages ∧ pages.flatten = behind key rows cursor ∧
        pages.length = (n - 1) / limit + 1 := by
  intro n
  induction n using Nat.strongRecOn with
  | ind n ih =>
    intro cursor hn hsuffix
    rcases Nat.lt_or_ge limit n with hlt | hle
    · obtain ⟨c, hc, hbehind⟩ := page_snd_of_lt hpos hsorted hsuffix (hn ▸ hlt)
      have hlen : (behind key rows (some c)).length = n - limit := by
        rw [hbehind, length_drop, hn]
      obtain ⟨before, hbefore⟩ := hsuffix
      have hsuffix' : ∃ before, rows = before ++ behind key rows (some c) :=
        ⟨before ++ (behind key rows cursor).take limit, by
          rw [hbehind, append_assoc, take_append_drop]
          exact hbefore⟩
      obtain ⟨rest, hwalk, hflat, hcount⟩ := ih (n - limit) (by omega) (some c) hlen hsuffix'
      refine ⟨_, .next hc hwalk, ?_, ?_⟩
      · rw [flatten_cons, hflat, hbehind, page_fst, take_append_drop]
      · have hdiv : (n - limit - 1) / limit + 1 = (n - 1) / limit := by
          have hadd := Nat.add_div_right (n - limit - 1) hpos
          rw [show n - limit - 1 + limit = n - 1 by omega] at hadd
          exact hadd.symm
        rw [length_cons, hcount, hdiv]
    · refine ⟨_, .last (page_snd_of_le (hn ▸ hle)), ?_, ?_⟩
      · rw [flatten_cons, flatten_nil, append_nil, page_fst, take_of_length_le (hn ▸ hle)]
      · rw [Nat.div_eq_of_lt (by omega)]
        rfl

/-- **The pages of a listing**: following the cursors from the first page shows every row once, in
order, on as many pages as are needed. -/
theorem exists_walk (hpos : 0 < limit) (hsorted : rows.Pairwise fun a b => key a < key b) :
    ∃ pages, Walk key rows limit none pages ∧ pages.flatten = rows ∧
      pages.length = (rows.length - 1) / limit + 1 :=
  exists_walk_of_suffix hpos hsorted rows.length none rfl ⟨[], rfl⟩

end Omniscience.Keyset
