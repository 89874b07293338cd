import Mathlib.Data.List.Nodup
import Omniscience.Lib.Walks

/-!
# A search with a work list

A search keeps the vertices it has found, each with a depth, and a first-in first-out list of those
whose neighbours it still has to look at.  A turn takes one vertex off the list; a vertex at the
bound is dropped, otherwise its new neighbours are found one deeper and put at the end.

* `queue_start_iterate` : one turn more than there are vertices, and the list is empty.
* `mem_found_iff` : then the search has found the vertices that a walk of at most `bound` steps leads
  to, each at the length of its shortest walk.
* `reports` : so that what it has found behind its start is a report of the distances.
-/

namespace Omniscience.Worklist

open Function List

variable {V : Type*} [DecidableEq V]

/-- A search: what it has found, and what it still has to expand. -/
structure Search (V : Type*) where
  found : List (V × ℕ)
  queue : List (V × ℕ)

/-- A neighbour is found at a depth, unless it has been found before. -/
def discover (depth : ℕ) (s : Search V) (w : V) : Search V :=
  if w ∈ s.found.map Prod.fst then s
  else ⟨s.found ++ [(w, depth)], s.queue ++ [(w, depth)]⟩

/-- One turn of the loop. -/
def turn (next : V → List V) (bound : ℕ) (s : Search V) : Search V :=
  match s.queue with
  | [] => s
  | (v, k) :: rest =>
    if bound ≤ k then { s with queue := rest }
    else (next v).foldl (discover (k + 1)) { s with queue := rest }

/-- The search before its first turn. -/
def start (v : V) : Search V := ⟨[(v, 0)], [(v, 0)]⟩

variable {next : V → List V} {bound depth k : ℕ} {s : Search V} {v w : V} {rest : List (V × ℕ)}

theorem discover_of_mem (h : w ∈ s.found.map Prod.fst) : discover depth s w = s := if_pos h

theorem discover_of_not_mem (h : w ∉ s.found.map Prod.fst) :
    discover depth s w = ⟨s.found ++ [(w, depth)], s.queue ++ [(w, depth)]⟩ := if_neg h

theorem turn_nil (h : s.queue = []) : turn next bound s = s := by
  rw [turn, h]

theorem turn_of_le (h : s.queue = (v, k) :: rest) (hk : bound ≤ k) :
    turn next bound s = { s with queue := rest } := by
  rw [turn, h]
  exact if_pos hk

theorem turn_of_lt (h : s.queue = (v, k) :: rest) (hk : k < bound) :
    turn next bound s = (next v).foldl (discover (k + 1)) { s with queue := rest } := by
  rw [turn, h]
  exact if_neg (not_le.2 hk)

/-! ### The loop ends -/

/-- The vertices that have not been found. -/
def missing (vertices : List V) (s : Search V) : List V :=
  vertices.filter fun v => v ∉ s.found.map Prod.fst

/-- The turns that may still come. -/
def potential (vertices : List V) (s : Search V) : ℕ := s.queue.length + (missing vertices s).length

variable {vertices : List V}

theorem potential_discover_le (hw : w ∈ vertices) :
    potential vertices (discover depth s w) ≤ potential vertices s := by
  by_cases h : w ∈ s.found.map Prod.fst
  · exact le_of_eq (by rw [discover_of_mem h])
  · have hmissing : missing vertices (discover depth s w) =
        (missing vertices s).filter fun v => v ≠ w := by
      rw [discover_of_not_mem h, missing, missing, filter_filter]
      refine filter_congr fun v _ => ?_
      by_cases hvw : v = w <;> simp [hvw]
    have hlt : ((missing vertices s).filter fun v => v ≠ w).length <
        (missing vertices s).length :=
      length_filter_lt_length_iff_exists.2 ⟨w, mem_filter.2 ⟨hw, decide_eq_true h⟩, by simp⟩
    have hqueue : (discover depth s w).queue.length = s.queue.length + 1 := by
      simp [discover_of_not_mem h]
    unfold potential
    rw [hmissing, hqueue]
    omega

theorem potential_foldl_le {vertices ws : List V} (depth : ℕ) (s : Search V)
    (hws : ∀ w ∈ ws, w ∈ vertices) :
    potential vertices (ws.foldl (discover depth) s) ≤ potential vertices s := by
  induction ws generalizing s with
  | nil => exact le_rfl
  | cons w ws ih =>
    have hrest := ih (discover depth s w) fun u hu => hws u (mem_cons_of_mem _ hu)
    exact hrest.trans (potential_discover_le (hws w mem_cons_self))

theorem potential_turn_lt (hnext : ∀ v, ∀ w ∈ next v, w ∈ vertices) (h : s.queue = (v, k) :: rest) :
    potential vertices (turn next bound s) < potential vertices s := by
  have hpop : potential vertices { s with queue := rest } + 1 = potential vertices s := by
    simp only [potential, missing, h, length_cons]
    omega
  by_cases hk : bound ≤ k
  · rw [turn_of_le h hk]
    omega
  · rw [turn_of_lt h (not_le.1 hk)]
    have hle := potential_foldl_le (k + 1) { s with queue := rest } (hnext v)
    omega

theorem queue_iterate {n : ℕ} (hnext : ∀ v, ∀ w ∈ next v, w ∈ vertices)
    (hn : potential vertices s ≤ n) : ((turn next bound)^[n] s).queue = [] := by
  induction n generalizing s with
  | zero =>
    have hlength : s.queue.length = 0 := by
      unfold potential at hn
      omega
    exact length_eq_zero_iff.1 hlength
  | succ n ih =>
    rw [iterate_succ_apply]
    cases hqueue : s.queue with
    | nil =>
      have hfix : turn next bound s = s := turn_nil hqueue
      rw [hfix, iterate_fixed hfix]
      exact hqueue
    | cons head rest =>
      have hlt : potential vertices (turn next bound s) < potential vertices s :=
        potential_turn_lt hnext hqueue
      exact ih (by omega)

theorem queue_start_iterate {n : ℕ} (seed : V) (hnext : ∀ v, ∀ w ∈ next v, w ∈ vertices)
    (hn : vertices.length + 1 ≤ n) : ((turn next bound)^[n] (start seed)).queue = [] := by
  refine queue_iterate hnext (le_trans ?_ hn)
  have hle : (missing vertices (start seed)).length ≤ vertices.length := length_filter_le _ _
  show 1 + (missing vertices (start seed)).length ≤ vertices.length + 1
  omega

/-! ### What is found -/

/-- The invariant of the loop: each vertex is found once, by a walk of its depth; the list is in the
order of the depths, and what has been expanded has its neighbours found.  The depths of the list
are `level` and `level + 1`. -/
structure Inv (next : V → List V) (bound : ℕ) (seed : V) (level : ℕ) (s : Search V) : Prop where
  nodup : (s.found.map Prod.fst).Nodup
  seed_mem : (seed, 0) ∈ s.found
  walk : ∀ v k, (v, k) ∈ s.found → Walk (fun a b => b ∈ next a) seed k v ∧ k ≤ bound
  found_le : ∀ v k, (v, k) ∈ s.found → k ≤ level + 1
  level_le : ∀ v k, (v, k) ∈ s.queue → level ≤ k
  sorted : s.queue.Pairwise fun a b => a.2 ≤ b.2
  queue_found : ∀ x ∈ s.queue, x ∈ s.found
  expanded : ∀ v k, (v, k) ∈ s.found → (v, k) ∉ s.queue → k < bound →
    ∀ w ∈ next v, ∃ j ≤ k + 1, (w, j) ∈ s.found

theorem foldl_discover (depth : ℕ) (ws : List V) (s : Search V) :
    ∃ new : List V, ws.foldl (discover depth) s =
        ⟨s.found ++ new.map fun w => (w, depth), s.queue ++ new.map fun w => (w, depth)⟩ ∧
      new.Nodup ∧ (∀ w ∈ new, w ∈ ws ∧ w ∉ s.found.map Prod.fst) ∧
      ∀ w ∈ ws, w ∈ s.found.map Prod.fst ∨ w ∈ new := by
  induction ws generalizing s with
  | nil => exact ⟨[], by simp⟩
  | cons w ws ih =>
    obtain ⟨new, heq, hnodup, hnew, hall⟩ := ih (discover depth s w)
    rw [foldl_cons, heq]
    by_cases hw : w ∈ s.found.map Prod.fst
    · rw [discover_of_mem hw] at hnew hall ⊢
      refine ⟨new, rfl, hnodup, fun u hu => ?_, fun u hu => ?_⟩
      · exact ⟨mem_cons_of_mem _ (hnew u hu).1, (hnew u hu).2⟩
      · obtain rfl | hu := mem_cons.1 hu
        · exact .inl hw
        · exact hall u hu
    · rw [discover_of_not_mem hw] at hnew hall ⊢
      simp only [map_append, map_cons, map_nil, mem_append, mem_singleton, not_or] at hnew hall
      refine ⟨w :: new, by simp, ?_, fun u hu => ?_, fun u hu => ?_⟩
      · exact nodup_cons.2 ⟨fun h => (hnew w h).2.2 rfl, hnodup⟩
      · obtain rfl | hu := mem_cons.1 hu
        · exact ⟨mem_cons_self, hw⟩
        · exact ⟨mem_cons_of_mem _ (hnew u hu).1, (hnew u hu).2.1⟩
      · obtain rfl | hu := mem_cons.1 hu
        · exact .inr mem_cons_self
        · obtain (hfound | rfl) | hin := hall u hu
          · exact .inl hfound
          · exact .inr mem_cons_self
          · exact .inr (mem_cons_of_mem _ hin)

omit [DecidableEq V] in
theorem Inv.start (seed : V) : Inv next bound seed 0 (start seed) where
  nodup := by simp [Worklist.start]
  seed_mem := mem_cons_self
  walk v k h := by
    obtain ⟨rfl, rfl⟩ : v = seed ∧ k = 0 := by simpa [Worklist.start] using h
    exact ⟨.nil, Nat.zero_le _⟩
  found_le v k h := by
    obtain ⟨-, rfl⟩ : v = seed ∧ k = 0 := by simpa [Worklist.start] using h
    omega
  level_le _ k _ := Nat.zero_le k
  sorted := pairwise_singleton _ _
  queue_found _ h := h
  expanded v k h hqueue := absurd h hqueue

variable {seed : V} {level : ℕ}

omit [DecidableEq V] in
theorem Inv.expand (h : Inv next bound seed level s) (hqueue : s.queue = (v, k) :: rest)
    {new : List V} (hnodup : new.Nodup)
    (hnew : ∀ w ∈ new, k < bound ∧ w ∈ next v ∧ w ∉ s.found.map Prod.fst)
    (hall : k < bound → ∀ w ∈ next v, w ∈ s.found.map Prod.fst ∨ w ∈ new) :
    Inv next bound seed k
      ⟨s.found ++ new.map fun w => (w, k + 1), rest ++ new.map fun w => (w, k + 1)⟩ := by
  have hsorted := h.sorted
  have hhead : (v, k) ∈ s.queue := by rw [hqueue]; exact mem_cons_self
  have hlevel : level ≤ k := h.level_le v k hhead
  have hle : ∀ u j, (u, j) ∈ s.found → j ≤ k + 1 := fun u j hu =>
    (h.found_le u j hu).trans (Nat.succ_le_succ hlevel)
  have hmem : ∀ {u j}, (u, j) ∈ (new.map fun w => (w, k + 1)) ↔ u ∈ new ∧ j = k + 1 := by
    intro u j
    simp only [mem_map, Prod.mk.injEq]
    exact ⟨fun ⟨w, hw, hwu, hj⟩ => ⟨hwu ▸ hw, hj.symm⟩, fun ⟨hu, hj⟩ => ⟨u, hu, rfl, hj.symm⟩⟩
  rw [hqueue] at hsorted
  have hrest : ∀ x ∈ rest, x ∈ s.found := fun x hx =>
    h.queue_found x (by rw [hqueue]; exact mem_cons_of_mem _ hx)
  refine ⟨?_, mem_append_left _ h.seed_mem, ?_, ?_, ?_, ?_, ?_, ?_⟩
  · -- the new ones are found for the first time
    rw [map_append, map_map]
    refine nodup_append.2 ⟨h.nodup, by simpa [comp_def] using hnodup, ?_⟩
    rintro a ha b hb rfl
    exact (hnew a (by simpa [comp_def] using hb)).2.2 ha
  · intro u j hu
    obtain hu | hu := mem_append.1 hu
    · exact h.walk u j hu
    · obtain ⟨hin, rfl⟩ := hmem.1 hu
      obtain ⟨hlt, hstep, -⟩ := hnew u hin
      exact ⟨.snoc (h.walk v k (h.queue_found _ hhead)).1 hstep, hlt⟩
  · intro u j hu
    obtain hu | hu := mem_append.1 hu
    · exact hle u j hu
    · exact (hmem.1 hu).2.le
  · intro u j hu
    obtain hu | hu := mem_append.1 hu
    · exact rel_of_pairwise_cons hsorted hu
    · have := (hmem.1 hu).2
      omega
  · refine pairwise_append.2 ⟨hsorted.of_cons, ?_, ?_⟩
    · rw [pairwise_map]
      exact pairwise_of_forall fun _ _ => le_rfl
    · rintro ⟨u, j⟩ hu ⟨w, i⟩ hw
      have hi := (hmem.1 hw).2
      have hj := hle u j (hrest _ hu)
      simp only
      omega
  · intro x hx
    obtain hx | hx := mem_append.1 hx
    · exact mem_append_left _ (hrest x hx)
    · exact mem_append_right _ hx
  · intro u j hu hnot hj w hw
    obtain hu | hu := mem_append.1 hu
    · by_cases heq : (u, j) = (v, k)
      · -- the vertex that is expanded in this turn
        obtain ⟨rfl, rfl⟩ := Prod.mk.inj heq
        obtain hfound | hin := hall hj w hw
        · obtain ⟨⟨w', i⟩, hi, rfl⟩ := mem_map.1 hfound
          exact ⟨i, hle w' i hi, mem_append_left _ hi⟩
        · exact ⟨j + 1, le_rfl, mem_append_right _ (hmem.2 ⟨hin, rfl⟩)⟩
      · have hnotqueue : (u, j) ∉ s.queue := by
          rw [hqueue, mem_cons, not_or]
          exact ⟨heq, fun hmem' => hnot (mem_append_left _ hmem')⟩
        obtain ⟨i, hi, hfound⟩ := h.expanded u j hu hnotqueue hj w hw
        exact ⟨i, hi, mem_append_left _ hfound⟩
    · exact absurd (mem_append_right _ hu) hnot

theorem Inv.turn (h : Inv next bound seed level s) :
    ∃ level', Inv next bound seed level' (turn next bound s) := by
  cases hqueue : s.queue with
  | nil => exact ⟨level, by rwa [turn_nil hqueue]⟩
  | cons head rest =>
    obtain ⟨v, k⟩ := head
    refine ⟨k, ?_⟩
    by_cases hk : bound ≤ k
    · have hexpand := h.expand hqueue nodup_nil (by simp) fun hlt => by omega
      simpa [turn_of_le hqueue hk] using hexpand
    · obtain ⟨new, heq, hnodup, hnew, hall⟩ :=
        foldl_discover (k + 1) (next v) { s with queue := rest }
      rw [turn_of_lt hqueue (not_le.1 hk), heq]
      exact h.expand hqueue hnodup (fun w hw => ⟨not_le.1 hk, hnew w hw⟩) fun _ => hall

theorem Inv.iterate (n : ℕ) (h : Inv next bound seed level s) :
    ∃ level', Inv next bound seed level' ((Worklist.turn next bound)^[n] s) := by
  induction n generalizing s level with
  | zero => exact ⟨level, h⟩
  | succ n ih =>
    obtain ⟨level', h'⟩ := h.turn
    rw [iterate_succ_apply]
    exact ih h'

omit [DecidableEq V] in
theorem Inv.exists_found (h : Inv next bound seed level s) (hdone : s.queue = []) {n : ℕ}
    (hwalk : Walk (fun a b => b ∈ next a) seed n v) (hn : n ≤ bound) :
    ∃ j ≤ n, (v, j) ∈ s.found := by
  induction hwalk with
  | nil => exact ⟨0, le_rfl, h.seed_mem⟩
  | @snoc n b c _ hstep ih =>
    obtain ⟨j, hj, hfound⟩ := ih (by omega)
    obtain ⟨i, hi, hfound⟩ := h.expanded b j hfound (by simp [hdone]) (by omega) c hstep
    exact ⟨i, by omega, hfound⟩

omit [DecidableEq V] in
theorem Inv.mem_found_iff (h : Inv next bound seed level s) (hdone : s.queue = []) :
    (v, k) ∈ s.found ↔ k ≤ bound ∧ IsLeast {n | Walk (fun a b => b ∈ next a) seed n v} k := by
  constructor
  · intro hmem
    refine ⟨(h.walk v k hmem).2, (h.walk v k hmem).1, fun n hn => ?_⟩
    by_cases hle : n ≤ bound
    · obtain ⟨j, hj, hfound⟩ := h.exists_found hdone hn hle
      have heq : ((v, j) : V × ℕ) = (v, k) := inj_on_of_nodup_map h.nodup hfound hmem rfl
      obtain ⟨-, rfl⟩ := Prod.mk.inj heq
      exact hj
    · exact (h.walk v k hmem).2.trans (not_le.1 hle).le
  · rintro ⟨hk, hwalk, hleast⟩
    obtain ⟨j, hj, hfound⟩ := h.exists_found hdone hwalk hk
    have hkj : k ≤ j := hleast (h.walk v j hfound).1
    obtain rfl : k = j := le_antisymm hkj hj
    exact hfound

theorem mem_found_iff {n : ℕ} (hnext : ∀ v, ∀ w ∈ next v, w ∈ vertices)
    (hn : vertices.length + 1 ≤ n) : (v, k) ∈ ((Worklist.turn next bound)^[n] (start seed)).found ↔
      k ≤ bound ∧ IsLeast {n | Walk (fun a b => b ∈ next a) seed n v} k := by
  have hstart : Inv next bound seed 0 (start seed) := Inv.start seed
  obtain ⟨level, h⟩ := hstart.iterate n
  exact h.mem_found_iff (queue_start_iterate seed hnext hn)

theorem nodup_found_start_iterate (n : ℕ) :
    (((Worklist.turn next bound)^[n] (start seed)).found.map Prod.fst).Nodup := by
  have hstart : Inv next bound seed 0 (start seed) := Inv.start seed
  obtain ⟨level, h⟩ := hstart.iterate n
  exact h.nodup

theorem found_iterate (next : V → List V) (bound n : ℕ) (s : Search V) :
    ∃ new, ((Worklist.turn next bound)^[n] s).found = s.found ++ new := by
  induction n generalizing s with
  | zero => exact ⟨[], (append_nil _).symm⟩
  | succ n ih =>
    obtain ⟨later, hlater⟩ := ih (Worklist.turn next bound s)
    have hturn : ∃ new, (Worklist.turn next bound s).found = s.found ++ new := by
      cases hqueue : s.queue with
      | nil => exact ⟨[], by rw [turn_nil hqueue, append_nil]⟩
      | cons head rest =>
        by_cases hk : bound ≤ head.2
        · exact ⟨[], by rw [turn_of_le hqueue hk, append_nil]⟩
        · obtain ⟨new, heq, -⟩ := foldl_discover (head.2 + 1) (next head.1) { s with queue := rest }
          exact ⟨_, by rw [turn_of_lt hqueue (not_le.1 hk), heq]⟩
    obtain ⟨new, hnew⟩ := hturn
    exact ⟨new ++ later, by rw [iterate_succ_apply, hlater, hnew, append_assoc]⟩

theorem reports {n : ℕ} (hnext : ∀ v, ∀ w ∈ next v, w ∈ vertices) (hn : vertices.length + 1 ≤ n) :
    Reports (fun a b => b ∈ next a) seed bound (fun _ => True)
      ((Worklist.turn next bound)^[n] (start seed)).found.tail := by
  obtain ⟨new, hnew⟩ := found_iterate next bound n (start seed)
  have hstart : Inv next bound seed 0 (start seed) := Inv.start seed
  obtain ⟨level, hinv⟩ := hstart.iterate n
  have hmem : ∀ v k, (v, k) ∈ ((Worklist.turn next bound)^[n] (start seed)).found ↔
      k ≤ bound ∧ IsLeast {n | Walk (fun a b => b ∈ next a) seed n v} k :=
    fun v k => mem_found_iff hnext hn
  have hnodup := hinv.nodup
  rw [hnew] at hmem hnodup ⊢
  have hseed : seed ∉ new.map Prod.fst := (nodup_cons.1 hnodup).1
  refine ⟨fun v k hin => ?_, fun v k hne _ hk hleast => ?_⟩
  · obtain ⟨hk, hleast⟩ := (hmem v k).1 (mem_cons_of_mem _ hin)
    refine ⟨?_, trivial, hk, hleast.1⟩
    rintro rfl
    exact hseed (mem_map_of_mem (f := Prod.fst) hin)
  · obtain heq | hin := mem_cons.1 ((hmem v k).2 ⟨hk, hleast⟩)
    · exact absurd (Prod.mk.inj heq).1 hne
    · exact hin

end Omniscience.Worklist
