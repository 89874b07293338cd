import Mathlib.Data.List.Nodup
import Mathlib.Data.List.MinMax

/-!
# Insertion-ordered dictionaries

A `Dict K V` is a finite map that remembers the order in which its keys were first inserted.
Overwriting a key keeps its place, removing it forgets the place.  The order is observable: it
decides which of several keys with the same value `Dict.oldest` picks, and it is the order in
which the entries are listed.

A dictionary is a list of entries together with the proof that no key occurs twice, so the
operations below are the only way to build one.  Two dictionaries are compared through `get?`
and `keys`; the lemmas about `set` and `pop` say what they do to both.
-/

namespace Omniscience

open List hiding beq_eq_decide

/-- A finite map from `K` to `V` that remembers the insertion order of its keys. -/
structure Dict (K : Type*) (V : Type*) where
  items : List (K × V)
  nodup : (items.map Prod.fst).Nodup

namespace Dict

variable {K V : Type*}

theorem eq_of_items {d d' : Dict K V} (h : d.items = d'.items) : d = d' := by
  cases d
  cases d'
  cases h
  rfl

/-- The empty dictionary. -/
def empty : Dict K V := ⟨[], nodup_nil⟩

/-- The keys, oldest first. -/
def keys (d : Dict K V) : List K := d.items.map Prod.fst

/-- The number of entries. -/
def size (d : Dict K V) : ℕ := d.items.length

/-- The key with the least value, the oldest one of several. -/
def oldest [LinearOrder V] (d : Dict K V) : Option K := (d.items.argmin Prod.snd).map Prod.fst

theorem nodup_keys (d : Dict K V) : d.keys.Nodup := d.nodup

@[simp] theorem keys_empty : (empty : Dict K V).keys = [] := rfl

theorem length_keys (d : Dict K V) : d.keys.length = d.size := length_map _

variable {d : Dict K V} {k : K}

theorem oldest_mem_keys [LinearOrder V] (h : d.oldest = some k) : k ∈ d.keys := by
  obtain ⟨p, hp, rfl⟩ := Option.map_eq_some_iff.1 h
  exact mem_map_of_mem (argmin_mem hp)

theorem oldest_isSome [LinearOrder V] (h : 0 < d.size) : ∃ k, d.oldest = some k := by
  cases ha : d.items.argmin Prod.snd with
  | none =>
    have hnil := argmin_eq_none.1 ha
    simp [size, hnil] at h
  | some p => exact ⟨p.1, by simp [oldest, ha]⟩

theorem oldest_eq_head [LinearOrder V] {p : K × V} {rest : List (K × V)} (h : d.items = p :: rest)
    (hle : ∀ q ∈ rest, p.2 ≤ q.2) : d.oldest = some p.1 := by
  have hmin : d.items.argmin Prod.snd = some p := by
    classical
    rw [h]
    refine argmin_eq_some_iff.2 ⟨mem_cons_self, fun q hq => ?_, fun q _ _ => ?_⟩
    · rcases mem_cons.1 hq with rfl | hq
      · exact le_rfl
      · exact hle q hq
    · simp [idxOf_cons]
  rw [oldest, hmin]
  rfl

variable [DecidableEq K]

/-- The value of a key. -/
def get? (d : Dict K V) (k : K) : Option V := d.items.lookup k

/-- The value of a key, or a default. -/
def getD (d : Dict K V) (k : K) (v : V) : V := (d.get? k).getD v

/-- Does the key have an entry? -/
def contains (d : Dict K V) (k : K) : Bool := (d.get? k).isSome

variable {l : List (K × V)}

theorem lookup_eq_none_iff : l.lookup k = none ↔ k ∉ l.map Prod.fst := by
  induction l with
  | nil => simp
  | cons p l ih =>
    obtain ⟨k', v⟩ := p
    rw [lookup_cons, map_cons, mem_cons]
    by_cases hk : k = k'
    · simp [hk]
    · simp only [beq_eq_false_iff_ne.2 hk, ih, hk, false_or]

theorem get?_eq_none_iff : d.get? k = none ↔ k ∉ d.keys :=
  lookup_eq_none_iff

theorem contains_iff : d.contains k = true ↔ k ∈ d.keys := by
  rw [contains, Option.isSome_iff_ne_none, ne_eq, get?_eq_none_iff, not_not]

theorem lookup_cons_self (l : List (K × V)) (k : K) (v : V) : ((k, v) :: l).lookup k = some v := by
  simp

theorem lookup_cons_ne {k j : K} (v : V) (h : j ≠ k) : ((k, v) :: l).lookup j = l.lookup j := by
  rw [lookup_cons, beq_eq_false_iff_ne.2 h]

variable {v : V}

theorem mem_items_of_get? (h : d.get? k = some v) : (k, v) ∈ d.items := by
  obtain ⟨l₁, l₂, hitems, -⟩ := lookup_eq_some_iff.1 h
  rw [hitems]
  exact mem_append_right _ mem_cons_self

theorem get?_of_mem_items {item : K × V} (h : item ∈ d.items) : d.get? item.1 = some item.2 := by
  cases hget : d.get? item.1 with
  | none => exact absurd (mem_map_of_mem h) (get?_eq_none_iff.1 hget)
  | some v =>
    have heq := inj_on_of_nodup_map d.nodup (mem_items_of_get? hget) h rfl
    rw [← heq]

@[simp] theorem get?_empty (k : K) : (empty : Dict K V).get? k = none := rfl

/-! ### Removing a key -/

/-- Remove a key, if it has an entry. -/
def pop (d : Dict K V) (k : K) : Dict K V :=
  ⟨d.items.filter fun p => p.1 ≠ k, d.nodup.sublist (filter_sublist.map _)⟩

theorem lookup_filter_ne {k j : K} (h : j ≠ k) :
    (l.filter fun p => p.1 ≠ k).lookup j = l.lookup j := by
  induction l with
  | nil => rfl
  | cons p l ih =>
    obtain ⟨k', v⟩ := p
    by_cases hk : k' = k
    · subst hk
      simp only [ne_eq, filter_cons, not_true_eq_false, decide_false, Bool.false_eq_true,
        ↓reduceIte, lookup_cons, beq_eq_false_iff_ne.2 h]
      exact ih
    · simp only [ne_eq, filter_cons, hk, not_false_eq_true, decide_true, ↓reduceIte, lookup_cons]
      split
      · rfl
      · exact ih

theorem keys_pop (d : Dict K V) (k : K) : (d.pop k).keys = d.keys.filter (· ≠ k) := by
  simp only [keys, pop, filter_map]
  rfl

theorem mem_keys_pop {k j : K} : j ∈ (d.pop k).keys ↔ j ∈ d.keys ∧ j ≠ k := by
  simp [keys_pop]

theorem get?_pop_ne (d : Dict K V) {k j : K} (h : j ≠ k) : (d.pop k).get? j = d.get? j :=
  lookup_filter_ne h

@[simp] theorem get?_pop_self (d : Dict K V) (k : K) : (d.pop k).get? k = none :=
  get?_eq_none_iff.2 fun h => (mem_keys_pop.1 h).2 rfl

theorem size_pop_le (d : Dict K V) (k : K) : (d.pop k).size ≤ d.size :=
  length_filter_le _ _

theorem size_pop_of_mem (h : k ∈ d.keys) : (d.pop k).size + 1 = d.size := by
  rw [← length_keys, ← length_keys, keys_pop]
  have hne := List.Nodup.erase_eq_filter d.nodup_keys k
  have hlen := length_erase_of_mem h
  rw [hne] at hlen
  have hpos := length_pos_of_mem h
  have hfilter : (d.keys.filter fun x => decide (x ≠ k)) = d.keys.filter (fun x => x != k) := by
    congr 1
    funext x
    simp [bne, beq_eq_decide]
  rw [hfilter]
  omega

/-! ### Setting a key -/

/-- Set the value of a key; a new key becomes the youngest one. -/
def set (d : Dict K V) (k : K) (v : V) : Dict K V :=
  if h : k ∈ d.items.map Prod.fst then
    ⟨d.items.map fun p => if p.1 = k then (k, v) else p, by
      have : (d.items.map fun p => if p.1 = k then (k, v) else p).map Prod.fst =
          d.items.map Prod.fst := by
        rw [map_map]
        apply map_congr_left
        intro p _
        by_cases hp : p.1 = k <;> simp [hp]
      rw [this]
      exact d.nodup⟩
  else
    ⟨d.items ++ [(k, v)], by
      rw [map_append, nodup_append]
      refine ⟨d.nodup, nodup_singleton _, fun a ha b hb => ?_⟩
      rintro rfl
      rw [map_singleton, mem_singleton] at hb
      subst hb
      exact h ha⟩

theorem keys_set_of_mem (h : k ∈ d.keys) (v : V) : (d.set k v).keys = d.keys := by
  have h' : k ∈ d.items.map Prod.fst := h
  simp only [keys, set, h', ↓reduceDIte, map_map]
  apply map_congr_left
  intro p _
  by_cases hp : p.1 = k <;> simp [hp]

theorem items_set_of_not_mem (h : k ∉ d.keys) (v : V) :
    (d.set k v).items = d.items ++ [(k, v)] := by
  have h' : k ∉ d.items.map Prod.fst := h
  simp only [set, h', ↓reduceDIte]

theorem keys_set_of_not_mem (h : k ∉ d.keys) (v : V) : (d.set k v).keys = d.keys ++ [k] := by
  rw [keys, items_set_of_not_mem h, map_append]
  rfl

theorem mem_keys_set {k j : K} : j ∈ (d.set k v).keys ↔ j = k ∨ j ∈ d.keys := by
  by_cases h : k ∈ d.keys
  · rw [keys_set_of_mem h]
    exact ⟨Or.inr, fun hj => hj.elim (fun e => e ▸ h) id⟩
  · rw [keys_set_of_not_mem h, mem_append, mem_singleton, or_comm]

theorem size_set_of_not_mem (h : k ∉ d.keys) (v : V) : (d.set k v).size = d.size + 1 := by
  rw [← length_keys, keys_set_of_not_mem h, length_append, length_keys, length_singleton]

theorem lookup_map_ite_self (h : k ∈ l.map Prod.fst) :
    (l.map fun p => if p.1 = k then (k, v) else p).lookup k = some v := by
  induction l with
  | nil => simp at h
  | cons p l ih =>
    obtain ⟨k', w⟩ := p
    by_cases hk : k' = k
    · simp [hk]
    · have hmem : k ∈ l.map Prod.fst := by
        rcases mem_cons.1 h with h | h
        · exact absurd h.symm hk
        · exact h
      simp only [map_cons, hk, ↓reduceIte, lookup_cons]
      rw [beq_eq_false_iff_ne.2 (Ne.symm hk)]
      exact ih hmem

theorem lookup_map_ite_ne {k j : K} (h : j ≠ k) :
    (l.map fun p => if p.1 = k then (k, v) else p).lookup j = l.lookup j := by
  induction l with
  | nil => rfl
  | cons p l ih =>
    obtain ⟨k', w⟩ := p
    by_cases hk : k' = k
    · subst hk
      simp only [map_cons, ↓reduceIte, lookup_cons, beq_eq_false_iff_ne.2 h]
      exact ih
    · simp only [map_cons, hk, ↓reduceIte, lookup_cons]
      split
      · rfl
      · exact ih

@[simp] theorem get?_set_self (d : Dict K V) (k : K) (v : V) : (d.set k v).get? k = some v := by
  unfold get? set
  split_ifs with h
  · exact lookup_map_ite_self h
  · rw [lookup_append, lookup_eq_none_iff.2 h]
    simp

theorem get?_set_ne (d : Dict K V) {k j : K} (v : V) (h : j ≠ k) :
    (d.set k v).get? j = d.get? j := by
  unfold get? set
  split_ifs with hk
  · exact lookup_map_ite_ne h
  · have hj : (j == k) = false := beq_eq_false_iff_ne.2 h
    rw [lookup_append]
    simp [lookup_cons, hj]

@[simp] theorem getD_set_self (d : Dict K V) (k : K) (v w : V) : (d.set k v).getD k w = v := by
  rw [getD, get?_set_self, Option.getD_some]

/-- Set the value of a key unless it has one. -/
def setDefault (d : Dict K V) (k : K) (v : V) : Dict K V := if d.contains k then d else d.set k v

theorem mem_keys_setDefault {k j : K} : j ∈ (d.setDefault k v).keys ↔ j = k ∨ j ∈ d.keys := by
  rw [setDefault]
  split
  · rename_i h
    refine ⟨Or.inr, ?_⟩
    rintro (rfl | hj)
    · exact contains_iff.1 h
    · exact hj
  · exact mem_keys_set

theorem size_setDefault_le (d : Dict K V) (k : K) (v : V) :
    (d.setDefault k v).size ≤ d.size + 1 := by
  rw [setDefault]
  split
  · omega
  · rename_i h
    rw [size_set_of_not_mem fun hm => h (contains_iff.2 hm)]

theorem get?_setDefault_ne (d : Dict K V) {k j : K} (v : V) (h : j ≠ k) :
    (d.setDefault k v).get? j = d.get? j := by
  rw [setDefault]
  split
  · rfl
  · exact get?_set_ne d v h

/-! ### All entries at once -/

/-- The dictionary with each value replaced. -/
def map (f : K → V → V) (d : Dict K V) : Dict K V :=
  ⟨d.items.map fun p => (p.1, f p.1 p.2), by
    rw [map_map]
    exact d.nodup⟩

theorem lookup_map_snd {W : Type*} (f : K → V → W) (l : List (K × V)) (k : K) :
    (l.map fun p => (p.1, f p.1 p.2)).lookup k = (l.lookup k).map (f k) := by
  induction l with
  | nil => rfl
  | cons p l ih =>
    obtain ⟨j, v⟩ := p
    rw [map_cons]
    by_cases hk : k = j
    · subst hk
      rw [lookup_cons_self, lookup_cons_self, Option.map_some]
    · rw [lookup_cons_ne _ hk, lookup_cons_ne _ hk]
      exact ih

theorem get?_map (f : K → V → V) (d : Dict K V) (k : K) : (d.map f).get? k = (d.get? k).map (f k) :=
  lookup_map_snd f d.items k

/-- The entries that satisfy a test. -/
def filter (test : K → V → Bool) (d : Dict K V) : Dict K V :=
  ⟨d.items.filter fun p => test p.1 p.2, d.nodup.sublist (filter_sublist.map _)⟩

theorem lookup_of_filter {test : K × V → Bool} (hnodup : (l.map Prod.fst).Nodup)
    (h : (l.filter test).lookup k = some v) : l.lookup k = some v := by
  induction l with
  | nil => exact h
  | cons p l ih =>
    rw [map_cons, nodup_cons] at hnodup
    obtain ⟨j, w⟩ := p
    rw [filter_cons] at h
    by_cases hk : k = j
    · subst hk
      split_ifs at h with htest
      · rw [lookup_cons_self] at h ⊢
        exact h
      · -- the key is in the rest no more
        have hnone : (l.filter test).lookup k = none := lookup_eq_none_iff.2 fun hmem =>
          hnodup.1 ((filter_sublist.map Prod.fst).subset hmem)
        rw [hnone] at h
        cases h
    · rw [lookup_cons_ne w hk]
      split_ifs at h with htest
      · rw [lookup_cons_ne w hk] at h
        exact ih hnodup.2 h
      · exact ih hnodup.2 h

theorem get?_of_filter {test : K → V → Bool} (h : (d.filter test).get? k = some v) :
    d.get? k = some v :=
  lookup_of_filter d.nodup h

omit [DecidableEq K] in
theorem mem_keys_filter {test : K → Bool} {d : Dict K V} {k : K} :
    k ∈ (d.filter fun j _ => test j).keys ↔ k ∈ d.keys ∧ test k = true := by
  simp only [keys, filter, mem_map, mem_filter]
  constructor
  · rintro ⟨item, ⟨hmem, htest⟩, rfl⟩
    exact ⟨⟨item, hmem, rfl⟩, htest⟩
  · rintro ⟨⟨item, hmem, rfl⟩, htest⟩
    exact ⟨item, ⟨hmem, htest⟩, rfl⟩

/-! ### Dictionaries from lists -/

/-- The first `n` entries. -/
def take (d : Dict K V) (n : ℕ) : Dict K V :=
  ⟨d.items.take n, d.nodup.sublist ((take_sublist n d.items).map _)⟩

theorem get?_of_take {n : ℕ} (h : (d.take n).get? k = some v) : d.get? k = some v := by
  have hsplit : d.items.take n ++ d.items.drop n = d.items := take_append_drop n d.items
  have htake : (d.items.take n).lookup k = some v := h
  rw [get?, ← hsplit, lookup_append, htake]
  rfl

/-- `{**d, **dict(l)}`: the entries of the list are set one after the other. -/
def setAll (d : Dict K V) (l : List (K × V)) : Dict K V := l.foldl (fun d p => d.set p.1 p.2) d

/-- `{k: v for k, v in l}`: of several values of a key the last one stays. -/
def ofList (l : List (K × V)) : Dict K V := l.foldl (fun d p => d.set p.1 p.2) .empty

theorem ofList_concat (l : List (K × V)) (p : K × V) :
    ofList (l ++ [p]) = (ofList l).set p.1 p.2 := by
  simp [ofList]

theorem get?_ofList (l : List (K × V)) (k : K) :
    (ofList l).get? k = ((l.filter fun p => decide (p.1 = k)).getLast?).map Prod.snd := by
  induction l using List.reverseRecOn with
  | nil => rfl
  | append_singleton l p ih =>
    rw [ofList_concat, filter_append]
    by_cases hp : p.1 = k
    · subst hp
      simp
    · rw [get?_set_ne _ _ (Ne.symm hp), ih]
      simp [hp]

theorem mem_keys_ofList : k ∈ (ofList l).keys ↔ k ∈ l.map Prod.fst := by
  induction l using List.reverseRecOn with
  | nil => exact Iff.rfl
  | append_singleton l p ih =>
    rw [ofList_concat, mem_keys_set, ih, map_append, mem_append, map_singleton,
      mem_singleton, or_comm]

theorem mem_of_get?_ofList (h : (ofList l).get? k = some v) : (k, v) ∈ l := by
  rw [get?_ofList, Option.map_eq_some_iff] at h
  obtain ⟨p, hp, rfl⟩ := h
  obtain ⟨hmem, hk⟩ := mem_filter.1 (List.mem_of_getLast? hp)
  rw [← of_decide_eq_true hk]
  exact hmem

theorem ext_get? {d d' : Dict K V} (hkeys : d.keys = d'.keys) (h : ∀ k, d.get? k = d'.get? k) :
    d = d' := by
  have hitems (c : Dict K V) : c.items = c.keys.filterMap fun k => (c.get? k).map (k, ·) := by
    rw [keys, filterMap_map]
    exact filterMap_some.symm.trans (filterMap_congr fun p hp => by simp [get?_of_mem_items hp])
  apply eq_of_items
  rw [hitems, hitems, hkeys]
  simp only [h]

theorem mem_keys_setAll : k ∈ (d.setAll l).keys ↔ k ∈ l.map Prod.fst ∨ k ∈ d.keys := by
  induction l generalizing d with
  | nil => simp [setAll]
  | cons p l ih =>
    have hrest : k ∈ (d.setAll (p :: l)).keys ↔ k ∈ l.map Prod.fst ∨ k ∈ (d.set p.1 p.2).keys := ih
    rw [hrest, mem_keys_set, map_cons, mem_cons, or_left_comm, or_assoc]

theorem keys_setAll_of_subset (h : ∀ p ∈ l, p.1 ∈ d.keys) : (d.setAll l).keys = d.keys := by
  induction l generalizing d with
  | nil => rfl
  | cons p l ih =>
    have hkeys := keys_set_of_mem (h p mem_cons_self) p.2
    exact (ih fun q hq => hkeys ▸ h q (mem_cons_of_mem _ hq)).trans hkeys

theorem get?_setAll (d : Dict K V) (l : List (K × V)) (k : K) :
    (d.setAll l).get? k = ((ofList l).get? k).or (d.get? k) := by
  induction l using List.reverseRecOn with
  | nil => rfl
  | append_singleton l p ih =>
    rw [ofList_concat, setAll, foldl_append, foldl_cons, foldl_nil]
    by_cases hp : k = p.1
    · rw [hp, get?_set_self, get?_set_self]
      rfl
    · rw [get?_set_ne _ _ hp, get?_set_ne _ _ hp]
      exact ih

/-- **Setting the same entries once more changes nothing.** -/
theorem setAll_setAll (d : Dict K V) (l : List (K × V)) : (d.setAll l).setAll l = d.setAll l := by
  refine ext_get? (keys_setAll_of_subset fun p hp => ?_) fun k => ?_
  · exact mem_keys_setAll.2 (.inl (mem_map_of_mem hp))
  · rw [get?_setAll, get?_setAll, ← Option.or_assoc, Option.or_self]

end Dict

end Omniscience
