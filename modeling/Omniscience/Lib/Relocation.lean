import Omniscience.Lib.PropertyGraph

/-!
# Relocating relationships

The statements that fold one node into another move relationships: each selected one is merged at
its new ends, where one that is alike absorbs it, and is then deleted.

`relocate_spec` says what a single statement does.  `Relocates` is what all of them have in common,
for a function that says which node a node is folded into: nothing comes from nowhere, and
everything has an image.  It composes, so it holds of whole runs.
-/

namespace Omniscience.PropertyGraph

open List Bool

variable {N R : Type*}

/-- The relationship has the ends of the other one and data alike. -/
def isAlike (like : R → R → Bool) (a r : Arc R) : Bool :=
  r.source = a.source && r.target = a.target && like a.data r.data

/-- Merge relationships that are not there yet, one after the other. -/
def mergeRels (like : R → R → Bool) (l : List (Arc R)) (g : PropertyGraph N R) :
    PropertyGraph N R :=
  l.foldl (fun g a => g.mergeRel a.source a.target (like a.data) a.data fun d => d) g

/-- Each row is a relationship and what it becomes: the new ones are merged, the old ones deleted. -/
def relocate [DecidableEq R] (like : R → R → Bool) (rows : List (Arc R × Arc R))
    (g : PropertyGraph N R) : PropertyGraph N R :=
  (g.mergeRels like (rows.map Prod.snd)).deleteRels fun r => r ∈ rows.map Prod.fst

section

variable {like : R → R → Bool} {g : PropertyGraph N R}

theorem nodes_mergeRel (a b : ℕ) (test : R → Bool) (new : R) (onMatch : R → R)
    (g : PropertyGraph N R) : (g.mergeRel a b test new onMatch).nodes = g.nodes := by
  rw [mergeRel]
  split
  · rfl
  · exact nodes_connect _ g

theorem mem_rels_mergeRel {a b : ℕ} {test : R → Bool} {new : R} {r : Arc R} (hr : r ∈ g.rels) :
    r ∈ (g.mergeRel a b test new fun d => d).rels := by
  rw [mergeRel]
  split
  · simpa only [ite_self, setRels, map_id'] using hr
  · rw [connect]
    split
    · exact mem_append_left _ hr
    · exact hr

theorem exists_mergeRel {a b : ℕ} {test : R → Bool} {new : R} (ha : a ∈ g.nodes.keys)
    (hb : b ∈ g.nodes.keys) (hnew : test new = true) :
    ∃ r ∈ (g.mergeRel a b test new fun d => d).rels,
      r.source = a ∧ r.target = b ∧ test r.data = true := by
  by_cases hany : g.rels.any fun r => r.source = a && r.target = b && test r.data
  · obtain ⟨r, hr, hmatch⟩ := any_eq_true.1 hany
    simp only [and_eq_true, decide_eq_true_eq] at hmatch
    exact ⟨r, mem_rels_mergeRel hr, hmatch.1.1, hmatch.1.2, hmatch.2⟩
  · rw [mergeRel, if_neg hany, connect, dif_pos ⟨ha, hb⟩]
    exact ⟨⟨a, b, new⟩, by simp, rfl, rfl, hnew⟩

@[simp] theorem nodes_mergeRels (l : List (Arc R)) (g : PropertyGraph N R) :
    (g.mergeRels like l).nodes = g.nodes := by
  induction l generalizing g with
  | nil => rfl
  | cons a l ih => exact (ih _).trans (nodes_mergeRel _ _ _ _ _ g)

theorem rels_mergeRel_self (like : R → R → Bool) (a : Arc R)
    (ha : a.source ∈ g.nodes.keys ∧ a.target ∈ g.nodes.keys) :
    (g.mergeRel a.source a.target (like a.data) a.data fun d => d).rels =
      if g.rels.any (isAlike like a) then g.rels else g.rels ++ [a] := by
  rw [mergeRel]
  change (if g.rels.any (isAlike like a) then _ else _ : PropertyGraph N R).rels = _
  split
  · have hid : (fun r : Arc R => if isAlike like a r then r.data else r.data) = Arc.data := by
      funext r
      exact ite_self r.data
    change (g.rels.map fun r => { r with data := (fun r : Arc R =>
      if isAlike like a r then r.data else r.data) r }) = g.rels
    rw [hid]
    exact map_id _
  · rw [connect, dif_pos ha]

theorem rels_mergeRels (hrefl : ∀ d, like d d = true) {l : List (Arc R)}
    (hends : ∀ a ∈ l, a.source ∈ g.nodes.keys ∧ a.target ∈ g.nodes.keys) :
    ∃ created, (g.mergeRels like l).rels = g.rels ++ created ∧ created.Sublist l ∧
      (∀ k ∈ created, ∀ r ∈ g.rels, isAlike like k r = false) ∧
      ∀ a ∈ l, ∃ k ∈ g.rels ++ created, isAlike like a k = true := by
  induction l generalizing g with
  | nil => exact ⟨[], (append_nil _).symm, List.Sublist.refl _, by simp, by simp⟩
  | cons a l ih =>
    have ha := hends a mem_cons_self
    set g₁ := g.mergeRel a.source a.target (like a.data) a.data (fun d => d) with hg₁
    have hnodes : g₁.nodes = g.nodes := nodes_mergeRel _ _ _ _ _ g
    have hrels := rels_mergeRel_self like a ha
    obtain ⟨created, hcreated, hsub, hnew, hall⟩ := ih (g := g₁) (fun b hb => by
      rw [hnodes]
      exact hends b (mem_cons_of_mem _ hb))
    have hstep : (g.mergeRels like (a :: l)).rels = g₁.rels ++ created := hcreated
    by_cases hany : g.rels.any (isAlike like a) = true
    · rw [if_pos hany] at hrels
      rw [hrels] at hstep hnew hall
      refine ⟨created, hstep, hsub.cons a, hnew, fun b hb => ?_⟩
      rcases mem_cons.1 hb with rfl | hb
      · obtain ⟨r, hr, halike⟩ := any_eq_true.1 hany
        exact ⟨r, mem_append_left _ hr, halike⟩
      · exact hall b hb
    · rw [if_neg hany] at hrels
      rw [hrels] at hstep hnew hall
      rw [append_assoc] at hstep hall
      refine ⟨a :: created, hstep, hsub.cons_cons a, fun k hk r hr => ?_, fun b hb => ?_⟩
      · rcases mem_cons.1 hk with rfl | hk
        · rw [not_eq_true, any_eq_false] at hany
          simpa using hany r hr
        · exact hnew k hk r (mem_append_left _ hr)
      · rcases mem_cons.1 hb with rfl | hb
        · refine ⟨b, mem_append_right _ mem_cons_self, ?_⟩
          simp [isAlike, hrefl]
        · exact hall b hb

variable [DecidableEq R] {rows : List (Arc R × Arc R)}

@[simp] theorem nodes_relocate (rows : List (Arc R × Arc R)) (g : PropertyGraph N R) :
    (g.relocate like rows).nodes = g.nodes := nodes_mergeRels _ g

/-- **One relocation**: the rows are gone, and what they became is there. -/
theorem relocate_spec (hrefl : ∀ d, like d d = true)
    (hends : ∀ row ∈ rows, row.2.source ∈ g.nodes.keys ∧ row.2.target ∈ g.nodes.keys)
    (hapart : ∀ row ∈ rows, ∀ row' ∈ rows,
      ¬(row'.1.source = row.2.source ∧ row'.1.target = row.2.target)) :
    ∃ created, (g.relocate like rows).rels =
        (g.rels.filter fun r => !decide (r ∈ rows.map Prod.fst)) ++ created ∧
      created.Sublist (rows.map Prod.snd) ∧
      (∀ k ∈ created, ∀ r ∈ g.rels, isAlike like k r = false) ∧
      ∀ row ∈ rows, ∃ k ∈ (g.relocate like rows).rels, isAlike like row.2 k = true := by
  obtain ⟨created, hcreated, hsub, hnew, hall⟩ := rels_mergeRels (g := g) hrefl
    (l := rows.map Prod.snd) (fun a ha => by
      obtain ⟨row, hrow, rfl⟩ := mem_map.1 ha
      exact hends row hrow)
  -- what lies at the new ends of a row is not a row
  have hstays : ∀ row ∈ rows, ∀ k, isAlike like row.2 k = true → k ∉ rows.map Prod.fst := by
    intro row hrow k halike hk
    obtain ⟨row', hrow', rfl⟩ := mem_map.1 hk
    simp only [isAlike, and_eq_true, decide_eq_true_eq] at halike
    exact hapart row hrow row' hrow' halike.1
  have hcreatedStays : ∀ k ∈ created, k ∉ rows.map Prod.fst := by
    intro k hk
    obtain ⟨row, hrow, rfl⟩ := mem_map.1 (hsub.subset hk)
    exact hstays row hrow row.2 (by simp [isAlike, hrefl])
  have hrels : (g.relocate like rows).rels =
      (g.rels.filter fun r => !decide (r ∈ rows.map Prod.fst)) ++ created := by
    have hkeep : (created.filter fun r => !decide (r ∈ rows.map Prod.fst)) = created := by
      rw [filter_eq_self]
      intro k hk
      simpa using hcreatedStays k hk
    change ((g.mergeRels like (rows.map Prod.snd)).rels.filter fun r =>
      !decide (r ∈ rows.map Prod.fst)) = _
    rw [hcreated, filter_append, hkeep]
  refine ⟨created, hrels, hsub, hnew, fun row hrow => ?_⟩
  obtain ⟨k, hk, halike⟩ := hall row.2 (mem_map_of_mem hrow)
  refine ⟨k, ?_, halike⟩
  rw [hrels, mem_append]
  rcases mem_append.1 hk with hk | hk
  · exact .inl (mem_filter.2 ⟨hk, by simpa using hstays row hrow k halike⟩)
  · exact .inr hk

end

/-! ### Folding nodes into others -/

/-- The node is the other one, or what this is folded into. -/
def Follows (into : ℕ → ℕ) (i j : ℕ) : Prop := j = i ∨ j = into i

/-- No end of the relationship is folded into another node. -/
def isStill (into : ℕ → ℕ) (r : Arc R) : Bool := into r.source = r.source && into r.target = r.target

/-- The relationships of a graph after nodes were folded into others: each comes from one with the
same data, and each of before has one alike, at ends that follow.  Those that no folding concerns
are as before. -/
structure Relocates (into : ℕ → ℕ) (same like : R → R → Prop) (alike : R → R → Bool)
    (g g' : PropertyGraph N R) : Prop where
  origin : ∀ r' ∈ g'.rels, ∃ r ∈ g.rels, same r.data r'.data ∧
    Follows into r.source r'.source ∧ Follows into r.target r'.target
  image : ∀ r ∈ g.rels, ∃ r' ∈ g'.rels, like r.data r'.data ∧
    Follows into r.source r'.source ∧ Follows into r.target r'.target
  still : (g.rels.filter (isStill into)).Sublist g'.rels
  alone : ∀ k ∈ g.rels, isStill into k = true → ∀ r ∈ g'.rels, isAlike alike k r = true → r ∈ g.rels

theorem Follows.refl {into : ℕ → ℕ} (i : ℕ) : Follows into i i := .inl rfl

theorem Follows.trans {into : ℕ → ℕ} (hidem : ∀ i, into (into i) = into i) {i j k : ℕ}
    (h : Follows into i j) (h' : Follows into j k) : Follows into i k := by
  rcases h with rfl | rfl
  · exact h'
  · rcases h' with rfl | rfl
    · exact .inr rfl
    · exact .inr (hidem i)

theorem Follows.into_eq {into : ℕ → ℕ} (hidem : ∀ i, into (into i) = into i) {i j : ℕ}
    (h : Follows into i j) : into j = into i := by
  rcases h with rfl | rfl
  · rfl
  · exact hidem i

section

variable {into : ℕ → ℕ} {same like : R → R → Prop} {alike : R → R → Bool}
  {g g' g'' : PropertyGraph N R}

theorem Relocates.of_rels (hsame : ∀ d, same d d) (hlike : ∀ d, like d d)
    (h : g'.rels = g.rels) : Relocates into same like alike g g' where
  origin r' hr' := ⟨r', h ▸ hr', hsame _, .refl _, .refl _⟩
  image r hr := ⟨r, h.symm ▸ hr, hlike _, .refl _, .refl _⟩
  still := h ▸ filter_sublist
  alone _ _ _ _ hr _ := h ▸ hr

theorem Relocates.trans (hidem : ∀ i, into (into i) = into i)
    (hsame : ∀ {a b c}, same a b → same b c → same a c)
    (hlike : ∀ {a b c}, like a b → like b c → like a c) (h : Relocates into same like alike g g')
    (h' : Relocates into same like alike g' g'') : Relocates into same like alike g g'' where
  origin r'' hr'' := by
    obtain ⟨r', hr', hdata', hsource', htarget'⟩ := h'.origin r'' hr''
    obtain ⟨r, hr, hdata, hsource, htarget⟩ := h.origin r' hr'
    exact ⟨r, hr, hsame hdata hdata', hsource.trans hidem hsource', htarget.trans hidem htarget'⟩
  image r hr := by
    obtain ⟨r', hr', hdata, hsource, htarget⟩ := h.image r hr
    obtain ⟨r'', hr'', hdata', hsource', htarget'⟩ := h'.image r' hr'
    exact ⟨r'', hr'', hlike hdata hdata', hsource.trans hidem hsource',
      htarget.trans hidem htarget'⟩
  still := by
    have hstill := h.still.filter (isStill into)
    rw [filter_filter] at hstill
    simp only [Bool.and_self] at hstill
    exact hstill.trans h'.still
  alone k hk hkstill r hr halike := by
    have hk' : k ∈ g'.rels := h.still.subset (mem_filter.2 ⟨hk, hkstill⟩)
    exact h.alone k hk hkstill r (h'.alone k hk' hkstill r hr halike) halike

variable [DecidableEq R] {rows : List (Arc R × Arc R)}

theorem relocates_relocate (hrefl : ∀ d, alike d d = true)
    (hsymm : ∀ {a b}, alike a b = true → alike b a = true) (hsame : ∀ d, same d d)
    (hlike : ∀ d, like d d)
    (hends : ∀ row ∈ rows, row.2.source ∈ g.nodes.keys ∧ row.2.target ∈ g.nodes.keys)
    (hapart : ∀ row ∈ rows, ∀ row' ∈ rows,
      ¬(row'.1.source = row.2.source ∧ row'.1.target = row.2.target))
    (hrows : ∀ row ∈ rows, row.1 ∈ g.rels ∧ isStill into row.1 = false ∧
      same row.1.data row.2.data ∧ (∀ d, alike row.2.data d = true → like row.1.data d) ∧
      Follows into row.1.source row.2.source ∧ Follows into row.1.target row.2.target) :
    Relocates into same like alike g (g.relocate alike rows) := by
  obtain ⟨created, hrels, hsub, hnew, hall⟩ := relocate_spec hrefl hends hapart
  refine ⟨fun r' hr' => ?_, fun r hr => ?_, ?_, fun k hk hstill r hr halike => ?_⟩
  · rw [hrels, mem_append] at hr'
    rcases hr' with hr' | hr'
    · exact ⟨r', (mem_filter.1 hr').1, hsame _, .refl _, .refl _⟩
    · obtain ⟨row, hrow, rfl⟩ := mem_map.1 (hsub.subset hr')
      obtain ⟨hmem, -, hdata, -, hsource, htarget⟩ := hrows row hrow
      exact ⟨row.1, hmem, hdata, hsource, htarget⟩
  · by_cases hrow : r ∈ rows.map Prod.fst
    · obtain ⟨row, hmem, rfl⟩ := mem_map.1 hrow
      obtain ⟨-, -, -, hdata, hsource, htarget⟩ := hrows row hmem
      obtain ⟨k, hk, halike⟩ := hall row hmem
      simp only [isAlike, and_eq_true, decide_eq_true_eq] at halike
      refine ⟨k, hk, hdata _ halike.2, ?_, ?_⟩
      · rw [halike.1.1]
        exact hsource
      · rw [halike.1.2]
        exact htarget
    · refine ⟨r, ?_, hlike _, .refl _, .refl _⟩
      rw [hrels, mem_append]
      exact .inl (mem_filter.2 ⟨hr, by simpa using hrow⟩)
  · rw [hrels]
    refine List.Sublist.trans ?_ (sublist_append_left _ _)
    refine monotone_filter_right _ fun r hr => ?_
    rw [not_eq_true', decide_eq_false_iff_not]
    intro hrow
    obtain ⟨row, hmem, rfl⟩ := mem_map.1 hrow
    rw [(hrows row hmem).2.1] at hr
    cases hr
  · rw [hrels, mem_append] at hr
    rcases hr with hr | hr
    · exact (mem_filter.1 hr).1
    · -- a new one would have found the old one
      have hno := hnew r hr k hk
      simp only [isAlike, and_eq_true, decide_eq_true_eq] at halike
      simp [isAlike, halike.1.1, halike.1.2, hsymm halike.2] at hno

/-! ### Rows that move one end -/

/-- The end of a relationship on one side: its target or its source. -/
def endAt (inward : Bool) (r : Arc R) : ℕ := if inward then r.target else r.source

/-- The relationship with another node at that end, and other data. -/
def redirect (inward : Bool) (r : Arc R) (i : ℕ) (d : R) : Arc R :=
  if inward then ⟨r.source, i, d⟩ else ⟨i, r.target, d⟩

/-- Every row moves the end of a relationship on one side to what this is folded into, which is no
end that a row moves. -/
structure Redirects (inward : Bool) (into : ℕ → ℕ) (g : PropertyGraph N R)
    (rows : List (Arc R × Arc R)) : Prop where
  rel : ∀ row ∈ rows, row.1 ∈ g.rels
  moved : ∀ row ∈ rows,
    row.2 = redirect inward row.1 (into (endAt inward row.1)) row.2.data
  keys : ∀ row ∈ rows, into (endAt inward row.1) ∈ g.nodes.keys
  apart : ∀ row ∈ rows, ∀ row' ∈ rows, endAt inward row'.1 ≠ into (endAt inward row.1)

variable {inward : Bool}

omit [DecidableEq R] in
theorem Redirects.ends (h : Redirects inward into g rows) :
    ∀ row ∈ rows, row.2.source ∈ g.nodes.keys ∧ row.2.target ∈ g.nodes.keys := by
  intro row hrow
  have hends := g.ends _ (h.rel row hrow)
  have hkey := h.keys row hrow
  rw [h.moved row hrow]
  cases inward
  · exact ⟨hkey, hends.2⟩
  · exact ⟨hends.1, hkey⟩

omit [DecidableEq R] in
theorem Redirects.away (h : Redirects inward into g rows) : ∀ row ∈ rows, ∀ row' ∈ rows,
    ¬(row'.1.source = row.2.source ∧ row'.1.target = row.2.target) := by
  rintro row hrow row' hrow' ⟨hsource, htarget⟩
  have hapart := h.apart row hrow row' hrow'
  rw [h.moved row hrow] at hsource htarget
  cases inward
  · exact hapart hsource
  · exact hapart htarget

theorem Redirects.relocates (h : Redirects inward into g rows) (hrefl : ∀ d, alike d d = true)
    (hsymm : ∀ {a b}, alike a b = true → alike b a = true) (hsame : ∀ d, same d d)
    (hlike : ∀ d, like d d) (hdata : ∀ row ∈ rows, same row.1.data row.2.data ∧
      ∀ d, alike row.2.data d = true → like row.1.data d) :
    Relocates into same like alike g (g.relocate alike rows) := by
  refine relocates_relocate hrefl hsymm hsame hlike h.ends h.away fun row hrow => ?_
  have hne := (h.apart row hrow row hrow).symm
  refine ⟨h.rel row hrow, ?_, (hdata row hrow).1, (hdata row hrow).2, ?_⟩
  · cases inward
    · rw [isStill, and_eq_false_iff]
      exact .inl (decide_eq_false hne)
    · rw [isStill, and_eq_false_iff]
      exact .inr (decide_eq_false hne)
  · rw [h.moved row hrow]
    cases inward
    · exact ⟨.inr rfl, .refl _⟩
    · exact ⟨.refl _, .inr rfl⟩

theorem Redirects.mem_rels (h : Redirects inward into g rows) (hrefl : ∀ d, alike d d = true)
    {r : Arc R} (hr : r ∈ (g.relocate alike rows).rels) :
    (r ∈ g.rels ∧ ∀ new, (r, new) ∉ rows) ∨ ∃ row ∈ rows, row.2 = r := by
  obtain ⟨created, hrels, hsub, -, -⟩ := relocate_spec hrefl h.ends h.away
  rw [hrels, mem_append] at hr
  rcases hr with hr | hr
  · obtain ⟨hmem, hkept⟩ := mem_filter.1 hr
    rw [not_eq_true', decide_eq_false_iff_not] at hkept
    exact .inl ⟨hmem, fun new hnew => hkept (mem_map.2 ⟨_, hnew, rfl⟩)⟩
  · exact .inr (mem_map.1 (hsub.subset hr))

end

end Omniscience.PropertyGraph
