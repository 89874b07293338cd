import Omniscience.Stores.Merging

/-!
# Chains of merges

An entity is merged into a second one and this into a third, and the two merges are taken back in
either order.  The second merge reads the relationships that the first one has drawn and marks them
as its own, so the split of the first entity finds none of them.  What it had stays with the second
entity (`restoresChain_iff`).
-/

namespace Omniscience.Cypher

open PropertyGraph List Bool

variable {workspaceId w : Uuid}

theorem flag_comm {a b : Uuid} (hab : a ≠ b) {isMerged isMerged' : Option Bool}
    {target target' : Option Uuid} (d : Dict ℕ Node) : (d.map (Node.flag w a isMerged target)).map
        (Node.flag w b isMerged' target') =
      (d.map (Node.flag w b isMerged' target')).map
        (Node.flag w a isMerged target) := by
  have hnode : ∀ i (n : Node), (n.flag w a isMerged target i).flag w b isMerged' target' i =
        (n.flag w b isMerged' target' i).flag w a isMerged target i := by
    intro i n
    rw [Node.flag, isEntity_flag]
    conv_rhs => rw [Node.flag, isEntity_flag]
    by_cases ha : n.isEntity w a = true
    · have hb : n.isEntity w b = false := by
        simp only [Node.isEntity, and_eq_true, decide_eq_true_eq] at ha
        simp [Node.isEntity, ha.2, hab]
      simp [Node.flag, ha, hb]
    · simp [Node.flag, ha]
  simp only [Dict.map, map_map]
  congr 1
  exact map_congr_left fun item _ => Prod.ext rfl (hnode item.1 item.2)

section

variable {p q o : Uuid} {i j l : ℕ} {g : Graph}

theorem isUnmerged_mergeNodes (hop : o ≠ p) (hp : g.refs (·.isEntity w p) = [i])
    (hq : g.refs (·.isEntity w q) = [j]) (ho : g.refs (·.isEntity w o) = [l])
    (hunmerged : IsUnmerged w p i g) (hother : IsUnmerged w o l g) :
    IsUnmerged w o l (mergeNodes w p q g).1 := by
  have hli := ne_of_refs hop ho hp
  have hcases : ∀ r ∈ (mergeNodes w p q g).1.rels,
      r ∈ g.rels ∨ r = mergeArc w i j ∨ r ∈ moved w p i j g := by
    intro r hr
    rw [rels_mergeNodes_eq hp hq hunmerged, mem_append, mem_append, mem_singleton] at hr
    rcases hr with (hr | hr) | hr
    · exact .inl (mem_filter.1 hr).1
    · exact .inr (.inl hr)
    · exact .inr (.inr hr)
  refine ⟨fun n hn => ?_, fun r hr hsource => ?_, fun r hr => ?_⟩
  · rw [nodes_mergeNodes hp hq, Dict.get?_map, Option.map_eq_some_iff] at hn
    obtain ⟨n₀, hn₀, rfl⟩ := hn
    have hentity : n₀.isEntity w p = false := by
      rw [← not_eq_true]
      intro hentity
      have hl : g.has (·.isEntity w p) l = true :=
        has_iff.2 ⟨n₀, hn₀, hentity⟩
      rw [has_of_refs hp, decide_eq_true_eq] at hl
      exact hli hl
    rw [Node.flag, hentity]
    exact hother.unflagged n₀ hn₀
  · rcases hcases r hr with hr | rfl | hr
    · exact hother.unlinked r hr hsource
    · exact absurd hsource.symm hli
    · obtain ⟨-, r₀, -, hmovable, hdata, -⟩ := mem_moved hr
      simp only [Rel.isMovable, and_eq_true, decide_eq_true_eq] at hmovable
      rw [hdata]
      exact hmovable.1.2
  · rcases hcases r hr with hr | rfl | hr
    · exact hother.unmarked r hr
    · simp [mergeArc, Rel.isMoved]
    · obtain ⟨-, r₀, -, -, hdata, -⟩ := mem_moved hr
      simp [hdata, Rel.isMoved, Rel.mark, hop.symm]

theorem rels_mergeNodes_of_bare (hp : g.refs (·.isEntity w p) = [i])
    (hq : g.refs (·.isEntity w q) = [j]) (hunmerged : IsUnmerged w p i g)
    (hbare : ∀ r ∈ g.rels, isTestedAt (·.isMovable w) i r = false) :
    (mergeNodes w p q g).1.rels = g.rels ++ [mergeArc w i j] := by
  have hkept : kept w i g = g.rels := by
    rw [kept, filter_eq_self]
    intro r hr
    rw [hbare r hr]
    rfl
  have hmoved : moved w p i j g = [] := by
    rw [eq_nil_iff_forall_not_mem]
    intro c hc
    obtain ⟨-, r, hr, hmovable, -, hfrom⟩ := mem_moved hc
    have hr' := hbare r hr
    rcases hfrom with ⟨hat, -⟩ | ⟨hat, -⟩
    · simp [isTestedAt, hat, hmovable] at hr'
    · simp [isTestedAt, hat, hmovable] at hr'
  rw [rels_mergeNodes_eq hp hq hunmerged, hkept, hmoved, append_nil]

theorem rels_split_perm {g' : Graph} (hp : g.refs (·.isEntity w p) = [i])
    (hq : g.refs (·.isEntity w q) = [j]) (h : Restored g g') :
    (split w p q g').rels.Perm (split w p q g).rels := by
  have hdrawnTo : drawnTo w i Rel.unmark g' = drawnTo w i Rel.unmark g := by
    funext r
    rw [drawnTo, drawnTo, namesakes, namesakes, idOf, idOf, h.nodes, refs_congr h.nodes]
  have hdrawnFrom : drawnFrom w i Rel.unmark g' = drawnFrom w i Rel.unmark g := by
    funext r
    rw [drawnFrom, drawnFrom, namesakes, namesakes, idOf, idOf, h.nodes, refs_congr h.nodes]
  rw [rels_split hp hq, rels_split ((refs_congr h.nodes _).trans hp)
    ((refs_congr h.nodes _).trans hq), hdrawnTo, hdrawnFrom]
  refine List.Perm.filter _ (List.Perm.filter _ ((h.rels.append ?_).append ?_))
  · exact (h.rels.filter _).flatMap_right _
  · exact (h.rels.filter _).flatMap_right _

theorem restored_split_of_link {g' : Graph} (hp : g.refs (·.isEntity w p) = [i])
    (hq : g.refs (·.isEntity w q) = [j]) (hunmerged : IsUnmerged w p i g)
    (hnodes : g'.nodes = g.nodes.map (Node.flag w p (some true) (some q)))
    (hrels : g'.rels.Perm (g.rels ++ [mergeArc w i j])) :
    Restored g (split w p q g') := by
  have hmarked : ∀ r ∈ g'.rels, r.data.isMoved w p = false := by
    intro r hr
    rcases mem_append.1 (hrels.mem_iff.1 hr) with hr | hr
    · exact hunmerged.unmarked r hr
    · rw [mem_singleton.1 hr]
      simp [mergeArc, Rel.isMoved]
  have hinto : into (·.isMoved w p) j g'.rels = [] := by
    rw [into, filter_eq_nil_iff]
    intro r hr
    simp [hmarked r hr]
  have houtOf : outOf (·.isMoved w p) j g'.rels = [] := by
    rw [outOf, filter_eq_nil_iff]
    intro r hr
    simp [hmarked r hr]
  have hunlinked : g.rels.filter (fun r => !isLink i j r) = g.rels := by
    rw [filter_eq_self]
    intro r hr
    rw [not_eq_true', ← not_eq_true]
    intro hlink
    simp only [isLink, and_eq_true, decide_eq_true_eq] at hlink
    exact hunmerged.unlinked r hr hlink.1.1 hlink.2
  refine ⟨?_, ?_⟩
  · rw [nodes_split, hnodes, flag_flag hp hunmerged]
  · have hstill : (g'.rels.filter fun r => !isTestedAt (·.isMoved w p) j r) =
        g'.rels := by
      rw [filter_eq_self]
      intro r hr
      rw [isTestedAt, hmarked r hr, Bool.and_false]
      rfl
    rw [rels_split ((refs_isEntity_of_flag hnodes p).trans hp)
      ((refs_isEntity_of_flag hnodes q).trans hq), hinto, houtOf, flatMap_nil,
      flatMap_nil, append_nil, append_nil, hstill]
    refine (hrels.filter _).trans (List.Perm.of_eq ?_)
    rw [filter_append, hunlinked]
    simp [isLink, mergeArc]

end

/-! ### Undoing in either order -/

/-- Merging the first entity into the second and splitting it off restores the graph. -/
def RestoresMerge (workspaceId a b : Uuid) (g : Graph) : Prop :=
  ∀ g₁ g₂, mergeNodes workspaceId a b g = (g₁, true) → unmergeNode workspaceId a g₁ = (g₂, true) →
    Restored g g₂

/-- Merging the first entity into the second and this into the third, and undoing the two in an
order that is accepted, restores the graph. -/
def RestoresChain (workspaceId a b c : Uuid) (g : Graph) : Prop :=
  ∀ first second, (first = a ∧ second = b) ∨ (first = b ∧ second = a) →
    ∀ g₁ g₂ g₃ g₄, mergeNodes workspaceId a b g = (g₁, true) →
      mergeNodes workspaceId b c g₁ = (g₂, true) → unmergeNode workspaceId first g₂ = (g₃, true) →
      unmergeNode workspaceId second g₃ = (g₄, true) → Restored g g₄

/-- The entity has no relationship that a merge moves. -/
def IsBare (workspaceId : Uuid) (i : ℕ) (g : Graph) : Prop :=
  ∀ r ∈ g.rels, isTestedAt (·.isMovable workspaceId) i r = false

theorem restoresMerge_iff_isReversible {a b : Uuid} {i j : ℕ} {g : Graph} (hab : a ≠ b)
    (ha : g.refs (·.isEntity w a) = [i]) (hb : g.refs (·.isEntity w b) = [j])
    (hunmerged : IsUnmerged w a i g) :
    RestoresMerge w a b g ↔ IsReversible w g i j := by
  rw [← restored_iff hab ha hb hunmerged]
  have hmerge : mergeNodes w a b g = ((mergeNodes w a b g).1, true) :=
    Prod.ext rfl (mergeNodes_accepted ha hb)
  have hsplit := unmergeNode_of_flag (nodes_mergeNodes ha hb) ha
  constructor
  · intro h
    rw [hsplit]
    exact h _ _ hmerge hsplit
  · intro h g₁ g₂ h₁ h₂
    have hg₁ : (mergeNodes w a b g).1 = g₁ := by rw [h₁]
    rw [hg₁, h₂] at h
    exact h

section

variable {a b c : Uuid} {i j k : ℕ} {g : Graph} (hab : a ≠ b)
  (ha : g.refs (·.isEntity w a) = [i]) (hb : g.refs (·.isEntity w b) = [j])
  (hc : g.refs (·.isEntity w c) = [k])

/-- The graph after both merges. -/
def chained (workspaceId a b c : Uuid) (g : Graph) : Graph :=
  (mergeNodes workspaceId b c (mergeNodes workspaceId a b g).1).1

include ha hb hc

theorem nodes_chained (hab : a ≠ b) : (chained w a b c g).nodes = (mergeNodes w b c g).1.nodes.map
      (Node.flag w a (some true) (some b)) := by
  have hnodes := nodes_mergeNodes ha hb
  rw [chained, nodes_mergeNodes ((refs_isEntity_of_flag hnodes b).trans hb)
    ((refs_isEntity_of_flag hnodes c).trans hc), hnodes, nodes_mergeNodes hb hc, flag_comm hab]

theorem chained_accepted : mergeNodes w b c (mergeNodes w a b g).1 = (chained w a b c g, true) := by
  have hnodes := nodes_mergeNodes ha hb
  exact Prod.ext rfl (mergeNodes_accepted ((refs_isEntity_of_flag hnodes b).trans hb)
    ((refs_isEntity_of_flag hnodes c).trans hc))

theorem unmergeNode_chained_second : unmergeNode w b (chained w a b c g) =
    (split w b c (chained w a b c g), true) := by
  have hnodes := nodes_mergeNodes ha hb
  exact unmergeNode_of_flag (nodes_mergeNodes ((refs_isEntity_of_flag hnodes b).trans hb)
    ((refs_isEntity_of_flag hnodes c).trans hc)) ((refs_isEntity_of_flag hnodes b).trans hb)

include hab

theorem unmergeNode_chained_first : unmergeNode w a (chained w a b c g) =
    (split w a b (chained w a b c g), true) :=
  unmergeNode_of_flag (nodes_chained ha hb hc hab)
    ((refs_isEntity_of_flag (nodes_mergeNodes hb hc) a).trans ha)

theorem nodes_split_second (hunmergedB : IsUnmerged w b j g) :
    (split w b c (chained w a b c g)).nodes =
      g.nodes.map (Node.flag w a (some true) (some b)) := by
  rw [nodes_split, nodes_chained ha hb hc hab, flag_comm hab, nodes_mergeNodes hb hc,
    flag_flag hb hunmergedB]

theorem nodes_split_first (hunmergedA : IsUnmerged w a i g) (hunmergedB : IsUnmerged w b j g) :
    (split w a b (chained w a b c g)).nodes =
      (mergeNodes w b c g).1.nodes := by
  rw [nodes_split, nodes_chained ha hb hc hab,
    flag_flag ((refs_isEntity_of_flag (nodes_mergeNodes hb hc) a).trans ha)
      (isUnmerged_mergeNodes hab hb hc ha hunmergedB hunmergedA)]

theorem restoresChain_iff_both (hunmergedA : IsUnmerged w a i g) (hunmergedB : IsUnmerged w b j g) :
    RestoresChain w a b c g ↔
      Restored g (split w b c (split w a b (chained w a b c g))) ∧
        Restored g
          (split w a b (split w b c (chained w a b c g))) := by
  have hmerge : mergeNodes w a b g = ((mergeNodes w a b g).1, true) :=
    Prod.ext rfl (mergeNodes_accepted ha hb)
  have hfirst := unmergeNode_chained_first hab ha hb hc
  have hsecond := unmergeNode_chained_second ha hb hc
  have hthenSecond : unmergeNode w b (split w a b (chained w a b c g)) =
      (split w b c (split w a b (chained w a b c g)), true) :=
    unmergeNode_of_flag ((nodes_split_first hab ha hb hc hunmergedA hunmergedB).trans
      (nodes_mergeNodes hb hc)) hb
  have hthenFirst : unmergeNode w a (split w b c (chained w a b c g)) =
      (split w a b (split w b c (chained w a b c g)), true) :=
    unmergeNode_of_flag (nodes_split_second hab ha hb hc hunmergedB) ha
  constructor
  · intro h
    exact ⟨h a b (.inl ⟨rfl, rfl⟩) _ _ _ _ hmerge (chained_accepted ha hb hc) hfirst hthenSecond,
      h b a (.inr ⟨rfl, rfl⟩) _ _ _ _ hmerge (chained_accepted ha hb hc) hsecond hthenFirst⟩
  · rintro ⟨hab', hba'⟩ first second horder g₁ g₂ g₃ g₄ h₁ h₂ h₃ h₄
    obtain rfl : (mergeNodes w a b g).1 = g₁ := by rw [h₁]
    obtain rfl : chained w a b c g = g₂ := by rw [chained, h₂]
    rcases horder with ⟨rfl, rfl⟩ | ⟨rfl, rfl⟩
    · obtain ⟨rfl, -⟩ := Prod.mk.inj (hfirst.symm.trans h₃)
      obtain ⟨rfl, -⟩ := Prod.mk.inj (hthenSecond.symm.trans h₄)
      exact hab'
    · obtain ⟨rfl, -⟩ := Prod.mk.inj (hsecond.symm.trans h₃)
      obtain ⟨rfl, -⟩ := Prod.mk.inj (hthenFirst.symm.trans h₄)
      exact hba'

theorem ends_of_split_second (hunmergedA : IsUnmerged w a i g)
    (hunmergedB : IsUnmerged w b j g) {r : Arc Rel}
    (hr : r ∈ (split w b c (chained w a b c g)).rels) :
    r.data.isMoved w a = false ∧
      (isTestedAt (·.isMovable w) i r = true → r.source = j ∨ r.target = j) := by
  have hnodes := nodes_mergeNodes ha hb
  have hb₁ := (refs_isEntity_of_flag hnodes b).trans hb
  have hc₁ := (refs_isEntity_of_flag hnodes c).trans hc
  have hunmerged₁ := isUnmerged_mergeNodes hab.symm ha hb hb hunmergedA hunmergedB
  -- what the first merge leaves
  have hfirst : ∀ r ∈ (mergeNodes w a b g).1.rels, isTestedAt (·.isMovable w) i r = false ∧
        (r.data.isMoved w a = true → isTestedAt (·.isMovable w) j r = true) := by
    intro r hr
    rw [rels_mergeNodes_eq ha hb hunmergedA, mem_append, mem_append, mem_singleton] at hr
    rcases hr with (hr | rfl) | hr
    · obtain ⟨hmem, hkept⟩ := mem_filter.1 hr
      rw [not_eq_true'] at hkept
      exact ⟨hkept, by simp [hunmergedA.unmarked r hmem]⟩
    · simp [isTestedAt, mergeArc, Rel.isMovable, Rel.isMoved]
    · obtain ⟨⟨hsource, htarget⟩, r₀, -, hmovable, hdata, hends⟩ := mem_moved hr
      refine ⟨by simp [isTestedAt, hsource, htarget], fun _ => ?_⟩
      rw [isTestedAt, hdata, isMovable_mark, hmovable, Bool.and_true]
      rcases hends with ⟨-, -, hj⟩ | ⟨-, hj, -⟩
      · simp [hj]
      · simp [hj]
  -- what the second merge leaves
  have hsecond : ∀ r ∈ (chained w a b c g).rels, r.data.isMoved w a = false ∧
        (isTestedAt (·.isMovable w) i r = true → isTestedAt (·.isMoved w b) k r = true) := by
    intro r hr
    rw [chained, rels_mergeNodes_eq hb₁ hc₁ hunmerged₁, mem_append, mem_append, mem_singleton] at hr
    rcases hr with (hr | rfl) | hr
    · obtain ⟨hmem, hkept⟩ := mem_filter.1 hr
      rw [not_eq_true'] at hkept
      obtain ⟨hbare, hmarked⟩ := hfirst r hmem
      refine ⟨?_, by simp [hbare]⟩
      rw [← not_eq_true]
      intro hmoved
      rw [hmarked hmoved] at hkept
      cases hkept
    · simp [isTestedAt, mergeArc, Rel.isMovable, Rel.isMoved]
    · have hmoved := isMoved_of_mem_moved hr
      obtain ⟨-, r₀, -, -, hdata, hends⟩ := mem_moved hr
      refine ⟨by simp [hdata, Rel.isMoved, Rel.mark, hab.symm], fun _ => ?_⟩
      rw [isTestedAt, hmoved, Bool.and_true]
      rcases hends with ⟨-, -, hk⟩ | ⟨-, hk, -⟩
      · simp [hk]
      · simp [hk]
  have hnodes₂ : (chained w a b c g).nodes = (mergeNodes w a b g).1.nodes.map
      (Node.flag w b (some true) (some c)) := nodes_mergeNodes hb₁ hc₁
  rw [rels_split ((refs_isEntity_of_flag hnodes₂ b).trans hb₁)
    ((refs_isEntity_of_flag hnodes₂ c).trans hc₁), mem_filter, mem_filter,
    mem_append, mem_append, mem_flatMap, mem_flatMap] at hr
  obtain ⟨⟨(hr | ⟨r₀, -, hr⟩) | ⟨r₀, -, hr⟩, hoff⟩, -⟩ := hr
  · obtain ⟨hmarked, htested⟩ := hsecond r hr
    refine ⟨hmarked, fun hat => ?_⟩
    rw [htested hat] at hoff
    cases hoff
  · obtain ⟨-, htarget, hdata⟩ := mem_drawnTo.1 hr
    exact ⟨by simp [hdata, Rel.isMoved, Rel.unmark], fun _ => .inr htarget⟩
  · obtain ⟨hsource, -, hdata⟩ := mem_drawnFrom.1 hr
    exact ⟨by simp [hdata, Rel.isMoved, Rel.unmark], fun _ => .inl hsource⟩

theorem isBare_of_restored (hunmergedA : IsUnmerged w a i g)
    (hunmergedB : IsUnmerged w b j g) (hreversible : IsReversible w g i j)
    (h : Restored g
      (split w a b (split w b c (chained w a b c g)))) :
    IsBare w i g := by
  have hij := ne_of_refs hab ha hb
  have hnodes := nodes_split_second hab ha hb hc hunmergedB
  intro r hr
  rw [← not_eq_true]
  intro hat
  have hfinal := h.rels.mem_iff.2 hr
  rw [rels_split ((refs_isEntity_of_flag hnodes a).trans ha)
    ((refs_isEntity_of_flag hnodes b).trans hb), mem_filter, mem_filter,
    mem_append, mem_append, mem_flatMap, mem_flatMap] at hfinal
  have hends : r.source = j ∨ r.target = j := by
    obtain ⟨⟨(hmem | ⟨r₀, hr₀, -⟩) | ⟨r₀, hr₀, -⟩, -⟩, -⟩ := hfinal
    · exact (ends_of_split_second hab ha hb hc hunmergedA hunmergedB hmem).2 hat
    · obtain ⟨hmem, -, hmoved⟩ := mem_into.1 hr₀
      rw [(ends_of_split_second hab ha hb hc hunmergedA hunmergedB hmem).1] at hmoved
      cases hmoved
    · obtain ⟨hmem, -, hmoved⟩ := mem_outOf.1 hr₀
      rw [(ends_of_split_second hab ha hb hc hunmergedA hunmergedB hmem).1] at hmoved
      cases hmoved
  obtain ⟨-, hother⟩ := hreversible r hr hat
  simp only [isTestedAt, and_eq_true, or_eq_true, decide_eq_true_eq] at hat
  rcases hat.1 with hsource | htarget
  · rcases hends with hj | hj
    · exact hij (hsource.symm.trans hj)
    · exact (hother r.target (.inr ⟨hsource, rfl⟩)).2.1 hj
  · rcases hends with hj | hj
    · exact (hother r.source (.inl ⟨rfl, htarget⟩)).2.1 hj
    · exact hij (htarget.symm.trans hj)

omit hab in
theorem rels_chained (hunmergedA : IsUnmerged w a i g)
    (hunmerged₁ : IsUnmerged w b j (mergeNodes w a b g).1)
    (hunmergedB : IsUnmerged w b j g) (hbare : IsBare w i g) : (chained w a b c g).rels.Perm
      ((mergeNodes w b c g).1.rels ++ [mergeArc w i j]) := by
  have hnodes := nodes_mergeNodes ha hb
  have hrels := rels_mergeNodes_of_bare ha hb hunmergedA hbare
  have hlink : ∀ at' : Arc Rel → Bool, ((mergeNodes w a b g).1.rels.filter fun r =>
      at' r && r.data.isMovable w) =
      g.rels.filter fun r => at' r && r.data.isMovable w := by
    intro at'
    rw [hrels, filter_append]
    simp [mergeArc, Rel.isMovable]
  have hkept : kept w j (mergeNodes w a b g).1 = kept w j g ++ [mergeArc w i j] := by
    rw [kept, hrels, filter_append, kept]
    simp [isTestedAt, mergeArc, Rel.isMovable]
  have hmoved : moved w b j k (mergeNodes w a b g).1 = moved w b j k g := by
    rw [moved, moved, into, outOf, hlink, hlink, drawnTo_of_flag hnodes, drawnFrom_of_flag hnodes]
    rfl
  rw [chained, rels_mergeNodes_eq ((refs_isEntity_of_flag hnodes b).trans hb)
    ((refs_isEntity_of_flag hnodes c).trans hc) hunmerged₁, hkept, hmoved,
    rels_mergeNodes_eq hb hc hunmergedB, append_assoc, append_assoc, append_assoc,
    append_assoc]
  refine List.Perm.append_left _ ?_
  have hcomm : ([mergeArc w i j] ++ ([mergeArc w j k] ++ moved w b j k g)).Perm
      (([mergeArc w j k] ++ moved w b j k g) ++ [mergeArc w i j]) := perm_append_comm
  rwa [append_assoc] at hcomm

theorem restored_split_first (hunmergedA : IsUnmerged w a i g)
    (hunmergedB : IsUnmerged w b j g) (hbare : IsBare w i g) :
    Restored (mergeNodes w b c g).1
      (split w a b (chained w a b c g)) :=
  restored_split_of_link ((refs_isEntity_of_flag (nodes_mergeNodes hb hc) a).trans ha)
    ((refs_isEntity_of_flag (nodes_mergeNodes hb hc) b).trans hb)
    (isUnmerged_mergeNodes hab hb hc ha hunmergedB hunmergedA) (nodes_chained ha hb hc hab)
    (rels_chained ha hb hc hunmergedA
      (isUnmerged_mergeNodes hab.symm ha hb hb hunmergedA hunmergedB) hunmergedB hbare)

theorem restoresChain_iff_of_reversible (hbc : b ≠ c) (hunmergedA : IsUnmerged w a i g)
    (hunmergedB : IsUnmerged w b j g) (hreversible : IsReversible w g i j) :
    RestoresChain w a b c g ↔
      IsBare w i g ∧ IsReversible w g j k := by
  rw [restoresChain_iff_both hab ha hb hc hunmergedA hunmergedB]
  have hflag := nodes_mergeNodes hb hc
  have hb' := (refs_isEntity_of_flag hflag b).trans hb
  have hc' := (refs_isEntity_of_flag hflag c).trans hc
  have hsplit := restored_iff hbc hb hc hunmergedB
  rw [unmergeNode_of_flag hflag hb] at hsplit
  have hnodes : ∀ {g'}, Restored (mergeNodes w b c g).1 g' → (split w b c g').nodes =
        (split w b c (mergeNodes w b c g).1).nodes := by
    intro g' hsame
    rw [nodes_split, nodes_split, hsame.nodes]
  constructor
  · rintro ⟨hfirst, hsecond⟩
    have hbare := isBare_of_restored hab ha hb hc hunmergedA hunmergedB hreversible hsecond
    have hsame := restored_split_first hab ha hb hc hunmergedA hunmergedB hbare
    refine ⟨hbare, hsplit.1 ⟨?_, ?_⟩⟩
    · exact (hnodes hsame).symm.trans hfirst.nodes
    · exact (rels_split_perm hb' hc' hsame).symm.trans hfirst.rels
  · rintro ⟨hbare, hreversible'⟩
    have hsame := restored_split_first hab ha hb hc hunmergedA hunmergedB hbare
    have hrestored := hsplit.2 hreversible'
    refine ⟨⟨?_, ?_⟩, ?_⟩
    · exact (hnodes hsame).trans hrestored.nodes
    · exact (rels_split_perm hb' hc' hsame).trans hrestored.rels
    · -- the second merge alone is undone first, on the graph with the link of the first
      have hnodes := nodes_mergeNodes ha hb
      have hrels := rels_mergeNodes_of_bare ha hb hunmergedA hbare
      have hreversible₁ : IsReversible w (mergeNodes w a b g).1 j k := by
        intro r hr hat
        rw [hrels, mem_append, mem_singleton] at hr
        rcases hr with hr | rfl
        · obtain ⟨hmark, hother⟩ := hreversible' r hr hat
          refine ⟨hmark, fun x hx => ?_⟩
          rw [namesakes_of_flag hnodes]
          exact hother x hx
        · simp [isTestedAt, mergeArc, Rel.isMovable] at hat
      have hundone := (restored_iff hbc ((refs_isEntity_of_flag hnodes b).trans hb)
        ((refs_isEntity_of_flag hnodes c).trans hc)
        (isUnmerged_mergeNodes hab.symm ha hb hb hunmergedA hunmergedB)).2 hreversible₁
      rw [← chained, unmergeNode_chained_second ha hb hc] at hundone
      exact restored_split_of_link ha hb hunmergedA (nodes_split_second hab ha hb hc hunmergedB)
        (hundone.rels.trans (List.Perm.of_eq hrels))

end

/-- **Merging is reversible exactly for plain relationships**, those without a mark that join the
entity to a third node which its own id finds and nothing else.  A chain of two merges is undone, in
either order, if and only if the first has nothing to move and the second is undone. -/
theorem merge_restored_iff {a b c : Uuid} {i j k : ℕ} {g : Graph} (hab : a ≠ b) (hbc : b ≠ c)
    (ha : g.refs (·.isEntity workspaceId a) = [i]) (hb : g.refs (·.isEntity workspaceId b) = [j])
    (hc : g.refs (·.isEntity workspaceId c) = [k]) (hunmergedA : IsUnmerged workspaceId a i g)
    (hunmergedB : IsUnmerged workspaceId b j g) :
    (RestoresMerge workspaceId a b g ↔ IsReversible workspaceId g i j) ∧
      (RestoresMerge workspaceId a b g → (RestoresChain workspaceId a b c g ↔
        IsBare workspaceId i g ∧ IsReversible workspaceId g j k)) := by
  have hmerge := restoresMerge_iff_isReversible hab ha hb hunmergedA
  exact ⟨hmerge, fun h =>
    restoresChain_iff_of_reversible hab ha hb hc hbc hunmergedA hunmergedB (hmerge.1 h)⟩

/-- Three entities, the third with a state and a relationship to the first. -/
def caller : Graph :=
  (((((empty.create (bareEntity 7 1)).create (bareEntity 7 2)).create
    (bareEntity 7 3)).create { bareEntity 7 3 with label := .entityState }).connect
      ⟨3, 4, { relType := hadState, workspaceId := some 7 }⟩).connect
      ⟨3, 1, { relType := "calls", workspaceId := some 7 }⟩

theorem rels_caller : caller.rels = [⟨3, 4, { relType := hadState, workspaceId := some 7 }⟩,
    ⟨3, 1, { relType := "calls", workspaceId := some 7 }⟩] := rfl

theorem isUnmerged_caller {id : Uuid} {i : ℕ}
    (h : caller.nodes.get? i = some (bareEntity 7 id)) : IsUnmerged 7 id i caller := by
  refine ⟨fun n hn => ?_, fun r hr _ => ?_, fun r hr => ?_⟩
  · obtain rfl := Option.some.inj (h.symm.trans hn)
    exact ⟨rfl, rfl⟩
  · rw [rels_caller] at hr
    rcases mem_cons.1 hr with rfl | hr
    · decide
    · rw [mem_singleton.1 hr]
      decide
  · rw [rels_caller] at hr
    rcases mem_cons.1 hr with rfl | hr
    · rfl
    · rw [mem_singleton.1 hr]
      rfl

/-- The condition at the third entity. -/
theorem caller_restored_iff : (RestoresMerge 7 1 2 caller ↔ IsReversible 7 caller 1 2) ∧
      (RestoresMerge 7 1 2 caller → (RestoresChain 7 1 2 3 caller ↔
        IsBare 7 1 caller ∧ IsReversible 7 caller 2 3)) :=
  merge_restored_iff (by decide) (by decide) rfl rfl rfl (isUnmerged_caller rfl)
    (isUnmerged_caller rfl)

/-- The id of the third entity also finds its state, from which a second copy is drawn. -/
theorem caller_not_restored :
    ¬ ∀ (workspaceId a b c : Uuid) (i j k : ℕ) (g : Graph), a ≠ b → b ≠ c → a ≠ c →
      g.refs (·.isEntity workspaceId a) = [i] → g.refs (·.isEntity workspaceId b) = [j] →
      g.refs (·.isEntity workspaceId c) = [k] → IsUnmerged workspaceId a i g →
      IsUnmerged workspaceId b j g →
      RestoresMerge workspaceId a b g ∧ RestoresChain workspaceId a b c g := by
  intro h
  have hrestored := (h 7 1 2 3 1 2 3 caller (by decide) (by decide) (by decide) rfl rfl rfl
    (isUnmerged_caller rfl) (isUnmerged_caller rfl)).1
  rw [restoresMerge_iff_isReversible (by decide) rfl rfl (isUnmerged_caller rfl)] at hrestored
  have hback := (hrestored ⟨3, 1, { relType := "calls", workspaceId := some 7 }⟩
    (by rw [rels_caller]; exact mem_cons_of_mem _ (mem_singleton_self _)) (by decide)).2 3
    (.inl ⟨rfl, rfl⟩)
  exact absurd hback.2.2 (by decide)

end Omniscience.Cypher
