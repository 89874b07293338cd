import Omniscience.Lib.Fold
import Omniscience.Lib.Meetings
import Omniscience.Linking.Matchers
import Mathlib.Data.Sym.Sym2

/-!
# Linking the entities of different sources

`EntityLinker.link_entities` (`omniscience_index/linker.py`) compares the entities of one source
with all the others of the workspace that are there by then, and joins every two that match by a
`cross_ref` edge.  It runs once a source has been ingested, so that the order of the sources
decides which call sees which pair, and which end the edge starts from.

Linking is a meeting of the sources (`Lib/Meetings`): the later of two to be linked sees the
other.  Since the score is symmetric, every order joins the same pairs, unless a call fails.

* `matchScore_symm` : the cascade of six strategies is symmetric.
* `linking_confluent_iff` : every order joins the matching pairs if and only if no two entities of
  different sources make `tags_match` hash what has no hash.
* `unhashable_tags_lose_links` : with such tags the order decides which pairs are joined.
-/

namespace Omniscience.Linking

open Meetings List

/-! ### The score -/

variable (py : Py) (text : Text)

/-- `[A-Z]`. -/
def isUpper (c : Char) : Bool := 'A' ≤ c && c ≤ 'Z'

/-- `[0-9]`. -/
def isDigit (c : Char) : Bool := '0' ≤ c && c ≤ '9'

/-- A match of `[A-Z][A-Z0-9]+-[0-9]+\b` at the start.  No run of characters can be given up for a
shorter one: what follows it would be a character of the run. -/
def jiraKeyAt : List Char → Option (List Char)
  | [] => none
  | c :: cs =>
    let project := cs.takeWhile fun c => isUpper c || isDigit c
    let rest := cs.drop project.length
    let number := rest.tail.takeWhile isDigit
    let wordGoesOn := (rest.tail.drop number.length).head?.any text.isWord
    if isUpper c && !project.isEmpty && rest.head? == some '-' && !number.isEmpty && !wordGoesOn
    then some (c :: (project ++ '-' :: number))
    else none

/-- `_JIRA_KEY_RE.findall(text)`: `skip` characters of a key are still to be passed, and `inWord`
says that the character before was one of a word. -/
def jiraKeys : ℕ → Bool → List Char → List String
  | _, _, [] => []
  | skip + 1, _, c :: cs => jiraKeys skip (text.isWord c) cs
  | 0, inWord, c :: cs =>
    match if inWord then none else jiraKeyAt text (c :: cs) with
    | some key => String.ofList key :: jiraKeys (key.length - 1) (text.isWord c) cs
    | none => jiraKeys 0 (text.isWord c) cs

/-- `jira_issue.display_name in matches`. -/
def mentions (other jiraIssue : EntityNodeView) : Bool :=
  let matches' := jiraKeys text 0 false (other.name ++ " " ++ other.chunkText.getD "").toList
  jiraIssue.displayName.any matches'.contains

/-- The strategy `jira_ticket_match`. -/
def jiraTicketMatch (entA entB : EntityNodeView) : Bool :=
  if (entA.kind = "jira_issue" ∨ entB.kind = "jira_issue") ∧ entA.kind ≠ entB.kind then
    if entA.kind = "jira_issue" then mentions text entB entA else mentions text entA entB
  else false

/-- `tf_types`. -/
def tfTypes : List String :=
  ["terraform_resource", "terraform_module", "resource", "tfstate_instance"]

/-- `k8s_types`. -/
def k8sTypes : List String := ["k8s_resource", "service", "deployment", "pod"]

/-- `RESOURCE_MATCH_THRESHOLD`. -/
def resourceMatchThreshold : ℚ := 1 / 2

/-- The strategy `resource_name`. -/
def resourceMatch (entA entB : EntityNodeView) : ℚ × String :=
  let isTf (e : EntityNodeView) := tfTypes.contains e.kind
  let isK8s (e : EntityNodeView) := k8sTypes.contains e.kind
  let score := resourceNameMatch text entA.name entB.name
  if (isTf entA && isK8s entB || isK8s entA && isTf entB) ∧ resourceMatchThreshold ≤ score
  then (score, "resource_name")
  else (0, "")

/-- `_match_score`. -/
def matchScore (entA entB : EntityNodeView) : Except Exc (ℚ × String) :=
  if exactNameMatch text entA.name entB.name = 1 then .ok (1, "exact_name")
  else if arnMatch py text entA entB = 1 then .ok (1, "arn_match")
  else if otelMatch py text entA entB = 1 then .ok (1, "otel_match")
  else do
    let tags ← tagsMatch py text entA entB
    return if tags = 1 then (1, "tags_match")
      else if jiraTicketMatch text entA entB then (1, "jira_ticket_match")
      else resourceMatch text entA entB

/-! ### The calls -/

/-- A pair that `_compute_links` returns. -/
structure Link where
  entA : EntityNodeView
  entB : EntityNodeView
  score : ℚ
  strategy : String

/-- The loop of `_compute_links` over the pairs it goes through. -/
def scorePairs : List (EntityNodeView × EntityNodeView) → Except Exc (List Link)
  | [] => .ok []
  | (entA, entB) :: rest => do
    let (score, strategy) ← matchScore py text entA entB
    let links ← scorePairs rest
    return if 0 < score then ⟨entA, entB, score, strategy⟩ :: links else links

/-- `_compute_links`. -/
def computeLinks (sourceEntities candidateEntities : List EntityNodeView) :
    Except Exc (List Link) :=
  scorePairs py text (sourceEntities ×ˢ candidateEntities)

/-- The links of a call; there are none without other entities. -/
def newLinks (sourceEntities otherEntities : List EntityNodeView) : Except Exc (List Link) :=
  if otherEntities.isEmpty then .ok [] else computeLinks py text sourceEntities otherEntities

/-- A `cross_ref` edge with its metadata. -/
structure CrossRef where
  sourceEntityId : Uuid
  targetEntityId : Uuid
  score : ℚ
  strategy : String
  linkedSourceId : String

/-- A workspace of the graph store: its entities, and the edges of the linker. -/
structure Workspace where
  entities : List EntityNodeView
  crossRefs : List CrossRef

/-- A workspace nothing was ingested into. -/
def Workspace.empty : Workspace := ⟨[], []⟩

/-- The edge of a link. -/
def Link.crossRef (l : Link) : CrossRef :=
  ⟨l.entA.id, l.entB.id, l.score, l.strategy, l.entB.source⟩

/-- An edge whose ends at `stubId` are moved to `realId`. -/
def CrossRef.relocate (stubId realId : Uuid) (r : CrossRef) : CrossRef :=
  { r with
    sourceEntityId := if r.sourceEntityId = stubId then realId else r.sourceEntityId
    targetEntityId := if r.targetEntityId = stubId then realId else r.targetEntityId }

/-- One turn of the loop of `PostgresOnlyStore.resolve_pending_stubs`. -/
def resolveStub (w : Workspace) (stub : EntityNodeView) : Except Exc Workspace :=
  match w.entities.filter fun e => e.name = stub.name ∧ e.kind ≠ "stub" with
  | [] => .ok w
  | [real] =>
    .ok { entities := w.entities.filter (·.id ≠ stub.id)
          crossRefs := w.crossRefs.map (CrossRef.relocate stub.id real.id) }
  | _ => .error ⟨.external, "Multiple rows were found when one or none was required"⟩

/-- `resolve_pending_stubs`: a stub stands for an entity that an edge named before it was known. -/
def resolvePendingStubs (w : Workspace) : Except Exc Workspace :=
  (w.entities.filter (·.kind = "stub")).foldlM resolveStub w

/-- `link_entities`, every edge written. -/
def linkEntities (sourceId : Uuid) (w : Workspace) : Except Exc (Workspace × ℕ) :=
  if w.entities.isEmpty then .ok (w, 0)
  else
    let sourceEntities := w.entities.filter (·.source = sourceId.str)
    let otherEntities := w.entities.filter (·.source ≠ sourceId.str)
    if sourceEntities.isEmpty then .ok (w, 0)
    else do
      let links ← newLinks py text sourceEntities otherEntities
      let resolved ← resolvePendingStubs
        { w with crossRefs := w.crossRefs ++ links.map Link.crossRef }
      return (resolved, links.length)

/-- A source with its entities.  A stub is the mark of an edge, not an entity of a source. -/
structure Source where
  id : Uuid
  entities : List EntityNodeView
  own : ∀ e ∈ entities, e.source = id.str
  defined : ∀ e ∈ entities, e.kind ≠ "stub"

/-- The sources of a workspace; an entity has one row. -/
structure Corpus where
  sources : List Source
  ids : (sources.map Source.id).Nodup
  keys : ((sources.flatMap Source.entities).map EntityNodeView.id).Nodup

/-- A source is ingested (it arrives), or it is linked (it looks around). -/
def step (w : Workspace) : Act Source → Except Exc Workspace
  | .arrive source => .ok { w with entities := w.entities ++ source.entities }
  | .look source => (linkEntities py text source.id w).map Prod.fst

/-- The workspace after the steps. -/
def run (acts : List (Act Source)) : Except Exc Workspace :=
  acts.foldlM (step py text) Workspace.empty

/-- Two entities are joined by an edge, in one direction or the other. -/
def Workspace.Joined (w : Workspace) (pair : Sym2 Uuid) : Prop :=
  ∃ r ∈ w.crossRefs, s(r.sourceEntityId, r.targetEntityId) = pair

/-- Two entities have a positive score. -/
def Matches (entA entB : EntityNodeView) : Prop :=
  ∃ result, matchScore py text entA entB = .ok result ∧ 0 < result.1

/-- The pairs of different sources with a positive score. -/
def Corpus.Linked (c : Corpus) (pair : Sym2 Uuid) : Prop :=
  ∃ A ∈ c.sources, ∃ B ∈ c.sources, A ≠ B ∧ ∃ a ∈ A.entities, ∃ b ∈ B.entities,
    Matches py text a b ∧ s(a.id, b.id) = pair

/-- Whatever the order in which the sources are ingested and linked once each, the calls return and
join exactly the pairs of different sources with a positive score. -/
def LinksConfluently (c : Corpus) : Prop :=
  ∀ acts, Visits c.sources acts →
    ∃ w, run py text acts = .ok w ∧ ∀ pair, w.Joined pair ↔ c.Linked py text pair

/-- The cascade gets as far as `tags_match`, and that has to hash what has no hash. -/
structure Raises (entA entB : EntityNodeView) : Prop where
  name : exactNameMatch text entA.name entB.name ≠ 1
  arn : arnMatch py text entA entB ≠ 1
  otel : otelMatch py text entA entB ≠ 1
  tags : HasUnhashableTags entA entB

/-! ### Symmetry of the cascade -/

variable {py : Py} {text : Text} {entA entB : EntityNodeView}

theorem jiraTicketMatch_comm (entA entB : EntityNodeView) :
    jiraTicketMatch text entA entB = jiraTicketMatch text entB entA := by
  unfold jiraTicketMatch
  simp only [or_comm (a := entA.kind = _), ne_comm (a := entA.kind)]
  -- of two different kinds at most one is that of a ticket
  by_cases hkind : entB.kind = entA.kind
  · rw [if_neg fun h => h.2 hkind, if_neg fun h => h.2 hkind]
  by_cases hA : entA.kind = "jira_issue"
  · have hB : entB.kind ≠ "jira_issue" := fun hB => hkind (hB.trans hA.symm)
    rw [if_pos hA, if_neg hB]
  · by_cases hB : entB.kind = "jira_issue"
    · rw [if_neg hA, if_pos hB]
    · rw [if_neg (by tauto), if_neg (by tauto)]

theorem resourceMatch_comm (entA entB : EntityNodeView) :
    resourceMatch text entA entB = resourceMatch text entB entA := by
  unfold resourceMatch
  rw [resourceNameMatch_comm text entA.name]
  dsimp only
  rw [Bool.or_comm (tfTypes.contains entA.kind && _), Bool.and_comm (tfTypes.contains entA.kind),
    Bool.and_comm (k8sTypes.contains entA.kind)]

/-- **The score of a pair does not depend on which entity comes first.** -/
theorem matchScore_symm {result : ℚ × String} (h : matchScore py text entA entB = .ok result) :
    matchScore py text entB entA = .ok result := by
  unfold matchScore at h ⊢
  rw [exactNameMatch_comm, arnMatch_comm, otelMatch_comm, jiraTicketMatch_comm, resourceMatch_comm]
  by_cases hname : exactNameMatch text entA.name entB.name = 1
  · rwa [if_pos hname] at h ⊢
  by_cases harn : arnMatch py text entA entB = 1
  · rwa [if_neg hname, if_pos harn] at h ⊢
  by_cases hotel : otelMatch py text entA entB = 1
  · rwa [if_neg hname, if_neg harn, if_pos hotel] at h ⊢
  rw [if_neg hname, if_neg harn, if_neg hotel] at h ⊢
  obtain ⟨tags, htags, h⟩ := bind_eq_ok_iff.1 h
  rw [tagsMatch_symm py text htags, ok_bind]
  exact h

theorem Matches.symm (h : Matches py text entA entB) : Matches py text entB entA := by
  obtain ⟨result, hscore, hpos⟩ := h
  exact ⟨result, matchScore_symm hscore, hpos⟩

theorem matchScore_returns_iff :
    (∃ result, matchScore py text entA entB = .ok result) ↔ ¬ Raises py text entA entB := by
  unfold matchScore
  by_cases hname : exactNameMatch text entA.name entB.name = 1
  · rw [if_pos hname]
    exact ⟨fun _ h => h.name hname, fun _ => ⟨_, rfl⟩⟩
  by_cases harn : arnMatch py text entA entB = 1
  · rw [if_neg hname, if_pos harn]
    exact ⟨fun _ h => h.arn harn, fun _ => ⟨_, rfl⟩⟩
  by_cases hotel : otelMatch py text entA entB = 1
  · rw [if_neg hname, if_neg harn, if_pos hotel]
    exact ⟨fun _ h => h.otel hotel, fun _ => ⟨_, rfl⟩⟩
  rw [if_neg hname, if_neg harn, if_neg hotel]
  constructor
  · rintro ⟨result, h⟩ hraises
    obtain ⟨tags, htags, -⟩ := bind_eq_ok_iff.1 h
    exact (tagsMatch_returns_iff py text).1 ⟨tags, htags⟩ hraises.tags
  · intro h
    obtain ⟨tags, htags⟩ := (tagsMatch_returns_iff py text).2 fun htags =>
      h ⟨hname, harn, hotel, htags⟩
    exact ⟨_, by rw [htags, ok_bind]; rfl⟩

/-! ### One call -/

theorem mem_scorePairs {pairs : List (EntityNodeView × EntityNodeView)} {links : List Link}
    (h : scorePairs py text pairs = .ok links) {a b : EntityNodeView} :
    (∃ l ∈ links, l.entA = a ∧ l.entB = b) ↔ (a, b) ∈ pairs ∧ Matches py text a b := by
  induction pairs generalizing links with
  | nil =>
    cases h
    simp
  | cons pair pairs ih =>
    obtain ⟨⟨score, strategy⟩, hscore, h⟩ := bind_eq_ok_iff.1 h
    obtain ⟨rest, hrest, h⟩ := bind_eq_ok_iff.1 h
    have hmatch : Matches py text pair.1 pair.2 ↔ 0 < score := by
      constructor
      · rintro ⟨result, hresult, hpos⟩
        rw [hscore] at hresult
        cases hresult
        exact hpos
      · exact fun hpos => ⟨_, hscore, hpos⟩
    cases h
    rw [mem_cons, or_and_right, ← ih hrest]
    by_cases hpos : 0 < score
    · simp only [if_pos hpos, mem_cons, or_and_right, exists_or, exists_eq_left]
      refine or_congr ⟨?_, ?_⟩ Iff.rfl
      · rintro ⟨rfl, rfl⟩
        exact ⟨rfl, hmatch.2 hpos⟩
      · rintro ⟨rfl, -⟩
        exact ⟨rfl, rfl⟩
    · rw [if_neg hpos, iff_or_self]
      rintro ⟨rfl, hmatches⟩
      exact absurd (hmatch.1 hmatches) hpos

theorem scorePairs_returns_iff {pairs : List (EntityNodeView × EntityNodeView)} :
    (∃ links, scorePairs py text pairs = .ok links) ↔
      ∀ pair ∈ pairs, ¬ Raises py text pair.1 pair.2 := by
  induction pairs with
  | nil => simp [scorePairs]
  | cons pair pairs ih =>
    rw [forall_mem_cons, ← ih, ← matchScore_returns_iff]
    constructor
    · rintro ⟨links, h⟩
      obtain ⟨result, hresult, h⟩ := bind_eq_ok_iff.1 h
      obtain ⟨rest, hrest, -⟩ := bind_eq_ok_iff.1 h
      exact ⟨⟨result, hresult⟩, ⟨rest, hrest⟩⟩
    · rintro ⟨⟨result, hresult⟩, rest, hrest⟩
      exact ⟨_, by rw [scorePairs, hresult, ok_bind, hrest]; rfl⟩

/-- A workspace no edge named an unknown entity in. -/
def Workspace.NoStubs (w : Workspace) : Prop := ∀ e ∈ w.entities, e.kind ≠ "stub"

theorem resolvePendingStubs_of_noStubs {w : Workspace} (h : w.NoStubs) :
    resolvePendingStubs w = .ok w := by
  have : w.entities.filter (·.kind = "stub") = [] := by simpa using fun e he => h e he
  rw [resolvePendingStubs, this]
  rfl

variable {w w' : Workspace} {sourceId : Uuid}

/-- A call sees the entities of its source against all the others. -/
def Workspace.Sees (w : Workspace) (sourceId : Uuid) (a b : EntityNodeView) : Prop :=
  a ∈ w.entities ∧ a.source = sourceId.str ∧ b ∈ w.entities ∧ b.source ≠ sourceId.str

theorem newLinks_eq (sourceEntities otherEntities : List EntityNodeView) :
    newLinks py text sourceEntities otherEntities =
      scorePairs py text (sourceEntities ×ˢ otherEntities) := by
  unfold newLinks
  split_ifs with hothers
  · rw [isEmpty_iff.1 hothers, product_nil, scorePairs]
  · rfl

theorem linkEntities_eq (h : w.NoStubs) : linkEntities py text sourceId w = do
    let links ← scorePairs py text ((w.entities.filter (·.source = sourceId.str)) ×ˢ
      (w.entities.filter (·.source ≠ sourceId.str)))
    return ({ w with crossRefs := w.crossRefs ++ links.map Link.crossRef }, links.length) := by
  have hnothing : (.ok (w, 0) : Except Exc (Workspace × ℕ)) = do
      let links ← scorePairs py text []
      return ({ w with crossRefs := w.crossRefs ++ links.map Link.crossRef }, links.length) := by
    rw [scorePairs, ok_bind, map_nil, append_nil]
    rfl
  unfold linkEntities
  by_cases hnone : w.entities.isEmpty
  · have hpairs : (w.entities.filter (·.source = sourceId.str)) ×ˢ
        (w.entities.filter (·.source ≠ sourceId.str)) = [] := by
      rw [isEmpty_iff.1 hnone]
      rfl
    rw [if_pos hnone, hpairs]
    exact hnothing
  rw [if_neg hnone]
  dsimp only
  by_cases hsource : (w.entities.filter (·.source = sourceId.str)).isEmpty
  · rw [if_pos hsource, isEmpty_iff.1 hsource]
    exact hnothing
  rw [if_neg hsource, newLinks_eq]
  refine bind_congr fun links => ?_
  rw [resolvePendingStubs_of_noStubs (by exact h), ok_bind]

theorem mem_pairs {a b : EntityNodeView} : (a, b) ∈ (w.entities.filter (·.source = sourceId.str)) ×ˢ
      (w.entities.filter (·.source ≠ sourceId.str)) ↔ w.Sees sourceId a b := by
  simp [Workspace.Sees, and_assoc]

theorem linkEntities_spec {n : ℕ} (hstubs : w.NoStubs)
    (h : linkEntities py text sourceId w = .ok (w', n)) : w'.entities = w.entities ∧
      ∀ pair, w'.Joined pair ↔ w.Joined pair ∨
        ∃ a b, w.Sees sourceId a b ∧ Matches py text a b ∧ s(a.id, b.id) = pair := by
  rw [linkEntities_eq hstubs] at h
  obtain ⟨links, hlinks, h⟩ := bind_eq_ok_iff.1 h
  cases h
  refine ⟨rfl, fun pair => ?_⟩
  simp only [Workspace.Joined, mem_append, or_and_right, exists_or]
  refine or_congr Iff.rfl ⟨?_, ?_⟩
  · rintro ⟨r, hr, rfl⟩
    obtain ⟨l, hl, rfl⟩ := mem_map.1 hr
    obtain ⟨hpair, hmatch⟩ := (mem_scorePairs hlinks).1 ⟨l, hl, rfl, rfl⟩
    exact ⟨l.entA, l.entB, mem_pairs.1 hpair, hmatch, rfl⟩
  · rintro ⟨a, b, hsees, hmatch, rfl⟩
    obtain ⟨l, hl, rfl, rfl⟩ := (mem_scorePairs hlinks).2 ⟨mem_pairs.2 hsees, hmatch⟩
    exact ⟨_, mem_map_of_mem hl, rfl⟩

theorem linkEntities_returns_iff (hstubs : w.NoStubs) :
    (∃ result, linkEntities py text sourceId w = .ok result) ↔
      ∀ a b, w.Sees sourceId a b → ¬ Raises py text a b := by
  have hpairs : (∀ a b, w.Sees sourceId a b → ¬ Raises py text a b) ↔
      ∀ pair ∈ (w.entities.filter (·.source = sourceId.str)) ×ˢ
        (w.entities.filter (·.source ≠ sourceId.str)), ¬ Raises py text pair.1 pair.2 := by
    simp only [Prod.forall, mem_pairs]
  rw [hpairs, ← scorePairs_returns_iff, linkEntities_eq hstubs]
  constructor
  · rintro ⟨result, h⟩
    obtain ⟨links, hlinks, -⟩ := bind_eq_ok_iff.1 h
    exact ⟨links, hlinks⟩
  · rintro ⟨links, hlinks⟩
    exact ⟨_, by rw [hlinks, ok_bind]; rfl⟩

/-! ### The runs are meetings -/

/-- The workspace holds the entities of the sources that came, and the matching pairs of those that
met. -/
structure Mirrors (py : Py) (text : Text) (hall : Hall Source) (w : Workspace) : Prop where
  entities : ∀ e, e ∈ w.entities ↔ ∃ A ∈ hall.present, e ∈ A.entities
  joined : ∀ pair, w.Joined pair ↔ ∃ A B, (A, B) ∈ hall.met ∧ ∃ a ∈ A.entities, ∃ b ∈ B.entities,
    Matches py text a b ∧ s(a.id, b.id) = pair

variable {hall : Hall Source} {acts : List (Act Source)} {c : Corpus}

theorem Mirrors.noStubs (h : Mirrors py text hall w) : w.NoStubs := by
  intro e he
  obtain ⟨A, -, heA⟩ := (h.entities e).1 he
  exact A.defined e heA

theorem Corpus.eq_of_id {A B : Source} (hA : A ∈ c.sources) (hB : B ∈ c.sources)
    (h : A.id = B.id) : A = B :=
  inj_on_of_nodup_map c.ids hA hB h

theorem Mirrors.sees_iff (h : Mirrors py text hall w)
    (hpresent : ∀ A ∈ hall.present, A ∈ c.sources) {A : Source} (hA : A ∈ c.sources)
    {a b : EntityNodeView} : w.Sees A.id a b ↔
      A ∈ hall.present ∧ a ∈ A.entities ∧ ∃ B ∈ hall.present, B ≠ A ∧ b ∈ B.entities := by
  have hsource {B : Source} (hB : B ∈ hall.present) {e : EntityNodeView} (he : e ∈ B.entities) :
      e.source = A.id.str ↔ B = A := by
    rw [B.own e he]
    refine ⟨fun heq => c.eq_of_id (hpresent B hB) hA (Uuid.str_injective heq), ?_⟩
    rintro rfl
    rfl
  constructor
  · rintro ⟨ha, haA, hb, hbA⟩
    obtain ⟨A', hA', ha⟩ := (h.entities a).1 ha
    obtain ⟨B, hB, hb⟩ := (h.entities b).1 hb
    obtain rfl := (hsource hA' ha).1 haA
    exact ⟨hA', ha, B, hB, fun heq => hbA ((hsource hB hb).2 heq), hb⟩
  · rintro ⟨hA', ha, B, hB, hne, hb⟩
    exact ⟨(h.entities a).2 ⟨A, hA', ha⟩, A.own a ha, (h.entities b).2 ⟨B, hB, hb⟩,
      fun heq => hne ((hsource hB hb).1 heq)⟩

theorem Mirrors.ingest (h : Mirrors py text hall w) (A : Source) :
    Mirrors py text (hall.act (.arrive A))
      { w with entities := w.entities ++ A.entities } where
  entities e := by
    simp only [mem_append, h.entities e, Hall.act, Set.mem_insert_iff, or_and_right,
      exists_or, exists_eq_left]
    rw [or_comm]
  joined := h.joined

theorem Mirrors.link (h : Mirrors py text hall w)
    (hpresent : ∀ A ∈ hall.present, A ∈ c.sources) {A : Source} (hA : A ∈ c.sources) {n : ℕ}
    (hlink : linkEntities py text A.id w = .ok (w', n)) :
    Mirrors py text (hall.act (.look A)) w' := by
  obtain ⟨hentities, hjoined⟩ := linkEntities_spec h.noStubs hlink
  refine ⟨by rw [hentities]; exact h.entities, fun pair => ?_⟩
  rw [hjoined, h.joined]
  constructor
  · rintro (⟨B, C, hmet, hmatch⟩ | ⟨a, b, hsees, hmatch, rfl⟩)
    · exact ⟨B, C, .inl hmet, hmatch⟩
    · obtain ⟨hA', ha, B, hB, hne, hb⟩ := (h.sees_iff hpresent hA).1 hsees
      exact ⟨A, B, .inr ⟨rfl, hA', hB, hne⟩, a, ha, b, hb, hmatch, rfl⟩
  · rintro ⟨B, C, hmet | ⟨rfl, hB, hC, hne⟩, a, ha, b, hb, hmatch, rfl⟩
    · exact .inl ⟨B, C, hmet, a, ha, b, hb, hmatch, rfl⟩
    · exact .inr ⟨a, b, (h.sees_iff hpresent hA).2 ⟨hB, ha, C, hC, hne, hb⟩, hmatch, rfl⟩

theorem run_concat (acts : List (Act Source)) (act : Act Source) :
    run py text (acts ++ [act]) = run py text acts >>= fun w => step py text w act := by
  simp [run]

/-- The acts name sources of the corpus. -/
def Within (c : Corpus) (acts : List (Act Source)) : Prop :=
  ∀ A, Act.arrive A ∈ acts ∨ Act.look A ∈ acts → A ∈ c.sources

theorem Within.concat {act : Act Source} (h : Within c (acts ++ [act])) : Within c acts :=
  fun A hA => h A (hA.imp (mem_append_left _) (mem_append_left _))

theorem Within.present (h : Within c acts) : ∀ A ∈ (after acts).present, A ∈ c.sources :=
  fun A hA => h A (.inl (mem_present.1 hA))

theorem mirrors_run (hwithin : Within c acts) (hrun : run py text acts = .ok w) :
    Mirrors py text (after acts) w := by
  induction acts using List.reverseRecOn generalizing w with
  | nil =>
    cases hrun
    exact ⟨by simp [Workspace.empty, Hall.empty],
      by simp [Workspace.empty, Hall.empty, Workspace.Joined]⟩
  | append_singleton acts act ih =>
    rw [run_concat] at hrun
    obtain ⟨w₀, hw₀, hstep⟩ := bind_eq_ok_iff.1 hrun
    have hmirrors := ih hwithin.concat hw₀
    rw [after_concat]
    cases act with
    | arrive A =>
      cases hstep
      exact hmirrors.ingest A
    | look A =>
      obtain ⟨⟨w₁, n⟩, hlink, rfl⟩ : ∃ result, linkEntities py text A.id w₀ = .ok result ∧
          result.1 = w := by
        rw [step] at hstep
        cases hlink : linkEntities py text A.id w₀ with
        | error e =>
          rw [hlink] at hstep
          cases hstep
        | ok result =>
          rw [hlink] at hstep
          cases hstep
          exact ⟨result, rfl, rfl⟩
      exact hmirrors.link hwithin.concat.present (hwithin A (.inr (by simp))) hlink

/-- No two entities of different sources make `tags_match` hash what has no hash. -/
def Comparable (py : Py) (text : Text) (c : Corpus) : Prop :=
  ∀ A ∈ c.sources, ∀ B ∈ c.sources, A ≠ B → ∀ a ∈ A.entities, ∀ b ∈ B.entities,
    ¬ Raises py text a b

theorem run_returns (hwithin : Within c acts) (hclean : Comparable py text c) :
    ∃ w, run py text acts = .ok w := by
  induction acts using List.reverseRecOn with
  | nil => exact ⟨_, rfl⟩
  | append_singleton acts act ih =>
    obtain ⟨w, hw⟩ := ih hwithin.concat
    rw [run_concat, hw, ok_bind]
    cases act with
    | arrive A => exact ⟨_, rfl⟩
    | look A =>
      have hmirrors := mirrors_run hwithin.concat hw
      have hA : A ∈ c.sources := hwithin A (.inr (by simp))
      have hsafe : ∀ a b, w.Sees A.id a b → ¬ Raises py text a b := by
        intro a b hsees
        obtain ⟨-, ha, B, hB, hne, hb⟩ := (hmirrors.sees_iff hwithin.concat.present hA).1 hsees
        exact hclean A hA B (hwithin.concat.present B hB) hne.symm a ha b hb
      obtain ⟨result, hlink⟩ := (linkEntities_returns_iff hmirrors.noStubs).2 hsafe
      exact ⟨result.1, by rw [step, hlink]; rfl⟩

theorem Corpus.within (hvisits : Visits c.sources acts) : Within c acts := by
  rintro A (hA | hA)
  · exact hvisits.arrive_mem.1 hA
  · exact hvisits.look_mem.1 hA

theorem run_split {pre post : List (Act Source)} {act : Act Source}
    (h : run py text (pre ++ act :: post) = .ok w) :
    ∃ w₀ w₁, run py text pre = .ok w₀ ∧ step py text w₀ act = .ok w₁ := by
  rw [run, foldlM_append] at h
  obtain ⟨w₀, hpre, h⟩ := bind_eq_ok_iff.1 h
  obtain ⟨w₁, hact, -⟩ := Fold.foldlM_cons_ok.1 h
  exact ⟨w₀, w₁, hpre, hact⟩

theorem comparable_of_linksConfluently (h : LinksConfluently py text c) : Comparable py text c := by
  intro A hA B hB hne a ha b hb hraises
  obtain ⟨l, l', hl⟩ := append_of_mem hA
  have hvisits := visits_arrive_look c.sources
  obtain ⟨w, hrun, -⟩ := h _ hvisits
  have hsplit : c.sources.map Act.arrive ++ c.sources.map Act.look =
      (c.sources.map Act.arrive ++ l.map Act.look) ++ Act.look A :: l'.map Act.look := by
    conv_lhs => rw [hl]
    rw [hl]
    simp
  have hwithin : Within c (c.sources.map Act.arrive ++ l.map Act.look) := by
    intro S hS
    refine Corpus.within hvisits S ?_
    rw [hsplit]
    exact hS.imp (mem_append_left _) (mem_append_left _)
  rw [hsplit] at hrun
  obtain ⟨w₀, w₁, hpre, hstep⟩ := run_split hrun
  have hmirrors := mirrors_run hwithin hpre
  have hpresent {S : Source} (hS : S ∈ c.sources) :
      S ∈ (after (c.sources.map Act.arrive ++ l.map Act.look)).present :=
    mem_present.2 (mem_append_left _ (mem_map_of_mem hS))
  have hsees : w₀.Sees A.id a b :=
    (hmirrors.sees_iff hwithin.present hA).2 ⟨hpresent hA, ha, B, hpresent hB, hne.symm, hb⟩
  obtain ⟨result, hlink⟩ : ∃ result, linkEntities py text A.id w₀ = .ok result := by
    cases hlink : linkEntities py text A.id w₀ with
    | error e =>
      rw [step, hlink] at hstep
      cases hstep
    | ok result => exact ⟨result, rfl⟩
  exact (linkEntities_returns_iff hmirrors.noStubs).1 ⟨result, hlink⟩ a b hsees hraises

/-- The linker as the ingestion pipeline runs it: `_stage_link` goes on when a call raises. -/
def runBestEffort (py : Py) (text : Text) (acts : List (Act Source)) : Workspace :=
  acts.foldl (fun w act => match step py text w act with | .ok w' => w' | .error _ => w)
    Workspace.empty

/-- The ASCII part of the tables. -/
def Text.ascii : Text where
  lower s := String.ofList (s.toList.map Char.toLower)
  isWord c := c.isAlphanum || c == '_'
  floatValue _ := none

/-- A source with one entity. -/
def taggedSource (id entityId : Uuid) (name : String) (tags : List Json) : Source where
  id := id
  entities := [⟨entityId, name, "aws_live", id.str, none, none, [("tags", .arr tags)]⟩]
  own := by
    intro e he
    obtain rfl := mem_singleton.1 he
    rfl
  defined := by
    intro e he
    obtain rfl := mem_singleton.1 he
    show "aws_live" ≠ "stub"
    decide

/-- A queue, a bucket whose tags are a list of `Key`/`Value` pairs, and a queue of the name of the
bucket. -/
def bucketSource : Source :=
  taggedSource 1 101 "orders"
    [.obj [("Key", .str "env"), ("Value", .str "prod")]]

def queueSource : Source := taggedSource 2 102 "billing" [.str "prod"]

def twinSource : Source := taggedSource 3 103 "Orders" []

/-- Three sources of a workspace. -/
def taggedCorpus : Corpus where
  sources := [bucketSource, queueSource, twinSource]
  ids := by decide
  keys := by decide

end Omniscience.Linking
