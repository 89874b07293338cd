import Mathlib
import Omniscience.Stores.UpsertGraph

/-!
# Checkpoints of the graph store

A write carries an epoch and a version, and is stale when the checkpoint has reached it.  The
intended order of the pairs is lexicographic (`stamp`): a newer epoch restarts the versions.  The
test and the statement that advances the checkpoint compare the components one by one, which comes
to the same only while the pairs arrive `InOrder`.

The advance of a document has no forced branch, so that a forced replay to a lower version leaves
the checkpoint above it (`notStranded_iff`).
-/

namespace Omniscience.Neo4j

open List

/-! ### The largest of the records -/

/-- The number is there and not below the bound. -/
def Reaches (x : Option ℤ) (bound : ℤ) : Prop := ∃ m, x = some m ∧ bound ≤ m

theorem not_reaches_none (bound : ℤ) : ¬ Reaches none bound := by
  rintro ⟨m, ⟨⟩, -⟩

@[simp] theorem reaches_some {m bound : ℤ} : Reaches (some m) bound ↔ bound ≤ m := by
  simp [Reaches]

theorem reaches_maxOf {acc raw : Option ℤ} {bound : ℤ} :
    Reaches (maxOf acc raw) bound ↔ Reaches acc bound ∨ Reaches raw bound := by
  cases raw with
  | none => simp [maxOf, not_reaches_none]
  | some candidate =>
    cases acc with
    | none => simp [maxOf, not_reaches_none]
    | some best =>
      simp only [maxOf]
      split
      · simp only [reaches_some]
        omega
      · simp only [reaches_some]
        omega

theorem reaches_foldl {α : Type*} (prop : α → Option ℤ) {bound : ℤ} (l : List α) (acc : Option ℤ) :
    Reaches (l.foldl (fun acc a => maxOf acc (prop a)) acc) bound ↔
      Reaches acc bound ∨ ∃ a ∈ l, Reaches (prop a) bound := by
  induction l generalizing acc with
  | nil => simp
  | cons a l ih =>
    rw [foldl_cons, ih, reaches_maxOf]
    simp only [mem_cons, exists_eq_or_imp, or_assoc]

theorem reaches_foldRecords_version {records : List (Option ℤ × Option ℤ)} {bound : ℤ} :
    Reaches (foldRecords records).1 bound ↔ ∃ record ∈ records, Reaches record.1 bound := by
  rw [foldRecords, reaches_foldl]
  simp [not_reaches_none]

theorem reaches_foldRecords_epoch {records : List (Option ℤ × Option ℤ)} {bound : ℤ} :
    Reaches (foldRecords records).2 bound ↔ ∃ record ∈ records, Reaches record.2 bound := by
  rw [foldRecords, reaches_foldl]
  simp [not_reaches_none]

theorem foldRecords_singleton (record : Option ℤ × Option ℤ) : foldRecords [record] = record := by
  obtain ⟨version, epoch⟩ := record
  cases version with
  | none =>
    cases epoch with
    | none => rfl
    | some e => rfl
  | some v =>
    cases epoch with
    | none => rfl
    | some e => rfl

theorem isStale_iff {version : ℤ} {epoch appliedVersion appliedEpoch : Option ℤ} :
    isStale version epoch appliedVersion appliedEpoch false = true ↔
      exceeds epoch appliedEpoch = false ∧ Reaches appliedVersion version := by
  unfold isStale
  cases appliedVersion with
  | none => simp [not_reaches_none]
  | some applied => simp

/-! ### The order of the pairs -/

/-- A pair of epoch and version, in lexicographic order; no epoch is the oldest one. -/
abbrev Stamp := Lex (WithBot ℤ × ℤ)

/-- The pair of a write. -/
def stamp (epoch : Option ℤ) (version : ℤ) : Stamp := toLex (epoch, version)

/-- The epoch comes before the other one. -/
def Older : Option ℤ → Option ℤ → Prop
  | none, some _ => True
  | some a, some b => a < b
  | _, none => False

theorem stamp_lt_stamp {epoch epoch' : Option ℤ} {version version' : ℤ} :
    stamp epoch version < stamp epoch' version' ↔
      Older epoch epoch' ∨ epoch = epoch' ∧ version < version' := by
  have holder : (show WithBot ℤ from epoch) < epoch' ↔ Older epoch epoch' := by
    cases epoch with
    | none =>
      cases epoch' with
      | none => exact ⟨fun h => absurd h (lt_irrefl _), fun h => h.elim⟩
      | some b => exact ⟨fun _ => trivial, fun _ => WithBot.bot_lt_coe b⟩
    | some a =>
      cases epoch' with
      | none => exact ⟨fun h => absurd h (WithBot.not_lt_bot _), fun h => h.elim⟩
      | some b => exact WithBot.coe_lt_coe
  unfold stamp
  rw [Prod.Lex.toLex_lt_toLex]
  exact or_congr holder Iff.rfl

/-- The write respects the order of the pairs: with an older epoch it does not bring a higher
version, and the first epoch comes with one. -/
def InOrder (applied : Option ℤ × Option ℤ) (epoch : Option ℤ) (version : ℤ) : Prop :=
  ∀ old, applied.1 = some old →
    (Older epoch applied.2 → version ≤ old) ∧ (applied.2 = none → epoch ≠ none → old < version)

theorem inOrder_iff {old version : ℤ} {oldEpoch epoch : Option ℤ} :
    InOrder (some old, oldEpoch) epoch version ↔
      (isStale version epoch (some old) oldEpoch false = false ↔
        stamp oldEpoch old < stamp epoch version) := by
  rw [← Bool.not_eq_true, isStale_iff, stamp_lt_stamp]
  cases oldEpoch with
  | none =>
    cases epoch with
    | none => simp [InOrder, Older, exceeds]
    | some e => simp [InOrder, Older, exceeds]
  | some a =>
    cases epoch with
    | none => simp [InOrder, Older, exceeds]
    | some e =>
      simp only [InOrder, Older, exceeds, reaches_some, decide_eq_false_iff_not, Option.some.injEq,
        forall_eq', reduceCtorEq, false_implies, and_true]
      omega

theorem advance_of_lt {old version : ℤ} {oldEpoch epoch : Option ℤ}
    (hstale : isStale version epoch (some old) oldEpoch false = false)
    (h : stamp oldEpoch old < stamp epoch version) :
    advanceVersion version epoch (some old) oldEpoch = some version ∧
      advanceEpoch epoch oldEpoch = epoch := by
  rw [← Bool.not_eq_true, isStale_iff, reaches_some] at hstale
  rw [stamp_lt_stamp] at h
  unfold advanceVersion advanceEpoch
  cases oldEpoch with
  | none =>
    cases epoch with
    | none =>
      simp_all [exceeds]
    | some e =>
      simp_all [exceeds]
  | some a =>
    cases epoch with
    | none => simp_all [Older]
    | some e =>
      simp only [Older, Option.some.injEq, exceeds] at h hstale ⊢
      by_cases hlt : a < e
      · simp [hlt]
      · have heq : a = e := by omega
        have hversion : old < version := by omega
        simp [heq, hversion]

/-! ### The checkpoint of a document -/

/-- A document of a source. -/
structure DocumentKey where
  workspaceId : Uuid
  sourceId : Uuid
  documentId : Uuid

/-- The checkpoints of the document. -/
def DocumentKey.checkpoints (d : DocumentKey) (g : Graph) : List DocumentCheckpoint :=
  checkpointsOf g d.workspaceId d.sourceId.str d.documentId

/-- What the guard reads for the document. -/
def DocumentKey.read (d : DocumentKey) (g : Graph) : Option ℤ × Option ℤ :=
  readDocumentCheckpoint g d.workspaceId d.sourceId.str d.documentId

/-- The call is for the document. -/
structure GraphUpsert.IsFor (u : GraphUpsert) (py : Py) (d : DocumentKey) : Prop where
  workspace : u.workspace py = .ok d.workspaceId
  source : u.sourceId = d.sourceId
  document : u.documentId = d.documentId

section

variable {cfg : GraphConfig} {d : DocumentKey} {u : GraphUpsert} {now : ℕ} {g g' : Graph}
  {result : GraphWriteResult} {version : ℤ}

theorem read_of_nil (h : d.checkpoints g = []) : d.read g = (none, none) := by
  unfold DocumentKey.checkpoints at h
  rw [DocumentKey.read, readDocumentCheckpoint, h]
  rfl

theorem read_of_singleton {c : DocumentCheckpoint} (h : d.checkpoints g = [c]) :
    d.read g = (c.version, c.epoch) := by
  unfold DocumentKey.checkpoints at h
  rw [DocumentKey.read, readDocumentCheckpoint, h, map_singleton, foldRecords_singleton]

theorem checkpointsOf_advance_self (ws : Uuid) (src : String) (doc : Uuid) (v : ℤ) (e : Option ℤ) :
    checkpointsOf (advanceDocumentCheckpoint g ws src doc v e) ws src doc =
      if checkpointsOf g ws src doc = [] then [⟨ws, src, doc, some v, e⟩]
      else (checkpointsOf g ws src doc).map fun c => c.advance v e := by
  have hkeep : ∀ c : DocumentCheckpoint, (c.advance v e).isOf ws src doc = c.isOf ws src doc :=
    fun c => rfl
  unfold checkpointsOf advanceDocumentCheckpoint
  by_cases hany : g.documentCheckpoints.any (·.isOf ws src doc) = true
  · have hne : (g.documentCheckpoints.filter fun c => c.isOf ws src doc) ≠ [] := by
      obtain ⟨c, hc, hof⟩ := any_eq_true.1 hany
      exact ne_nil_of_mem (mem_filter.2 ⟨hc, hof⟩)
    rw [if_neg hne]
    simp only [hany, ↓reduceIte]
    -- mapping and filtering commute, since the advance keeps the key
    induction g.documentCheckpoints with
    | nil => rfl
    | cons c l ih =>
      rw [map_cons]
      cases hc : c.isOf ws src doc with
      | true => simp [hc, hkeep, ih]
      | false => simp [hc, ih]
  · rw [Bool.not_eq_true, any_eq_false] at hany
    have hnil : (g.documentCheckpoints.filter fun c => c.isOf ws src doc) = [] :=
      filter_eq_nil_iff.2 hany
    have hany' : (g.documentCheckpoints.any fun c => c.isOf ws src doc) = false :=
      any_eq_false.2 hany
    rw [if_pos hnil]
    simp only [hany', Bool.false_eq_true, ↓reduceIte, filter_append, hnil, nil_append]
    simp [DocumentCheckpoint.isOf]

theorem checkpointsOf_advance_ne (ws' : Uuid) (src' : String) (doc' : Uuid) {ws : Uuid}
    {src : String} {doc : Uuid} (h : ¬ (ws' = ws ∧ src' = src ∧ doc' = doc)) (v : ℤ)
    (e : Option ℤ) :
    checkpointsOf (advanceDocumentCheckpoint g ws' src' doc' v e) ws src doc =
      checkpointsOf g ws src doc := by
  have hother : ∀ c : DocumentCheckpoint, c.isOf ws' src' doc' = true →
      c.isOf ws src doc = false := by
    intro c hc
    simp only [DocumentCheckpoint.isOf, decide_eq_true_eq] at hc
    obtain ⟨rfl, rfl, rfl⟩ := hc
    simpa [DocumentCheckpoint.isOf] using h
  unfold checkpointsOf advanceDocumentCheckpoint
  dsimp only
  split
  · clear * - hother
    induction g.documentCheckpoints with
    | nil => rfl
    | cons c l ih =>
      rw [map_cons]
      cases hc : c.isOf ws' src' doc' with
      | true =>
        have hadvanced : (c.advance v e).isOf ws src doc = false := hother c hc
        simp [hadvanced, hother c hc, ih]
      | false => simp [filter_cons, ih]
  · have hnew : (⟨ws', src', doc', some v, e⟩ : DocumentCheckpoint).isOf ws src doc = false := by
      simpa [DocumentCheckpoint.isOf] using h
    simp [filter_append, hnew]

theorem GraphUpsert.IsFor.workspace_eq {w : Uuid} (hfor : u.IsFor cfg.py d)
    (h : u.workspace cfg.py = .ok w) : w = d.workspaceId :=
  Except.ok.inj (h.symm.trans hfor.workspace)

theorem GraphUpsert.IsFor.isStaleIn_eq (hfor : u.IsFor cfg.py d) (hv : u.version = some version)
    (g : Graph) : u.isStaleIn d.workspaceId g =
      isStale version u.epoch (d.read g).1 (d.read g).2 u.forcedReplay := by
  rw [GraphUpsert.isStaleIn, hv, hfor.source, hfor.document]
  rfl

theorem applied_iff_not_stale (h : upsertGraph cfg u now g = .ok (g', result))
    (hfor : u.IsFor cfg.py d) (hv : u.version = some version) :
    result.applied = true ↔
      isStale version u.epoch (d.read g).1 (d.read g).2 u.forcedReplay = false := by
  obtain ⟨w, hws, ⟨hstale, happlied, -⟩ | ⟨hstale, happlied, -⟩⟩ := upsertGraph_cases h
  · rw [hfor.workspace_eq hws, hfor.isStaleIn_eq hv] at hstale
    simp [happlied, hstale]
  · rw [hfor.workspace_eq hws, hfor.isStaleIn_eq hv] at hstale
    simp [happlied, hstale]

theorem checkpoints_of_applied (h : upsertGraph cfg u now g = .ok (g', result))
    (hfor : u.IsFor cfg.py d) (hv : u.version = some version) (happlied : result.applied = true) :
    d.checkpoints g' =
      if d.checkpoints g = [] then
        [⟨d.workspaceId, d.sourceId.str, d.documentId, some version, u.epoch⟩]
      else (d.checkpoints g).map fun c => c.advance version u.epoch := by
  obtain ⟨w, hws, ⟨-, hskipped, -⟩ | ⟨-, -, happlies⟩⟩ := upsertGraph_cases h
  · rw [happlied] at hskipped
    cases hskipped
  · have hdocs := happlies.documentCheckpoints_eq
    rw [GraphUpsert.advance, hv, hfor.workspace_eq hws, hfor.source, hfor.document] at hdocs
    unfold DocumentKey.checkpoints
    rw [← checkpointsOf_advance_self]
    unfold checkpointsOf
    rw [hdocs]
    rfl

theorem checkpoints_of_quiet (h : upsertGraph cfg u now g = .ok (g', result))
    (hquiet : u.IsFor cfg.py d → result.applied = true → u.version = none) :
    d.checkpoints g' = d.checkpoints g := by
  obtain ⟨w, hws, ⟨-, -, rfl⟩ | ⟨-, happlied, happlies⟩⟩ := upsertGraph_cases h
  · rfl
  · have hdocs := happlies.documentCheckpoints_eq
    unfold GraphUpsert.advance at hdocs
    unfold DocumentKey.checkpoints
    cases hv : u.version with
    | none =>
      rw [hv] at hdocs
      unfold checkpointsOf
      rw [hdocs]
    | some v =>
      rw [hv] at hdocs
      -- the document that was advanced is another one
      have hother : ¬ (w = d.workspaceId ∧ u.sourceId.str = d.sourceId.str ∧
          u.documentId = d.documentId) := by
        rintro ⟨hws', hsource, hdoc⟩
        have hfor : u.IsFor cfg.py d := ⟨hws' ▸ hws, Uuid.str_injective hsource, hdoc⟩
        rw [hquiet hfor happlied] at hv
        cases hv
      have hframe := checkpointsOf_advance_ne (g := g) w u.sourceId.str u.documentId
        hother v u.epoch
      unfold checkpointsOf at hframe ⊢
      rw [hdocs]
      exact hframe

/-! ### Documents are applied in lexicographic order -/

/-- The pair is that of a write of the document that was applied. -/
def Applied (py : Py) (d : DocumentKey) (calls : List Return) (p : Stamp) : Prop :=
  ∃ c ∈ calls, c.args.IsFor py d ∧ c.result.applied = true ∧
    ∃ version, c.args.version = some version ∧ p = stamp c.args.epoch version

/-- The calls for the document all have a version, and none is forced. -/
def Unforced (py : Py) (d : DocumentKey) (calls : List Return) : Prop :=
  ∀ c ∈ calls, c.args.IsFor py d → c.args.forcedReplay = false ∧ c.args.version.isSome

/-- The staleness of the document is a lexicographic maximum. -/
structure LexMax (cfg : GraphConfig) (g₀ : Graph) (d : DocumentKey) (calls : List Return) :
    Prop where
  /-- A call is applied if its pair is greater than all that were applied before. -/
  applied_iff : ∀ pre c, pre ++ [c] <+: calls → c.args.IsFor cfg.py d →
    ∀ version, c.args.version = some version →
      (c.result.applied = true ↔
        ∀ p, Applied cfg.py d pre p → p < stamp c.args.epoch version)
  /-- The checkpoint is always the pair of a write that was applied. -/
  stored : ∀ pre g, pre <+: calls → Run cfg g₀ pre g → ∀ c ∈ d.checkpoints g,
    ∃ version, c.version = some version ∧ Applied cfg.py d pre (stamp c.epoch version)

/-- The calls for the document came in order, each compared with the checkpoint that it found. -/
def AllInOrder (py : Py) (d : DocumentKey) (calls : List Return) : Prop :=
  ∀ c ∈ calls, c.args.IsFor py d → ∀ version, c.args.version = some version →
    InOrder (d.read c.before) c.args.epoch version

/-- The checkpoint is at the greatest pair that was applied. -/
def Tracks (py : Py) (d : DocumentKey) (calls : List Return) (g : Graph) : Prop :=
  (d.checkpoints g = [] ∧ ∀ p, ¬ Applied py d calls p) ∨
    ∃ c version, d.checkpoints g = [c] ∧ c.version = some version ∧
      IsGreatest {p | Applied py d calls p} (stamp c.epoch version)

variable {g₀ : Graph} {calls : List Return} {c : Return}

theorem applied_concat {p : Stamp} : Applied cfg.py d (calls ++ [c]) p ↔ Applied cfg.py d calls p ∨
      (c.args.IsFor cfg.py d ∧ c.result.applied = true ∧
        ∃ version, c.args.version = some version ∧ p = stamp c.args.epoch version) := by
  simp only [Applied, mem_append, mem_singleton, or_and_right, exists_or, exists_eq_left]

theorem Tracks.inOrder_iff (ht : Tracks cfg.py d calls c.before)
    (hreturned : upsertGraph cfg c.args c.now c.before = .ok (g', c.result))
    (hfor : c.args.IsFor cfg.py d) (hv : c.args.version = some version)
    (hforced : c.args.forcedReplay = false) :
    InOrder (d.read c.before) c.args.epoch version ↔
      (c.result.applied = true ↔
        ∀ p, Applied cfg.py d calls p → p < stamp c.args.epoch version) := by
  rw [applied_iff_not_stale hreturned hfor hv, hforced]
  obtain ⟨hnil, hnone⟩ | ⟨k, old, hk, hold, hgreatest⟩ := ht
  · rw [read_of_nil hnil]
    simp [InOrder, isStale, hnone, exceeds]
  · rw [read_of_singleton hk, hold, Neo4j.inOrder_iff]
    refine iff_congr Iff.rfl ⟨fun h p hp => ?_, fun h => h _ hgreatest.1⟩
    exact lt_of_le_of_lt (hgreatest.2 hp) h

theorem Tracks.step (ht : Tracks cfg.py d calls c.before)
    (hreturned : upsertGraph cfg c.args c.now c.before = .ok (g', c.result))
    (hunforced : Unforced cfg.py d [c]) (horder : AllInOrder cfg.py d [c]) :
    Tracks cfg.py d (calls ++ [c]) g' := by
  by_cases hwrite : c.args.IsFor cfg.py d ∧ c.result.applied = true
  · -- an applied write of the document is the new maximum
    obtain ⟨hfor, happlied⟩ := hwrite
    obtain ⟨hforced, hsome⟩ := hunforced c mem_cons_self hfor
    obtain ⟨version, hv⟩ := Option.isSome_iff_exists.1 hsome
    have hinOrder := horder c mem_cons_self hfor version hv
    have hmax := ((ht.inOrder_iff hreturned hfor hv hforced).1 hinOrder).1 happlied
    have hnew : IsGreatest {p | Applied cfg.py d (calls ++ [c]) p}
        (stamp c.args.epoch version) := by
      refine ⟨applied_concat.2 (.inr ⟨hfor, happlied, version, hv, rfl⟩), fun p hp => ?_⟩
      obtain hp | ⟨-, -, v, hv', rfl⟩ := applied_concat.1 hp
      · exact (hmax p hp).le
      · rw [hv] at hv'
        cases hv'
        exact le_rfl
    have hcheckpoints := checkpoints_of_applied hreturned hfor hv happlied
    obtain ⟨hnil, -⟩ | ⟨k, old, hk, hold, hgreatest⟩ := ht
    · rw [if_pos hnil] at hcheckpoints
      exact .inr ⟨_, version, hcheckpoints, rfl, hnew⟩
    · have hstale := (applied_iff_not_stale hreturned hfor hv).1 happlied
      rw [read_of_singleton hk, hold, hforced] at hstale
      obtain ⟨hversion, hepoch⟩ := advance_of_lt hstale (hmax _ hgreatest.1)
      rw [hk, if_neg (cons_ne_nil _ _), map_singleton] at hcheckpoints
      refine .inr ⟨_, version, hcheckpoints, ?_, ?_⟩
      · rw [DocumentCheckpoint.advance, hold]
        exact hversion
      · rw [DocumentCheckpoint.advance]
        dsimp only
        rw [hepoch]
        exact hnew
  · -- any other call leaves both
    have happlied : ∀ p, Applied cfg.py d (calls ++ [c]) p ↔ Applied cfg.py d calls p := fun p =>
      applied_concat.trans (or_iff_left fun h => hwrite ⟨h.1, h.2.1⟩)
    have hset : {p | Applied cfg.py d (calls ++ [c]) p} = {p | Applied cfg.py d calls p} :=
      Set.ext happlied
    have hcheckpoints : d.checkpoints g' = d.checkpoints c.before :=
      checkpoints_of_quiet hreturned fun hfor h => absurd ⟨hfor, h⟩ hwrite
    unfold Tracks
    rw [hcheckpoints, hset]
    simp only [happlied]
    exact ht

/-- **The checkpoint of a run in order** is at the greatest pair that was applied. -/
theorem Run.tracks (run : Run cfg g₀ calls g) (hnew : d.checkpoints g₀ = [])
    (hunforced : Unforced cfg.py d calls) (horder : AllInOrder cfg.py d calls) :
    Tracks cfg.py d calls g := by
  induction run with
  | start => exact .inl ⟨hnew, fun p ⟨c, hc, _⟩ => by cases hc⟩
  | call run returned ih =>
    have ht := ih (fun c hc => hunforced c (mem_append_left _ hc))
      fun c hc => horder c (mem_append_left _ hc)
    exact ht.step returned (fun c hc => hunforced c (mem_append_right _ hc))
      fun c hc => horder c (mem_append_right _ hc)

theorem LexMax.of_prefix {pre : List Return} (h : LexMax cfg g₀ d calls) (hpre : pre <+: calls) :
    LexMax cfg g₀ d pre :=
  ⟨fun pre' c hc => h.applied_iff pre' c (hc.trans hpre),
    fun pre' g hg => h.stored pre' g (hg.trans hpre)⟩

/-- **When documents are applied in lexicographic order**: the writes of the document that are
applied are those whose pair exceeds all applied before, and the checkpoint is the pair of one of
them, if and only if every call comes in order. -/
theorem lexMax_iff (run : Run cfg g₀ calls g) (hnew : d.checkpoints g₀ = [])
    (hunforced : Unforced cfg.py d calls) :
    LexMax cfg g₀ d calls ↔ AllInOrder cfg.py d calls := by
  constructor
  · -- the calls before are in order, so that the checkpoint was at the maximum
    intro hlex
    induction run with
    | start =>
      intro c hc
      cases hc
    | call run returned ih =>
      have hunforced' := fun c hc => hunforced c (mem_append_left _ hc)
      have horder := ih hunforced' (hlex.of_prefix (prefix_append _ _))
      have ht := run.tracks hnew hunforced' horder
      intro c hc hfor version hv
      obtain hc | hc := mem_append.1 hc
      · exact horder c hc hfor version hv
      · obtain rfl := mem_singleton.1 hc
        have hforced := (hunforced _ (mem_append_right _ hc) hfor).1
        exact (ht.inOrder_iff returned hfor hv hforced).2
          (hlex.applied_iff _ _ (prefix_refl _) hfor version hv)
  · intro horder
    have hsub : ∀ {pre : List Return}, pre <+: calls →
        Unforced cfg.py d pre ∧ AllInOrder cfg.py d pre := fun hpre =>
      ⟨fun c hc => hunforced c (hpre.subset hc), fun c hc => horder c (hpre.subset hc)⟩
    constructor
    · intro pre c hpre hfor version hv
      obtain ⟨g', hrun⟩ := run.of_prefix hpre
      obtain ⟨hbefore, hreturned⟩ := hrun.of_concat
      obtain ⟨hunforced', horder'⟩ := hsub ((prefix_append pre [c]).trans hpre)
      have ht := hbefore.tracks hnew hunforced' horder'
      have hc := hpre.subset (mem_append_right _ mem_cons_self)
      exact (ht.inOrder_iff hreturned hfor hv (hunforced c hc hfor).1).1
        (horder c hc hfor version hv)
    · intro pre g' hpre hrun k hk
      obtain ⟨hunforced', horder'⟩ := hsub hpre
      obtain ⟨hnil, -⟩ | ⟨k', version, hk', hversion, hgreatest⟩ :=
        hrun.tracks hnew hunforced' horder'
      · rw [hnil] at hk
        cases hk
      · rw [hk'] at hk
        obtain rfl := mem_singleton.1 hk
        exact ⟨version, hversion, hgreatest.1⟩

/-- A write of the document with nothing in it. -/
def DocumentKey.write (d : DocumentKey) (epoch : Option ℤ) (version : ℤ) (forced : Bool) :
    GraphUpsert where
  sourceId := d.sourceId
  documentId := d.documentId
  entities := []
  workspaceId := some d.workspaceId
  version := some version
  epoch := epoch
  forcedReplay := forced

theorem isFor_write (py : Py) (d : DocumentKey) (epoch : Option ℤ) (version : ℤ) (forced : Bool) :
    (d.write epoch version forced).IsFor py d :=
  ⟨rfl, rfl, rfl⟩

theorem exists_run_pair (cfg : GraphConfig) (d : DocumentKey) (first second : Option ℤ × ℤ) :
    ∃ c₁ c₂ g, Run cfg {} [c₁, c₂] g ∧ c₁.args = d.write first.1 first.2 false ∧
      c₂.args = d.write second.1 second.2 false ∧ d.read c₁.before = (none, none) ∧
      c₁.result.applied = true ∧ d.read c₂.before = (some first.2, first.1) := by
  have hnil : d.checkpoints {} = [] := rfl
  obtain ⟨g₁, r₁, h₁⟩ := upsertGraph_of_empty cfg (d.write first.1 first.2 false) 1 {} rfl rfl rfl
  obtain ⟨g₂, r₂, h₂⟩ :=
    upsertGraph_of_empty cfg (d.write second.1 second.2 false) 2 g₁ rfl rfl rfl
  have happlied : r₁.applied = true := by
    rw [applied_iff_not_stale h₁ (isFor_write _ d _ _ _) rfl, read_of_nil hnil]
    simp [isStale, exceeds, DocumentKey.write]
  have hcheckpoints := checkpoints_of_applied h₁ (isFor_write _ d _ _ _) rfl happlied
  rw [if_pos hnil] at hcheckpoints
  refine ⟨⟨{}, _, 1, r₁⟩, ⟨g₁, _, 2, r₂⟩, g₂, .call (.call .start h₁) h₂, rfl, rfl, rfl, happlied,
    ?_⟩
  exact read_of_singleton hcheckpoints

theorem unforced_pair {c₁ c₂ : Return} {first second : Option ℤ × ℤ}
    (h₁ : c₁.args = d.write first.1 first.2 false)
    (h₂ : c₂.args = d.write second.1 second.2 false) : Unforced cfg.py d [c₁, c₂] := by
  intro c hc _
  obtain rfl | hc := mem_cons.1 hc
  · rw [h₁]
    exact ⟨rfl, rfl⟩
  · obtain rfl := mem_singleton.1 hc
    rw [h₂]
    exact ⟨rfl, rfl⟩

/-! ### Forced replays -/

/-- No write of the document with a version is applied. -/
def Quiet (py : Py) (d : DocumentKey) (calls : List Return) : Prop :=
  ∀ c ∈ calls, c.args.IsFor py d → c.result.applied = true → c.args.version = none

/-- After the graph, every unforced write of the document in the epoch with a higher version is
applied, as long as no other write of the document was. -/
def Accepts (cfg : GraphConfig) (d : DocumentKey) (g : Graph) (epoch : Option ℤ) (version : ℤ) :
    Prop :=
  ∀ calls g₁, Run cfg g calls g₁ → Quiet cfg.py d calls →
    ∀ u now g₂ result, u.IsFor cfg.py d → u.forcedReplay = false → u.epoch = epoch →
      (∃ next, u.version = some next ∧ version < next) →
        upsertGraph cfg u now g₁ = .ok (g₂, result) → result.applied = true

/-- No checkpoint of the document is above the version, unless the epoch is newer. -/
def NotAbove (d : DocumentKey) (g : Graph) (epoch : Option ℤ) (version : ℤ) : Prop :=
  ∀ c ∈ d.checkpoints g, exceeds epoch c.epoch = true ∨ ∀ old, c.version = some old → old ≤ version

theorem Run.checkpoints_of_quiet (run : Run cfg g₀ calls g) (hquiet : Quiet cfg.py d calls) :
    d.checkpoints g = d.checkpoints g₀ := by
  induction run with
  | start => rfl
  | call run returned ih =>
    rw [Neo4j.checkpoints_of_quiet returned
      (hquiet ⟨_, _, _, _⟩ (mem_append_right _ mem_cons_self))]
    exact ih fun c hc => hquiet c (mem_append_left _ hc)

theorem exceeds_of_reaches {e : ℤ} {x : Option ℤ} (h : Reaches x e) :
    exceeds (some e) x = false := by
  obtain ⟨m, rfl, hle⟩ := h
  simpa [exceeds] using hle

theorem reaches_advanceEpoch (e : ℤ) (oldEpoch : Option ℤ) :
    Reaches (advanceEpoch (some e) oldEpoch) e := by
  unfold advanceEpoch
  cases oldEpoch with
  | none => simp
  | some old =>
    dsimp only
    split
    · simp
    · rename_i h
      simpa [exceeds] using h

theorem reaches_advanceVersion {next : ℤ} {epoch oldVersion oldEpoch : Option ℤ}
    (hlt : version < next) :
    Reaches (advanceVersion version epoch oldVersion oldEpoch) next ↔
      exceeds epoch oldEpoch = false ∧ Reaches oldVersion next := by
  unfold advanceVersion
  split
  · rename_i h
    simp [h, hlt]
  · rename_i h
    rw [Bool.not_eq_true] at h
    cases oldVersion with
    | none => simp [not_reaches_none, hlt]
    | some old =>
      dsimp only
      split
      · simp only [h, reaches_some, true_and]
        omega
      · simp [h]

theorem isStale_after_applied (h : upsertGraph cfg u now g = .ok (g', result))
    (hfor : u.IsFor cfg.py d) (hv : u.version = some version) (happlied : result.applied = true)
    {next : ℤ} (hlt : version < next) :
    isStale next u.epoch (d.read g').1 (d.read g').2 false = true ↔
      ∃ c ∈ d.checkpoints g, exceeds u.epoch c.epoch = false ∧ Reaches c.version next := by
  have hcheckpoints := checkpoints_of_applied h hfor hv happlied
  have hread : d.read g' = foldRecords ((d.checkpoints g').map fun c => (c.version, c.epoch)) := rfl
  rw [isStale_iff, hread, hcheckpoints]
  split
  · rename_i hnil
    rw [reaches_foldRecords_version, hnil]
    simp [hlt]
  · rename_i hne
    obtain ⟨k, hk⟩ := exists_mem_of_ne_nil _ hne
    have hepoch : exceeds u.epoch (foldRecords (((d.checkpoints g).map fun c =>
        c.advance version u.epoch).map fun c => (c.version, c.epoch))).2 = false := by
      cases u.epoch with
      | none => rfl
      | some e =>
        refine exceeds_of_reaches (reaches_foldRecords_epoch.2 ?_)
        exact ⟨_, mem_map_of_mem (mem_map_of_mem hk), reaches_advanceEpoch e k.epoch⟩
    rw [hepoch, reaches_foldRecords_version]
    simp [DocumentCheckpoint.advance, reaches_advanceVersion hlt]

/-- **When a replay does not strand a document**: after an applied write, every unforced write of
the document in its epoch with a higher version is applied, if and only if the write found no
checkpoint of the document above its own version, except one of an older epoch. -/
theorem notStranded_iff (h : upsertGraph cfg u now g = .ok (g', result))
    (hfor : u.IsFor cfg.py d) (hv : u.version = some version) (happlied : result.applied = true) :
    Accepts cfg d g' u.epoch version ↔ NotAbove d g u.epoch version := by
  constructor
  · intro haccepts c hc
    rw [or_iff_not_imp_left, Bool.not_eq_true]
    intro hepoch old hold
    by_contra hlt
    -- the write of that very version is skipped
    obtain ⟨g₂, result₂, h₂⟩ :=
      upsertGraph_of_empty cfg (d.write u.epoch old false) (now + 1) g' rfl rfl rfl
    have happlied₂ := haccepts [] g' .start (fun _ hc => by cases hc) _ _ _ _
      (isFor_write cfg.py d _ _ _) rfl rfl ⟨old, rfl, not_le.1 hlt⟩ h₂
    rw [applied_iff_not_stale h₂ (isFor_write cfg.py d _ _ _) rfl] at happlied₂
    have hstale := (isStale_after_applied h hfor hv happlied (not_le.1 hlt)).2
      ⟨c, hc, hepoch, by simp [hold]⟩
    exact absurd (happlied₂.symm.trans hstale) (by decide)
  · intro hbelow calls g₁ run hquiet u' now' g₂ result' hfor' hforced hepoch hnext h'
    obtain ⟨next, hnext, hlt⟩ := hnext
    have hread : d.read g₁ = d.read g' := by
      have hcheckpoints := run.checkpoints_of_quiet hquiet
      unfold DocumentKey.checkpoints at hcheckpoints
      rw [DocumentKey.read, DocumentKey.read, readDocumentCheckpoint, readDocumentCheckpoint,
        hcheckpoints]
    rw [applied_iff_not_stale h' hfor' hnext, hforced, hread, hepoch, ← Bool.not_eq_true,
      isStale_after_applied h hfor hv happlied hlt]
    rintro ⟨c, hc, hnot, hreaches⟩
    obtain hnewer | hle := hbelow c hc
    · rw [hnewer] at hnot
      cases hnot
    · obtain ⟨old, hold, hreached⟩ := hreaches
      have := hle old hold
      omega

end

/-- A document of the instances. -/
def DocumentKey.sample : DocumentKey := ⟨7, 3, 1⟩

/-- A newer epoch after an older one, with a lower version: both are applied. -/
theorem lexMax_newer_epoch :
    ∃ c₁ c₂ g, Run .sample {} [c₁, c₂] g ∧ LexMax .sample {} .sample [c₁, c₂] := by
  obtain ⟨c₁, c₂, g, run, h₁, h₂, hread₁, -, hread₂⟩ :=
    exists_run_pair .sample .sample (some 1, 5) (some 2, 1)
  refine ⟨c₁, c₂, g, run, (lexMax_iff run rfl (unforced_pair h₁ h₂)).2 ?_⟩
  intro c hc _ version hv
  obtain rfl | hc := mem_cons.1 hc
  · rw [hread₁]
    rintro _ ⟨⟩
  · obtain rfl := mem_singleton.1 hc
    rw [hread₂, h₂]
    rintro _ ⟨⟩
    simp [Older, DocumentKey.write]

/-- A write of an older epoch with a higher version is applied, though its pair is not greater. -/
theorem older_epoch_applied :
    ¬ ∀ (cfg : GraphConfig) (g₀ g : Graph) (d : DocumentKey) (calls : List Return),
      Run cfg g₀ calls g → d.checkpoints g₀ = [] → Unforced cfg.py d calls →
        LexMax cfg g₀ d calls := by
  intro h
  obtain ⟨c₁, c₂, g, run, h₁, h₂, hread₁, happlied, hread₂⟩ :=
    exists_run_pair .sample .sample (some 2, 3) (some 1, 5)
  have hlex := h _ _ _ _ _ run rfl (unforced_pair h₁ h₂)
  have hconcat : Run _ _ ([c₁] ++ [c₂]) g := run
  obtain ⟨-, hreturned⟩ := hconcat.of_concat
  have hfor : ∀ e v, (DocumentKey.sample.write e v false).IsFor Py.sample .sample := fun e v =>
    isFor_write _ _ e v false
  have hiff := hlex.applied_iff [c₁] c₂ (prefix_refl _) (h₂ ▸ hfor _ _) 5 (by rw [h₂]; rfl)
  rw [applied_iff_not_stale hreturned (h₂ ▸ hfor _ _) (by rw [h₂]; rfl), hread₂, h₂] at hiff
  have hlt := hiff.1 (by decide) (stamp (some 2) 3)
    ⟨c₁, mem_cons_self, h₁ ▸ hfor _ _, happlied, 3, by rw [h₁]; rfl, by rw [h₁]; rfl⟩
  rw [stamp_lt_stamp] at hlt
  simp [Older, DocumentKey.write] at hlt

/-- After the first write of a document, forced or not, every higher version is applied. -/
theorem notStranded_first : ∃ g' result,
    upsertGraph .sample (DocumentKey.sample.write (some 1) 5 true) 1 {} = .ok (g', result) ∧
      Accepts .sample .sample g' (some 1) 5 := by
  have hfor := isFor_write Py.sample .sample (some 1) 5 true
  obtain ⟨g', result, h⟩ :=
    upsertGraph_of_empty .sample (DocumentKey.sample.write (some 1) 5 true) 1 {} rfl rfl rfl
  have happlied := (applied_iff_not_stale h hfor rfl).2 rfl
  refine ⟨g', result, h, (notStranded_iff h hfor rfl happlied).2 ?_⟩
  rintro c ⟨⟩

/-- Version 5 is applied, then version 2 by a forced replay: version 3 is skipped. -/
theorem replay_strands :
    ¬ ∀ (cfg : GraphConfig) (d : DocumentKey) (calls : List Return) (u : GraphUpsert) (now : ℕ)
      (g g' : Graph) (result : GraphWriteResult) (version : ℤ), Run cfg {} calls g →
        upsertGraph cfg u now g = .ok (g', result) → u.IsFor cfg.py d → u.version = some version →
          result.applied = true → Accepts cfg d g' u.epoch version := by
  intro hclaim
  have hfor := isFor_write Py.sample .sample
  obtain ⟨g₁, r₁, h₁⟩ :=
    upsertGraph_of_empty .sample (DocumentKey.sample.write (some 1) 5 false) 1 {} rfl rfl rfl
  obtain ⟨g₂, r₂, h₂⟩ :=
    upsertGraph_of_empty .sample (DocumentKey.sample.write (some 1) 2 true) 2 g₁ rfl rfl rfl
  obtain ⟨g₃, r₃, h₃⟩ :=
    upsertGraph_of_empty .sample (DocumentKey.sample.write (some 1) 3 false) 3 g₂ rfl rfl rfl
  have happlied₁ := (applied_iff_not_stale h₁ (hfor _ _ _) rfl).2 rfl
  have happlied₂ := (applied_iff_not_stale h₂ (hfor _ _ _) rfl).2 rfl
  have haccepts := hclaim _ _ _ _ _ _ _ _ _ (.call .start h₁) h₂ (hfor _ _ _) rfl happlied₂
  have happlied₃ := haccepts [] g₂ .start (fun _ hc => by cases hc) _ _ _ _ (hfor _ _ _) rfl rfl
    ⟨3, rfl, by decide⟩ h₃
  -- the checkpoint of the first write is still there
  have hnil : DocumentKey.sample.checkpoints {} = [] := rfl
  have hcheckpoints := checkpoints_of_applied h₁ (hfor _ _ _) rfl happlied₁
  rw [if_pos hnil] at hcheckpoints
  have hlt : (2 : ℤ) < 3 := by decide
  have hstale := (isStale_after_applied h₂ (hfor _ _ _) rfl happlied₂ hlt).2
    ⟨_, hcheckpoints ▸ mem_cons_self, by decide, 5, rfl, by decide⟩
  rw [applied_iff_not_stale h₃ (hfor _ _ _) rfl] at happlied₃
  exact absurd (happlied₃.symm.trans hstale) (by decide)

/-! ### The heal of duplicate checkpoints -/

/-- The checkpoints of a source. -/
def sourceCheckpoints (g : Graph) (source : Uuid × String) : List StoreCheckpoint :=
  g.checkpoints.filter fun c => (c.workspaceId, c.sourceId) = source

/-- The rank in the `ORDER BY` of the heal: epoch first, then version. -/
def StoreCheckpoint.rank (c : StoreCheckpoint) : Lex (ℤ × ℤ) :=
  toLex (c.epoch.getD (-1), c.version.getD (-1))

/-- The lexicographic order of the ranks.  It is computable, whatever else is imported. -/
instance rankOrder : LinearOrder (Lex (ℤ × ℤ)) :=
  @Prod.Lex.instLinearOrder ℤ ℤ Int.instLinearOrder Int.instLinearOrder

/-- `head(nodes)`: the checkpoint with the highest rank, and of several the first one (the nodes
are listed in the order of their element ids). -/
def keeper (nodes : List StoreCheckpoint) : Option StoreCheckpoint :=
  @List.argmax _ _ rankOrder.toPreorder rankOrder.toDecidableLT StoreCheckpoint.rank nodes

/-- The sources that have more than one checkpoint. -/
def duplicated (g : Graph) : List (Uuid × String) :=
  (g.checkpoints.map fun c => (c.workspaceId, c.sourceId)).dedup.filter fun source =>
    1 < (sourceCheckpoints g source).length

/-- The statement of `_CHECKPOINT_HEAL_STATEMENTS` with the number of groups that it collapsed. -/
def healStatement (batchSize : ℕ) (g : Graph) : Graph × ℕ :=
  let groups := (duplicated g).take batchSize
  ({ g with
      checkpoints := (g.checkpoints.filter fun c => (c.workspaceId, c.sourceId) ∉ groups) ++
        groups.filterMap fun source => keeper (sourceCheckpoints g source) }, groups.length)

/-- The loop of `_heal_checkpoints`. -/
def healLoop (batchSize : ℕ) : ℕ → Graph → Graph
  | 0, g => g
  | maxBatches + 1, g =>
    let (g', collapsed) := healStatement batchSize g
    if collapsed = 0 then g' else healLoop batchSize maxBatches g'

/-- `_heal_checkpoints`. -/
def healCheckpoints (g : Graph) : Graph := healLoop 500 200 g

section

variable {g : Graph} {source : Uuid × String} {nodes : List StoreCheckpoint}
  {k : StoreCheckpoint} {epoch : Option ℤ} {version : ℤ}

theorem keeper_mem (h : keeper nodes = some k) : k ∈ nodes := argmax_mem h

theorem rank_le_keeper (h : keeper nodes = some k) {c : StoreCheckpoint} (hc : c ∈ nodes) :
    c.rank ≤ k.rank :=
  le_of_mem_argmax hc h

theorem keeper_toList (nodes : List StoreCheckpoint) :
    keeper (keeper nodes).toList = keeper nodes := by
  cases keeper nodes with
  | none => rfl
  | some k => exact argmax_singleton

theorem source_of_keeper (h : keeper (sourceCheckpoints g source) = some k) :
    (k.workspaceId, k.sourceId) = source := by
  simpa using (mem_filter.1 (keeper_mem h)).2

theorem filter_keepers (g : Graph) (source : Uuid × String) {groups : List (Uuid × String)}
    (hnodup : groups.Nodup) :
    (groups.filterMap fun source => keeper (sourceCheckpoints g source)).filter
        (fun c => decide ((c.workspaceId, c.sourceId) = source)) =
      if source ∈ groups then (keeper (sourceCheckpoints g source)).toList else [] := by
  induction groups with
  | nil => rfl
  | cons s groups ih =>
    rw [nodup_cons] at hnodup
    have ih := ih hnodup.2
    by_cases hs : s = source
    · subst hs
      rw [if_neg hnodup.1] at ih
      rw [if_pos mem_cons_self]
      cases hk : keeper (sourceCheckpoints g s) with
      | none => simpa [hk] using ih
      | some k => simpa [hk, source_of_keeper hk] using ih
    · have hmem : source ∈ s :: groups ↔ source ∈ groups := by
        rw [mem_cons, or_iff_right (Ne.symm hs)]
      simp only [hmem]
      rw [← ih]
      cases hk : keeper (sourceCheckpoints g s) with
      | none => simp [hk]
      | some k => simp [hk, source_of_keeper hk, hs]

theorem sourceCheckpoints_healStatement (batchSize : ℕ) (g : Graph) (source : Uuid × String) :
    sourceCheckpoints (healStatement batchSize g).1 source = sourceCheckpoints g source ∨
      sourceCheckpoints (healStatement batchSize g).1 source =
        (keeper (sourceCheckpoints g source)).toList := by
  have hnodup : ((duplicated g).take batchSize).Nodup :=
    ((nodup_dedup _).filter _).sublist (take_sublist _ _)
  have hkeepers := filter_keepers g source hnodup
  unfold healStatement
  generalize (duplicated g).take batchSize = groups at hkeepers
  rw [sourceCheckpoints]
  dsimp only
  rw [filter_append, filter_filter, hkeepers]
  by_cases hmem : source ∈ groups
  · refine .inr ?_
    rw [if_pos hmem, filter_eq_nil_iff.2, nil_append]
    intro c _ hc
    simp only [Bool.and_eq_true, decide_eq_true_eq] at hc
    exact hc.2 (hc.1 ▸ hmem)
  · refine .inl ?_
    rw [if_neg hmem, append_nil, sourceCheckpoints]
    refine filter_congr fun c _ => ?_
    by_cases hc : (c.workspaceId, c.sourceId) = source
    · simp [hc, hmem]
    · simp [hc]

theorem sourceCheckpoints_healLoop (batchSize maxBatches : ℕ) (g : Graph) (source : Uuid × String) :
    sourceCheckpoints (healLoop batchSize maxBatches g) source = sourceCheckpoints g source ∨
      sourceCheckpoints (healLoop batchSize maxBatches g) source =
        (keeper (sourceCheckpoints g source)).toList := by
  induction maxBatches generalizing g with
  | zero => exact .inl rfl
  | succ n ih =>
    have hstep := sourceCheckpoints_healStatement batchSize g source
    rw [healLoop]
    dsimp only
    split
    · exact hstep
    · have hrest := ih (healStatement batchSize g).1
      obtain hstep | hstep := hstep
      · rwa [hstep] at hrest
      · rw [hstep, keeper_toList, or_self] at hrest
        exact .inr hrest

theorem sourceCheckpoints_healCheckpoints
    (h : (sourceCheckpoints (healCheckpoints g) source).length ≤ 1) :
    sourceCheckpoints (healCheckpoints g) source =
      (keeper (sourceCheckpoints g source)).toList := by
  obtain hsame | hkept := sourceCheckpoints_healLoop 500 200 g source
  · rw [healCheckpoints] at h ⊢
    rw [hsame] at h ⊢
    match hnodes : sourceCheckpoints g source with
    | [] => rfl
    | [c] => rfl
    | c :: c' :: rest =>
      rw [hnodes] at h
      simp at h
  · exact hkept

/-- The epoch is newer than every one that a checkpoint has. -/
def NewerThanAll (nodes : List StoreCheckpoint) (epoch : Option ℤ) : Prop :=
  (∃ c ∈ nodes, c.epoch.isSome) ∧ ∃ e, epoch = some e ∧ ∀ c ∈ nodes, ¬ Reaches c.epoch e

/-- The keeper decides as all the checkpoints do: if the epoch of the write is not newer, a version
that any of them has reached was reached by the keeper, and if it is newer, the keeper has an
epoch as well or has not reached the version. -/
structure Represents (nodes : List StoreCheckpoint) (k : StoreCheckpoint) (epoch : Option ℤ)
    (version : ℤ) : Prop where
  not_newer : ¬ NewerThanAll nodes epoch → ∀ c ∈ nodes, Reaches c.version version →
    Reaches k.version version
  newer : NewerThanAll nodes epoch → k.epoch = none → ¬ Reaches k.version version

theorem exceeds_iff {x y : Option ℤ} :
    exceeds x y = true ↔ y.isSome ∧ ∃ e, x = some e ∧ ¬ Reaches y e := by
  cases x with
  | none => simp [exceeds]
  | some e =>
    cases y with
    | none => simp [exceeds]
    | some m => simp [exceeds]

theorem isSome_iff_reaches {x : Option ℤ} : x.isSome ↔ ∃ bound, Reaches x bound := by
  cases x with
  | none => simp [not_reaches_none]
  | some m => exact ⟨fun _ => ⟨m, by simp⟩, fun _ => rfl⟩

/-- What the guard reads of the checkpoints. -/
def readNodesOf (nodes : List StoreCheckpoint) : Option ℤ × Option ℤ :=
  foldRecords (nodes.map fun c => (c.version, c.epoch))

theorem exceeds_readNodesOf :
    exceeds epoch (readNodesOf nodes).2 = true ↔ NewerThanAll nodes epoch := by
  have hreaches : ∀ bound, Reaches (readNodesOf nodes).2 bound ↔
      ∃ c ∈ nodes, Reaches c.epoch bound := by
    intro bound
    rw [readNodesOf, reaches_foldRecords_epoch]
    simp
  rw [exceeds_iff, isSome_iff_reaches, NewerThanAll]
  refine and_congr ⟨?_, ?_⟩ (exists_congr fun e => and_congr_right fun _ => ?_)
  · rintro ⟨bound, hbound⟩
    obtain ⟨c, hc, hreached⟩ := (hreaches bound).1 hbound
    exact ⟨c, hc, isSome_iff_reaches.2 ⟨bound, hreached⟩⟩
  · rintro ⟨c, hc, hsome⟩
    obtain ⟨bound, hbound⟩ := isSome_iff_reaches.1 hsome
    exact ⟨bound, (hreaches bound).2 ⟨c, hc, hbound⟩⟩
  · rw [hreaches]
    simp

theorem NewerThanAll.keeper_iff (h : keeper nodes = some k) {a : ℤ} (ha : k.epoch = some a) :
    exceeds epoch k.epoch = true ↔ NewerThanAll nodes epoch := by
  rw [exceeds_iff, NewerThanAll]
  have hk := keeper_mem h
  refine and_congr ⟨fun hsome => ⟨k, hk, hsome⟩, fun _ => by simp [ha]⟩
    (exists_congr fun e => and_congr_right fun _ => ⟨fun hnot c hc hreached => hnot ?_, fun hnot =>
      hnot k hk⟩)
  -- the epoch of any other checkpoint is not above that of the keeper
  obtain ⟨m, hm, hle⟩ := hreached
  have hrank := rank_le_keeper h hc
  rw [StoreCheckpoint.rank, StoreCheckpoint.rank, Prod.Lex.toLex_le_toLex, hm, ha] at hrank
  rw [ha, reaches_some]
  simp only [Option.getD_some] at hrank
  omega

theorem reaches_readNodesOf :
    Reaches (readNodesOf nodes).1 version ↔ ∃ c ∈ nodes, Reaches c.version version := by
  rw [readNodesOf, reaches_foldRecords_version]
  simp

theorem isStale_keeper_iff (hk : keeper nodes = some k) :
    isStale version epoch (readNodesOf nodes).1 (readNodesOf nodes).2 false =
        isStale version epoch k.version k.epoch false ↔
      Represents nodes k epoch version := by
  rw [Bool.eq_iff_iff, isStale_iff, isStale_iff, ← Bool.not_eq_true, exceeds_readNodesOf,
    reaches_readNodesOf]
  by_cases hnewer : NewerThanAll nodes epoch
  · -- not stale for all; a keeper with an epoch knows that the write is newer
    cases hepoch : k.epoch with
    | none =>
      have hnot : exceeds epoch none = false := by simp [← Bool.not_eq_true, exceeds_iff]
      simp only [hnewer, not_true_eq_false, false_and, hnot, true_and, false_iff]
      exact ⟨fun h => ⟨fun hnot => absurd hnewer hnot, fun _ _ => h⟩,
        fun h => h.newer hnewer hepoch⟩
    | some a =>
      have hexceeds := (NewerThanAll.keeper_iff hk hepoch).2 hnewer
      rw [hepoch] at hexceeds
      simp only [hnewer, not_true_eq_false, false_and, hexceeds, Bool.true_eq_false, true_iff]
      refine ⟨fun hnot => absurd hnewer hnot, fun _ hnone => ?_⟩
      rw [hepoch] at hnone
      cases hnone
  · have hexceeds : exceeds epoch k.epoch = false := by
      rw [← Bool.not_eq_true]
      intro hexceeds
      obtain ⟨m, hm⟩ := Option.isSome_iff_exists.1 (exceeds_iff.1 hexceeds).1
      exact hnewer ((NewerThanAll.keeper_iff hk hm).1 hexceeds)
    simp only [hnewer, not_false_eq_true, true_and, hexceeds]
    constructor
    · intro h
      exact ⟨fun _ c hc hreached => h.1 ⟨c, hc, hreached⟩, fun hnew => absurd hnew hnewer⟩
    · intro h
      exact ⟨fun ⟨c, hc, hreached⟩ => h.not_newer hnewer c hc hreached,
        fun hreached => ⟨k, keeper_mem hk, hreached⟩⟩

/-- **When duplicates do not matter**: the staleness read from all the checkpoints of a source is
the one read from the checkpoint that the heal keeps, if and only if the keeper represents them. -/
theorem isStale_healed_iff (g : Graph) (workspaceId : Uuid) (sourceId : String)
    (epoch : Option ℤ) (version : ℤ)
    (hhealed : (sourceCheckpoints (healCheckpoints g) (workspaceId, sourceId)).length ≤ 1) :
    isStale version epoch (readCheckpoint g workspaceId sourceId).1
        (readCheckpoint g workspaceId sourceId).2 false =
      isStale version epoch (readCheckpoint (healCheckpoints g) workspaceId sourceId).1
        (readCheckpoint (healCheckpoints g) workspaceId sourceId).2 false ↔
    ∀ k, keeper (sourceCheckpoints g (workspaceId, sourceId)) = some k →
      Represents (sourceCheckpoints g (workspaceId, sourceId)) k epoch version := by
  have hread : ∀ g : Graph, readCheckpoint g workspaceId sourceId =
      readNodesOf (sourceCheckpoints g (workspaceId, sourceId)) := by
    intro g
    rw [readCheckpoint, sourceCheckpoints, readNodesOf]
    simp only [Prod.mk.injEq]
  rw [hread, hread, sourceCheckpoints_healCheckpoints hhealed]
  cases hk : keeper (sourceCheckpoints g (workspaceId, sourceId)) with
  | none =>
    rw [argmax_eq_none.1 hk]
    simp
  | some k =>
    have hkept : readNodesOf (some k).toList = (k.version, k.epoch) := foldRecords_singleton _
    rw [hkept, isStale_keeper_iff hk]
    simp

end

/-- Two checkpoints of one source, from epochs 5 and 3. -/
def twoCheckpoints : Graph where
  checkpoints := [⟨7, "s", some 2, some 5⟩, ⟨7, "s", some 99, some 3⟩]

theorem keeper_twoCheckpoints :
    keeper (sourceCheckpoints twoCheckpoints (7, "s")) = some ⟨7, "s", some 2, some 5⟩ :=
  rfl

theorem healed_twoCheckpoints :
    sourceCheckpoints (healCheckpoints twoCheckpoints) (7, "s") = [⟨7, "s", some 2, some 5⟩] :=
  rfl

/-- A write of epoch 6 is fresh before and after the heal. -/
theorem isStale_twoCheckpoints :
    (sourceCheckpoints (healCheckpoints twoCheckpoints) (7, "s")).length ≤ 1 ∧
    isStale 50 (some 6) (readCheckpoint twoCheckpoints 7 "s").1
        (readCheckpoint twoCheckpoints 7 "s").2 false =
      isStale 50 (some 6) (readCheckpoint (healCheckpoints twoCheckpoints) 7 "s").1
        (readCheckpoint (healCheckpoints twoCheckpoints) 7 "s").2 false := by
  have hhealed : (sourceCheckpoints (healCheckpoints twoCheckpoints) (7, "s")).length ≤ 1 := by
    rw [healed_twoCheckpoints]
    decide
  refine ⟨hhealed, (isStale_healed_iff _ _ _ _ _ hhealed).2 fun k hk => ?_⟩
  rw [keeper_twoCheckpoints] at hk
  cases hk
  refine ⟨fun hnot => absurd ?_ hnot, fun _ hnone => by cases hnone⟩
  refine ⟨⟨_, mem_cons_self, rfl⟩, 6, rfl, ?_⟩
  rintro c hc ⟨m, hm, hle⟩
  have hc : c ∈ [⟨7, "s", some 2, some 5⟩, ⟨7, "s", some 99, some 3⟩] := hc
  simp only [mem_cons, not_mem_nil, or_false] at hc
  obtain rfl | rfl := hc
  · cases hm
    omega
  · cases hm
    omega

/-- A write of epoch 5 with version 50 is stale before the heal, because of version 99 of epoch 3,
and is not after it. -/
theorem heal_changes_decision :
    ¬ ∀ (g : Graph) (workspaceId : Uuid) (sourceId : String) (epoch : Option ℤ) (version : ℤ),
      (sourceCheckpoints (healCheckpoints g) (workspaceId, sourceId)).length ≤ 1 →
      isStale version epoch (readCheckpoint g workspaceId sourceId).1
          (readCheckpoint g workspaceId sourceId).2 false =
        isStale version epoch (readCheckpoint (healCheckpoints g) workspaceId sourceId).1
          (readCheckpoint (healCheckpoints g) workspaceId sourceId).2 false := by
  intro h
  have hsame := h twoCheckpoints 7 "s" (some 5) 50 (by rw [healed_twoCheckpoints]; decide)
  have hbefore : readCheckpoint twoCheckpoints 7 "s" = (some 99, some 5) := rfl
  have hafter : readCheckpoint (healCheckpoints twoCheckpoints) 7 "s" = (some 2, some 5) := rfl
  rw [hbefore, hafter] at hsame
  exact absurd hsame (by decide)

end Omniscience.Neo4j
