import Omniscience.Lib.Keyset
import Omniscience.Lib.Like
import Omniscience.Operator.Entity
import Omniscience.Stores.Ledger

/-!
# Listing what the operator has emitted

`GET /api/v1/operator/entities` (`rest/operator.py`) lists the external ids of the documents of a
kind in a cluster, page by page in the order of the primary key.  `ListExternalIDs`
(`operator/internal/reconciler/client.go`) follows the cursors and refuses to follow more than a
thousand pages.

The ids are found with a `LIKE` pattern in which the kind stands as the caller wrote it, and the
underscore of `k8s_resource` is a wildcard too.

* `exists_pages` : the pages of a request list every document that matches the pattern once.
* `listing_spec` : what the client returns, for a kind without wildcards and documents under the
  prefix of the operator.
-/

namespace Omniscience.Operator

open Ledger Uuid List

/-! ### The endpoint -/

/-- The tables with their primary keys. -/
structure Database extends Tables where
  sources_nodup : (sources.map Source.id).Nodup
  documents_nodup : (documents.items.map fun row => row.2.id).Nodup

/-- A row of `documents` with its source and external id. -/
abbrev Row := Key × Document

/-- The join with `sources` under `Source.type == k8s_operator` and `Source.tenant_id ==
workspace_id`. -/
def Database.isOperatorRow (db : Database) (workspaceId : Uuid) (row : Row) : Bool :=
  db.sources.any fun source =>
    source.id = row.1.1 ∧ source.type = "k8s_operator" ∧ source.tenantId = some workspaceId

/-- The documents of the operator in a workspace that are not tombstoned. -/
def Database.operatorRows (db : Database) (workspaceId : Uuid) : List Row :=
  db.documents.items.filter fun row =>
    db.isOperatorRow workspaceId row && row.2.tombstonedAt.isNone

/-- `_build_external_id_prefix` without the percent sign at its end. -/
def idPrefix (clusterId : Uuid) (kind : String) : String :=
  "k8s_resource/" ++ clusterId.str ++ "/" ++ kind ++ "/"

theorem idPrefix_eq (clusterId : Uuid) (kind : String) :
    idPrefix clusterId kind = "k8s_resource/" ++ clusterId.str ++ "/" ++ kind ++ "/" :=
  rfl

/-- `_build_external_id_prefix`. -/
def buildExternalIdPrefix (clusterId : Uuid) (kind : String) : String :=
  idPrefix clusterId kind ++ "%"

/-- The primary key in the order of the database. -/
def Row.key (row : Row) : Fin (2 ^ 128) := row.2.id.toFin

/-- The rows of the query in their order. -/
def Database.matching (db : Database) (workspaceId clusterId : Uuid) (kind : String) : List Row :=
  ((db.operatorRows workspaceId).filter fun row =>
    Sql.like (buildExternalIdPrefix clusterId kind).toList row.1.2.toList).insertionSort
      fun a b => Row.key a ≤ Row.key b

/-- An error response. -/
structure HttpError where
  status : ℕ
  code : String
  deriving DecidableEq

/-- `OperatorEntitiesPage`. -/
structure EntitiesPage where
  externalIds : List String
  nextCursor : String

/-- The text of a cursor. -/
def cursorText : Option (Fin (2 ^ 128)) → String
  | none => ""
  | some c => Uuid.str (BitVec.ofFin c)

/-- `_query_external_ids`. -/
def queryExternalIds (db : Database) (workspaceId clusterId : Uuid) (kind cursor : String)
    (limit : ℕ) : Except HttpError EntitiesPage :=
  let answer (cursor : Option (Fin (2 ^ 128))) : EntitiesPage :=
    let page := Keyset.page Row.key (db.matching workspaceId clusterId kind) limit cursor
    ⟨page.1.map fun row => row.1.2, cursorText page.2⟩
  if cursor = "" then .ok (answer none)
  else
    match parse cursor with
    | none => .error ⟨400, "invalid_cursor"⟩
    | some u => .ok (answer (some u.toFin))

/-- The query parameters of a request. -/
structure EntitiesRequest where
  workspaceId : Uuid
  clusterId : Uuid
  kind : String
  cursor : String := ""
  limit : ℕ := 500

/-- The bounds of the query parameters. -/
def EntitiesRequest.isValid (r : EntitiesRequest) : Bool :=
  1 ≤ r.kind.length ∧ r.kind.length ≤ 64 ∧ r.cursor.length ≤ 64 ∧ 1 ≤ r.limit ∧ r.limit ≤ 1000

/-- `list_operator_entities` for a token with the scope `operator:read`; `token` is its
workspace. -/
def listOperatorEntities (db : Database) (token : Option Uuid) (r : EntitiesRequest) :
    Except HttpError EntitiesPage :=
  if r.isValid = false then .error ⟨422, "unprocessable"⟩
  else if token ≠ some r.workspaceId then .error ⟨403, "forbidden"⟩
  else queryExternalIds db r.workspaceId r.clusterId r.kind r.cursor r.limit

/-! ### The client -/

/-- `HTTPEntitiesClient`: the server that it asks and its page limit. -/
structure EntitiesClient where
  serve : EntitiesRequest → Except HttpError EntitiesPage
  pageLimit : ℕ := 500

/-- The client of an operator whose token belongs to its workspace. -/
def clientOf (db : Database) (workspaceId : Uuid) (pageLimit : ℕ) : EntitiesClient :=
  ⟨listOperatorEntities db (some workspaceId), pageLimit⟩

/-- `fetchPage`. -/
def EntitiesClient.fetchPage (c : EntitiesClient) (workspaceId clusterId : Uuid)
    (kind cursor : String) : Except Exc EntitiesPage :=
  match c.serve ⟨workspaceId, clusterId, kind, cursor, c.pageLimit⟩ with
  | .ok page => .ok page
  | .error e => .error ⟨.external,
      s!"reconciler: GET /api/v1/operator/entities returned {e.status}: " ++ e.code⟩

/-- The loop of `ListExternalIDs` with the number of pages that it may still fetch. -/
def listLoop (fetch : String → Except Exc EntitiesPage) (kind : String) :
    ℕ → List String → String → Except Exc (List String)
  | 0, _, _ => .error ⟨.external, "reconciler: pagination exceeded 1000 pages for kind=" ++ kind⟩
  | pages + 1, out, cursor => do
    let page ← fetch cursor
    let out := out ++ page.externalIds
    if page.nextCursor = "" then .ok out else listLoop fetch kind pages out page.nextCursor

/-- `ListExternalIDs`. -/
def EntitiesClient.listExternalIDs (c : EntitiesClient) (workspaceId clusterId : Uuid)
    (kind : String) : Except Exc (List String) :=
  if kind = "" then .error ⟨.valueError, "reconciler: kind is required"⟩
  else listLoop (c.fetchPage workspaceId clusterId kind) kind 1000 [] ""

/-! ### Following the cursor -/

/-- The pages from a cursor until there is none. -/
inductive Pages (fetch : String → Except Exc EntitiesPage) : String → List EntitiesPage → Prop
  | last {cursor : String} {page : EntitiesPage} (h : fetch cursor = .ok page)
    (hend : page.nextCursor = "") : Pages fetch cursor [page]
  | next {cursor : String} {page : EntitiesPage} {rest : List EntitiesPage}
    (h : fetch cursor = .ok page) (hmore : page.nextCursor ≠ "")
    (hrest : Pages fetch page.nextCursor rest) : Pages fetch cursor (page :: rest)

theorem listLoop_of_pages {fetch : String → Except Exc EntitiesPage} {kind cursor : String}
    {pages : List EntitiesPage} (h : Pages fetch cursor pages) (n : ℕ) (out : List String) :
    listLoop fetch kind n out cursor =
      if pages.length ≤ n then .ok (out ++ pages.flatMap EntitiesPage.externalIds)
      else .error ⟨.external,
        "reconciler: pagination exceeded 1000 pages for kind=" ++ kind⟩ := by
  induction h generalizing n out with
  | last h hend =>
    cases n with
    | zero => rfl
    | succ n => simp [listLoop, h, hend]
  | next h hmore _ ih =>
    cases n with
    | zero => rfl
    | succ n =>
      rw [listLoop, h, ok_bind, if_neg hmore, ih]
      simp [append_assoc]

theorem length_str (u : Uuid) : u.str.length = 36 := by
  simp only [Uuid.str, String.length_ofList, length_append, length_cons,
    length_take, length_drop, length_hexDigits]
  rfl

theorem cursorText_some_ne (c : Fin (2 ^ 128)) : cursorText (some c) ≠ "" := by
  intro h
  have hlen := congrArg String.length h
  rw [cursorText, length_str] at hlen
  exact absurd hlen (by decide)

theorem length_cursorText_le (cursor : Option (Fin (2 ^ 128))) :
    (cursorText cursor).length ≤ 64 := by
  cases cursor with
  | none => decide
  | some c =>
    rw [cursorText, length_str]
    decide

section

variable (db : Database) (workspaceId clusterId : Uuid) (kind : String) (limit : ℕ)

theorem fetchPage_cursorText (hkind : 1 ≤ kind.length ∧ kind.length ≤ 64)
    (hlimit : 1 ≤ limit ∧ limit ≤ 1000) (cursor : Option (Fin (2 ^ 128))) :
    (clientOf db workspaceId limit).fetchPage workspaceId clusterId kind (cursorText cursor) =
      let page := Keyset.page Row.key (db.matching workspaceId clusterId kind) limit cursor
      .ok ⟨page.1.map fun row => row.1.2, cursorText page.2⟩ := by
  have hvalid : EntitiesRequest.isValid ⟨workspaceId, clusterId, kind, cursorText cursor, limit⟩ =
      true := by
    simp only [EntitiesRequest.isValid, decide_eq_true_eq]
    exact ⟨hkind.1, hkind.2, length_cursorText_le cursor, hlimit.1, hlimit.2⟩
  have hserve : listOperatorEntities db (some workspaceId)
      ⟨workspaceId, clusterId, kind, cursorText cursor, limit⟩ =
        queryExternalIds db workspaceId clusterId kind (cursorText cursor) limit := by
    simp [listOperatorEntities, hvalid]
  simp only [EntitiesClient.fetchPage, clientOf, hserve]
  cases cursor with
  | none => rfl
  | some c =>
    have hparse : parse (cursorText (some c)) = some (BitVec.ofFin c) := parse_str _
    simp only [queryExternalIds, if_neg (cursorText_some_ne c), hparse]

variable {db workspaceId clusterId kind limit} in
theorem exists_of_mem_query {cursor : String} {page : EntitiesPage}
    (h : queryExternalIds db workspaceId clusterId kind cursor limit = .ok page) {x : String}
    (hx : x ∈ page.externalIds) :
    ∃ row ∈ db.matching workspaceId clusterId kind, row.1.2 = x := by
  have hpage : ∀ c, x ∈ (Keyset.page Row.key (db.matching workspaceId clusterId kind) limit c).1.map
      (fun row => row.1.2) → ∃ row ∈ db.matching workspaceId clusterId kind, row.1.2 = x := by
    intro c hx
    obtain ⟨row, hrow, rfl⟩ := mem_map.1 hx
    exact ⟨row, Keyset.mem_of_mem_page hrow, rfl⟩
  unfold queryExternalIds at h
  split at h
  · cases h
    exact hpage _ hx
  · split at h
    · cases h
    · cases h
      exact hpage _ hx

variable {db workspaceId clusterId kind limit} in
theorem exists_of_mem_fetchPage {cursor : String} {page : EntitiesPage}
    (h : (clientOf db workspaceId limit).fetchPage workspaceId clusterId kind cursor = .ok page)
    {x : String} (hx : x ∈ page.externalIds) :
    ∃ row ∈ db.matching workspaceId clusterId kind, row.1.2 = x := by
  unfold EntitiesClient.fetchPage at h
  split at h
  · rename_i page' hserve
    cases h
    unfold clientOf listOperatorEntities at hserve
    simp only at hserve
    split_ifs at hserve
    exact exists_of_mem_query hserve hx
  · cases h

theorem pages_of_walk (hkind : 1 ≤ kind.length ∧ kind.length ≤ 64)
    (hlimit : 1 ≤ limit ∧ limit ≤ 1000) {cursor : Option (Fin (2 ^ 128))} {walk : List (List Row)}
    (h : Keyset.Walk Row.key (db.matching workspaceId clusterId kind) limit cursor walk) :
    ∃ pages, Pages ((clientOf db workspaceId limit).fetchPage workspaceId clusterId kind)
        (cursorText cursor) pages ∧ pages.length = walk.length ∧
      pages.flatMap EntitiesPage.externalIds = walk.flatten.map fun row => row.1.2 := by
  induction h with
  | @last cursor hend =>
    have hfetch := fetchPage_cursorText db workspaceId clusterId kind limit hkind hlimit cursor
    simp only [hend] at hfetch
    exact ⟨_, .last hfetch rfl, rfl, by simp⟩
  | @next cursor c rest hnext _ ih =>
    obtain ⟨pages, hpages, hlen, hflat⟩ := ih
    have hfetch := fetchPage_cursorText db workspaceId clusterId kind limit hkind hlimit cursor
    simp only [hnext] at hfetch
    refine ⟨_, .next hfetch (cursorText_some_ne c) hpages, by simp [hlen], ?_⟩
    simp [hflat]

theorem matching_sorted :
    (db.matching workspaceId clusterId kind).Pairwise fun a b => Row.key a < Row.key b := by
  set r : Row → Row → Prop := fun a b => Row.key a ≤ Row.key b with hr
  have : Std.Total r := ⟨fun a b => le_total (Row.key a) (Row.key b)⟩
  have : IsTrans Row r := ⟨fun a b c => le_trans (a := Row.key a)⟩
  have hperm : (db.matching workspaceId clusterId kind).Perm _ := perm_insertionSort r _
  have hnodup : ((db.matching workspaceId clusterId kind).map Row.key).Nodup := by
    refine (hperm.map Row.key).nodup_iff.2 ?_
    have hsub := ((filter_sublist (p := fun row : Row =>
      Sql.like (buildExternalIdPrefix clusterId kind).toList row.1.2.toList)).trans
        (filter_sublist (l := db.documents.items) (p := fun row =>
          db.isOperatorRow workspaceId row && row.2.tombstonedAt.isNone))).map Row.key
    refine hsub.nodup ?_
    have hkeys : db.documents.items.map Row.key =
        (db.documents.items.map fun row => row.2.id).map BitVec.toFin := by
      rw [map_map]
      rfl
    rw [hkeys]
    exact db.documents_nodup.map fun a b h => BitVec.eq_of_toFin_eq h
  have hle := pairwise_insertionSort r ((db.operatorRows workspaceId).filter fun row =>
    Sql.like (buildExternalIdPrefix clusterId kind).toList row.1.2.toList)
  rw [List.Nodup, pairwise_map] at hnodup
  exact (hle.and hnodup).imp fun h => lt_of_le_of_ne h.1 h.2

/-- **The pages of a request**: the cursors lead from the first page through every document that
matches the pattern once, and then there is none. -/
theorem exists_pages (hkind : 1 ≤ kind.length ∧ kind.length ≤ 64)
    (hlimit : 1 ≤ limit ∧ limit ≤ 1000) :
    ∃ pages, Pages ((clientOf db workspaceId limit).fetchPage workspaceId clusterId kind) ""
        pages ∧
      pages.flatMap EntitiesPage.externalIds =
        (db.matching workspaceId clusterId kind).map (fun row => row.1.2) ∧
      pages.length = ((db.matching workspaceId clusterId kind).length - 1) / limit + 1 := by
  obtain ⟨walk, hwalk, hflat, hlen⟩ :=
    Keyset.exists_walk hlimit.1 (matching_sorted db workspaceId clusterId kind)
  obtain ⟨pages, hpages, hcount, hids⟩ :=
    pages_of_walk db workspaceId clusterId kind limit hkind hlimit hwalk
  exact ⟨pages, hpages, hflat ▸ hids, hcount.trans hlen⟩

end

/-! ### The pattern and the prefix -/

/-- The text starts with a prefix. -/
def StartsWith (text pre : String) : Prop := pre.toList <+: text.toList

instance (text pre : String) : Decidable (StartsWith text pre) :=
  inferInstanceAs (Decidable (_ <+: _))

theorem isPlain_of_mem_str {u : Uuid} {c : Char} (h : c ∈ u.str.toList) : Sql.IsPlain c := by
  have hdigits : ∀ d < 16, Sql.IsPlain (Nat.digitChar d) := by decide
  rcases mem_toList_str h with rfl | ⟨d, hd, rfl⟩
  · decide
  · exact hdigits d hd

theorem isPlain_of_mem_tail {clusterId : Uuid} {kind : String}
    (hkind : ∀ c ∈ kind.toList, Sql.IsPlain c) {c : Char}
    (h : c ∈ (clusterId.str ++ "/" ++ kind ++ "/").toList) : Sql.IsPlain c := by
  simp only [String.toList_append, mem_append] at h
  rcases h with ((h | h) | h) | h
  · exact isPlain_of_mem_str h
  · obtain rfl : c = '/' := by simpa using h
    decide
  · exact hkind c h
  · obtain rfl : c = '/' := by simpa using h
    decide

theorem like_iff_startsWith {clusterId : Uuid} {kind : String}
    (hkind : ∀ c ∈ kind.toList, Sql.IsPlain c) {externalId : String}
    (hid : StartsWith externalId "k8s_resource/") :
    Sql.like (buildExternalIdPrefix clusterId kind).toList externalId.toList = true ↔
      StartsWith externalId (idPrefix clusterId kind) := by
  obtain ⟨tail, htail⟩ : ∃ tail, tail = (clusterId.str ++ "/" ++ kind ++ "/").toList := ⟨_, rfl⟩
  have hplain : ∀ c ∈ tail, Sql.IsPlain c := fun c hc => isPlain_of_mem_tail hkind (htail ▸ hc)
  have hpre : (idPrefix clusterId kind).toList = "k8s_resource/".toList ++ tail := by
    simp only [idPrefix_eq, htail, String.toList_append, append_assoc]
  have hpattern : (buildExternalIdPrefix clusterId kind).toList =
      ("k8s_resource/".toList ++ tail) ++ ['%'] := by
    rw [buildExternalIdPrefix, String.toList_append, hpre]
    rfl
  have hhead : ∀ c ∈ "k8s_resource/".toList, Sql.IsFixed c := Sql.isFixed_of_all (by decide)
  have hfixed : ∀ c ∈ "k8s_resource/".toList ++ tail, Sql.IsFixed c := by
    intro c hc
    rcases mem_append.1 hc with hc | hc
    · exact hhead c hc
    · exact (hplain c hc).1
  rw [hpattern, Sql.like_prefix_iff hfixed, StartsWith, hpre]
  constructor
  · rintro ⟨t, u, htext, hmatch⟩
    obtain ⟨rest, hrest⟩ := hid
    -- what the first segment of the pattern meets is the first segment of the id
    have hlen : t.length = ("k8s_resource/".toList ++ tail).length := hmatch.length_eq.symm
    have hmatch' : List.Forall₂ Sql.Stands tail (t.drop 13) := by
      simpa using forall₂_drop 13 hmatch
    have htake : t.take 13 = "k8s_resource/".toList := by
      have h₁ : (t ++ u).take 13 = t.take 13 := take_append_of_le_length (by
        rw [hlen]
        simp)
      have h₂ : ("k8s_resource/".toList ++ rest).take 13 = "k8s_resource/".toList :=
        take_left' rfl
      rw [← h₁, ← htext, ← hrest, h₂]
    have hdrop : tail = t.drop 13 :=
      Sql.eq_of_forall₂_stands (fun c hc => (hplain c hc).2) hmatch'
    refine ⟨u, ?_⟩
    rw [htext, hdrop, ← htake, take_append_drop]
  · rintro ⟨u, hu⟩
    exact ⟨_, u, hu.symm, Sql.forall₂_stands_self _⟩

/-! ### What the client returns -/

/-- The documents of the operator in the workspace whose id starts with the prefix of the kind. -/
def Database.listed (db : Database) (workspaceId clusterId : Uuid) (kind : String) : List Row :=
  (db.operatorRows workspaceId).filter fun row =>
    StartsWith row.1.2 (idPrefix clusterId kind)

/-- The listing of a kind is exact: the cursors lead through the ids under the prefix of the kind,
each once, and the client returns what they lead through. -/
def ListsExactly (db : Database) (workspaceId clusterId : Uuid) (kind : String) (limit : ℕ) :
    Prop :=
  ∃ pages, Pages ((clientOf db workspaceId limit).fetchPage workspaceId clusterId kind) "" pages ∧
    (pages.flatMap EntitiesPage.externalIds).Perm
      ((db.listed workspaceId clusterId kind).map fun row => row.1.2) ∧
    (clientOf db workspaceId limit).listExternalIDs workspaceId clusterId kind =
      .ok (pages.flatMap EntitiesPage.externalIds)

/-- The operator writes its documents under its own prefix. -/
def Database.IsPrefixed (db : Database) (workspaceId : Uuid) : Prop :=
  ∀ row ∈ db.operatorRows workspaceId, StartsWith row.1.2 "k8s_resource/"

theorem matching_perm_listed {db : Database} {workspaceId clusterId : Uuid} {kind : String}
    (hkind : ∀ c ∈ kind.toList, Sql.IsPlain c) (hids : db.IsPrefixed workspaceId) :
    (db.matching workspaceId clusterId kind).Perm (db.listed workspaceId clusterId kind) := by
  refine (perm_insertionSort _ _).trans ?_
  rw [Database.listed, filter_congr fun row hrow => ?_]
  rw [Bool.eq_iff_iff, decide_eq_true_eq]
  exact like_iff_startsWith hkind (hids row hrow)

/-- **The listing of the operator**: the cursors lead through the external ids of the kind, each
document once, an id is on the pages exactly when it starts with the prefix, and the client returns
all of them as long as there are at most a thousand pages. -/
theorem listing_spec {db : Database} {workspaceId : Uuid} (clusterId : Uuid) {kind : String}
    {limit : ℕ} (hkind : 1 ≤ kind.length ∧ kind.length ≤ 64)
    (hplain : ∀ c ∈ kind.toList, Sql.IsPlain c) (hlimit : 1 ≤ limit ∧ limit ≤ 1000)
    (hids : db.IsPrefixed workspaceId) :
    ∃ pages, Pages ((clientOf db workspaceId limit).fetchPage workspaceId clusterId kind) ""
        pages ∧
      (pages.flatMap EntitiesPage.externalIds).Perm
        ((db.listed workspaceId clusterId kind).map fun row => row.1.2) ∧
      (∀ row ∈ db.operatorRows workspaceId,
        row.1.2 ∈ pages.flatMap EntitiesPage.externalIds ↔
          StartsWith row.1.2 (idPrefix clusterId kind)) ∧
      pages.length = ((db.listed workspaceId clusterId kind).length - 1) / limit + 1 ∧
      (clientOf db workspaceId limit).listExternalIDs workspaceId clusterId kind =
        if pages.length ≤ 1000 then .ok (pages.flatMap EntitiesPage.externalIds)
        else .error ⟨.external,
          "reconciler: pagination exceeded 1000 pages for kind=" ++ kind⟩ := by
  obtain ⟨pages, hpages, hflat, hlen⟩ :=
    exists_pages db workspaceId clusterId kind limit hkind hlimit
  have hperm : (db.matching workspaceId clusterId kind).Perm
      (db.listed workspaceId clusterId kind) := matching_perm_listed hplain hids
  have hids' : (pages.flatMap EntitiesPage.externalIds).Perm
      ((db.listed workspaceId clusterId kind).map fun row => row.1.2) := by
    rw [hflat]
    exact hperm.map _
  have hne : kind ≠ "" := by
    rintro rfl
    exact absurd hkind.1 (by decide)
  refine ⟨pages, hpages, hids', fun row hrow => ?_, by rw [hlen, hperm.length_eq], ?_⟩
  · rw [hids'.mem_iff, mem_map]
    constructor
    · rintro ⟨other, hother, heq⟩
      have := (mem_filter.1 hother).2
      rw [decide_eq_true_eq] at this
      rwa [← heq]
    · intro h
      exact ⟨row, mem_filter.2 ⟨hrow, decide_eq_true h⟩, rfl⟩
  · rw [EntitiesClient.listExternalIDs, if_neg hne, listLoop_of_pages hpages, nil_append]

/-! ### A cluster with many pods -/

/-- The row of a pod whose name has `i` letters. -/
def podRow (i : ℕ) : Row :=
  ((1, idPrefix 9 "Pod" ++ "default/" ++ String.ofList (List.replicate i 'a')),
    { id := BitVec.ofNat 128 i, uri := "", title := none, contentHash := "", metadata := [],
      indexedAt := ⟨0, zero_lt_dateTime⟩ })

theorem podRow_fst_injective : Function.Injective fun i => (podRow i).1 := by
  intro i j h
  have hname := congrArg (fun key : Key => key.2.toList.length) h
  simp only [podRow, String.toList_append, String.toList_ofList, length_append,
    length_replicate] at hname
  omega

theorem podRow_id_inj {i j : ℕ} (hi : i < 2 ^ 128) (hj : j < 2 ^ 128)
    (h : (podRow i).2.id = (podRow j).2.id) : i = j := by
  have hnat := congrArg BitVec.toNat h
  simpa only [podRow, BitVec.toNat_ofNat, Nat.mod_eq_of_lt hi, Nat.mod_eq_of_lt hj] using hnat

theorem nodup_operatorSource :
    ([⟨1, "operator", "k8s_operator", .active, some 7⟩] : List Source).map Source.id |>.Nodup :=
  nodup_singleton _

/-- A database with the pods of one cluster. -/
def podDatabase (n : ℕ) (hn : n ≤ 2 ^ 128) : Database where
  sources := [⟨1, "operator", "k8s_operator", .active, some 7⟩]
  documents := ⟨(List.range n).map podRow, by
    rw [map_map]
    exact nodup_range.map podRow_fst_injective⟩
  sources_nodup := nodup_operatorSource
  documents_nodup := by
    rw [map_map]
    refine nodup_range.map_on fun i hi j hj h => ?_
    rw [mem_range] at hi hj
    exact podRow_id_inj (by omega) (by omega) h

section

variable (n : ℕ) (hn : n ≤ 2 ^ 128)

theorem operatorRows_podDatabase :
    (podDatabase n hn).operatorRows 7 = (List.range n).map podRow := by
  refine filter_eq_self.2 fun row hrow => ?_
  obtain ⟨i, -, rfl⟩ := mem_map.1 hrow
  rfl

theorem startsWith_podRow (i : ℕ) : StartsWith (podRow i).1.2 (idPrefix 9 "Pod") := by
  refine ⟨"default/".toList ++ List.replicate i 'a', ?_⟩
  simp only [podRow, String.toList_append, String.toList_ofList, append_assoc]

theorem isPrefixed_podDatabase : (podDatabase n hn).IsPrefixed 7 := by
  intro row hrow
  rw [operatorRows_podDatabase, mem_map] at hrow
  obtain ⟨i, -, rfl⟩ := hrow
  refine List.IsPrefix.trans ?_ (startsWith_podRow i)
  simp only [idPrefix_eq, String.toList_append, append_assoc]
  exact prefix_append _ _

theorem length_listed_podDatabase : ((podDatabase n hn).listed 7 9 "Pod").length = n := by
  have hall : (podDatabase n hn).listed 7 9 "Pod" = (List.range n).map podRow := by
    rw [Database.listed, operatorRows_podDatabase]
    refine filter_eq_self.2 fun row hrow => ?_
    obtain ⟨i, -, rfl⟩ := mem_map.1 hrow
    exact decide_eq_true (startsWith_podRow i)
  rw [hall, length_map, length_range]

end

theorem listing_spec_pods :
    ∃ ids, (clientOf (podDatabase 2 (by decide)) 7 500).listExternalIDs 7 9 "Pod" = .ok ids := by
  have hkind : 1 ≤ "Pod".length ∧ "Pod".length ≤ 64 := by decide
  have hlimit : 1 ≤ 500 ∧ 500 ≤ 1000 := by decide
  obtain ⟨pages, -, -, -, hlen, hids⟩ :=
    listing_spec 9 hkind (Sql.isPlain_of_all (by decide)) hlimit (isPrefixed_podDatabase 2 (by decide))
  rw [length_listed_podDatabase] at hlen
  rw [if_pos (by rw [hlen]; decide)] at hids
  exact ⟨_, hids⟩

/-- A thousand and one pods on pages of one: the client gives up on the last page. -/
theorem not_listsExactly_podDatabase :
    ¬ ListsExactly (podDatabase 1001 (by decide)) 7 9 "Pod" 1 := by
  rintro ⟨pages, -, -, hids⟩
  obtain ⟨pages', hpages', -, hlen⟩ := exists_pages (podDatabase 1001 (by decide)) 7 9 "Pod" 1
    (by decide) (by decide)
  have hpod : ∀ c ∈ "Pod".toList, Sql.IsPlain c := Sql.isPlain_of_all (by decide)
  rw [(matching_perm_listed hpod (isPrefixed_podDatabase 1001 _)).length_eq,
    length_listed_podDatabase] at hlen
  have hmany : ¬ pages'.length ≤ 1000 := by
    rw [hlen]
    decide
  rw [EntitiesClient.listExternalIDs, if_neg (by decide), listLoop_of_pages hpages',
    if_neg hmany] at hids
  cases hids

end Omniscience.Operator
