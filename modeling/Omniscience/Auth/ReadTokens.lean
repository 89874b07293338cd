import Omniscience.Lib.ReadCommitted
import Omniscience.Base.Uuid

/-!
# The life cycle of read tokens

`create_mcp_read_token`, `rotate_mcp_read_token` and `revoke_mcp_read_token` are transactions on the
table of API tokens, which has a unique index on `rotated_from_id`.  A rotation locks its token,
looks for a successor, shortens the expiry and inserts the successor; a revocation reads its token
without a lock.  Any number of them run at the same time.

* `read_token_life_cycle` : in every state of every run a token has at most one successor, its expiry
  has not increased since any earlier state, a rotated token expires within a day of its rotation, a
  token is not valid more than thirty days after its creation, and a revoked one is not valid.

Times are instants in microseconds.  Foreign keys only forbid rows, and are left out.
-/

namespace Omniscience.Auth

open ReadCommitted List

/-- `ApiToken`. -/
structure ApiToken where
  id : Uuid
  name : String
  hashedToken : String
  tokenPrefix : String
  scopes : List String
  profileId : Option String
  rotatedFromId : Option Uuid
  workspaceId : Option Uuid
  createdAt : ℤ
  expiresAt : Option ℤ
  isActive : Bool
  deriving DecidableEq

/-- The table: its key and its unique index. -/
def apiTokens : Schema Uuid Uuid ApiToken := ⟨ApiToken.id, ApiToken.rotatedFromId⟩

/-- `MCP_READ_PROFILE_ID`. -/
def mcpReadProfileId : String := "omniscience-mcp-read-v1"

/-- `MCP_READ_MAX_LIFETIME`: thirty days. -/
def mcpReadMaxLifetime : ℤ := 30 * 24 * 3600 * 1000000

/-- `MCP_READ_ROTATION_OVERLAP`: twenty-four hours. -/
def mcpReadRotationOverlap : ℤ := 24 * 3600 * 1000000

/-- The reasons for which a function raises. -/
inductive Failure where
  /-- `LookupError`. -/
  | lookup (text : String)
  /-- `McpReadTokenValidationError`. -/
  | validation (text : String)
  /-- `ValueError`. -/
  | value (text : String)
  deriving DecidableEq, Repr

/-- `validate_mcp_read_token`. -/
def validateMcpReadToken (token : ApiToken) (now : ℤ) : Except Failure Uuid :=
  if token.profileId ≠ some mcpReadProfileId then .error (.validation "legacy_token")
  else if token.scopes ≠ ["search"] then .error (.validation "exact_search_scope_required")
  else
    match token.workspaceId with
    | none => .error (.validation "workspace_required")
    | some workspaceId =>
      if !token.isActive then .error (.validation "token_revoked")
      else
        match token.expiresAt with
        | none => .error (.validation "expiry_required")
        | some expiresAt =>
          if expiresAt ≤ now then .error (.validation "token_expired")
          else if token.createdAt + mcpReadMaxLifetime < expiresAt then
            .error (.validation "expiry_exceeds_30_days")
          else .ok workspaceId

/-- `rotation_overlap_expiry`. -/
def rotationOverlapExpiry (now currentExpiry : ℤ) : ℤ :=
  min currentExpiry (now + mcpReadRotationOverlap)

/-- What the functions return. -/
inductive Done where
  | created (token : ApiToken)
  /-- The successor, with the prefix and the expiry of the old token and the overlap in seconds. -/
  | rotated (tokenId : Uuid) (rotatedAt : ℤ) (successor : ApiToken) (oldPrefix : String)
    (oldExpiry overlapSeconds : ℤ)
  /-- The prefix and the workspace of the token. -/
  | revoked (tokenId : Uuid) (tokenPrefix : String) (workspaceId : Uuid)
  deriving DecidableEq

/-- A transaction on the table. -/
abbrev Txn := Prog Uuid ApiToken Done Failure

/-- The secret of a new token: the identifier of its row, the text that `generate_token` makes, and
its hash. -/
structure Minted where
  id : Uuid
  plaintext : String
  hashedToken : String

/-- The arguments of `create_mcp_read_token`. -/
structure Create where
  name : String
  workspaceId : Uuid
  expiresAt : Option ℤ
  rotatedFromId : Option Uuid
  now : ℤ
  minted : Minted

/-- The row that is inserted. -/
def Create.token (a : Create) : ApiToken where
  id := a.minted.id
  name := a.name
  hashedToken := a.minted.hashedToken
  tokenPrefix := String.ofList (a.minted.plaintext.toList.take 8)
  scopes := ["search"]
  profileId := some mcpReadProfileId
  rotatedFromId := a.rotatedFromId
  workspaceId := some a.workspaceId
  createdAt := a.now
  expiresAt := some (a.expiresAt.getD (a.now + mcpReadMaxLifetime))
  isActive := true

/-- `create_mcp_read_token`, and what follows it. -/
def createMcpReadToken (a : Create) (next : ApiToken → Txn) : Txn :=
  let expiry := a.expiresAt.getD (a.now + mcpReadMaxLifetime)
  if expiry ≤ a.now then .rollback (.value "expiry_must_be_future")
  else if a.now + mcpReadMaxLifetime < expiry then .rollback (.value "expiry_exceeds_30_days")
  else .insert a.token (next a.token)

/-- `rotate_mcp_read_token`. -/
def rotateMcpReadToken (tokenId : Uuid) (now : ℤ) (minted : Minted) : Txn :=
  .lock tokenId fun
    | none => .rollback (.lookup "token_not_found")
    | some old =>
      match validateMcpReadToken old now, old.expiresAt with
      | .error failure, _ => .rollback failure
      | .ok _, none => .rollback (.validation "expiry_required")
      | .ok workspaceId, some currentExpiry => .read fun rows =>
        if rows.any fun row => row.rotatedFromId = some tokenId then
          .rollback (.validation "token_already_rotated")
        else
          let oldExpiry := rotationOverlapExpiry now currentExpiry
          let overlapSeconds := max 0 ((oldExpiry - now) / 1000000)
          .update tokenId (fun row => { row with expiresAt := some oldExpiry }) <|
            createMcpReadToken
              ⟨old.name ++ " (rotated)", workspaceId, none, some old.id, now, minted⟩ fun token =>
                .commit (.rotated tokenId now token old.tokenPrefix oldExpiry overlapSeconds)

/-- `revoke_mcp_read_token`; a token that is not active is not written again. -/
def revokeMcpReadToken (tokenId : Uuid) : Txn :=
  .read fun rows =>
    match apiTokens.find rows tokenId with
    | none => .rollback (.lookup "token_not_found")
    | some token =>
      if token.profileId ≠ some mcpReadProfileId then .rollback (.validation "legacy_token")
      else
        match token.workspaceId with
        | none => .rollback (.validation "workspace_required")
        | some workspaceId =>
          let done : Txn := .commit (.revoked tokenId token.tokenPrefix workspaceId)
          if token.isActive then .update tokenId (fun row => { row with isActive := false }) done
          else done

/-- A call of one of the functions, in a transaction of its own. -/
inductive Op where
  | create (a : Create)
  | rotate (tokenId : Uuid) (now : ℤ) (minted : Minted)
  | revoke (tokenId : Uuid)

/-- The transaction of a call. -/
def Op.txn : Op → Txn
  | .create a => createMcpReadToken a fun token => .commit (.created token)
  | .rotate tokenId now minted => rotateMcpReadToken tokenId now minted
  | .revoke tokenId => revokeMcpReadToken tokenId

/-! ### What a commit does -/

/-- A token and what becomes of it: the same token, with an expiry that is not later and never
active again. -/
structure Later (row row' : ApiToken) : Prop where
  id : row'.id = row.id
  createdAt : row'.createdAt = row.createdAt
  expiry : ∀ e, row.expiresAt = some e → ∃ e', row'.expiresAt = some e' ∧ e' ≤ e
  active : row'.isActive = true → row.isActive = true

theorem Later.refl (row : ApiToken) : Later row row := ⟨rfl, rfl, fun e he => ⟨e, he, le_rfl⟩, fun ha => ha⟩

theorem Later.trans {row₁ row₂ row₃ : ApiToken} (h : Later row₁ row₂) (h' : Later row₂ row₃) :
    Later row₁ row₃ where
  id := h'.id.trans h.id
  createdAt := h'.createdAt.trans h.createdAt
  expiry e he := by
    obtain ⟨e', he', hle⟩ := h.expiry e he
    obtain ⟨e'', he'', hle'⟩ := h'.expiry e' he'
    exact ⟨e'', he'', hle'.trans hle⟩
  active ha := h.active (h'.active ha)

/-- Every token of a table is in a later one. -/
def Kept (rows rows' : List ApiToken) : Prop := ∀ row ∈ rows, ∃ row' ∈ rows', Later row row'

/-- What is true of the token that a call was about: rotated, it expires within the overlap; revoked,
it is not active. -/
def Settled (rows : List ApiToken) : Done → Prop
  | .created _ => True
  | .rotated tokenId rotatedAt .. => ∃ row ∈ rows, row.id = tokenId ∧
    ∃ e, row.expiresAt = some e ∧ e ≤ rotatedAt + mcpReadRotationOverlap
  | .revoked tokenId .. => ∃ row ∈ rows, row.id = tokenId ∧ row.isActive = false

theorem Settled.mono {rows rows' : List ApiToken} {done : Done} (h : Settled rows done)
    (hkept : Kept rows rows') : Settled rows' done := by
  cases done with
  | created token => trivial
  | rotated tokenId rotatedAt successor oldPrefix oldExpiry overlapSeconds =>
    obtain ⟨row, hrow, hid, e, he, hle⟩ := h
    obtain ⟨row', hrow', hlater⟩ := hkept row hrow
    obtain ⟨e', he', hle'⟩ := hlater.expiry e he
    exact ⟨row', hrow', hlater.id.trans hid, e', he', hle'.trans hle⟩
  | revoked tokenId tokenPrefix w =>
    obtain ⟨row, hrow, hid, hactive⟩ := h
    obtain ⟨row', hrow', hlater⟩ := hkept row hrow
    refine ⟨row', hrow', hlater.id.trans hid, ?_⟩
    rw [← Bool.not_eq_true] at hactive ⊢
    exact fun ha => hactive (hlater.active ha)

/-- The contract of the table. -/
def contract : ReadCommitted.Contract ApiToken Done where
  commits rows rows' done := Kept rows rows' ∧ Settled rows' done
  keeps := Kept
  refl _ row hrow := ⟨row, hrow, Later.refl row⟩
  trans _ _ _ h h' row hrow := by
    obtain ⟨row', hrow', hlater⟩ := h row hrow
    obtain ⟨row'', hrow'', hlater'⟩ := h' row' hrow'
    exact ⟨row'', hrow'', hlater.trans hlater'⟩
  of_commits _ _ _ h := h.1

variable {known : Uuid → Option ApiToken} {seen : List (List ApiToken)} {rows : List ApiToken}
  {updates : List (Uuid × (ApiToken → ApiToken))}

theorem kept_change {own : List ApiToken} {tokenId : Uuid} {f : ApiToken → ApiToken}
    (h : ∀ row ∈ rows, row.id = tokenId → Later row (f row)) :
    Kept rows ((rows ++ own).map (apiTokens.change [(tokenId, f)])) := by
  intro row hrow
  refine ⟨_, mem_map_of_mem (mem_append_left _ hrow), ?_⟩
  show Later row (if row.id = tokenId then f row else row)
  split
  · exact h row hrow ‹_›
  · exact Later.refl row

theorem safe_create (a : Create) :
    (createMcpReadToken a fun token => .commit (.created token)).Safe apiTokens contract known seen
      [] [] := by
  unfold createMcpReadToken
  dsimp only
  split
  · trivial
  split
  · trivial
  · intro rows hholds hseen hsound
    refine ⟨fun row hrow => ⟨row, ?_, Later.refl row⟩, trivial⟩
    show row ∈ (rows ++ [a.token]).map id
    rw [map_id]
    exact mem_append_left _ hrow

theorem validate_ok {token : ApiToken} {now : ℤ} {w : Uuid}
    (h : validateMcpReadToken token now = .ok w) :
    token.isActive = true ∧ ∃ e, token.expiresAt = some e ∧ now < e ∧
      e ≤ token.createdAt + mcpReadMaxLifetime := by
  unfold validateMcpReadToken at h
  split at h
  · cases h
  split at h
  · cases h
  split at h
  · cases h
  split at h
  · cases h
  rename_i hactive
  split at h
  · cases h
  rename_i e he
  split at h
  · cases h
  rename_i hexpired
  split at h
  · cases h
  rename_i hlong
  exact ⟨by simpa using hactive, e, he, not_le.1 hexpired, not_lt.1 hlong⟩

/-- **A rotation is safe**: its token is locked when its expiry is read, and shortened from there. -/
theorem safe_rotate (tokenId : Uuid) (now : ℤ) (minted : Minted) :
    (rotateMcpReadToken tokenId now minted).Safe apiTokens contract known seen [] [] := by
  unfold rotateMcpReadToken
  rw [safe_lock]
  rintro (_ | old)
  · trivial
  dsimp only
  split
  · trivial
  · trivial
  rename_i w currentExpiry hvalid hexpiry
  rw [safe_read]
  intro seenRows
  split
  · trivial
  rw [safe_update]
  refine ⟨fun row => ⟨rfl, rfl⟩, fun row hrow => ?_⟩
  -- the row that is updated is the one that was locked
  obtain rfl : old = row := hrow old (Function.update_self _ _ _)
  unfold createMcpReadToken
  dsimp only
  split
  · trivial
  split
  · trivial
  intro rows hholds _ hsound
  have hold : apiTokens.find rows tokenId = some old :=
    hholds tokenId old (Function.update_self _ _ _)
  have hmem := find_mem hold
  have hid : old.id = tokenId := hmem.2
  have hrows : apiTokens.Sound rows := (pairwise_append.1 hsound).1
  have hlater : Later old
      { old with expiresAt := some (rotationOverlapExpiry now currentExpiry) } := by
    refine ⟨rfl, rfl, fun e he => ⟨_, rfl, ?_⟩, fun ha => ha⟩
    rw [hexpiry] at he
    cases he
    exact min_le_left _ _
  refine ⟨kept_change fun row hrow hkey => ?_, ?_⟩
  · obtain rfl : row = old := hrows.eq_of_clash hrow hmem.1 (.inl (hkey.trans hid.symm))
    exact hlater
  · refine ⟨_, mem_map_of_mem (mem_append_left _ hmem.1), ?_⟩
    show (if old.id = tokenId then _ else old).id = tokenId ∧ ∃ e,
      (if old.id = tokenId then _ else old).expiresAt = some e ∧ _
    rw [if_pos hid]
    exact ⟨hid, _, rfl, min_le_right _ _⟩

/-- **A revocation is safe**: the update waits for the lock and leaves the rest of the row alone; a
token that was read inactive still is. -/
theorem safe_revoke (tokenId : Uuid) :
    (revokeMcpReadToken tokenId).Safe apiTokens contract known seen [] [] := by
  unfold revokeMcpReadToken
  rw [safe_read]
  intro read
  split
  · trivial
  rename_i token htoken
  split
  · trivial
  split
  · trivial
  dsimp only
  split
  · rw [safe_update]
    refine ⟨fun row => ⟨rfl, rfl⟩, fun row hrow rows hholds _ hsound => ?_⟩
    have hmem := find_mem (hholds tokenId row (Function.update_self _ _ _))
    have hid : row.id = tokenId := hmem.2
    refine ⟨kept_change fun row' _ _ =>
      ⟨rfl, rfl, fun e he => ⟨e, he, le_rfl⟩, fun h => by cases h⟩, ?_⟩
    refine ⟨_, mem_map_of_mem (mem_append_left _ hmem.1), ?_⟩
    show (if row.id = tokenId then _ else row).id = tokenId ∧
      (if row.id = tokenId then _ else row).isActive = false
    rw [if_pos hid]
    exact ⟨hid, rfl⟩
  · rename_i hinactive
    intro rows hholds hseen hsound
    have hkept : Kept read rows := hseen read mem_cons_self
    have hmem := find_mem htoken
    have hsettled : Settled read (.revoked tokenId token.tokenPrefix ‹_›) :=
      ⟨token, hmem.1, hmem.2, by simpa using hinactive⟩
    have hsame : (rows ++ []).map (apiTokens.change []) = rows := by
      rw [append_nil]
      exact map_id _
    rw [hsame]
    exact ⟨fun row hrow => ⟨row, hrow, Later.refl row⟩, hsettled.mono hkept⟩

theorem safe_op (op : Op) : op.txn.Safe apiTokens contract known seen [] [] := by
  cases op with
  | create a => exact safe_create a
  | rotate tokenId now minted => exact safe_rotate tokenId now minted
  | revoke tokenId => exact safe_revoke tokenId

/-! ### Runs -/

/-- The token is valid at a time. -/
def Valid (token : ApiToken) (now : ℤ) : Prop :=
  ∃ workspaceId, validateMcpReadToken token now = .ok workspaceId

variable {ι : Type} [DecidableEq ι] {ops : ι → Op} {events events' : List (ι × Action)}
  {db db' : Db ι Uuid ApiToken Done Failure}

theorem reached (hrows : apiTokens.Sound rows)
    (h : run apiTokens (Db.init rows fun i => (ops i).txn) events = some db) :
    Inv apiTokens contract db ∧ ∀ entry ∈ db.log, Settled db.rows entry.2 := by
  have hinit : Inv apiTokens contract (Db.init rows fun i => (ops i).txn) :=
    Inv.init hrows fun i => safe_op (ops i)
  have hcommit : ∀ (rows rows' : List ApiToken) (log : List (ι × Done)) (i : ι) (done : Done),
      (∀ entry ∈ log, Settled rows entry.2) → contract.commits rows rows' done →
        ∀ entry ∈ log ++ [(i, done)], Settled rows' entry.2 := by
    intro rows rows' log i done hlog hcommits entry hentry
    rcases mem_append.1 hentry with hentry | hentry
    · exact (hlog entry hentry).mono hcommits.1
    · rw [mem_singleton.1 hentry]
      exact hcommits.2
  obtain ⟨hinv, -, hsettled⟩ := run_keeps hinit h
    (fun rows log => ∀ entry ∈ log, Settled rows entry.2)
    (fun _ hentry => absurd hentry not_mem_nil) hcommit
  exact ⟨hinv, hsettled⟩

/-- **The life cycle of read tokens**, in a state of a run and a later one. -/
theorem read_token_life_cycle (hrows : apiTokens.Sound rows)
    (h : run apiTokens (Db.init rows fun i => (ops i).txn) events = some db)
    (h' : run apiTokens db events' = some db') :
    (∀ a ∈ db'.rows, ∀ b ∈ db'.rows, ∀ tokenId, a.rotatedFromId = some tokenId →
      b.rotatedFromId = some tokenId → a = b) ∧
    (∀ row ∈ db.rows, ∃ row' ∈ db'.rows, row'.id = row.id ∧ row'.createdAt = row.createdAt ∧
      ∀ e, row.expiresAt = some e → ∃ e', row'.expiresAt = some e' ∧ e' ≤ e) ∧
    (∀ i tokenId rotatedAt successor oldPrefix oldExpiry overlapSeconds,
      (i, Done.rotated tokenId rotatedAt successor oldPrefix oldExpiry overlapSeconds) ∈ db'.log →
        ∀ row ∈ db'.rows, row.id = tokenId →
          ∃ e, row.expiresAt = some e ∧ e ≤ rotatedAt + mcpReadRotationOverlap) ∧
    (∀ row ∈ db'.rows, ∀ t, Valid row t → t < row.createdAt + mcpReadMaxLifetime) ∧
    (∀ i tokenId tokenPrefix workspaceId,
      (i, Done.revoked tokenId tokenPrefix workspaceId) ∈ db'.log →
        ∀ row ∈ db'.rows, row.id = tokenId → ∀ t, ¬ Valid row t) := by
  have hall : run apiTokens (Db.init rows fun i => (ops i).txn) (events ++ events') = some db' := by
    rw [run, foldlM_append]
    exact Option.bind_eq_some_iff.2 ⟨db, h, h'⟩
  obtain ⟨hinv', hsettled⟩ := reached hrows hall
  have hsound : apiTokens.Sound db'.rows := (pairwise_append.1 hinv'.sound).1
  have hkept : Kept db.rows db'.rows :=
    (run_keeps (reached hrows h).1 h' (fun _ _ => True) trivial fun _ _ _ _ _ _ _ => trivial).2.1
  refine ⟨?_, ?_, ?_, ?_, ?_⟩
  · intro a ha b hb tokenId hfrom hfrom'
    refine hsound.eq_of_clash ha hb (.inr ⟨hfrom.trans hfrom'.symm, ?_⟩)
    show a.rotatedFromId ≠ none
    rw [hfrom]
    exact Option.some_ne_none _
  · intro row hrow
    obtain ⟨row', hrow', hlater⟩ := hkept row hrow
    exact ⟨row', hrow', hlater.id, hlater.createdAt, hlater.expiry⟩
  · intro i tokenId rotatedAt successor oldPrefix oldExpiry overlapSeconds hlog row hrow hid
    obtain ⟨row', hrow', hid', hexpiry⟩ := hsettled _ hlog
    obtain rfl : row = row' := hsound.eq_of_clash hrow hrow' (.inl (hid.trans hid'.symm))
    exact hexpiry
  · rintro row - t ⟨workspaceId, hvalid⟩
    obtain ⟨-, e, -, hlt, hle⟩ := validate_ok hvalid
    exact hlt.trans_le hle
  · rintro i tokenId tokenPrefix workspaceId hlog row hrow hid t ⟨workspaceId', hvalid⟩
    obtain ⟨row', hrow', hid', hactive⟩ := hsettled _ hlog
    obtain rfl : row = row' := hsound.eq_of_clash hrow hrow' (.inl (hid.trans hid'.symm))
    rw [(validate_ok hvalid).1] at hactive
    cases hactive

/-- A token is created, rotated in an hour, and a second rotation waits for the first and fails. -/
def sampleOps : Fin 3 → Op
  | 0 => .create ⟨"agent", 1#128, none, none, 0, ⟨2#128, "sk_dev_a", "hash-a"⟩⟩
  | 1 => .rotate (2#128) 3600000000 ⟨3#128, "sk_dev_b", "hash-b"⟩
  | 2 => .rotate (2#128) 3600000000 ⟨4#128, "sk_dev_c", "hash-c"⟩

/-- The steps: the insertion and the commit, then the two rotations. -/
def sampleEvents : List (Fin 3 × Action) :=
  [(0, .next), (0, .next), (1, .next), (1, .next), (1, .next), (1, .next), (1, .next), (2, .next),
    (2, .next), (2, .next)]

/-- The run exists, and the rotated token has one successor and a day left. -/
theorem read_token_life_cycle_sample :
    ∃ db, run apiTokens (Db.init [] fun i => (sampleOps i).txn) sampleEvents = some db ∧
      db.rows.length = 2 ∧
      (∀ a ∈ db.rows, ∀ b ∈ db.rows, ∀ tokenId, a.rotatedFromId = some tokenId →
        b.rotatedFromId = some tokenId → a = b) := by
  have hrun : (run apiTokens (Db.init [] fun i => (sampleOps i).txn) sampleEvents).map
      (fun db => db.rows.length) = some 2 := by decide
  obtain ⟨db, hdb, hlength⟩ := Option.map_eq_some_iff.1 hrun
  have hnil : apiTokens.Sound [] := List.Pairwise.nil
  have hstay : run apiTokens db [] = some db := rfl
  exact ⟨db, hdb, hlength, (read_token_life_cycle hnil hdb hstay).1⟩

end Omniscience.Auth
