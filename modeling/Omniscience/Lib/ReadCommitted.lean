import Mathlib.Data.List.Pairwise
import Mathlib.Data.List.Perm.Basic

/-!
# Transactions on a table under read-committed isolation

Clients run one transaction each on a table.  A query sees the rows as they are committed and the
client's own writes.  `SELECT ... FOR UPDATE` and `UPDATE` take the lock of the row, which the client
holds until it ends, and wait for the client that holds it; an update works on the row as it is when
the lock is there, and fails if there is none.  `INSERT` fails if the key of the row or its value in
the unique index is taken, and waits for a client that has a row with such a value in flight.  A
transaction may fail at any point, which drops its writes.

A `Contract` says what a commit may do to the table, and what this keeps.  `Prog.Safe` is the rule
for one transaction on its own: a row that it has locked stays as it was read until the commit, and a
table that it has read has changed only by what the contract keeps.

* `Move.spec` : a step keeps the invariant, and changes the table only if it is a commit that the
  contract allows.
* `run_keeps` : along every run of safe transactions what each commit keeps is kept, and no two rows
  have the same key or the same value in the index (`Inv.sound`).
-/

namespace Omniscience.ReadCommitted

open Function List

/-- The key of a row and its value in a unique index (`none` where it has none). -/
structure Schema (K V Row : Type*) where
  key : Row → K
  /-- The value in the index. -/
  unique : Row → Option V

/-- What a transaction does. -/
inductive Prog (K Row R E : Type*) where
  | read (next : List Row → Prog K Row R E)
  /-- `SELECT ... FOR UPDATE` by the key. -/
  | lock (k : K) (next : Option Row → Prog K Row R E)
  | update (k : K) (f : Row → Row) (next : Prog K Row R E)
  | insert (row : Row) (next : Prog K Row R E)
  | commit (r : R)
  | rollback (e : E)

/-- How far a client is. -/
inductive Phase (K Row R E : Type*) where
  /-- What is left to do, and the updates so far. -/
  | running (prog : Prog K Row R E) (updates : List (K × (Row → Row)))
  | committed (r : R)
  /-- The reason is missing where a statement fails or the connection is lost. -/
  | failed (e : Option E)

/-- The database. -/
structure Db (ι K Row R E : Type*) where
  rows : List Row
  /-- The inserted rows of the transactions that are under way. -/
  inFlight : List (ι × Row)
  holder : K → Option ι
  phase : ι → Phase K Row R E
  log : List (ι × R)

/-- What clients do next: the next statement, or they fail. -/
inductive Action where
  | next
  | fail
  deriving DecidableEq, Repr

variable {ι K V Row R E : Type*}

/-- Two rows that cannot be in the table at the same time. -/
def Schema.Clash (S : Schema K V Row) (row row' : Row) : Prop :=
  S.key row = S.key row' ∨ S.unique row = S.unique row' ∧ S.unique row ≠ none

theorem Schema.Clash.symm {S : Schema K V Row} {row row' : Row} (h : S.Clash row row') :
    S.Clash row' row := by
  rcases h with h | ⟨h, hne⟩
  · exact .inl h.symm
  · exact .inr ⟨h.symm, h ▸ hne⟩

variable [DecidableEq ι] [DecidableEq K]

section Semantics

variable [DecidableEq V] (S : Schema K V Row)

instance (row row' : Row) : Decidable (S.Clash row row') := by
  unfold Schema.Clash
  infer_instance

/-- The row with a key. -/
def Schema.find (rows : List Row) (k : K) : Option Row := rows.find? fun row => S.key row = k

/-- A row after some updates. -/
def Schema.change (updates : List (K × (Row → Row))) (row : Row) : Row :=
  updates.foldl (fun row u => if S.key row = u.1 then u.2 row else row) row

/-- All clients start. -/
def Db.init (rows : List Row) (prog : ι → Prog K Row R E) : Db ι K Row R E :=
  ⟨rows, [], fun _ => none, fun i => .running (prog i) [], []⟩

namespace Db

variable (db : Db ι K Row R E) (i : ι)

/-- The inserted rows of a client. -/
def own : List Row := (db.inFlight.filter fun p => p.1 = i).map Prod.snd

/-- The table that a client sees. -/
def view (updates : List (K × (Row → Row))) : List Row :=
  (db.rows ++ db.own i).map (S.change updates)

/-- No other client holds the lock of the row. -/
def Free (k : K) : Prop := db.holder k = none ∨ db.holder k = some i

instance (k : K) : Decidable (db.Free i k) := by
  unfold Free
  infer_instance

/-- The client goes on. -/
def advance (prog : Prog K Row R E) (updates : List (K × (Row → Row))) : Db ι K Row R E :=
  { db with phase := Function.update db.phase i (.running prog updates) }

/-- The client takes a lock. -/
def hold (k : K) : Db ι K Row R E := { db with holder := Function.update db.holder k (some i) }

/-- The client has inserted a row. -/
def insert (row : Row) : Db ι K Row R E := { db with inFlight := db.inFlight ++ [(i, row)] }

/-- The client ends: its locks are released and its rows are no longer in flight. -/
def close (rows : List Row) (phase : Phase K Row R E) (log : List (ι × R)) : Db ι K Row R E :=
  { rows
    inFlight := db.inFlight.filter fun p => p.1 ≠ i
    holder := fun k => if db.holder k = some i then none else db.holder k
    phase := Function.update db.phase i phase
    log }

/-- The client fails. -/
def fail (e : Option E) : Db ι K Row R E := db.close i db.rows (.failed e) db.log

/-- The client commits. -/
def commit (updates : List (K × (Row → Row))) (r : R) : Db ι K Row R E :=
  db.close i (db.view S i updates) (.committed r) (db.log ++ [(i, r)])

end Db

/-- A client takes its next step; `none` if it has ended, or if it has to wait. -/
def step (db : Db ι K Row R E) (event : ι × Action) : Option (Db ι K Row R E) :=
  let i := event.1
  match event.2, db.phase i with
  | .fail, .running _ _ => some (db.fail i none)
  | .next, .running (.read next) updates => some (db.advance i (next (db.view S i updates)) updates)
  | .next, .running (.lock k next) updates =>
    match S.find (db.view S i updates) k with
    | none => some (db.advance i (next none) updates)
    | some row =>
      if db.Free i k then some ((db.hold i k).advance i (next (some row)) updates) else none
  | .next, .running (.update k f next) updates =>
    match S.find (db.view S i updates) k with
    | none => some (db.fail i none)
    | some _ =>
      if db.Free i k then some ((db.hold i k).advance i next (updates ++ [(k, f)])) else none
  | .next, .running (.insert row next) updates =>
    if ∃ row' ∈ db.view S i updates, S.Clash row row' then some (db.fail i none)
    else if ∃ p ∈ db.inFlight, p.1 ≠ i ∧ S.Clash row p.2 then none
    else some ((db.insert i row).advance i next updates)
  | .next, .running (.commit r) updates => some (db.commit S i updates r)
  | .next, .running (.rollback e) _ => some (db.fail i (some e))
  | _, _ => none

/-- A sequence of steps. -/
def run (db : Db ι K Row R E) (events : List (ι × Action)) : Option (Db ι K Row R E) :=
  events.foldlM (step S) db

/-- **What a step does.** -/
inductive Move (db : Db ι K Row R E) (i : ι) : Db ι K Row R E → Prop
  | read {next updates} (hp : db.phase i = .running (.read next) updates) :
    Move db i (db.advance i (next (db.view S i updates)) updates)
  | miss {k next updates} (hp : db.phase i = .running (.lock k next) updates)
    (hrow : S.find (db.view S i updates) k = none) : Move db i (db.advance i (next none) updates)
  | lock {k next updates row} (hp : db.phase i = .running (.lock k next) updates)
    (hrow : S.find (db.view S i updates) k = some row) (hfree : db.Free i k) :
    Move db i ((db.hold i k).advance i (next (some row)) updates)
  | update {k f next updates row} (hp : db.phase i = .running (.update k f next) updates)
    (hrow : S.find (db.view S i updates) k = some row) (hfree : db.Free i k) :
    Move db i ((db.hold i k).advance i next (updates ++ [(k, f)]))
  | insert {row next updates} (hp : db.phase i = .running (.insert row next) updates)
    (hview : ∀ row' ∈ db.view S i updates, ¬ S.Clash row row')
    (hflight : ∀ p ∈ db.inFlight, p.1 ≠ i → ¬ S.Clash row p.2) :
    Move db i ((db.insert i row).advance i next updates)
  | commit {r updates} (hp : db.phase i = .running (.commit r) updates) :
    Move db i (db.commit S i updates r)
  | fail {prog updates} (hp : db.phase i = .running prog updates) (e : Option E) :
    Move db i (db.fail i e)

variable {S}

theorem move_of_step {db db' : Db ι K Row R E} {event : ι × Action}
    (h : step S db event = some db') : Move S db event.1 db' := by
  obtain ⟨i, a⟩ := event
  unfold step at h
  dsimp only at h ⊢
  split at h
  · rename_i hp
    cases h
    exact .fail hp none
  · rename_i hp
    cases h
    exact .read hp
  · rename_i hp
    split at h
    · rename_i hrow
      cases h
      exact .miss hp hrow
    · rename_i hrow
      split at h
      · rename_i hfree
        cases h
        exact .lock hp hrow hfree
      · cases h
  · rename_i hp
    split at h
    · cases h
      exact .fail hp none
    · rename_i hrow
      split at h
      · rename_i hfree
        cases h
        exact .update hp hrow hfree
      · cases h
  · rename_i hp
    split at h
    · cases h
      exact .fail hp none
    rename_i hview
    split at h
    · cases h
    rename_i hflight
    cases h
    exact .insert hp (fun row' hrow' hc => hview ⟨row', hrow', hc⟩)
      fun p hmem hne hc => hflight ⟨p, hmem, hne, hc⟩
  · rename_i hp
    cases h
    exact .commit hp
  · rename_i hp
    cases h
    exact .fail hp _
  · cases h

end Semantics

/-! ### The rule for a transaction -/

section Rule

variable (S : Schema K V Row)

/-- An update that leaves the key and the value in the index alone. -/
def Schema.Tame (f : Row → Row) : Prop :=
  ∀ row, S.key (f row) = S.key row ∧ S.unique (f row) = S.unique row

/-- No two rows of a table have the same key or the same value in the index. -/
def Schema.Sound (rows : List Row) : Prop := rows.Pairwise fun row row' => ¬ S.Clash row row'

/-- The rows that a transaction has locked, as it has read them, are in the table. -/
def Schema.Holds (rows : List Row) (known : K → Option Row) : Prop :=
  ∀ k row, known k = some row → S.find rows k = some row

/-- What commits may do to a table. -/
structure Contract (Row R : Type*) where
  /-- A commit with this result may take the first table to the second one. -/
  commits : List Row → List Row → R → Prop
  /-- What holds between a table and a later one. -/
  keeps : List Row → List Row → Prop
  refl : ∀ rows, keeps rows rows
  trans : ∀ rows₁ rows₂ rows₃, keeps rows₁ rows₂ → keeps rows₂ rows₃ → keeps rows₁ rows₃
  of_commits : ∀ rows rows' r, commits rows rows' r → keeps rows rows'

/-- **A safe transaction**: what is left of it takes a table with the rows it knows, later than those
it has seen, to one that the contract allows.  A row that is locked before the first write is known
from then on, and a table that is read before the first write is seen. -/
def Prog.Safe (C : Contract Row R) :
    Prog K Row R E → (K → Option Row) → List (List Row) → List (K × (Row → Row)) → List Row → Prop
  | .read next, known, seen, updates, own =>
    ∀ rows, (updates = [] → own = [] → (next rows).Safe C known (rows :: seen) updates own) ∧
      (updates ≠ [] ∨ own ≠ [] → (next rows).Safe C known seen updates own)
  | .lock k next, known, seen, updates, own =>
    ∀ row, (updates = [] → own = [] →
        (next row).Safe C (Function.update known k row) seen updates own) ∧
      (updates ≠ [] ∨ own ≠ [] → (next row).Safe C known seen updates own)
  | .update k f next, known, seen, updates, own =>
    S.Tame f ∧
      (updates = [] → own = [] → ∀ row, (∀ row', known k = some row' → row' = row) →
        next.Safe C (Function.update known k (some row)) seen (updates ++ [(k, f)]) own) ∧
      (updates ≠ [] ∨ own ≠ [] → next.Safe C known seen (updates ++ [(k, f)]) own)
  | .insert row next, known, seen, updates, own => next.Safe C known seen updates (own ++ [row])
  | .commit r, known, seen, updates, own =>
    ∀ rows, S.Holds rows known → (∀ old ∈ seen, C.keeps old rows) → S.Sound (rows ++ own) →
      C.commits rows ((rows ++ own).map (S.change updates)) r
  | .rollback _, _, _, _, _ => True

attribute [grind =] Prog.Safe

section Clean

variable {S} {C : Contract Row R} {known : K → Option Row} {seen : List (List Row)}

omit [DecidableEq ι] in
@[simp] theorem safe_read {next : List Row → Prog K Row R E} :
    (Prog.read next).Safe S C known seen [] [] ↔
      ∀ rows, (next rows).Safe S C known (rows :: seen) [] [] := by
  simp [Prog.Safe]

omit [DecidableEq ι] in
@[simp] theorem safe_lock {k : K} {next : Option Row → Prog K Row R E} :
    (Prog.lock k next).Safe S C known seen [] [] ↔
      ∀ row, (next row).Safe S C (Function.update known k row) seen [] [] := by
  simp [Prog.Safe]

omit [DecidableEq ι] in
@[simp] theorem safe_update {k : K} {f : Row → Row} {next : Prog K Row R E} :
    (Prog.update k f next).Safe S C known seen [] [] ↔
      S.Tame f ∧ ∀ row, (∀ row', known k = some row' → row' = row) →
        next.Safe S C (Function.update known k (some row)) seen [(k, f)] [] := by
  simp [Prog.Safe]

end Clean

/-- What holds of a client that is under way. -/
structure ClientOk (C : Contract Row R) (db : Db ι K Row R E) (i : ι) (prog : Prog K Row R E)
    (updates : List (K × (Row → Row))) (known : K → Option Row) (seen : List (List Row)) :
    Prop where
  /-- It holds the locks of the rows it knows. -/
  held : ∀ k row, known k = some row → db.holder k = some i
  holds : S.Holds db.rows known
  /-- The tables it has seen are earlier ones. -/
  earlier : ∀ old ∈ seen, C.keeps old db.rows
  /-- It holds the locks of the rows it has updated. -/
  updated : ∀ u ∈ updates, db.holder u.1 = some i
  tame : ∀ u ∈ updates, S.Tame u.2
  safe : prog.Safe S C known seen updates (db.own i)

/-- **The invariant of a run.** -/
structure Inv (C : Contract Row R) (db : Db ι K Row R E) : Prop where
  /-- The rows in the table and in flight do not clash. -/
  sound : S.Sound (db.rows ++ db.inFlight.map Prod.snd)
  clients : ∀ i prog updates, db.phase i = .running prog updates →
    ∃ known seen, ClientOk S C db i prog updates known seen

end Rule

/-! ### Rows -/

section Rows

variable {S : Schema K V Row} {updates : List (K × (Row → Row))} {rows own : List Row} {k : K}
  {row row' : Row}

theorem change_tame (h : ∀ u ∈ updates, S.Tame u.2) (row : Row) :
    S.key (S.change updates row) = S.key row ∧ S.unique (S.change updates row) = S.unique row := by
  induction updates generalizing row with
  | nil => exact ⟨rfl, rfl⟩
  | cons u rest ih =>
    obtain ⟨hkey, hunique⟩ := ih (fun v hv => h v (mem_cons_of_mem _ hv))
      (if S.key row = u.1 then u.2 row else row)
    rw [Schema.change, foldl_cons]
    split at hkey
    · rename_i hu
      obtain ⟨hk, hq⟩ := h u mem_cons_self row
      rw [if_pos hu] at hunique ⊢
      exact ⟨hkey.trans hk, hunique.trans hq⟩
    · rename_i hu
      rw [if_neg hu] at hunique ⊢
      exact ⟨hkey, hunique⟩

theorem change_of_forall_ne (h : ∀ u ∈ updates, S.key row ≠ u.1) : S.change updates row = row := by
  induction updates with
  | nil => rfl
  | cons u rest ih =>
    rw [Schema.change, foldl_cons, if_neg (h u mem_cons_self)]
    exact ih fun v hv => h v (mem_cons_of_mem _ hv)

theorem clash_change_iff (h : ∀ u ∈ updates, S.Tame u.2) :
    S.Clash (S.change updates row) (S.change updates row') ↔ S.Clash row row' := by
  obtain ⟨hk, hq⟩ := change_tame h row
  obtain ⟨hk', hq'⟩ := change_tame h row'
  rw [Schema.Clash, Schema.Clash, hk, hk', hq, hq']

theorem find_mem (h : S.find rows k = some row) : row ∈ rows ∧ S.key row = k :=
  ⟨List.mem_of_find?_eq_some h, by simpa using List.find?_some h⟩

theorem find_append (h : S.find rows k = some row) (own : List Row) :
    S.find (rows ++ own) k = some row := by
  rw [Schema.find, List.find?_append]
  rw [Schema.find] at h
  rw [h, Option.some_or]

theorem find_map_change (h : ∀ u ∈ updates, S.Tame u.2) (rows : List Row) (k : K) :
    S.find (rows.map (S.change updates)) k = (S.find rows k).map (S.change updates) := by
  rw [Schema.find, Schema.find, List.find?_map]
  congr 2
  funext row
  rw [comp_apply, (change_tame h row).1]

theorem find_view (htame : ∀ u ∈ updates, S.Tame u.2) (hne : ∀ u ∈ updates, u.1 ≠ k)
    (h : S.find rows k = some row) :
    S.find ((rows ++ own).map (S.change updates)) k = some row := by
  rw [find_map_change htame, find_append h, Option.map_some]
  have hkey := (find_mem h).2
  rw [change_of_forall_ne fun u hu he => hne u hu (he.symm.trans hkey)]

omit [DecidableEq K] in
theorem Schema.Sound.eq_of_clash (hs : S.Sound rows) (hrow : row ∈ rows) (hrow' : row' ∈ rows)
    (h : S.Clash row row') : row = row' := by
  have : Std.Symm fun row row' => ¬ S.Clash row row' := ⟨fun _ _ hn hc => hn hc.symm⟩
  by_contra hne
  exact hs.forall hrow hrow' hne h

omit [DecidableEq K] in
theorem Schema.Sound.of_perm {rows' : List Row} (hs : S.Sound rows) (h : rows.Perm rows') :
    S.Sound rows' :=
  (h.pairwise_iff fun hn hc => hn hc.symm).1 hs

end Rows

/-! ### The steps of a run -/

section Steps

variable {S : Schema K V Row} {C : Contract Row R} {db db' : Db ι K Row R E}
  {i j : ι} {prog : Prog K Row R E} {updates : List (K × (Row → Row))} {known : K → Option Row}
  {seen : List (List Row)}

section Own

omit [DecidableEq K]

theorem own_insert_self (row : Row) : (db.insert i row).own i = db.own i ++ [row] := by
  simp [Db.own, Db.insert, filter_append]

theorem own_insert_ne (row : Row) (h : j ≠ i) : (db.insert i row).own j = db.own j := by
  simp [Db.own, Db.insert, filter_append, h.symm]

theorem own_close_ne {rows : List Row} {phase : Phase K Row R E} {log : List (ι × R)}
    (h : j ≠ i) : (db.close i rows phase log).own j = db.own j := by
  unfold Db.own Db.close
  rw [filter_filter]
  congr 1
  refine filter_congr fun p _ => ?_
  by_cases hp : p.1 = j
  · simp [hp, h]
  · simp [hp]

theorem sound_filter (hs : S.Sound (db.rows ++ db.inFlight.map Prod.snd)) :
    S.Sound (db.rows ++ (db.inFlight.filter fun p => p.1 ≠ i).map Prod.snd) :=
  hs.sublist ((List.Sublist.refl _).append (filter_sublist.map _))

theorem perm_own (db : Db ι K Row R E) (i : ι) : (db.rows ++ db.inFlight.map Prod.snd).Perm
      ((db.rows ++ db.own i) ++ (db.inFlight.filter fun p => p.1 ≠ i).map Prod.snd) := by
  rw [append_assoc]
  refine List.Perm.append_left _ ?_
  rw [Db.own, ← map_append]
  refine List.Perm.map _ ?_
  have h := filter_append_perm (fun p : ι × Row => decide (p.1 = i)) db.inFlight
  simpa using h.symm

end Own

/-- What another client does leaves alone the rows that this one has locked. -/
structure Frame (db db' : Db ι K Row R E) (S : Schema K V Row) (C : Contract Row R) (j : ι) :
    Prop where
  keeps : C.keeps db.rows db'.rows
  rows : ∀ k row, db.holder k = some j → S.find db.rows k = some row →
    S.find db'.rows k = some row
  holder : ∀ k, db.holder k = some j → db'.holder k = some j
  own : db'.own j = db.own j
  phase : db'.phase j = db.phase j

theorem ClientOk.frame (h : ClientOk S C db j prog updates known seen) (hf : Frame db db' S C j) :
    ClientOk S C db' j prog updates known seen where
  held k row hk := hf.holder k (h.held k row hk)
  holds k row hk := hf.rows k row (h.held k row hk) (h.holds k row hk)
  earlier old hold := C.trans _ _ _ (h.earlier old hold) hf.keeps
  updated u hu := hf.holder u.1 (h.updated u hu)
  tame := h.tame
  safe := by
    rw [hf.own]
    exact h.safe

theorem Inv.of_client (hinv : Inv S C db)
    (hsound : S.Sound (db'.rows ++ db'.inFlight.map Prod.snd)) (hframe : ∀ j ≠ i, Frame db db' S C j)
    (hclient : ∀ prog updates, db'.phase i = .running prog updates →
      ∃ known seen, ClientOk S C db' i prog updates known seen) : Inv S C db' := by
  refine ⟨hsound, fun j prog updates hj => ?_⟩
  by_cases hij : j = i
  · rw [hij] at hj ⊢
    exact hclient prog updates hj
  · have hf := hframe j hij
    rw [hf.phase] at hj
    obtain ⟨known, seen, hok⟩ := hinv.clients j prog updates hj
    exact ⟨known, seen, hok.frame hf⟩

theorem frame_advance (h : j ≠ i) : Frame db (db.advance i prog updates) S C j where
  keeps := C.refl _
  rows _ _ _ hrow := hrow
  holder _ hk := hk
  own := rfl
  phase := update_of_ne h _ _

theorem frame_hold {k : K} (hfree : db.Free i k) (h : j ≠ i) :
    Frame db ((db.hold i k).advance i prog updates) S C j where
  keeps := C.refl _
  rows _ _ _ hrow := hrow
  holder k' hk' := by
    have hne : k' ≠ k := by
      rintro rfl
      rcases hfree with hnone | hown
      · rw [hnone] at hk'
        cases hk'
      · rw [hown] at hk'
        exact h (Option.some.inj hk').symm
    exact (update_of_ne hne _ _).trans hk'
  own := rfl
  phase := update_of_ne h _ _

theorem frame_insert {row : Row} (h : j ≠ i) :
    Frame db ((db.insert i row).advance i prog updates) S C j where
  keeps := C.refl _
  rows _ _ _ hrow := hrow
  holder _ hk := hk
  own := own_insert_ne row h
  phase := update_of_ne h _ _

theorem frame_close {rows : List Row} {phase : Phase K Row R E} {log : List (ι × R)} (h : j ≠ i)
    (hkeeps : C.keeps db.rows rows) (hrows : ∀ k row, db.holder k = some j → S.find db.rows k = some row →
      S.find rows k = some row) : Frame db (db.close i rows phase log) S C j where
  keeps := hkeeps
  rows := hrows
  holder k hk := by
    have hne : db.holder k ≠ some i := by
      rw [hk]
      exact fun he => h (Option.some.inj he)
    exact (if_neg hne).trans hk
  own := own_close_ne h
  phase := update_of_ne h _ _

theorem sound_insert {row : Row} (hs : S.Sound (db.rows ++ db.inFlight.map Prod.snd))
    (htame : ∀ u ∈ updates, S.Tame u.2) (hview : ∀ row' ∈ db.view S i updates, ¬ S.Clash row row')
    (hflight : ∀ p ∈ db.inFlight, p.1 ≠ i → ¬ S.Clash row p.2) :
    S.Sound (db.rows ++ (db.insert i row).inFlight.map Prod.snd) := by
  have hown : ∀ row' ∈ db.rows ++ db.own i, ¬ S.Clash row row' := by
    intro row' hrow' hc
    obtain ⟨hk, hq⟩ := change_tame htame row'
    refine hview _ (mem_map_of_mem hrow') ?_
    rw [Schema.Clash, hk, hq]
    exact hc
  simp only [Db.insert, map_append, map_cons, map_nil]
  rw [← append_assoc]
  refine pairwise_append.2 ⟨hs, pairwise_singleton _ _, fun row' hrow' new hnew => ?_⟩
  rw [mem_singleton.1 hnew]
  intro hc
  rw [mem_append] at hrow'
  rcases hrow' with hrow' | hrow'
  · exact hown row' (mem_append_left _ hrow') hc.symm
  · obtain ⟨p, hp, rfl⟩ := mem_map.1 hrow'
    by_cases hi : p.1 = i
    · refine hown p.2 (mem_append_right _ (mem_map_of_mem (mem_filter.2 ⟨hp, ?_⟩)))
        hc.symm
      simpa using hi
    · exact hflight p hp hi hc.symm

theorem sound_commit (hs : S.Sound (db.rows ++ db.inFlight.map Prod.snd))
    (htame : ∀ u ∈ updates, S.Tame u.2) :
    S.Sound (db.view S i updates ++ (db.inFlight.filter fun p => p.1 ≠ i).map Prod.snd) := by
  obtain ⟨hown, hothers, hcross⟩ := pairwise_append.1 (hs.of_perm (perm_own db i))
  refine pairwise_append.2 ⟨?_, hothers, ?_⟩
  · refine pairwise_map.2 (hown.imp fun hn => ?_)
    rwa [clash_change_iff htame]
  · intro row hrow row' hrow'
    obtain ⟨old, hold, rfl⟩ := mem_map.1 hrow
    obtain ⟨hk, hq⟩ := change_tame htame old
    have hne := hcross old hold row' hrow'
    rwa [Schema.Clash, hk, hq]

theorem Inv.advance {next : Db ι K Row R E} (hinv : Inv S C db)
    (hsound : S.Sound (next.rows ++ next.inFlight.map Prod.snd))
    (hframe : ∀ j ≠ i, Frame db (next.advance i prog updates) S C j)
    (hok : ClientOk S C (next.advance i prog updates) i prog updates known seen) :
    Inv S C (next.advance i prog updates) := by
  refine hinv.of_client hsound hframe fun prog' updates' hphase => ?_
  have hself : (next.advance i prog updates).phase i = .running prog updates :=
    update_self _ _ _
  rw [hself] at hphase
  cases hphase
  exact ⟨known, seen, hok⟩

theorem Inv.close {rows : List Row} {phase : Phase K Row R E} {log : List (ι × R)}
    (hinv : Inv S C db)
    (hsound : S.Sound (rows ++ (db.inFlight.filter fun p => p.1 ≠ i).map Prod.snd))
    (hended : ∀ prog updates, phase ≠ .running prog updates)
    (hframe : ∀ j ≠ i, Frame db (db.close i rows phase log) S C j) :
    Inv S C (db.close i rows phase log) := by
  refine hinv.of_client hsound hframe fun prog updates hphase => ?_
  have hself : (db.close i rows phase log).phase i = phase := update_self _ _ _
  exact absurd (hself.symm.trans hphase) (hended prog updates)

theorem known_of_update_none {k k' : K} {row : Row}
    (h : Function.update known k none k' = some row) : known k' = some row := by
  by_cases hkey : k' = k
  · rw [hkey, update_self] at h
    cases h
  · rwa [update_of_ne hkey] at h

omit [DecidableEq ι] in
theorem holder_hold {k k' : K} (h : db.holder k' = some i) : (db.hold i k).holder k' = some i := by
  by_cases hkey : k' = k
  · rw [hkey]
    exact update_self _ _ _
  · exact (update_of_ne hkey _ _).trans h

theorem view_clean (hupdates : updates = []) (hown : db.own i = []) :
    db.view S i updates = db.rows := by
  rw [Db.view, hown, hupdates, append_nil]
  exact map_id _

theorem ClientOk.held_update {k : K} {row : Row} (hok : ClientOk S C db i prog updates known seen) :
    ∀ k' row', Function.update known k (some row) k' = some row' →
      (db.hold i k).holder k' = some i := by
  intro k' row' hk'
  by_cases hkey : k' = k
  · rw [hkey]
    exact update_self _ _ _
  · rw [update_of_ne hkey] at hk'
    exact holder_hold (hok.held k' row' hk')

theorem ClientOk.holds_update {k : K} {row : Row} (hok : ClientOk S C db i prog updates known seen)
    (hrow : S.find db.rows k = some row) :
    S.Holds db.rows (Function.update known k (some row)) := by
  intro k' row' hk'
  by_cases hkey : k' = k
  · rw [hkey, update_self] at hk'
    cases hk'
    rw [hkey]
    exact hrow
  · rw [update_of_ne hkey] at hk'
    exact hok.holds k' row' hk'

/-- **The step lemma**: a step keeps the invariant; it leaves the table and the log alone, or it is a
commit that the contract allows. -/
theorem Move.spec (hinv : Inv S C db) (h : Move S db i db') :
    Inv S C db' ∧ ((db'.rows = db.rows ∧ db'.log = db.log) ∨
      ∃ r, C.commits db.rows db'.rows r ∧ db'.log = db.log ++ [(i, r)]) := by
  cases h with
  | @read next updates hp =>
    obtain ⟨known, seen, hok⟩ := hinv.clients _ _ _ hp
    refine ⟨?_, .inl ⟨rfl, rfl⟩⟩
    by_cases hclean : updates = [] ∧ db.own i = []
    · rw [view_clean hclean.1 hclean.2]
      refine hinv.advance hinv.sound (fun j hj => frame_advance hj)
        ⟨hok.held, hok.holds, fun old hold => ?_, hok.updated, hok.tame,
          (hok.safe _).1 hclean.1 hclean.2⟩
      rcases mem_cons.1 hold with rfl | hold
      · exact C.refl _
      · exact hok.earlier old hold
    · exact hinv.advance hinv.sound (fun j hj => frame_advance hj)
        ⟨hok.held, hok.holds, hok.earlier, hok.updated, hok.tame,
          (hok.safe _).2 (not_and_or.1 hclean)⟩
  | @miss k next updates hp hrow =>
    obtain ⟨known, seen, hok⟩ := hinv.clients _ _ _ hp
    refine ⟨?_, .inl ⟨rfl, rfl⟩⟩
    by_cases hclean : updates = [] ∧ db.own i = []
    · refine hinv.advance hinv.sound (fun j hj => frame_advance hj)
        ⟨fun k' row' hk' => ?_, fun k' row' hk' => ?_, hok.earlier, hok.updated, hok.tame,
          (hok.safe none).1 hclean.1 hclean.2⟩
      · exact hok.held k' row' (known_of_update_none hk')
      · exact hok.holds k' row' (known_of_update_none hk')
    · exact hinv.advance hinv.sound (fun j hj => frame_advance hj)
        ⟨hok.held, hok.holds, hok.earlier, hok.updated, hok.tame,
          (hok.safe none).2 (not_and_or.1 hclean)⟩
  | @lock k next updates row hp hrow hfree =>
    obtain ⟨known, seen, hok⟩ := hinv.clients _ _ _ hp
    refine ⟨?_, .inl ⟨rfl, rfl⟩⟩
    have hupdated : ∀ u ∈ updates, (db.hold i k).holder u.1 = some i := fun u hu =>
      holder_hold (hok.updated u hu)
    by_cases hclean : updates = [] ∧ db.own i = []
    · rw [view_clean hclean.1 hclean.2] at hrow
      exact hinv.advance hinv.sound (fun j hj => frame_hold hfree hj)
        ⟨hok.held_update, hok.holds_update hrow, hok.earlier, hupdated, hok.tame,
          (hok.safe (some row)).1 hclean.1 hclean.2⟩
    · exact hinv.advance hinv.sound (fun j hj => frame_hold hfree hj)
        ⟨fun k' row' hk' => holder_hold (hok.held k' row' hk'), hok.holds, hok.earlier, hupdated,
          hok.tame, (hok.safe (some row)).2 (not_and_or.1 hclean)⟩
  | @update k f next updates row hp hrow hfree =>
    obtain ⟨known, seen, hok⟩ := hinv.clients _ _ _ hp
    refine ⟨?_, .inl ⟨rfl, rfl⟩⟩
    have hupdated : ∀ u ∈ updates ++ [(k, f)], (db.hold i k).holder u.1 = some i := by
      intro u hu
      rcases mem_append.1 hu with hu | hu
      · exact holder_hold (hok.updated u hu)
      · rw [mem_singleton.1 hu]
        exact update_self _ _ _
    have htame : ∀ u ∈ updates ++ [(k, f)], S.Tame u.2 := by
      intro u hu
      rcases mem_append.1 hu with hu | hu
      · exact hok.tame u hu
      · rw [mem_singleton.1 hu]
        exact hok.safe.1
    by_cases hclean : updates = [] ∧ db.own i = []
    · rw [view_clean hclean.1 hclean.2] at hrow
      refine hinv.advance hinv.sound (fun j hj => frame_hold hfree hj)
        ⟨hok.held_update, hok.holds_update hrow, hok.earlier, hupdated, htame,
          hok.safe.2.1 hclean.1 hclean.2 row fun row' hk => ?_⟩
      exact Option.some.inj ((hok.holds k row' hk).symm.trans hrow)
    · exact hinv.advance hinv.sound (fun j hj => frame_hold hfree hj)
        ⟨fun k' row' hk' => holder_hold (hok.held k' row' hk'), hok.holds, hok.earlier, hupdated,
          htame, hok.safe.2.2 (not_and_or.1 hclean)⟩
  | @insert row next updates hp hview hflight =>
    obtain ⟨known, seen, hok⟩ := hinv.clients _ _ _ hp
    have hsafe : next.Safe S C known seen updates ((db.insert i row).own i) := by
      rw [own_insert_self]
      exact hok.safe
    exact ⟨hinv.advance (sound_insert hinv.sound hok.tame hview hflight)
      (fun j hj => frame_insert hj) ⟨hok.held, hok.holds, hok.earlier, hok.updated, hok.tame, hsafe⟩,
      .inl ⟨rfl, rfl⟩⟩
  | @commit r updates hp =>
    obtain ⟨known, seen, hok⟩ := hinv.clients _ _ _ hp
    have hown : S.Sound (db.rows ++ db.own i) :=
      (pairwise_append.1 (hinv.sound.of_perm (perm_own db i))).1
    have hcommits : C.commits db.rows (db.view S i updates) r :=
      hok.safe _ hok.holds hok.earlier hown
    refine ⟨hinv.close (sound_commit hinv.sound hok.tame) nofun fun j hj =>
      frame_close hj (C.of_commits _ _ _ hcommits) ?_, .inr ⟨r, hcommits, rfl⟩⟩
    -- the rows that another client has locked are none of those that are updated
    intro k row hk hrow
    refine find_view hok.tame (fun u hu hkey => ?_) hrow
    have hmine := hok.updated u hu
    rw [hkey, hk] at hmine
    exact hj (Option.some.inj hmine)
  | @fail prog updates hp e =>
    exact ⟨hinv.close (sound_filter hinv.sound) nofun
      fun j hj => frame_close hj (C.refl _) fun _ _ _ hrow => hrow, .inl ⟨rfl, rfl⟩⟩

theorem Inv.init {rows : List Row} {prog : ι → Prog K Row R E} (hs : S.Sound rows)
    (hsafe : ∀ i, (prog i).Safe S C (fun _ => none) [] [] []) : Inv S C (Db.init rows prog) where
  sound := by simpa [Db.init] using hs
  clients i p updates hp := by
    cases hp
    exact ⟨fun _ => none, [], nofun, nofun, nofun, nofun, nofun, hsafe i⟩

/-- **The rule for runs**: the invariant is kept, and so is what every commit keeps. -/
theorem run_keeps [DecidableEq V] {events : List (ι × Action)} (hinv : Inv S C db)
    (h : run S db events = some db') (I : List Row → List (ι × R) → Prop) (h0 : I db.rows db.log)
    (hcommit : ∀ rows rows' log i r, I rows log → C.commits rows rows' r →
      I rows' (log ++ [(i, r)])) :
    Inv S C db' ∧ C.keeps db.rows db'.rows ∧ I db'.rows db'.log := by
  induction events generalizing db with
  | nil =>
    cases h
    exact ⟨hinv, C.refl _, h0⟩
  | cons event rest ih =>
    rw [run, foldlM_cons, Option.bind_eq_bind, Option.bind_eq_some_iff] at h
    obtain ⟨mid, hstep, hrest⟩ := h
    obtain ⟨hmid, hsame | ⟨r, hcommits, hlog⟩⟩ := (move_of_step hstep).spec hinv
    · obtain ⟨hinv', hkeeps, hI⟩ := ih hmid hrest (by rw [hsame.1, hsame.2]; exact h0)
      rw [hsame.1] at hkeeps
      exact ⟨hinv', hkeeps, hI⟩
    · obtain ⟨hinv', hkeeps, hI⟩ := ih hmid hrest (by rw [hlog]; exact hcommit _ _ _ _ r h0 hcommits)
      exact ⟨hinv', C.trans _ _ _ (C.of_commits _ _ _ hcommits) hkeeps, hI⟩

end Steps

end Omniscience.ReadCommitted
