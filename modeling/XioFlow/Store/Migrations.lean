/-
  XioFlow.Store.Migrations

  The numbered migrations of the store's database and the ledger they keep.

  `runMigrations` writes an `applying` row outside of the transaction that runs
  a migration, and turns it into an `applied` row inside of it.  A process that
  dies leaves what it committed: `launch` is one start of the store, which runs
  to its end or is cut off behind any of its statements.  `Sound` is what every
  such history keeps, and `Outcome` how a run from there ends.
-/

import Mathlib.Data.List.Induction
import Mathlib.Data.List.Sort
import XioFlow.Lib.Cutoff

namespace XioFlow.Migrations

open XioFlow.Lib (Prog)
open XioFlow.Lib.Prog hiding throw tryCatch

/-! ## The database -/

inductive MigrationState where
  | applying
  | applied
  deriving DecidableEq, Repr

structure MigrationRow where
  version : Nat
  name : String
  checksum : String
  state : MigrationState
  appliedAt : Option String
  deriving DecidableEq, Repr

/-- A migration; its `up` works on the tables other than the ledger, in any number of
    statements, each of which may fail. -/
structure StoreMigration (S : Type) where
  version : Nat
  name : String
  checksum : String
  up : Prog S String Unit

/-- What a database file holds: its tables, the ledger (when its table exists) and
    `PRAGMA user_version`. -/
structure Database (S : Type) where
  schema : S
  ledger : Option (List MigrationRow)
  userVersion : Nat
  deriving DecidableEq

/-- A connection: what is committed, and what an open transaction made of it. -/
structure Connection (S : Type) where
  committed : Database S
  working : Option (Database S)

variable {S : Type}

/-- What the connection's own statements read. -/
def Connection.view (c : Connection S) : Database S := c.working.getD c.committed

/-- Where a statement writes: into the open transaction, or else straight into the file. -/
def Connection.write (c : Connection S) (db : Database S) : Connection S :=
  match c.working with
  | none => ⟨db, none⟩
  | some _ => ⟨c.committed, some db⟩

/-- The tables other than the ledger, as a statement of the connection sees them. -/
def schemaPart : Part (Connection S) S where
  get c := c.view.schema
  put c s := c.write { c.view with schema := s }
  get_put c s := by
    obtain ⟨db, _ | w⟩ := c <;> rfl
  put_get c := by
    obtain ⟨db, _ | w⟩ := c <;> rfl
  put_put c s s' := by
    obtain ⟨db, _ | w⟩ := c <;> rfl

/-! ## Its statements -/

/-- One SQL statement that reads or writes. -/
def statement (f : Database S → Except String (Database S)) : Prog (Connection S) String Unit :=
  exec fun c => (f c.view).map c.write

def beginImmediate : Prog (Connection S) String Unit :=
  exec fun c => match c.working with
    | none => .ok ⟨c.committed, some c.committed⟩
    | some _ => .error "cannot start a transaction within a transaction"

def commit : Prog (Connection S) String Unit :=
  exec fun c => match c.working with
    | some db => .ok ⟨db, none⟩
    | none => .error "cannot commit - no transaction is active"

def rollback : Prog (Connection S) String Unit :=
  exec fun c => match c.working with
    | some _ => .ok ⟨c.committed, none⟩
    | none => .error "cannot rollback - no transaction is active"

def noLedger : String := "no such table: xio_schema_migrations"

/-- `CREATE TABLE IF NOT EXISTS xio_schema_migrations`. -/
def createLedger : Prog (Connection S) String Unit :=
  statement fun db => .ok { db with ledger := some (db.ledger.getD []) }

def userVersion : Prog (Connection S) String Nat := read fun c => c.view.userVersion

/-- `migrationRows(db).get(version)`; the version is the table's primary key. -/
def migrationRow (version : Nat) : Prog (Connection S) String (Option MigrationRow) :=
  block fun c => match c.view.ledger with
    | none => .error noLedger
    | some rows => .ok (c, rows.find? fun row => row.version = version)

/-- The row that is written ahead of a migration. -/
def StoreMigration.applying (m : StoreMigration S) : MigrationRow :=
  ⟨m.version, m.name, m.checksum, .applying, none⟩

def insertApplying (m : StoreMigration S) : Prog (Connection S) String Unit :=
  statement fun db => match db.ledger with
    | none => .error noLedger
    | some rows =>
      if rows.any fun row => row.version = m.version then
        .error "UNIQUE constraint failed: xio_schema_migrations.version"
      else
        .ok { db with ledger := some (rows ++ [m.applying]) }

/-- What the `UPDATE` of a version makes of a row. -/
def MigrationRow.applied (version : Nat) (now : String) (row : MigrationRow) : MigrationRow :=
  if row.version = version then { row with state := .applied, appliedAt := some now } else row

def updateApplied (version : Nat) (now : String) : Prog (Connection S) String Unit :=
  statement fun db => match db.ledger with
    | none => .error noLedger
    | some rows => .ok { db with ledger := some (rows.map (MigrationRow.applied version now)) }

def setUserVersion (version : Nat) : Prog (Connection S) String Unit :=
  statement fun db => .ok { db with userVersion := version }

/-! ## `runMigrations` -/

/-- One turn of the loop; `now` is the clock as the turn reads it. -/
def migrate (now : Nat → String) (current : Nat) (m : StoreMigration S) :
    Prog (Connection S) String Unit := do
  match ← migrationRow m.version with
  | some existing =>
    throwIf (existing.state ≠ .applied)
      ("Store migration " ++ toString m.version ++ " is half-applied")
    throwIf (existing.checksum ≠ m.checksum || existing.name ≠ m.name)
      ("Store migration " ++ toString m.version ++ " checksum/name mismatch")
    throwIf (current < m.version)
      ("Store migration " ++ toString m.version ++
        " is marked applied but PRAGMA user_version is " ++ toString current)
  | none =>
    throwIf (m.version ≤ current)
      ("Store migration " ++ toString m.version ++
        " ledger row is missing at user_version " ++ toString current)
    insertApplying m
    beginImmediate
    -- the row above is committed by now, whatever becomes of the transaction
    tryCatch (do
      m.up.within schemaPart
      updateApplied m.version (now m.version)
      setUserVersion m.version
      commit) fun error => do
        tryCatch rollback fun _ => throw "Store migration rollback failed"
        throw error

def migrateAll (now : Nat → String) (current : Nat) :
    List (StoreMigration S) → Prog (Connection S) String Unit
  | [] => pure ()
  | m :: ms => do
    migrate now current m
    migrateAll now current ms

/-- The migrations in the order of their versions. -/
def ordered (migrations : List (StoreMigration S)) : List (StoreMigration S) :=
  migrations.insertionSort fun left right => left.version ≤ right.version

/-- The versions count up from the given one. -/
def contiguousFrom (first : Nat) : List (StoreMigration S) → Bool
  | [] => true
  | m :: ms => decide (m.version = first) && contiguousFrom (first + 1) ms

def latest (migrations : List (StoreMigration S)) : Nat :=
  ((ordered migrations).getLast?.map fun m => m.version).getD 0

def runMigrations (now : Nat → String) (migrations : List (StoreMigration S)) :
    Prog (Connection S) String Nat :=
  if migrations.isEmpty then userVersion
  else do
    throwIf (!contiguousFrom 1 (ordered migrations))
      "Store migrations must be contiguous and start at version 1"
    createLedger
    let current ← userVersion
    throwIf (latest migrations < current)
      ("Unsupported store schema version " ++ toString current ++ "; latest supported is " ++
        toString (latest migrations))
    migrateAll now current (ordered migrations)
    userVersion

section Statements

variable {D : Connection S → Prop} {Q : Unit → Connection S → Prop}
  {E : String → Connection S → Prop} {f : Database S → Except String (Database S)}
  {db db' w w' : Database S}

/-- Outside of a transaction a statement writes the file. -/
theorem during_autocommit (hf : f db = .ok db') (hD : D ⟨db, none⟩) (hD' : D ⟨db', none⟩)
    (hQ : Q () ⟨db', none⟩) : during D (statement f) Q E ⟨db, none⟩ := by
  have hview : (⟨db, none⟩ : Connection S).view = db := rfl
  refine during_exec hD (fun c h => ?_) fun e h => ?_
  · rw [hview, hf] at h
    cases h
    exact ⟨hD', hQ⟩
  · rw [hview, hf] at h
    cases h

/-- Inside of a transaction the file stays as it is. -/
theorem during_inside (hf : f w = .ok w') (hD : ∀ w, D ⟨db, w⟩) (hQ : Q () ⟨db, some w'⟩) :
    during D (statement f) Q E ⟨db, some w⟩ := by
  have hview : (⟨db, some w⟩ : Connection S).view = w := rfl
  refine during_exec (hD _) (fun c h => ?_) fun e h => ?_
  · rw [hview, hf] at h
    cases h
    exact ⟨hD _, hQ⟩
  · rw [hview, hf] at h
    cases h

theorem during_begin (hD : ∀ w, D ⟨db, w⟩) (hQ : Q () ⟨db, some db⟩) :
    during D beginImmediate Q E ⟨db, none⟩ :=
  during_exec (hD _) (fun _ h => by cases h; exact ⟨hD _, hQ⟩) fun _ h => by cases h

theorem during_commit (hD : D ⟨db, some w⟩) (hD' : D ⟨w, none⟩) (hQ : Q () ⟨w, none⟩) :
    during D commit Q E ⟨db, some w⟩ :=
  during_exec hD (fun _ h => by cases h; exact ⟨hD', hQ⟩) fun _ h => by cases h

theorem during_rollback (hD : ∀ w, D ⟨db, w⟩) (hQ : Q () ⟨db, none⟩) :
    during D rollback Q E ⟨db, some w⟩ :=
  during_exec (hD _) (fun _ h => by cases h; exact ⟨hD _, hQ⟩) fun _ h => by cases h

end Statements

/-! ## Histories of starts -/

/-- One start of the store: the migrations it brings, its clock, and the statement behind
    which it is cut off, if it does not run to its end. -/
structure Launch (S : Type) where
  migrations : List (StoreMigration S)
  now : Nat → String
  stop : Option Nat

/-- What a start leaves in the file; what was not committed is gone. -/
def launch (db : Database S) (l : Launch S) : Database S :=
  match l.stop with
  | none => ((runMigrations l.now l.migrations).run ⟨db, none⟩).1.committed
  | some n => (cut n (runMigrations l.now l.migrations) ⟨db, none⟩).committed

/-- A database that no migration has run on. -/
def fresh (schema : S) : Database S := ⟨schema, none, 0⟩

/-! ## What the file holds -/

/-- The schema that the `up`s of the migrations, each run once and in the order of their
    versions, make of the first one. -/
inductive Built (s₀ : S) : List (StoreMigration S) → S → Prop where
  | nil : Built s₀ [] s₀
  | snoc {ms : List (StoreMigration S)} {s s' : S} {m : StoreMigration S} (before : Built s₀ ms s)
      (version : m.version = ms.length + 1) (up : m.up.run s = (s', .ok ())) :
      Built s₀ (ms ++ [m]) s'

def Database.rows (db : Database S) : List MigrationRow := db.ledger.getD []

/-- A migration and a row that name the same. -/
def Records (m : StoreMigration S) (row : MigrationRow) : Prop :=
  row.version = m.version ∧ row.name = m.name ∧ row.checksum = m.checksum ∧ row.state = .applied

/-- The ledger of the migrations: their rows, and at most the one row that was written ahead
    of the next. -/
inductive Ledger (ms : List (StoreMigration S)) : List MigrationRow → Prop where
  | settled {rows : List MigrationRow} (recorded : List.Forall₂ Records ms rows) : Ledger ms rows
  | pending {rows : List MigrationRow} {row : MigrationRow} (recorded : List.Forall₂ Records ms rows)
      (version : row.version = ms.length + 1) (state : row.state = .applying) :
      Ledger ms (rows ++ [row])

/-- The migrations have been applied to the file, and nothing else. -/
structure Sound (s₀ : S) (ms : List (StoreMigration S)) (db : Database S) : Prop where
  built : Built s₀ ms db.schema
  ledger : Ledger ms db.rows
  version : db.userVersion = ms.length

theorem sound_fresh (s₀ : S) : Sound s₀ [] (fresh s₀) := ⟨.nil, .settled .nil, rfl⟩

variable {s₀ : S} {ms : List (StoreMigration S)} {db : Database S}

theorem Built.version {s : S} (h : Built s₀ ms s) (i : Nat) (hi : i < ms.length) :
    ms[i].version = i + 1 := by
  induction h with
  | nil => cases hi
  | @snoc ms s s' m before version up ih =>
    by_cases hlast : i < ms.length
    · rw [List.getElem_append_left hlast]
      exact ih hlast
    · have heq : i = ms.length := by
        rw [List.length_append, List.length_singleton] at hi
        omega
      subst heq
      rw [List.getElem_concat_length rfl]
      exact version

/-- What has no open row: the next migration can start. -/
structure Clean (s₀ : S) (ms : List (StoreMigration S)) (db : Database S) : Prop where
  built : Built s₀ ms db.schema
  ledger : ∃ rows, db.ledger = some rows ∧ List.Forall₂ Records ms rows
  version : db.userVersion = ms.length

theorem Clean.sound (h : Clean s₀ ms db) : Sound s₀ ms db := by
  obtain ⟨rows, hrows, hrecorded⟩ := h.ledger
  have hledger : Ledger ms db.rows := by
    rw [Database.rows, hrows]
    exact .settled hrecorded
  exact ⟨h.built, hledger, h.version⟩

section Rows

variable {s₀ s : S} {ms : List (StoreMigration S)} {rows : List MigrationRow}

/-- A recorded row stands at the place of its version. -/
theorem recorded_at (hb : Built s₀ ms s) (h : List.Forall₂ Records ms rows) {row : MigrationRow}
    (hrow : row ∈ rows) :
    ∃ (i : Nat) (hi : i < ms.length), row.version = i + 1 ∧ Records ms[i] row := by
  obtain ⟨hlength, hrecords⟩ := List.forall₂_iff_get.1 h
  obtain ⟨i, hi, rfl⟩ := List.mem_iff_getElem.1 hrow
  have hms : i < ms.length := by rw [hlength]; exact hi
  have hr : Records ms[i] rows[i] := hrecords i hms hi
  exact ⟨i, hms, hr.1.trans (hb.version i hms), hr⟩

variable {v : Nat}

/-- Every version up to the last one has its row. -/
theorem exists_recorded (hb : Built s₀ ms s) (h : List.Forall₂ Records ms rows) (hpos : 1 ≤ v)
    (hv : v ≤ ms.length) : ∃ row ∈ rows, row.version = v ∧ row.state = .applied := by
  obtain ⟨hlength, hrecords⟩ := List.forall₂_iff_get.1 h
  have hms : v - 1 < ms.length := by omega
  have hrow : v - 1 < rows.length := by rw [← hlength]; exact hms
  have hr : Records ms[v - 1] rows[v - 1] := hrecords (v - 1) hms hrow
  refine ⟨rows[v - 1], List.getElem_mem hrow, ?_, hr.2.2.2⟩
  rw [hr.1, hb.version _ hms]
  omega

/-- The applied rows are those of the versions that have been applied. -/
theorem Ledger.applied_iff (h : Ledger ms rows) (hb : Built s₀ ms s) (v : Nat) :
    (∃ row ∈ rows, row.version = v ∧ row.state = .applied) ↔ 1 ≤ v ∧ v ≤ ms.length := by
  constructor
  · rintro ⟨row, hrow, rfl, hstate⟩
    have hmem : ∃ (i : Nat) (_ : i < ms.length), row.version = i + 1 := by
      cases h with
      | settled hrecorded =>
        obtain ⟨i, hi, hv, _⟩ := recorded_at hb hrecorded hrow
        exact ⟨i, hi, hv⟩
      | pending hrecorded _ happlying =>
        rcases List.mem_append.1 hrow with hrow | hrow
        · obtain ⟨i, hi, hv, _⟩ := recorded_at hb hrecorded hrow
          exact ⟨i, hi, hv⟩
        · rw [List.mem_singleton] at hrow
          rw [← hrow, hstate] at happlying
          cases happlying
    obtain ⟨i, hi, hv⟩ := hmem
    omega
  · rintro ⟨hpos, hle⟩
    cases h with
    | settled hrecorded => exact exists_recorded hb hrecorded hpos hle
    | pending hrecorded _ _ =>
      obtain ⟨row, hrow, hr⟩ := exists_recorded hb hrecorded hpos hle
      exact ⟨row, List.mem_append_left _ hrow, hr⟩

/-- A row that is found is that of an applied migration, or the one ahead. -/
theorem Ledger.found (h : Ledger ms rows) (hb : Built s₀ ms s) {row : MigrationRow}
    (hf : (rows.find? fun row => row.version = v) = some row) :
    (∃ (i : Nat) (hi : i < ms.length), v = i + 1 ∧ Records ms[i] row) ∨
      v = ms.length + 1 ∧ row.state = .applying := by
  have hv : row.version = v := by simpa using List.find?_some hf
  have hrow := List.mem_of_find?_eq_some hf
  cases h with
  | settled hrecorded =>
    obtain ⟨i, hi, hversion, hr⟩ := recorded_at hb hrecorded hrow
    exact .inl ⟨i, hi, hv.symm.trans hversion, hr⟩
  | pending hrecorded hversion happlying =>
    rcases List.mem_append.1 hrow with hrow | hrow
    · obtain ⟨i, hi, hversion, hr⟩ := recorded_at hb hrecorded hrow
      exact .inl ⟨i, hi, hv.symm.trans hversion, hr⟩
    · rw [List.mem_singleton] at hrow
      subst hrow
      exact .inr ⟨hv.symm.trans hversion, happlying⟩

/-- Where the row of the next version is missing, no row was written ahead. -/
theorem Ledger.settled_of_missing (h : Ledger ms rows)
    (hf : (rows.find? fun row => row.version = ms.length + 1) = none) :
    List.Forall₂ Records ms rows := by
  cases h with
  | settled hrecorded => exact hrecorded
  | @pending _ row _ hversion _ =>
    have hne := List.find?_eq_none.1 hf row (by simp)
    simp only [decide_eq_true_eq] at hne
    exact absurd hversion hne

theorem Ledger.exists_of_le (h : Ledger ms rows) (hb : Built s₀ ms s) (hpos : 1 ≤ v)
    (hle : v ≤ ms.length) : (rows.find? fun row => row.version = v) ≠ none := by
  intro hf
  obtain ⟨row, hrow, hv, _⟩ := (h.applied_iff hb v).2 ⟨hpos, hle⟩
  have hne := List.find?_eq_none.1 hf row hrow
  simp only [decide_eq_true_eq] at hne
  exact hne hv

end Rows

/-! ## One turn of the loop -/

/-- What survives if the process dies now, with migrations that may have been applied by then. -/
def Durable (P : List (StoreMigration S) → Prop) (s₀ : S) (c : Connection S) : Prop :=
  ∃ ms, P ms ∧ Sound s₀ ms c.committed

section Turn

variable {s₀ : S} {ms : List (StoreMigration S)} {db : Database S} {m : StoreMigration S}
  {now : Nat → String} {current : Nat} {P : List (StoreMigration S) → Prop}

/-- A row that is there is only checked. -/
theorem migrate_existing (h : Sound s₀ ms db) (hP : P ms) {row : MigrationRow}
    (hrow : (db.rows.find? fun row => row.version = m.version) = some row)
    (hledger : db.ledger.isSome) :
    during (Durable P s₀) (migrate now current m)
      (fun _ c => c = ⟨db, none⟩ ∧ m.version ≤ current ∧ Records m row)
      (fun _ c => c = ⟨db, none⟩) ⟨db, none⟩ := by
  obtain ⟨rows, hrows⟩ := Option.isSome_iff_exists.1 hledger
  have hD : Durable P s₀ ⟨db, none⟩ := ⟨ms, hP, h⟩
  rw [Database.rows, hrows, Option.getD_some] at hrow
  have hv : row.version = m.version := by simpa using List.find?_some hrow
  refine during_bind (during_block hD ?_ ?_)
  · intro c existing heq
    simp only [Connection.view, Option.getD_none, hrows, hrow] at heq
    cases heq
    refine ⟨hD, during_bind (during_throwIf hD (fun _ => rfl) fun happlied => ?_)⟩
    refine during_bind (during_throwIf hD (fun _ => rfl) fun hsame => ?_)
    refine during_throwIf hD (fun _ => rfl) fun hcurrent => ⟨rfl, ?_, hv, ?_⟩
    · simpa using hcurrent
    · simp only [Bool.or_eq_false_iff, decide_eq_false_iff_not, not_not] at hsame happlied
      exact ⟨hsame.2, hsame.1, happlied⟩
  · intro e heq
    simp only [Connection.view, Option.getD_none, hrows] at heq
    cases heq

/-- The failure of a migration: the file is as its `INSERT` left it. -/
def Failed (s₀ : S) (ms : List (StoreMigration S)) (m : StoreMigration S) (e : String)
    (c : Connection S) : Prop :=
  c.working = none ∧ Sound s₀ ms c.committed ∧ (m.up.run c.committed.schema).2 = .error e

variable {rows : List MigrationRow}

theorem Clean.insert (h : Clean s₀ ms db) (hm : m.version = ms.length + 1)
    (hrows : db.ledger = some rows) :
    (rows.any fun row => row.version = m.version) = false ∧
      Sound s₀ ms { db with ledger := some (rows ++ [m.applying]) } := by
  obtain ⟨rows', hrows', hrecorded⟩ := h.ledger
  obtain rfl : rows' = rows := Option.some.inj (hrows'.symm.trans hrows)
  refine ⟨?_, h.built, .pending hrecorded hm rfl, h.version⟩
  rw [List.any_eq_false]
  intro row hrow
  obtain ⟨i, hi, hv, _⟩ := recorded_at h.built hrecorded hrow
  rw [decide_eq_true_eq, hv, hm]
  omega

theorem Clean.applied (h : Clean s₀ ms db) (hm : m.version = ms.length + 1)
    (hrows : db.ledger = some rows) {s' : S} (hup : m.up.run db.schema = (s', .ok ()))
    (time : String) :
    Clean s₀ (ms ++ [m])
      ⟨s', some ((rows ++ [m.applying]).map (MigrationRow.applied m.version time)), m.version⟩ := by
  obtain ⟨rows', hrows', hrecorded⟩ := h.ledger
  obtain rfl : rows' = rows := Option.some.inj (hrows'.symm.trans hrows)
  -- only the new row has the version of the migration
  have hkept : rows'.map (MigrationRow.applied m.version time) = rows' := by
    calc rows'.map (MigrationRow.applied m.version time)
        = rows'.map id := List.map_congr_left fun row hrow => by
          obtain ⟨i, hi, hv, _⟩ := recorded_at h.built hrecorded hrow
          have hne : row.version ≠ m.version := by omega
          rw [MigrationRow.applied, if_neg hne, id]
      _ = rows' := List.map_id _
  have hnew : MigrationRow.applied m.version time m.applying =
      ⟨m.version, m.name, m.checksum, .applied, some time⟩ := if_pos rfl
  refine ⟨.snoc h.built hm hup, ⟨_, rfl, ?_⟩, ?_⟩
  · rw [List.map_append, hkept, List.map_singleton, hnew]
    exact List.rel_append hrecorded (.cons ⟨rfl, rfl, rfl, rfl⟩ .nil)
  · rw [List.length_append, List.length_singleton]
    exact hm

/-- What the transaction of a migration does to the file that the `INSERT` left. -/
theorem during_transaction (h : Clean s₀ ms db) (hP : P ms) (hP' : P (ms ++ [m]))
    (hm : m.version = ms.length + 1) (hrows : db.ledger = some rows) {db₁ : Database S}
    (hdb : db₁ = { db with ledger := some (rows ++ [m.applying]) }) (time : String) :
    during (Durable P s₀)
      (m.up.within schemaPart >>= fun _ => updateApplied m.version time >>= fun _ =>
        setUserVersion m.version >>= fun _ => commit)
      (fun _ c => c.working = none ∧ Clean s₀ (ms ++ [m]) c.committed)
      (fun e c => (∃ w, c = ⟨db₁, some w⟩) ∧ (m.up.run db.schema).2 = .error e)
      ⟨db₁, some db₁⟩ := by
  subst hdb
  have hD : ∀ w, Durable P s₀ ⟨{ db with ledger := some (rows ++ [m.applying]) }, w⟩ :=
    fun _ => ⟨ms, hP, (h.insert hm hrows).2⟩
  apply during_bind
  apply during_within
  -- whatever the migration does, it does to the open transaction
  apply during_of_forall fun _ => hD _
  rw [wp_iff]
  refine ⟨fun s' u hup => ?_, fun s' e hup => ?_⟩
  · have hclean := h.applied hm hrows hup time
    refine during_bind (during_inside rfl hD (during_bind (during_inside rfl hD ?_)))
    exact during_commit (hD _) ⟨_, hP', hclean.sound⟩ ⟨rfl, hclean⟩
  · refine ⟨⟨_, rfl⟩, ?_⟩
    have hschema : schemaPart.get (⟨{ db with ledger := some (rows ++ [m.applying]) },
        some { db with ledger := some (rows ++ [m.applying]) }⟩ : Connection S) = db.schema := rfl
    rw [hschema] at hup
    rw [hup]

/-- The next migration is run once, or leaves the file as it was but for its row. -/
theorem migrate_next (h : Clean s₀ ms db) (hP : P ms) (hP' : P (ms ++ [m]))
    (hm : m.version = ms.length + 1) (hcurrent : current ≤ ms.length) :
    during (Durable P s₀) (migrate now current m)
      (fun _ c => c.working = none ∧ Clean s₀ (ms ++ [m]) c.committed)
      (Failed s₀ ms m) ⟨db, none⟩ := by
  obtain ⟨rows, hrows, hrecorded⟩ := h.ledger
  obtain ⟨hunique, hpending⟩ := h.insert hm hrows
  have hD : Durable P s₀ ⟨db, none⟩ := ⟨ms, hP, h.sound⟩
  have hmissing : (rows.find? fun row => row.version = m.version) = none := by
    rw [List.any_eq_false] at hunique
    exact List.find?_eq_none.2 hunique
  refine during_bind (during_block hD ?_ ?_)
  · intro c existing heq
    simp only [Connection.view, Option.getD_none, hrows, hmissing] at heq
    cases heq
    refine ⟨hD, during_bind (during_throwIf hD (fun hle => ?_) fun _ => ?_)⟩
    · rw [decide_eq_true_eq, hm] at hle
      omega
    have hD₁ : ∀ w, Durable P s₀ ⟨{ db with ledger := some (rows ++ [m.applying]) }, w⟩ :=
      fun _ => ⟨ms, hP, hpending⟩
    refine during_bind (during_autocommit ?_ hD (hD₁ none) (during_bind (during_begin hD₁ ?_)))
    · simp only [hrows, hunique]
      rfl
    apply during_tryCatch
    apply (during_transaction h hP hP' hm hrows rfl (now m.version)).mono (fun _ _ _ hQ => hQ)
    rintro error c - ⟨⟨w, rfl⟩, hup⟩
    -- the handler rolls back and throws what it caught
    refine during_bind (during_tryCatch (during_rollback hD₁ ?_))
    exact during_throw (hD₁ _) ⟨rfl, hpending, hup⟩
  · intro e heq
    simp only [Connection.view, Option.getD_none, hrows] at heq
    cases heq

end Turn

/-! ## The loop -/

section Loop

variable {s₀ : S} {ms rest : List (StoreMigration S)} {db : Database S} {now : Nat → String}
  {current : Nat} {P : List (StoreMigration S) → Prop}

theorem contiguousFrom_cons {first : Nat} {m : StoreMigration S} {ms : List (StoreMigration S)} :
    contiguousFrom first (m :: ms) = true ↔
      m.version = first ∧ contiguousFrom (first + 1) ms = true := by
  rw [contiguousFrom, Bool.and_eq_true, decide_eq_true_eq]

/-- One of the migrations failed, behind those before it. -/
def FailedIn (s₀ : S) (ms rest : List (StoreMigration S)) (e : String) (c : Connection S) : Prop :=
  ∃ (pre : List (StoreMigration S)) (m : StoreMigration S) (post : List (StoreMigration S)),
    rest = pre ++ m :: post ∧ Failed s₀ (ms ++ pre) m e c

/-- The versions that are left are applied one by one. -/
theorem migrateAll_next (h : Clean s₀ ms db) (hP : ∀ k, P (ms ++ rest.take k))
    (hrest : contiguousFrom (ms.length + 1) rest = true) (hcurrent : current ≤ ms.length) :
    during (Durable P s₀) (migrateAll now current rest)
      (fun _ c => c.working = none ∧ Clean s₀ (ms ++ rest) c.committed)
      (FailedIn s₀ ms rest) ⟨db, none⟩ := by
  have hnone : P ms := by simpa using hP 0
  induction rest generalizing ms db with
  | nil =>
    rw [List.append_nil]
    exact during_pure ⟨ms, hnone, h.sound⟩ ⟨rfl, h⟩
  | cons m rest ih =>
    obtain ⟨hm, hrest⟩ := contiguousFrom_cons.1 hrest
    have hone : P (ms ++ [m]) := hP 1
    have hmore : ∀ k, P ((ms ++ [m]) ++ rest.take k) := by
      intro k
      rw [List.append_assoc]
      exact hP (k + 1)
    apply during_bind
    apply (migrate_next h hnone hone hm hcurrent).mono
    · rintro u ⟨db', w⟩ - ⟨hworking, hclean⟩
      cases hworking
      have hlength : (ms ++ [m]).length = ms.length + 1 := by
        rw [List.length_append, List.length_singleton]
      have hnext := ih hclean hmore (by rw [hlength]; exact hrest) (by omega) hone
      refine hnext.mono (fun _ c _ hQ => ?_) fun e c _ hE => ?_
      · rw [List.append_assoc, List.singleton_append] at hQ
        exact hQ
      · obtain ⟨pre, m', post, heq, hfailed⟩ := hE
        refine ⟨m :: pre, m', post, by rw [heq, List.cons_append], ?_⟩
        rw [List.append_assoc, List.singleton_append] at hfailed
        exact hfailed
    · intro e c _ hfailed
      refine ⟨[], m, rest, rfl, ?_⟩
      rw [List.append_nil]
      exact hfailed

/-- What the ledger remembers of a migration. -/
def StoreMigration.identity (m : StoreMigration S) : Nat × String × String :=
  (m.version, m.name, m.checksum)

/-- The loop from the `i`-th version on: the applied ones are compared, the others applied. -/
theorem migrateAll_from (h : Sound s₀ ms db) (hledger : db.ledger.isSome) {i : Nat}
    (hP : ∀ k, P (ms ++ (rest.drop (ms.length - i)).take k))
    (hrest : contiguousFrom (i + 1) rest = true) (hi : i ≤ ms.length)
    (hlength : ms.length ≤ i + rest.length) :
    during (Durable P s₀) (migrateAll now ms.length rest)
      (fun _ c => c.working = none ∧ Sound s₀ (ms ++ rest.drop (ms.length - i)) c.committed ∧
        (ms.drop i).map StoreMigration.identity =
          (rest.take (ms.length - i)).map StoreMigration.identity)
      (fun e c => c = ⟨db, none⟩ ∨ FailedIn s₀ ms (rest.drop (ms.length - i)) e c) ⟨db, none⟩ := by
  obtain ⟨rows, hrows⟩ := Option.isSome_iff_exists.1 hledger
  have hnone : P ms := by simpa using hP 0
  have hL : Ledger ms rows := by
    have hledger := h.ledger
    rw [Database.rows, hrows] at hledger
    exact hledger
  induction rest generalizing i with
  | nil =>
    have hend : ms.length = i := by
      rw [List.length_nil] at hlength
      omega
    refine during_pure ⟨ms, hnone, h⟩ ⟨rfl, ?_, ?_⟩
    · rw [List.drop_nil, List.append_nil]
      exact h
    · rw [← hend, List.drop_length, List.take_nil]
  | cons m rest ih =>
    obtain ⟨hm, hrest'⟩ := contiguousFrom_cons.1 hrest
    have hfind : db.rows.find? (fun row => row.version = m.version) =
        rows.find? fun row => row.version = m.version := by
      rw [Database.rows, hrows, Option.getD_some]
    by_cases hlt : i < ms.length
    · -- an applied version: its row is there and is compared
      obtain ⟨row, hrow⟩ := Option.ne_none_iff_exists'.1
        (hL.exists_of_le h.built (by omega) (by omega : m.version ≤ ms.length))
      apply during_bind
      apply (migrate_existing h hnone (hfind.trans hrow) hledger).mono
      · rintro u c - ⟨rfl, -, hrecords⟩
        have hsame : ms[i].identity = m.identity := by
          rcases hL.found h.built hrow with ⟨j, hj, hv, hr⟩ | ⟨hv, -⟩
          · have hij : j = i := by omega
            subst hij
            rw [StoreMigration.identity, StoreMigration.identity, ← hr.1, ← hr.2.1, ← hr.2.2.1,
              ← hrecords.1, ← hrecords.2.1, ← hrecords.2.2.1]
          · omega
        have hstep : ms.length - i = (ms.length - (i + 1)) + 1 := by omega
        simp only [hstep, List.drop_succ_cons] at hP
        rw [hstep, List.drop_succ_cons, List.take_succ_cons]
        refine (ih hP hrest' hlt (by rw [List.length_cons] at hlength; omega)).mono
          (fun _ c _ hQ => ⟨hQ.1, hQ.2.1, ?_⟩) fun _ _ _ hE => hE
        rw [List.drop_eq_getElem_cons hlt, List.map_cons, List.map_cons, hsame, hQ.2.2]
      · rintro e c - rfl
        exact .inl rfl
    · have hend : ms.length = i := by omega
      subst hend
      simp only [Nat.sub_self, List.drop_zero] at hP
      rw [Nat.sub_self, List.drop_zero, List.take_zero, List.drop_length, List.map_nil]
      cases hrow : rows.find? fun row => row.version = m.version with
      | some row =>
        -- the row that an earlier start left behind
        apply during_bind
        apply (migrate_existing h hnone (hfind.trans hrow) hledger).mono
        · rintro u c - ⟨-, -, hrecords⟩
          rcases hL.found h.built hrow with ⟨j, hj, hv, -⟩ | ⟨-, happlying⟩
          · omega
          · rw [hrecords.2.2.2] at happlying
            cases happlying
        · rintro e c - rfl
          exact .inl rfl
      | none =>
        rw [hm] at hrow
        have hclean : Clean s₀ ms db :=
          ⟨h.built, ⟨rows, hrows, hL.settled_of_missing hrow⟩, h.version⟩
        exact (migrateAll_next hclean hP hrest le_rfl).mono
          (fun _ _ _ hQ => ⟨hQ.1, hQ.2.sound, rfl⟩) fun _ _ _ hE => .inr hE

end Loop

/-! ## Whole starts and their histories -/

theorem contiguousFrom_getLast {first : Nat} (h : contiguousFrom first ms = true) :
    ∀ m ∈ ms.getLast?, m.version + 1 = first + ms.length := by
  induction ms generalizing first with
  | nil => simp
  | cons m ms ih =>
    obtain ⟨hm, hms⟩ := contiguousFrom_cons.1 h
    cases ms with
    | nil =>
      intro m' hm'
      obtain rfl : m = m' := by simpa using hm'
      rw [hm, List.length_singleton]
    | cons m₂ ms =>
      intro m' hm'
      rw [List.getLast?_cons_cons] at hm'
      have hlast := ih hms m' hm'
      rw [List.length_cons]
      omega

/-- Behind the check of the versions the latest one is the number of migrations. -/
theorem latest_eq {migrations : List (StoreMigration S)}
    (h : contiguousFrom 1 (ordered migrations) = true) : latest migrations = migrations.length := by
  have hlength : (ordered migrations).length = migrations.length := List.length_insertionSort _ _
  have hlast := contiguousFrom_getLast h
  unfold latest
  cases hget : (ordered migrations).getLast? with
  | none =>
    rw [List.getLast?_eq_none_iff] at hget
    rw [hget] at hlength
    exact hlength
  | some m =>
    have hm := hlast m hget
    rw [Option.map_some, Option.getD_some]
    omega

/-- What a start leaves to apply behind the migrations of the file. -/
def remaining (ms migrations : List (StoreMigration S)) : List (StoreMigration S) :=
  (ordered migrations).drop ms.length

/-- The start applied what was left: the file held the first of its migrations, the same as
    the ledger names, and now holds all of them. -/
def Completed (s₀ : S) (ms migrations : List (StoreMigration S)) (db' : Database S) : Prop :=
  ms.map StoreMigration.identity =
      ((ordered migrations).take ms.length).map StoreMigration.identity ∧
    Sound s₀ (ms ++ remaining ms migrations) db' ∧ db'.userVersion = migrations.length

/-- The start changed nothing but that the ledger's table is there. -/
def Unchanged (db db' : Database S) : Prop :=
  db'.schema = db.schema ∧ db'.userVersion = db.userVersion ∧ db'.rows = db.rows

/-- The start ended in the `up` of one of the versions that were left. -/
def UpFailed (s₀ : S) (ms migrations : List (StoreMigration S)) (e : String) (db' : Database S) :
    Prop :=
  FailedIn s₀ ms (remaining ms migrations) e ⟨db', none⟩

/-- How a start that is not cut off ends, on a file to which `ms` have been applied. -/
structure Outcome (s₀ : S) (ms migrations : List (StoreMigration S)) (db : Database S)
    (r : Connection S × Except String Nat) : Prop where
  closed : r.1.working = none
  completed : ∀ v, r.2 = .ok v → v = r.1.committed.userVersion ∧
    Completed s₀ ms migrations r.1.committed
  refused : ∀ e, r.2 = .error e → Unchanged db r.1.committed ∨
    UpFailed s₀ ms migrations e r.1.committed

theorem sound_createLedger (h : Sound s₀ ms db) :
    Sound s₀ ms { db with ledger := some (db.ledger.getD []) } :=
  ⟨h.built, h.ledger, h.version⟩

/-- The migrations of the file, and the next of those that a start brings. -/
def Extends (ms migrations ms' : List (StoreMigration S)) : Prop :=
  ∃ k, ms' = ms ++ (remaining ms migrations).take k

/-- A start from a sound file is sound throughout, and ends as it should. -/
theorem during_runMigrations (h : Sound s₀ ms db) (now : Nat → String)
    (migrations : List (StoreMigration S)) (hne : migrations ≠ []) :
    during (Durable (Extends ms migrations) s₀) (runMigrations now migrations)
      (fun v c => c.working = none ∧ v = c.committed.userVersion ∧
        Completed s₀ ms migrations c.committed)
      (fun e c => c.working = none ∧
        (Unchanged db c.committed ∨ UpFailed s₀ ms migrations e c.committed)) ⟨db, none⟩ := by
  have hown : Extends ms migrations ms := ⟨0, by rw [List.take_zero, List.append_nil]⟩
  have hD : Durable (Extends ms migrations) s₀ ⟨db, none⟩ := ⟨ms, hown, h⟩
  have h₁ := sound_createLedger h
  have hD₁ : Durable (Extends ms migrations) s₀
      ⟨{ db with ledger := some (db.ledger.getD []) }, none⟩ := ⟨ms, hown, h₁⟩
  have hnonempty : migrations.isEmpty = false := by
    rw [List.isEmpty_eq_false_iff]
    exact hne
  have hunchanged : Unchanged db { db with ledger := some (db.ledger.getD []) } := ⟨rfl, rfl, rfl⟩
  rw [runMigrations, if_neg (by rw [hnonempty]; exact Bool.false_ne_true)]
  refine during_bind (during_throwIf hD (fun _ => ⟨rfl, .inl ⟨rfl, rfl, rfl⟩⟩) fun hversions => ?_)
  rw [Bool.not_eq_false'] at hversions
  have hlength : (ordered migrations).length = migrations.length := List.length_insertionSort _ _
  refine during_bind (during_autocommit rfl hD hD₁ (during_bind (during_read hD₁ ?_)))
  refine during_bind (during_throwIf hD₁ (fun _ => ⟨rfl, .inl hunchanged⟩) fun hlatest => ?_)
  have hcurrent : ms.length ≤ migrations.length := by
    have hle : ¬ latest migrations < db.userVersion := of_decide_eq_false hlatest
    rw [latest_eq hversions, h.version] at hle
    omega
  have hversion : (⟨{ db with ledger := some (db.ledger.getD []) }, none⟩ : Connection S).view.userVersion =
      ms.length := h.version
  rw [hversion]
  apply during_bind
  apply (migrateAll_from h₁ rfl (fun k => ⟨k, rfl⟩) hversions (Nat.zero_le _) (by omega)).mono
  · rintro u ⟨db', w⟩ hdurable ⟨hworking, hsound, hsame⟩
    cases hworking
    refine during_read hdurable ⟨rfl, rfl, hsame, hsound, ?_⟩
    rw [hsound.version, List.length_append, List.length_drop]
    omega
  · rintro e c - (rfl | hfailed)
    · exact ⟨rfl, .inl hunchanged⟩
    · obtain ⟨db', w⟩ := c
      have hworking : w = none := by
        obtain ⟨pre, m, post, -, hfailed⟩ := hfailed
        exact hfailed.1
      subst hworking
      exact ⟨rfl, .inr hfailed⟩

/-- Any start leaves a sound file, wherever it is cut off, and applies migrations of its own only. -/
theorem sound_launch (h : Sound s₀ ms db) (l : Launch S) :
    ∃ ms', Extends ms l.migrations ms' ∧ Sound s₀ ms' (launch db l) := by
  have hown : Extends ms l.migrations ms := ⟨0, by rw [List.take_zero, List.append_nil]⟩
  unfold launch
  by_cases hne : l.migrations = []
  · -- an empty list reads the version and nothing else
    have hread : runMigrations l.now l.migrations = (userVersion : Prog (Connection S) String Nat) := by
      rw [runMigrations, hne, List.isEmpty_nil, if_pos rfl]
    have hduring : during (Durable (Extends ms l.migrations) s₀)
        (userVersion : Prog (Connection S) String Nat)
        (fun _ _ => True) (fun _ _ => True) ⟨db, none⟩ := during_read ⟨ms, hown, h⟩ trivial
    rw [hread]
    cases l.stop with
    | none => exact ⟨ms, hown, h⟩
    | some n => exact cut_of_during hduring n
  · have hduring := during_runMigrations h l.now l.migrations hne
    cases l.stop with
    | none =>
      have hend : during (Durable (Extends ms l.migrations) s₀) (runMigrations l.now l.migrations)
          (fun _ => Durable (Extends ms l.migrations) s₀)
          (fun _ => Durable (Extends ms l.migrations) s₀) ⟨db, none⟩ :=
        hduring.mono (fun _ _ hD _ => hD) fun _ _ hD _ => hD
      exact wp_state.1 (wp_of_during hend)
    | some n => exact cut_of_during hduring n

/-- What the starts of a history have applied: each start, behind what it found, the next of the
    migrations that it brought. -/
inductive Brought : List (Launch S) → List (StoreMigration S) → Prop where
  | nil : Brought [] []
  | start {history : List (Launch S)} {ms ms' : List (StoreMigration S)}
      (before : Brought history ms) (l : Launch S) (own : Extends ms l.migrations ms') :
      Brought (history ++ [l]) ms'

/-- The property of the store's migrations after a history of starts: `ms` are the migrations that
    have taken effect. -/
structure CrashConsistent (s₀ : S) (history : List (Launch S)) (ms : List (StoreMigration S))
    (db : Database S) : Prop where
  /-- The applied rows are those of the versions up to `user_version`. -/
  applied : ∀ v, (∃ row ∈ db.rows, row.version = v ∧ row.state = .applied) ↔
    1 ≤ v ∧ v ≤ db.userVersion
  /-- The starts have brought them, in the order in which they were applied. -/
  brought : Brought history ms
  /-- The applied rows name them. -/
  recorded : List.Forall₂ Records ms (db.rows.filter fun row => row.state = .applied)
  version : ms.length = db.userVersion
  /-- Each of them has taken effect once, in their order. -/
  once : Built s₀ ms db.schema
  /-- The next start completes what is left, or stops, at a failing `up` or unchanged. -/
  later : ∀ (now : Nat → String) (m : StoreMigration S) (migrations : List (StoreMigration S)),
    Outcome s₀ ms (m :: migrations) db ((runMigrations now (m :: migrations)).run ⟨db, none⟩)

theorem filter_applied {rows : List MigrationRow} (h : List.Forall₂ Records ms rows) :
    (rows.filter fun row => row.state = .applied) = rows := by
  refine List.filter_eq_self.2 fun row hrow => decide_eq_true ?_
  obtain ⟨i, hi, rfl⟩ := List.mem_iff_getElem.1 hrow
  have hms : i < ms.length := by rw [h.length_eq]; exact hi
  exact (List.forall₂_iff_get.1 h |>.2 i hms hi).2.2.2

theorem Ledger.recorded {rows : List MigrationRow} (h : Ledger ms rows) :
    List.Forall₂ Records ms (rows.filter fun row => row.state = .applied) := by
  cases h with
  | settled hrecorded =>
    rw [filter_applied hrecorded]
    exact hrecorded
  | pending hrecorded _ happlying =>
    rw [List.filter_append, filter_applied hrecorded, List.filter_singleton, happlying]
    exact List.append_nil _ ▸ hrecorded

theorem Sound.crashConsistent {history : List (Launch S)} (h : Sound s₀ ms db)
    (hbrought : Brought history ms) : CrashConsistent s₀ history ms db where
  applied v := by
    rw [h.version]
    exact h.ledger.applied_iff h.built v
  brought := hbrought
  recorded := h.ledger.recorded
  version := h.version.symm
  once := h.built
  later now m migrations := by
    have hrun := wp_iff.1 (wp_of_during
      (during_runMigrations h now (m :: migrations) (List.cons_ne_nil _ _)))
    cases hr : (runMigrations now (m :: migrations)).run ⟨db, none⟩ with
    | mk c r =>
      cases r with
      | ok v =>
        obtain ⟨hworking, hv, hcompleted⟩ := hrun.1 c v hr
        refine ⟨hworking, fun v' heq => ?_, fun e heq => ?_⟩
        · cases heq
          exact ⟨hv, hcompleted⟩
        · cases heq
      | error e =>
        obtain ⟨hworking, hrefused⟩ := hrun.2 c e hr
        refine ⟨hworking, fun v heq => ?_, fun e' heq => ?_⟩
        · cases heq
        · cases heq
          exact hrefused

/-- After every history of starts, each with migrations of its own and cut off anywhere, the
    ledger, the version and the tables agree. -/
theorem crashConsistent_history (s₀ : S) (history : List (Launch S)) :
    ∃ ms, CrashConsistent s₀ history ms (history.foldl launch (fresh s₀)) := by
  have hsound : ∃ ms, Brought history ms ∧ Sound s₀ ms (history.foldl launch (fresh s₀)) := by
    induction history using List.reverseRecOn with
    | nil => exact ⟨[], .nil, sound_fresh s₀⟩
    | append_singleton history l ih =>
      obtain ⟨ms, hbrought, h⟩ := ih
      obtain ⟨ms', hown, h'⟩ := sound_launch h l
      rw [List.foldl_concat]
      exact ⟨ms', .start hbrought l hown, h'⟩
  obtain ⟨ms, hbrought, h⟩ := hsound
  exact ⟨ms, h.crashConsistent hbrought⟩

/-- A migration that notes its version. -/
def noting (version : Nat) : StoreMigration (List Nat) :=
  ⟨version, "note", "sum", modify fun notes => notes ++ [version]⟩

/-- A database on which version 1 has been applied. -/
def notedDb : Database (List Nat) := launch (fresh []) ⟨[noting 1], fun _ => "now", none⟩

/-- An empty list accepts a version beyond it, and a start whose own third `up` fails has applied
    the second version by then. -/
theorem empty_accepts_and_failed_changes :
    notedDb.userVersion = 1 ∧
      ((runMigrations (fun _ => "now") []).run ⟨notedDb, none⟩).2 = .ok 1 ∧
      ((runMigrations (fun _ => "now") [noting 1, noting 2, ⟨3, "bad", "sum", Prog.throw "failed"⟩]).run
        ⟨notedDb, none⟩).2 = .error "failed" ∧
      ((runMigrations (fun _ => "now") [noting 1, noting 2, ⟨3, "bad", "sum", Prog.throw "failed"⟩]).run
        ⟨notedDb, none⟩).1.committed.schema = [1, 2] ∧
      notedDb.schema = [1] := by
  decide +kernel

end XioFlow.Migrations
