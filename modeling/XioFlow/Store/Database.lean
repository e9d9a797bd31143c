/-
  XioFlow.Store.Database

  The tables of the domain database, and the store object that holds one
  connection to them.

  Every table carries the proof of its PRIMARY KEY; the journal carries the
  proof that its sequence numbers increase.
-/

import XioFlow.Store.EventEnvelope
import XioFlow.Lib.Table

namespace XioFlow

open Lib

/-! ## Rows -/

/-- A row of `operations`: the operation and the domain it was registered in. -/
structure StoredOperation extends Operation where
  domainId : String
  deriving DecidableEq

/-- A row of `journal_events`. -/
structure JournalRow where
  seq : Nat
  domainId : String
  runId : Option String
  operationId : Option String
  type : String
  payload : Json
  timestamp : Timestamp
  schemaVersion : String
  requestId : Option String
  programId : Option String
  instructionId : Option String
  opId : Option String
  event : String
  sensitivity : EventSensitivity
  createdAt : Timestamp
  deriving DecidableEq

/-! ## The journal -/

/-- The rows of `journal_events` in the order of their `AUTOINCREMENT` key. -/
structure Journal where
  rows : List JournalRow
  lastSeq : Nat
  increasing : (rows.map JournalRow.seq).Pairwise (· < ·)
  bounded : ∀ row ∈ rows, row.seq ≤ lastSeq

namespace Journal

theorem ext_rows {j j' : Journal} (hrows : j.rows = j'.rows) (hseq : j.lastSeq = j'.lastSeq) :
    j = j' := by
  cases j
  cases j'
  simp only at hrows hseq
  subst hrows hseq
  rfl

instance : DecidableEq Journal := fun j j' =>
  decidable_of_iff (j.rows = j'.rows ∧ j.lastSeq = j'.lastSeq)
    ⟨fun h => ext_rows h.1 h.2, fun h => h ▸ ⟨rfl, rfl⟩⟩

def empty : Journal := ⟨[], 0, List.Pairwise.nil, by simp⟩

/-- `INSERT INTO journal_events`: the row gets the next sequence number. -/
def append (j : Journal) (row : JournalRow) : Journal where
  rows := j.rows ++ [{ row with seq := j.lastSeq + 1 }]
  lastSeq := j.lastSeq + 1
  increasing := by
    rw [List.map_append, List.pairwise_append]
    refine ⟨j.increasing, by simp, ?_⟩
    intro a ha b hb
    obtain ⟨r, hr, rfl⟩ := List.mem_map.1 ha
    simp only [List.map_cons, List.map_nil, List.mem_singleton] at hb
    subst hb
    exact Nat.lt_succ_of_le (j.bounded r hr)
  bounded := by
    intro r hr
    rcases List.mem_append.1 hr with hr | hr
    · exact Nat.le_succ_of_le (j.bounded r hr)
    · rw [List.mem_singleton.1 hr]

theorem append_rows (j : Journal) (row : JournalRow) :
    (j.append row).rows = j.rows ++ [{ row with seq := j.lastSeq + 1 }] := rfl

/-- `SELECT 1 FROM journal_events WHERE operation_id = ? AND type = ?` finds a row. -/
def hasEvent (j : Journal) (operationId type : String) : Bool :=
  j.rows.any fun row => decide (row.operationId = some operationId) && decide (row.type = type)

theorem hasEvent_append (j : Journal) (row : JournalRow) (operationId type : String) :
    (j.append row).hasEvent operationId type =
      (j.hasEvent operationId type ||
        (decide (row.operationId = some operationId) && decide (row.type = type))) := by
  unfold hasEvent
  rw [append_rows, List.any_append]
  simp

end Journal

/-! ## The database and the store -/

structure Database where
  owners : Table OwnerRecord OwnerRecord.domainId
  tasks : Table Task Task.id
  runs : Table Run Run.id
  operations : Table StoredOperation fun row => row.id
  resourceLeases : Table ResourceLease fun lease => (lease.resourceId, lease.operationId)
  journalEvents : Journal
  snapshots : Table SnapshotRef SnapshotRef.id
  capabilities : Table Capability Capability.id
  artifacts : Table ArtifactRecord ArtifactRecord.id
  deriving DecidableEq

/-- The database right after its schema was created. -/
def Database.empty : Database where
  owners := Table.empty
  tasks := Table.empty
  runs := Table.empty
  operations := Table.empty
  resourceLeases := Table.empty
  journalEvents := Journal.empty
  snapshots := Table.empty
  capabilities := Table.empty
  artifacts := Table.empty

/-- An owner of the domain `d` in its first epoch. -/
def OwnerRecord.sample : OwnerRecord where
  domainId := "d"
  ownerId := "owner-7-1"
  epoch := 1
  heartbeatAt := 1
  expiresAt := 60001
  hostname := "h"

/-- A running run of the domain `d`. -/
def Run.sample : Run where
  id := "r"
  taskId := "t"
  domainId := "d"
  owner := "agent"
  status := .running
  startedAt := 1

/-- A process operation of the running run. -/
def Operation.sample (id : String) (resources : List String) : Operation where
  id := id
  runId := "r"
  kind := .process
  name := "build"
  inputFingerprint := "f"
  requiredResources := resources
  status := .intentRegistered

/-- A small domain for examples: one owner, one task, one running run. -/
def Database.sample : Database :=
  { Database.empty with
    owners := ⟨[OwnerRecord.sample], by simp⟩
    tasks := ⟨[{ id := "t", domainId := "d", name := "task", createdAt := 1 }], by simp⟩
    runs := ⟨[Run.sample], by simp⟩ }

/-- A store: its connection, and the epoch it was handed when it acquired the domain. -/
structure SqliteStore where
  db : Database
  currentEpoch : Option Int
  deriving DecidableEq

/-! ## Reads -/

namespace SqliteStore

def getOwner (s : SqliteStore) (domainId : String) : Option OwnerRecord := s.db.owners.get? domainId

def getRun (s : SqliteStore) (id : String) : Option Run := s.db.runs.get? id

def getOperation (s : SqliteStore) (id : String) : Option StoredOperation :=
  s.db.operations.get? id

def getOperationsByRun (s : SqliteStore) (runId : String) : List StoredOperation :=
  s.db.operations.select fun op => op.runId = runId

def getUnfinishedOperations (s : SqliteStore) (domainId : String) : List StoredOperation :=
  s.db.operations.select fun op => op.domainId = domainId && op.status.unfinished

def getAllOperations (s : SqliteStore) (domainId : String) : List StoredOperation :=
  s.db.operations.select fun op => op.domainId = domainId

def getPersistedResourceLeases (s : SqliteStore) (domainId : String) : List ResourceLease :=
  s.db.resourceLeases.select fun lease => lease.domainId = domainId

def getActiveRuns (s : SqliteStore) (domainId : String) : List Run :=
  s.db.runs.select fun run => run.domainId = domainId && run.status = .running

def getJournalEvents (s : SqliteStore) (domainId : String) : List JournalRow :=
  s.db.journalEvents.rows.filter fun row => row.domainId = domainId

def getSnapshot (s : SqliteStore) (id : String) : Option SnapshotRef := s.db.snapshots.get? id

def getCapability (s : SqliteStore) (id : String) : Option Capability := s.db.capabilities.get? id

end SqliteStore
end XioFlow
