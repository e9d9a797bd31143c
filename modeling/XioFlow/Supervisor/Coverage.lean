/-
  XioFlow.Supervisor.Coverage

  What a finished rollback reports: its status, and how far the kernel vouches
  for it.

  The evidence is the journal since the snapshot, the stored operations, the
  manifest of ignored files and the answers of the snapshot driver.
-/

import XioFlow.Supervisor.Internal

namespace XioFlow

open Lib
open Recovery (EffectsFact IgnoredManifestState RollbackCoverage RollbackCoverageFacts
  deriveRollbackCoverage)

namespace Supervisor

/-! ## The manifest of ignored files -/

/-- What `lstat` says of an ignored file. -/
structure IgnoredManifestEntry where
  path : String
  size : Nat
  mtimeNs : Int
  ctimeNs : Int
  mode : Nat
  deriving DecidableEq

def UTIMES_PRECISION_NS : Int := 1000

def sameMtime (a b : Int) : Bool :=
  let delta := a - b
  (if delta < 0 then -delta else delta) < UTIMES_PRECISION_NS

def IGNORED_CHANGES_LIMIT : Nat := 50

inductive IgnoredManifestVerdict where
  | unchanged | changed | inconclusive
  deriving DecidableEq

def IgnoredManifestVerdict.state : IgnoredManifestVerdict → IgnoredManifestState
  | unchanged => .unchanged
  | changed => .changed
  | inconclusive => .inconclusive

structure IgnoredCounts where
  added : Nat
  removed : Nat
  modified : Nat
  metadataOnly : Nat
  deriving DecidableEq

structure IgnoredChanges where
  added : List String
  removed : List String
  modified : List String
  metadataOnly : List String
  truncated : Bool
  counts : IgnoredCounts
  deriving DecidableEq

/-- The paths found so far, and the present files that no entry of the snapshot has claimed. -/
structure IgnoredDiff where
  removed : List String := []
  modified : List String := []
  metadataOnly : List String := []
  current : List IgnoredManifestEntry

/-- `map.set(entry.path, entry)` -/
def putEntry (current : List IgnoredManifestEntry) (entry : IgnoredManifestEntry) :
    List IgnoredManifestEntry :=
  if current.any fun e => e.path = entry.path then
    current.map fun e => if e.path = entry.path then entry else e
  else current ++ [entry]

/-- The loop body of `diffIgnoredEntries`. -/
def compareEntry (d : IgnoredDiff) (old : IgnoredManifestEntry) : IgnoredDiff :=
  match d.current.find? fun e => e.path = old.path with
  | none => { d with removed := d.removed ++ [old.path] }
  | some now =>
    let current := d.current.filter fun e => e.path ≠ old.path
    if now.size ≠ old.size ∨ now.mode ≠ old.mode ∨ sameMtime now.mtimeNs old.mtimeNs = false then
      { d with current, modified := d.modified ++ [old.path] }
    else if now.ctimeNs ≠ old.ctimeNs then
      { d with current, metadataOnly := d.metadataOnly ++ [old.path] }
    else { d with current }

def diffIgnoredEntries (before after : List IgnoredManifestEntry) :
    IgnoredManifestVerdict × Option IgnoredChanges :=
  let d := before.foldl compareEntry { current := after.foldl putEntry [] }
  let added := d.current.map IgnoredManifestEntry.path
  let counts : IgnoredCounts :=
    ⟨added.length, d.removed.length, d.modified.length, d.metadataOnly.length⟩
  let definite := counts.added + counts.removed + counts.modified
  if definite = 0 ∧ counts.metadataOnly = 0 then (.unchanged, none)
  else
    let cut : List String → List String := List.take IGNORED_CHANGES_LIMIT
    (if 0 < definite then .changed else .inconclusive, some {
      added := cut added
      removed := cut d.removed
      modified := cut d.modified
      metadataOnly := cut d.metadataOnly
      truncated := [counts.added, counts.removed, counts.modified, counts.metadataOnly].any
        fun n => IGNORED_CHANGES_LIMIT < n
      counts })

/-! ## The answers of the driver -/

structure RestoreReport where
  unrestoredPaths : List String
  newIgnoredPaths : Option (List String) := none

/-- What `rollback` awaits once its intent is recorded. -/
structure RestoreAnswers where
  restore : RestoreReport
  /-- `snapshotDriver.fingerprint(roots, { against, excludeNewIgnored })` -/
  fingerprint : List String → Bool → String
  /-- `readIgnoredManifest` -/
  manifest : Option (List IgnoredManifestEntry)
  /-- `collectIgnoredEntries` of what `listIgnored` names, for a driver that has the method -/
  listIgnored : Option (List IgnoredManifestEntry)

namespace RestoreAnswers

def newIgnoredPaths (a : RestoreAnswers) : List String := a.restore.newIgnoredPaths.getD []

def unrestoredPaths (a : RestoreAnswers) : List String :=
  a.restore.unrestoredPaths ++ a.newIgnoredPaths

/-- The fingerprint that the restored roots have now. -/
def currentFp (a : RestoreAnswers) (targetRoots : List String) : String :=
  a.fingerprint targetRoots (0 < a.newIgnoredPaths.length)

end RestoreAnswers

def compareIgnoredManifest (snapshot : SnapshotRef) (answers : RestoreAnswers) :
    IgnoredManifestState × Option IgnoredChanges :=
  match nonEmpty snapshot.ignoredManifestDigest with
  | none => (.absent, none)
  | some _ =>
    match answers.manifest, answers.listIgnored with
    | some before, some after =>
      let (verdict, changes) := diffIgnoredEntries before after
      (verdict.state, changes)
    | _, _ => (.unreadable, none)

def restoredStatus (snapshot : SnapshotRef) (targetRoots : List String)
    (answers : RestoreAnswers) : RollbackStatus :=
  if answers.currentFp targetRoots ≠ snapshot.treeFingerprint then .failed
  else if 0 < answers.unrestoredPaths.length then .partialRestore
  else .restored

/-! ## What ran since the snapshot -/

/-- The value counts as true. -/
def truthy : Json → Bool
  | .null => false
  | .bool b => b
  | .num n => n ≠ 0
  | .str s => s ≠ ""
  | .arr _ | .obj _ => true

/-- `payload?.result || payload` -/
def payloadResult (payload : Json) : Json :=
  match payload.field? "result" with
  | some result => if truthy result then result else payload
  | none => payload

/-- `result?.confined === true` of the recorded result. -/
def saysConfined (payload : Json) : Bool :=
  (payloadResult payload).field? "confined" = some (.bool true)

/-- `result.confined === true`; of the typed results only that of a process has the property. -/
def resultConfined : OperationResult → Bool
  | .process r => (r.facts.find? fun fact => fact.1 == "confined").map Prod.snd = some (.bool true)
  | _ => false

def OperationKind.kernelOwn : OperationKind → Bool
  | .snapshot | .rollback => true
  | _ => false

/-- Nothing proves yet what the operation has done. -/
def stillRunning (rollbackOpId : String) (op : StoredOperation) : Bool :=
  op.id ≠ rollbackOpId && !OperationKind.kernelOwn op.kind && (op.status ≠ .done ||
    op.result.any fun result => result.status = .indeterminate && !resultConfined result)

/-- `getJournalEvents(domainId, journalSeq)`, and nothing without a position. -/
def eventsSince (s : SqliteStore) (domainId : String) (snapshot : SnapshotRef) : List JournalRow :=
  match snapshot.journalSeq with
  | some seq => (s.getJournalEvents domainId).filter fun row => seq ≤ row.seq
  | none => []

/-- The error of a statement that is given no operation id. -/
def unboundParameter : KernelError :=
  .typeError "Provided value cannot be bound to SQLite parameter 1."

/-- What one recorded result says; an event about no operation cannot be looked up. -/
def resultConfinedToRoots (fs : FileSystem) (s : SqliteStore) (targetRoots : List String)
    (row : JournalRow) : Except KernelError Bool :=
  match nonEmpty row.operationId with
  | none => .error unboundParameter
  | some operationId =>
    let storedOp := s.getOperation operationId
    if storedOp.any fun op => OperationKind.kernelOwn op.kind then .ok true
    else if !saysConfined row.payload then .ok false
    else
      let opRoots := (storedOp.bind fun op => op.mutationRoots).getD []
      .ok (opRoots.all fun opr => targetRoots.any fun sr => fs.isPathContained sr opr)

/-- `every` -/
def everyResult (ask : JournalRow → Except KernelError Bool) :
    List JournalRow → Except KernelError Bool
  | [] => .ok true
  | row :: rows => do if ← ask row then everyResult ask rows else return false

def allEffectsConfinedToRoots (fs : FileSystem) (s : SqliteStore) (domainId : String)
    (snapshot : SnapshotRef) (targetRoots : List String) (rollbackOpId : String) :
    Except KernelError Bool :=
  if (s.getAllOperations domainId).any (stillRunning rollbackOpId) then .ok false
  else everyResult (resultConfinedToRoots fs s targetRoots)
    ((eventsSince s domainId snapshot).filter fun row =>
      row.type = "OPERATION_RESULT_RECORDED" && row.operationId ≠ some rollbackOpId)

/-! ## The result -/

/-- What `rollback` records when the driver has answered; `Supervisor.restored` takes it from
    there. -/
def rollbackResult (fs : FileSystem) (s : SqliteStore) (domainId : String)
    (snapshot : SnapshotRef) (targetRoots : List String) (call : RollbackCall)
    (answers : RestoreAnswers) (now : Timestamp) : Except KernelError RollbackOperationResult := do
  let status := restoredStatus snapshot targetRoots answers
  let (ignoredManifest, _) := compareIgnoredManifest snapshot answers
  let confined ← allEffectsConfinedToRoots fs s domainId snapshot targetRoots call.options.opId
  let derived := deriveRollbackCoverage {
    status
    effects := if confined then .confined else .unconfined
    snapshotCoverage := snapshot.coverage
    ignoredManifest }
  return {
    status
    snapshotId := call.options.snapshotId
    unrestoredPaths :=
      if 0 < answers.unrestoredPaths.length then some answers.unrestoredPaths else none
    coverage := derived.coverage
    outOfScopeEffects := derived.outOfScopeEffects
    ignoredFiles := derived.ignoredFiles
    coverageBasis := derived.coverageBasis
    capabilityId := call.options.capabilityId
    durationMs := now - call.startTime
    completedAt := now }

end Supervisor
end XioFlow
