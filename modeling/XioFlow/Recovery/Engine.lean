/-
  XioFlow.Recovery.Engine

  `RecoveryEngine.recover`: every unfinished operation is settled, the runs
  that have nothing unfinished left are closed, and the leases of services
  that are not running any more are given back.
-/

import XioFlow.Recovery.Verdict
import XioFlow.Supervisor.Finalize

namespace XioFlow

open Lib
open Lib.Prog (read onlyIf)

namespace Recovery

/-! ## What the engine is given -/

structure RecoveryEngine where
  driver : PlatformDriver
  fingerprint : List String → SnapshotRef → Option String
  parseDate : String → Option Int
  /-- The clock while an operation is settled, by the operation's id. -/
  clock : String → Timestamp
  /-- What the clock and the callbacks of the queue answer otherwise. -/
  around : Surroundings

def RecoveryEngine.context (engine : RecoveryEngine) (op : StoredOperation) : Context where
  now := engine.clock op.id
  fingerprint := engine.fingerprint
  parseDate := engine.parseDate

structure RecoveredOperation where
  opId : String
  action : RecoveryAction
  resourcesReleased : Bool

structure RecoveredServiceSummary where
  serviceId : String
  instanceOpIds : List String
  action : RecoveryAction
  resourcesReleased : Bool

structure RecoveryReport where
  recoveredOperations : List RecoveredOperation
  recoveredServices : List RecoveredServiceSummary

/-! ## Services -/

/-- The id of an instance up to its last number sign. -/
def serviceIdOf (op : StoredOperation) : String :=
  match op.id.toList.reverse.dropWhile fun c => c ≠ '#' with
  | [] => op.id
  | _ :: before => String.ofList before.reverse

/-- `serviceInstances.get(serviceId)`, for the operations the engine has found. -/
def serviceInstances (all : List StoredOperation) (serviceId : String) : List String :=
  (all.filter fun op => op.kind = .service && serviceIdOf op = serviceId).map fun op => op.id

/-- `serviceInstances.keys()` -/
def serviceIds (all : List StoredOperation) : List String :=
  ((all.filter fun op => op.kind = .service).map serviceIdOf).eraseDups

/-- The instance is unfinished, or waits for an adjudication. -/
def unsettled (op : StoredOperation) : Bool :=
  op.status ≠ .done ||
    op.result.any fun result => result.status = .indeterminate && result.adjudication.isNone

def unsettledInstances (all : List StoredOperation) (s : SqliteStore) (serviceId : String) :
    List String :=
  (serviceInstances all serviceId).filter fun id => (s.getOperation id).any unsettled

/-- The holder of the locks of a service. -/
def serviceHolder (serviceId : String) : String := "service:" ++ serviceId

/-! ## One operation -/

def release (engine : RecoveryEngine) (operationId : String) (resources : List String) :
    DomainM Unit := do
  let _ ← ExecutionDomain.internalReleaseResources operationId resources engine.around.isCancelled
    engine.around.elapsed engine.around.now
  pure ()

def releaseServiceResources (engine : RecoveryEngine) (all : List StoredOperation)
    (op : StoredOperation) : DomainM Unit := do
  let remaining ← read fun d => unsettledInstances all d.store (serviceIdOf op)
  onlyIf remaining.isEmpty (release engine (serviceHolder (serviceIdOf op)) op.requiredResources)

def releaseOpAndServiceResources (engine : RecoveryEngine) (all : List StoredOperation)
    (op : StoredOperation) : DomainM Unit := do
  release engine op.id op.requiredResources
  onlyIf (op.kind = .service) (releaseServiceResources engine all op)

def serviceStoppedEvent (domainId : String) (op : StoredOperation) (action : RecoveryAction)
    (now : Timestamp) : SqliteStore.EventInput where
  domainId := domainId
  runId := some op.runId
  operationId := some op.id
  type := "SERVICE_STOPPED"
  payload := .obj [("serviceId", .str (serviceIdOf op)), ("runId", .str op.runId),
    ("instanceOpId", .str op.id), ("reason", .str "recovered_after_crash"),
    ("action", .str action.text)]
  timestamp := now

def recordServiceStoppedIfNeeded (engine : RecoveryEngine) (op : StoredOperation)
    (action : RecoveryAction) : DomainM Unit := do
  let d ← read id
  onlyIf (op.kind = .service) (onStore (SqliteStore.recordEvent
    (serviceStoppedEvent d.domainId op action (engine.clock op.id))))

/-- The writes that a verdict calls for. -/
def settle (engine : RecoveryEngine) (all : List StoredOperation) (op : StoredOperation)
    (verdict : OperationVerdict) : DomainM RecoveredOperation := do
  onStore (SqliteStore.recordOperationResult op.id (verdict.result (engine.clock op.id))
    verdict.released)
  onlyIf verdict.released (releaseOpAndServiceResources engine all op)
  onlyIf verdict.announced (recordServiceStoppedIfNeeded engine op verdict.action)
  return ⟨op.id, verdict.action, verdict.released⟩

/-- The verdict on an operation, in the state of the domain. -/
def judge [Crypto] (engine : RecoveryEngine) (op : StoredOperation) (s : SqliteStore) :
    Except KernelError OperationVerdict :=
  (decisionOf engine.driver s.getSnapshot (engine.context op) op).run engine.driver.answer

def recoverOperation [Crypto] (engine : RecoveryEngine) (all : List StoredOperation)
    (op : StoredOperation) : DomainM RecoveredOperation := do
  let verdict ← read fun d => judge engine op d.store
  match verdict with
  | .error e => throw e
  | .ok verdict => settle engine all op verdict

def recoverOperations [Crypto] (engine : RecoveryEngine) (all : List StoredOperation) :
    List StoredOperation → DomainM (List RecoveredOperation)
  | [] => pure []
  | op :: ops => do
    let recovered ← recoverOperation engine all op
    let rest ← recoverOperations engine all ops
    return recovered :: rest

/-! ## Runs -/

/-- `!hasUnfinished` -/
def allDone (s : SqliteStore) (runId : String) : Bool :=
  (s.getOperationsByRun runId).all fun op => op.status = .done

def hasIndeterminate (s : SqliteStore) (runId : String) : Bool :=
  (s.getOperationsByRun runId).any fun op =>
    op.result.any fun result => result.status = .indeterminate

def convergeRun (engine : RecoveryEngine) (run : Run) : DomainM Unit := do
  let s ← read fun d => d.store
  let now := engine.around.now
  onlyIf (allDone s run.id) (onStore
    (if hasIndeterminate s run.id then
      SqliteStore.updateRunStatus run.id .indeterminate none (some now) now
    else SqliteStore.updateRunStatus run.id .failed (some .crashDetected) (some now) now))

def convergeRuns (engine : RecoveryEngine) : List Run → DomainM Unit
  | [] => pure ()
  | run :: runs => do
    convergeRun engine run
    convergeRuns engine runs

/-! ## The service dimension -/

structure ServiceEntry where
  instanceOpIds : List String
  /-- A set, in insertion order. -/
  actions : List RecoveryAction
  resourcesReleased : Bool

/-- `Map<string, ServiceEntry>` in insertion order. -/
abbrev ServiceMap := List (String × ServiceEntry)

namespace ServiceMap

def get? (m : ServiceMap) (serviceId : String) : Option ServiceEntry :=
  (m.find? fun entry => entry.1 = serviceId).map Prod.snd

/-- `map.set`: an id that is there keeps its place. -/
def set (m : ServiceMap) (serviceId : String) (entry : ServiceEntry) : ServiceMap :=
  match m with
  | [] => [(serviceId, entry)]
  | e :: m => if e.1 = serviceId then (serviceId, entry) :: m else e :: set m serviceId entry

end ServiceMap

def addAction (action : RecoveryAction) (actions : List RecoveryAction) : List RecoveryAction :=
  if action ∈ actions then actions else actions ++ [action]

/-- A recovered operation counts for its service. -/
def countRecovered (unfinished : List StoredOperation) (m : ServiceMap)
    (recovered : RecoveredOperation) : ServiceMap :=
  match unfinished.find? fun op => op.id = recovered.opId with
  | none => m
  | some op =>
    if op.kind = .service then
      let entry := (m.get? (serviceIdOf op)).getD ⟨[], [], true⟩
      m.set (serviceIdOf op) {
        instanceOpIds := entry.instanceOpIds ++ [recovered.opId]
        actions := addAction recovered.action entry.actions
        resourcesReleased := entry.resourcesReleased && recovered.resourcesReleased }
    else m

/-- Instances isolated by an earlier recovery count, too. -/
def countUnsettled (all : List StoredOperation) (s : SqliteStore) (m : ServiceMap)
    (serviceId : String) : ServiceMap :=
  let remaining := unsettledInstances all s serviceId
  if remaining = [] then m
  else
    let entry := (m.get? serviceId).getD ⟨[], [], false⟩
    m.set serviceId {
      instanceOpIds := (entry.instanceOpIds ++ remaining).eraseDups
      actions := addAction .isolatedIndeterminate entry.actions
      resourcesReleased := false }

def serviceMap (all unfinished : List StoredOperation) (recovered : List RecoveredOperation)
    (s : SqliteStore) : ServiceMap :=
  (serviceIds all).foldl (countUnsettled all s)
    (recovered.foldl (countRecovered unfinished) [])

def clearedBackoffEvent (domainId serviceId : String) (now : Timestamp) :
    SqliteStore.EventInput where
  domainId := domainId
  type := "SERVICE_STOPPED"
  payload := .obj [("serviceId", .str serviceId), ("reason", .str "recovered_after_crash"),
    ("action", .str "cleared_backoff_lease")]
  timestamp := now

/-- The service that the id of a holder names. -/
def heldService (operationId : String) : Option String :=
  if hasPrefix "service:" operationId then
    some (String.ofList (operationId.toList.drop "service:".toList.length))
  else none

/-- The leases of services that wait for nobody's adjudication. -/
def clearBackoffLeases (engine : RecoveryEngine) : List ResourceLease → ServiceMap →
    DomainM ServiceMap
  | [], m => pure m
  | lease :: leases, m =>
    match heldService lease.operationId with
    | none => clearBackoffLeases engine leases m
    | some serviceId =>
      match (m.get? serviceId).map ServiceEntry.resourcesReleased with
      | some false => clearBackoffLeases engine leases m
      | some true => do
        release engine lease.operationId [lease.resourceId]
        clearBackoffLeases engine leases m
      | none => do
        release engine lease.operationId [lease.resourceId]
        let d ← read id
        onStore (SqliteStore.recordEvent
          (clearedBackoffEvent d.domainId serviceId engine.around.now))
        clearBackoffLeases engine leases (m.set serviceId ⟨[], [.stoppedAliveProcess], true⟩)

/-- The most telling of the actions on a service. -/
def summaryAction (actions : List RecoveryAction) : RecoveryAction :=
  if .isolatedIndeterminate ∈ actions then .isolatedIndeterminate
  else if .stoppedAliveProcess ∈ actions then .stoppedAliveProcess
  else if .markedDead ∈ actions then .markedDead
  else .cleanedUnspawned

def summarize (entry : String × ServiceEntry) : RecoveredServiceSummary where
  serviceId := entry.1
  instanceOpIds := entry.2.instanceOpIds
  action := summaryAction entry.2.actions
  resourcesReleased := entry.2.resourcesReleased

/-! ## Recovery -/

def recover [Crypto] (engine : RecoveryEngine) : DomainM RecoveryReport := do
  let d ← read id
  let unfinished := d.store.getUnfinishedOperations d.domainId
  let all := d.store.getAllOperations d.domainId
  let recovered ← recoverOperations engine all unfinished
  let activeRuns ← read fun d => d.store.getActiveRuns d.domainId
  convergeRuns engine activeRuns
  let s ← read fun d => d.store
  let services ← clearBackoffLeases engine (s.getPersistedResourceLeases d.domainId)
    (serviceMap all unfinished recovered s)
  return ⟨recovered, services.map summarize⟩

end Recovery
end XioFlow
