/-
  XioFlow.Store.Sqlite

  The writing methods of the store, each a program of atomic blocks: a
  statement outside a transaction is a block of its own, a transaction is one
  block.  `now` is what the method reads from the clock.
-/

import XioFlow.Store.Database
import XioFlow.Store.Payload
import XioFlow.Config
import XioFlow.Lib.Prog

namespace XioFlow

open Lib

/-- A program over a store. -/
abbrev StoreM := Prog SqliteStore KernelError

/-- `value || null` for a string. -/
def nonEmpty (value : Option String) : Option String := value.filter fun s => s ≠ ""

namespace SqliteStore

open Prog (read check modify exec transaction onlyIf throwIf)
open JsValue (ofOption ofNat ofTime ofStrings)

/-- A pure check of the arguments, before any statement. -/
def require (r : Except KernelError Unit) : StoreM Unit :=
  match r with
  | .ok () => pure ()
  | .error e => throw e

/-- Replace the database, keep the epoch. -/
def withDb (s : SqliteStore) (db : Database) : SqliteStore := { s with db }

/-! ## Ownership -/

/-- What `process.kill(pid, 0)` answers. -/
inductive KillOutcome where
  | delivered | eperm | failed
  deriving DecidableEq

/-- `Number(ownerId.split('-')[1]) || 0`, for segments of decimal digits. -/
def ownerPid (ownerId : String) : Nat :=
  (((splitAtChar '-' ownerId.toList)[1]?).bind decimalValue?).getD 0

/-- Whether the process named by an owner row counts as alive. -/
def isOldProcessAlive (existing : OwnerRecord) (hostname : String) (now : Timestamp)
    (kill : Nat → KillOutcome) : Bool :=
  let oldPid := ownerPid existing.ownerId
  if existing.hostname = hostname ∧ 0 < oldPid then
    kill oldPid = .delivered || kill oldPid = .eperm
  else
    -- Another host, or no local pid in the owner id: alive until the lease expires.
    !decide (existing.expiresAt ≤ now)

/-- The row that `acquireOwnerLease` leaves, or its refusal. -/
def nextOwner (existing : Option OwnerRecord) (domainId ownerId hostname : String) (ttlMs : Nat)
    (force : Bool) (now : Timestamp) (kill : Nat → KillOutcome) :
    Except KernelError OwnerRecord :=
  let granted (epoch : Int) : OwnerRecord :=
    { domainId, ownerId, epoch, heartbeatAt := now, expiresAt := now + ttlMs, hostname }
  match existing with
  | none => .ok (granted 1)
  | some existing =>
    if existing.ownerId = ownerId then .ok (granted existing.epoch)
    else if force || decide (existing.expiresAt ≤ now) ||
        !isOldProcessAlive existing hostname now kill then
      .ok (granted (existing.epoch + 1))
    else .error (.domainLocked domainId (ownerPid existing.ownerId) existing.heartbeatAt)

def acquireOwnerLease (domainId ownerId hostname : String) (ttlMs : Nat) (force : Bool)
    (now : Timestamp) (kill : Nat → KillOutcome) : StoreM OwnerRecord :=
  transaction do
    let existing ← read (·.getOwner domainId)
    match nextOwner existing domainId ownerId hostname ttlMs force now kill with
    | .error e => throw e
    | .ok row => do
      modify fun s => { s.withDb { s.db with owners := s.db.owners.replace row } with
        currentEpoch := some row.epoch }
      return row

/-- A row whose lease is over. -/
def expiredRow (row : OwnerRecord) : OwnerRecord := { row with expiresAt := 0 }

theorem expiredRow_domainId (row : OwnerRecord) :
    (expiredRow row).domainId = row.domainId := rfl

def releaseOwnerLease (domainId ownerId : String) : StoreM Unit :=
  modify fun s => s.withDb { s.db with
    owners := s.db.owners.updateWhere
      (fun row => row.domainId = domainId && row.ownerId = ownerId) expiredRow
      expiredRow_domainId }

/-- `fence()`: an epoch no owner row ever has. -/
def fence (s : SqliteStore) : SqliteStore := { s with currentEpoch := some (-1) }

/-- The check that every guarded write begins with. -/
def epochFencing (domainId : String) (s : SqliteStore) : Except KernelError Unit :=
  match s.currentEpoch, s.getOwner domainId with
  | some epoch, some owner =>
    if owner.epoch ≠ epoch then .error (.epochFenced domainId epoch owner.epoch) else .ok ()
  | _, _ => .ok ()

def verifyEpochFencing (domainId : String) : StoreM Unit := check (epochFencing domainId)

/-! ## The journal -/

/-- `Omit<JournalEvent, 'seq'>` -/
structure EventInput where
  domainId : String
  runId : Option String := none
  operationId : Option String := none
  type : String
  payload : JsValue
  timestamp : Timestamp
  schemaVersion : Option String := none
  requestId : Option String := none
  programId : Option String := none
  instructionId : Option String := none
  opId : Option String := none
  event : Option String := none
  sensitivity : Option EventSensitivity := none
  createdAt : Option Timestamp := none

/-- `event.event ?? event.type` -/
def EventInput.eventName (e : EventInput) : String := e.event.getD e.type

/-- `event.operationId ?? event.opId` when it is not the empty string. -/
def EventInput.subject (e : EventInput) : Option String := nonEmpty (e.operationId.or e.opId)

/-- `payload.preIntentCancelled === true` -/
def marksPreIntentCancelled : JsValue → Bool
  | .obj entries | .exotic entries =>
    entries.any fun entry => match entry with
      | ("preIntentCancelled", .bool true) => true
      | _ => false
  | _ => false

def EventInput.preIntentCancelled (e : EventInput) : Bool :=
  e.eventName = "OPERATION_RESULT_RECORDED" && marksPreIntentCancelled e.payload

/-- Events about an operation that need its durable intent first. -/
def requiresIntent (eventName : String) : Bool :=
  (eventName = "OPERATION_RESULT_RECORDED" || eventName = "OPERATION_STATUS_TRANSITION" ||
    eventName = "CAPABILITY_USED" ||
    ["SERVICE_", "SNAPSHOT_", "WORKSPACE_", "ARTIFACT_", "PROCESS_", "PROC_"].any
      fun pre => hasPrefix pre eventName) &&
  eventName ≠ "OPERATION_INTENT_REGISTERED" && eventName ≠ "RESOURCES_RELEASED" &&
  eventName ≠ "OPERATION_REPLAYED"

/-- The intent statement and its refusal. -/
def intentRecorded (eventName operationId : String) (s : SqliteStore) : Except KernelError Unit :=
  if s.db.journalEvents.hasEvent operationId "OPERATION_INTENT_REGISTERED" then .ok ()
  else .error (.error ("Cannot record event \"" ++ eventName ++ "\" for operation \"" ++
    operationId ++ "\": durable intent was not recorded"))

/-- The prior-result statement and its refusal. -/
def noPriorResultEvent (operationId : String) (s : SqliteStore) : Except KernelError Unit :=
  if s.db.journalEvents.hasEvent operationId "OPERATION_RESULT_RECORDED" then
    .error (.error ("Cannot record result event for operation \"" ++ operationId ++
      "\": result event already exists"))
  else .ok ()

/-- The row that an event and its envelope make; the journal numbers it. -/
def eventRow (e : EventInput) (envelope : EventEnvelope) : JournalRow where
  seq := 0
  domainId := e.domainId
  runId := nonEmpty e.runId
  operationId := nonEmpty e.operationId
  type := envelope.event
  payload := envelope.payload
  timestamp := envelope.createdAt
  schemaVersion := envelope.schemaVersion
  requestId := nonEmpty envelope.requestId
  programId := nonEmpty envelope.programId
  instructionId := nonEmpty envelope.instructionId
  opId := nonEmpty envelope.opId
  event := envelope.event
  sensitivity := envelope.sensitivity
  createdAt := envelope.createdAt

/-- The envelope `recordEventAndTransitionState` builds. -/
def EventInput.envelope (e : EventInput) : Except KernelError EventEnvelope :=
  createEventEnvelope {
    schemaVersion := e.schemaVersion
    domainId := e.domainId
    requestId := e.requestId
    programId := e.programId
    instructionId := e.instructionId
    opId := e.opId.or e.operationId
    event := e.eventName
    payload := e.payload
    sensitivity := e.sensitivity
    createdAt := some (e.createdAt.getD e.timestamp) } e.timestamp

/-- The two journal checks on an event about an operation. -/
def journalChecks (e : EventInput) : StoreM Unit :=
  match e.subject with
  | none => pure ()
  | some operationId => do
    onlyIf (requiresIntent e.eventName && !e.preIntentCancelled)
      (check (intentRecorded e.eventName operationId))
    onlyIf (e.eventName = "OPERATION_RESULT_RECORDED" && !e.preIntentCancelled)
      (check (noPriorResultEvent operationId))

/-- The store with one more journal row. -/
def appendEvent (row : JournalRow) (s : SqliteStore) : SqliteStore :=
  s.withDb { s.db with journalEvents := s.db.journalEvents.append row }

/-- The envelope, then the row; the answer is its sequence number. -/
def insertEvent (e : EventInput) : StoreM Nat :=
  match e.envelope with
  | .error err => throw err
  | .ok envelope => Prog.block fun s =>
    let s' := appendEvent (eventRow e envelope) s
    .ok (s', s'.db.journalEvents.lastSeq)

def recordEventAndTransitionState (e : EventInput) : StoreM Nat := do
  verifyEpochFencing e.domainId
  journalChecks e
  insertEvent e

/-- Record an event whose sequence number the caller does not use. -/
def recordEvent (e : EventInput) : StoreM Unit := do
  let _ ← recordEventAndTransitionState e
  pure ()

def recordJournalEvent (e : EventInput) : StoreM Nat := recordEventAndTransitionState e

/-- The event is redacted once here and once more on its way into the journal. -/
def recordEventEnvelope (input : EventEnvelopeInput) (now : Timestamp) : StoreM Nat :=
  match createEventEnvelope input now with
  | .error err => throw err
  | .ok envelope => recordEventAndTransitionState {
      domainId := envelope.domainId
      operationId := envelope.opId
      type := envelope.event
      payload := envelope.payload.toJs
      timestamp := envelope.createdAt
      schemaVersion := some envelope.schemaVersion
      requestId := envelope.requestId
      programId := envelope.programId
      instructionId := envelope.instructionId
      opId := envelope.opId
      event := some envelope.event
      sensitivity := some envelope.sensitivity
      createdAt := some envelope.createdAt }

/-! ## Tasks and runs -/

def saveTask (task : Task) : StoreM Unit := do
  verifyEpochFencing task.domainId
  modify fun s =>
    let tasks := match s.db.tasks.insert? task with
      | some tasks => tasks
      | none => s.db.tasks.update task.id
          (fun row => { row with name := task.name, taskMeta := task.taskMeta }) (fun _ => rfl)
    s.withDb { s.db with tasks }

/-- The refusal of a transition out of a terminal status. -/
def cannotTransition (runId : String) (existing requested : KernelRunStatus) : KernelError :=
  .error ("Cannot transition Run \"" ++ runId ++ "\" from terminal status \"" ++ existing.text ++
    "\" to \"" ++ requested.text ++ "\".")

/-- A stored run that is finalized keeps its status. -/
def keepsTerminal (run : Run) : Option Run → Except KernelError Unit
  | some existing =>
    if existing.status.terminal && existing.status ≠ run.status then
      .error (cannotTransition run.id existing.status run.status)
    else .ok ()
  | none => .ok ()

/-- The row that a new run is stored as. -/
def sanitizedRun (run : Run) : Run :=
  { run with configSnapshotWhiteList := sanitizeConfigSnapshot run.configSnapshotWhiteList }

/-- The `ON CONFLICT(id) DO UPDATE` of `saveRun`. -/
def mergedRun (run existing : Run) : Run :=
  { existing with
    status := run.status
    terminationReason := run.terminationReason
    endedAt := run.endedAt
    configSnapshotWhiteList := sanitizeConfigSnapshot run.configSnapshotWhiteList
    configSnapshot := existing.configSnapshot.or run.configSnapshot }

theorem mergedRun_id (run existing : Run) : (mergedRun run existing).id = existing.id := rfl

/-- The statement of `saveRun`: an upsert under the foreign key on tasks. -/
def upsertRun (run : Run) (s : SqliteStore) : Except KernelError SqliteStore :=
  match s.db.runs.insert? (sanitizedRun run) with
  | some runs =>
    if s.db.tasks.get? run.taskId = none then
      .error (.constraint "FOREIGN KEY constraint failed")
    else .ok (s.withDb { s.db with runs })
  | none => .ok (s.withDb { s.db with
      runs := s.db.runs.update run.id (mergedRun run) (mergedRun_id run) })

def saveRun [Crypto] (run : Run) : StoreM Unit := do
  verifyEpochFencing run.domainId
  let existing ← read (·.getRun run.id)
  require (keepsTerminal run existing)
  require (assertOptionalSnapshot run.configSnapshot)
  exec (upsertRun run)

def runNotFound (runId : String) : KernelError := .error ("Run '" ++ runId ++ "' not found")

/-- Bind the first request snapshot to a run; later requests do not rewrite it. -/
def bindRunConfigSnapshot [Crypto] (runId : String) (snapshot : RequestConfigSnapshot) :
    StoreM Unit := do
  require (assertRequestConfigSnapshot snapshot)
  transaction do
    let run ← read (·.getRun runId)
    match run with
    | none => throw (runNotFound runId)
    | some run =>
      match run.configSnapshot with
      | some bound => require (assertRequestConfigSnapshot bound)
      | none => do
        verifyEpochFencing run.domainId
        modify fun s => s.withDb { s.db with
          runs := s.db.runs.update runId
            (fun row => { row with configSnapshot := row.configSnapshot.or (some snapshot) })
            (fun _ => rfl) }

/-- A run after a status update: NULL parameters leave their columns alone. -/
def runStatusRow (status : KernelRunStatus) (terminationReason : Option TerminationReason)
    (endedAt : Option Timestamp) (row : Run) : Run :=
  { row with
    status
    terminationReason := terminationReason.or row.terminationReason
    endedAt := endedAt.or row.endedAt }

theorem runStatusRow_id (status : KernelRunStatus) (terminationReason : Option TerminationReason)
    (endedAt : Option Timestamp) (row : Run) :
    (runStatusRow status terminationReason endedAt row).id = row.id := rfl

/-- The statement of `updateRunStatus`. -/
def setRunStatus (runId : String) (status : KernelRunStatus)
    (terminationReason : Option TerminationReason) (endedAt : Option Timestamp)
    (s : SqliteStore) : SqliteStore :=
  s.withDb { s.db with
    runs := s.db.runs.update runId (runStatusRow status terminationReason endedAt)
      (runStatusRow_id status terminationReason endedAt) }

def runStatusEvent (run : Run) (status : KernelRunStatus)
    (terminationReason : Option TerminationReason) (endedAt : Option Timestamp)
    (now : Timestamp) : EventInput where
  domainId := run.domainId
  runId := some run.id
  type := "RUN_STATUS_TRANSITION"
  payload := .obj [("status", .str status.text),
    ("terminationReason", ofOption (fun r => .str r.text) terminationReason),
    ("endedAt", ofOption ofTime endedAt)]
  timestamp := now

def updateRunStatus (runId : String) (status : KernelRunStatus)
    (terminationReason : Option TerminationReason) (endedAt : Option Timestamp)
    (now : Timestamp) : StoreM Unit :=
  transaction do
    let run ← read (·.getRun runId)
    match run with
    -- An unknown run: the UPDATE matches no row and no event is recorded.
    | none => pure ()
    | some run => do
      verifyEpochFencing run.domainId
      if run.status.terminal then
        throwIf (run.status ≠ status) (cannotTransition runId run.status status)
      else do
        modify (setRunStatus runId status terminationReason endedAt)
        recordEvent
          (runStatusEvent run status terminationReason endedAt now)

/-- `agents.set(agent.id, agent.status)` over the agent events of a run, in order. -/
def agentStates (runId : String) :
    List JournalRow → List (Option Json × Option Json) →
      Except KernelError (List (Option Json × Option Json))
  | [], agents => .ok agents
  | row :: rows, agents =>
    if row.type = "AGENT_STATE" ∧ row.runId = some runId then
      match row.payload.field? "state" with
      | none | some .null =>
        .error (.typeError "Cannot read properties of undefined (reading 'id')")
      | some state =>
        let id := state.field? "id"
        agentStates runId rows
          (agents.filter (fun agent => agent.1 ≠ id) ++ [(id, state.field? "status")])
    else agentStates runId rows agents

/-- An agent that is neither completed nor failed. -/
def agentOpen (agent : Option Json × Option Json) : Bool :=
  agent.2 ≠ some (.str "completed") && agent.2 ≠ some (.str "failed")

/-- The checks on the agents and the operations of a run that is to complete. -/
def completable (runId : String) (ops : List StoredOperation) (events : List JournalRow) :
    Except KernelError Unit :=
  match agentStates runId events [] with
  | .error e => .error e
  | .ok agents =>
    let unfinished := ops.filter fun op => op.status ≠ .done
    if agents.any agentOpen then
      .error (.error ("Cannot complete run '" ++ runId ++ "': agents are not in terminal status"))
    else if unfinished ≠ [] then
      .error (.error ("Cannot complete run '" ++ runId ++ "': operations [" ++
        ", ".intercalate (unfinished.map fun op => op.id) ++ "] are not in terminal status"))
    else .ok ()

/-- The result of an operation whose outcome is unknown. -/
def indeterminateResult? (op : StoredOperation) : Option OperationResult :=
  op.result.filter fun result => result.status = .indeterminate

def reportRunSucceeded (runId : String) (now : Timestamp) : StoreM Unit :=
  transaction do
    let run ← read (·.getRun runId)
    match run with
    | none => throw (runNotFound runId)
    | some run => do
      verifyEpochFencing run.domainId
      if run.status = .succeeded then pure ()
      else if run.status.terminal then
        throw (.error ("Cannot report run '" ++ runId ++
          "' succeeded: already finalized with status '" ++ run.status.text ++ "'"))
      else do
        let ops ← read (·.getOperationsByRun runId)
        let events ← read (·.getJournalEvents run.domainId)
        require (completable runId ops events)
        match ops.filterMap indeterminateResult? with
        | result :: _ =>
          updateRunStatus runId .indeterminate result.terminationReason (some now) now
        | [] => updateRunStatus runId .succeeded (some .completed) (some now) now

def reportRunFailed (runId : String) (reason : TerminationReason) (now : Timestamp) :
    StoreM Unit :=
  transaction do
    let run ← read (·.getRun runId)
    match run with
    | none => throw (runNotFound runId)
    | some run => do
      verifyEpochFencing run.domainId
      if run.status = .failed then pure ()
      else if run.status.terminal then
        throw (.error ("Cannot report run '" ++ runId ++
          "' failed: already finalized with status '" ++ run.status.text ++ "'"))
      else updateRunStatus runId .failed (some reason) (some now) now

def reportRunCancelled (runId : String) (reason : TerminationReason) (now : Timestamp) :
    StoreM Unit :=
  transaction do
    let run ← read (·.getRun runId)
    match run with
    | none => throw (runNotFound runId)
    | some run => do
      verifyEpochFencing run.domainId
      if run.status.terminal then
        throw (.error ("Cannot report run '" ++ runId ++
          "' cancelled: already finalized with status '" ++ run.status.text ++ "'"))
      else updateRunStatus runId .cancelled (some reason) (some now) now

/-! ## Operations -/

def runNotRegistered (runId domainId : String) : KernelError :=
  .error ("Run \"" ++ runId ++ "\" is not registered in domain \"" ++ domainId ++ "\". " ++
    "Register the task and run first (store.saveTask() + store.saveRun()), " ++
    "then execute operations for that run.")

def runFinalized (opId runId : String) (status : KernelRunStatus) : KernelError :=
  .error ("Cannot register operation \"" ++ opId ++ "\" for Run \"" ++ runId ++
    "\" because the Run is already finalized with status \"" ++ status.text ++ "\".")

/-- The check on the run before an operation is added to it. -/
def openRun (op : Operation) (domainId : String) (s : SqliteStore) : Except KernelError Unit :=
  match s.getRun op.runId with
  | none => .error (runNotRegistered op.runId domainId)
  | some run =>
    if run.status.terminal then .error (runFinalized op.id op.runId run.status) else .ok ()

/-- `INSERT INTO operations` under its primary key and its foreign key on runs. -/
def insertOperation (row : StoredOperation) (s : SqliteStore) : Except KernelError SqliteStore :=
  match s.db.operations.insert? row with
  | none => .error (.constraint "UNIQUE constraint failed: operations.id")
  | some operations =>
    if s.db.runs.get? row.runId = none then .error (.constraint "FOREIGN KEY constraint failed")
    else .ok (s.withDb { s.db with operations })

/-- One `INSERT INTO resource_leases`. -/
def insertLease (lease : ResourceLease) (s : SqliteStore) : Except KernelError SqliteStore :=
  match s.db.resourceLeases.insert? lease with
  | none => .error (.constraint
      "UNIQUE constraint failed: resource_leases.resource_id, resource_leases.operation_id")
  | some resourceLeases => .ok (s.withDb { s.db with resourceLeases })

/-- The columns of a new operation: empty strings and a zero timeout are stored as NULL. -/
def intentRow (op : Operation) (domainId : String) : StoredOperation :=
  { op with
    domainId
    status := .intentRegistered
    capabilityId := nonEmpty op.capabilityId
    timeoutMs := op.timeoutMs.filter fun t => t ≠ 0
    outputRef := nonEmpty op.outputRef }

/-- The part of a binding that the intent event names. -/
def configBinding (s : RequestConfigSnapshot) : JsValue := .obj [
  ("schemaVersion", .str s.schemaVersion),
  ("capabilityId", ofOption .str s.capabilityId),
  ("capabilityPolicyVersion", ofOption .str s.capabilityPolicyVersion),
  ("driverName", .str s.driverName),
  ("driverVersion", .str s.driverVersion),
  ("retentionVersion", .str s.retentionVersion),
  ("redactionVersion", .str s.redactionVersion),
  ("digest", .str s.digest)]

/-- The leases of an operation, one statement a resource. -/
def insertLeases (op : Operation) (domainId : String) (now : Timestamp) :
    List String → StoreM Unit
  | [] => pure ()
  | resourceId :: resources => do
    exec (insertLease
      { resourceId, operationId := op.id, domainId, acquiredAt := now,
        budget := op.resourceBudget })
    insertLeases op domainId now resources

def intentEvent (op : Operation) (domainId : String) (now : Timestamp) : EventInput where
  domainId := domainId
  runId := some op.runId
  operationId := some op.id
  type := "OPERATION_INTENT_REGISTERED"
  payload := .obj [("kind", .str op.kind.text), ("name", .str op.name),
    ("requiredResources", ofStrings op.requiredResources),
    ("inputFingerprint", .str op.inputFingerprint),
    ("resourceBudget", ofOption ResourceBudget.toJs op.resourceBudget),
    ("spawnGated", ofOption .bool op.spawnGated),
    ("configBinding", ofOption configBinding op.configSnapshot)]
  timestamp := now

def registerOperationIntent [Crypto] (op : Operation) (domainId : String) (now : Timestamp) :
    StoreM Unit := do
  require (assertOptionalSnapshot op.configSnapshot)
  check (openRun op domainId)
  transaction do
    verifyEpochFencing domainId
    exec (insertOperation (intentRow op domainId))
    insertLeases op domainId now op.requiredResources
    recordEvent (intentEvent op domainId now)

/-- The row of an operation that was cancelled before its intent: no gate, no evidence. -/
def cancelledRow (op : Operation) (domainId : String) (result : OperationResult) :
    StoredOperation :=
  { intentRow op domainId with
    status := .done
    result := some result
    spawnGated := none
    recoveryEvidence := none }

def preIntentCancelledEvent (op : Operation) (domainId : String) (result : OperationResult) :
    EventInput where
  domainId := domainId
  runId := some op.runId
  operationId := some op.id
  type := "OPERATION_RESULT_RECORDED"
  payload := .obj [("result", result.toJs), ("releaseResources", .bool false),
    ("preIntentCancelled", .bool true)]
  timestamp := result.base.completedAt

def recordPreIntentCancelledOperation [Crypto] (op : Operation) (domainId : String)
    (result : OperationResult) : StoreM Unit := do
  require (assertOptionalSnapshot op.configSnapshot)
  check (openRun op domainId)
  transaction do
    verifyEpochFencing domainId
    let existing ← read (·.getOperation op.id)
    throwIf existing.isSome (.error ("Operation \"" ++ op.id ++ "\" already exists"))
    exec (insertOperation (cancelledRow op domainId result))
    recordEvent (preIntentCancelledEvent op domainId result)

/-- The launch evidence once the process is known. -/
def withRecoveryIdentity (evidence : Option RecoveryEvidence) (identity : ProcessIdentity)
    (now : Timestamp) : Option RecoveryEvidence :=
  evidence.map fun evidence =>
    { evidence with
      identity := some identity
      containment := match nonEmpty identity.cgroupPath with
        | some path => some { kind := .cgroup, path := some path, status := .held,
                              source := .spawn, observedAt := now }
        | none => evidence.containment
      pipes := evidence.pipes.map fun pipes =>
        { pipes with stdin := .opened, stdout := .opened, stderr := .opened, observedAt := now } }

/-- A row after a status update: NULL parameters leave their columns alone. -/
def statusRow (status : OperationStatus) (processIdentity : Option ProcessIdentity)
    (outputRef : Option String) (now : Timestamp) (row : StoredOperation) : StoredOperation :=
  { row with
    status
    processIdentity := processIdentity.or row.processIdentity
    outputRef := (nonEmpty outputRef).or row.outputRef
    recoveryEvidence := (processIdentity.bind fun identity =>
      withRecoveryIdentity row.recoveryEvidence identity now).or row.recoveryEvidence }

theorem statusRow_id (status : OperationStatus) (processIdentity : Option ProcessIdentity)
    (outputRef : Option String) (now : Timestamp) (row : StoredOperation) :
    (statusRow status processIdentity outputRef now row).id = row.id := rfl

/-- The statement of `updateOperationStatus`. -/
def setOperationStatus (opId : String) (status : OperationStatus)
    (processIdentity : Option ProcessIdentity) (outputRef : Option String) (now : Timestamp)
    (s : SqliteStore) : SqliteStore :=
  s.withDb { s.db with
    operations := s.db.operations.update opId (statusRow status processIdentity outputRef now)
      (statusRow_id status processIdentity outputRef now) }

def statusTransitionEvent (op : StoredOperation) (status : OperationStatus)
    (processIdentity : Option ProcessIdentity) (outputRef : Option String) (now : Timestamp) :
    EventInput where
  domainId := op.domainId
  runId := some op.runId
  operationId := some op.id
  type := "OPERATION_STATUS_TRANSITION"
  payload := .obj [("status", .str status.text),
    ("processIdentity", ofOption ProcessIdentity.toJs processIdentity),
    ("outputRef", ofOption .str outputRef)]
  timestamp := now

/-- There is no check of the status the operation already has. -/
def updateOperationStatus (opId : String) (status : OperationStatus)
    (processIdentity : Option ProcessIdentity) (outputRef : Option String)
    (now : Timestamp) : StoreM Unit :=
  transaction do
    let op ← read (·.getOperation opId)
    match op with
    | none => pure ()
    | some op => do
      verifyEpochFencing op.domainId
      modify (setOperationStatus opId status processIdentity outputRef now)
      recordEvent
        (statusTransitionEvent op status processIdentity outputRef now)

def operationNotFound (opId : String) : KernelError :=
  .error ("Operation " ++ opId ++ " not found")

/-- `Partial<RecoveryEvidence>` -/
structure RecoveryPatch where
  driverName : Option String := none
  driverCapabilities : Option DriverCapabilities := none
  identity : Option ProcessIdentity := none
  tree : Option TreeEvidence := none
  pipes : Option PipesEvidence := none
  containment : Option ContainmentEvidence := none

def RecoveryPatch.mergeInto (patch : RecoveryPatch) (evidence : RecoveryEvidence) :
    RecoveryEvidence where
  driverName := patch.driverName.getD evidence.driverName
  driverCapabilities := patch.driverCapabilities.getD evidence.driverCapabilities
  identity := patch.identity.or evidence.identity
  tree := patch.tree.or evidence.tree
  pipes := patch.pipes.or evidence.pipes
  containment := patch.containment.or evidence.containment

/-- A row with other recovery evidence. -/
def evidenceRow (evidence : Option RecoveryEvidence) (row : StoredOperation) : StoredOperation :=
  { row with recoveryEvidence := evidence }

theorem evidenceRow_id (evidence : Option RecoveryEvidence) (row : StoredOperation) :
    (evidenceRow evidence row).id = row.id := rfl

def updateRecoveryEvidence (opId : String) (patch : RecoveryPatch) : StoreM Unit :=
  transaction do
    let op ← read (·.getOperation opId)
    match op with
    | none => throw (operationNotFound opId)
    | some op => do
      verifyEpochFencing op.domainId
      match op.recoveryEvidence with
      | none => pure ()
      | some evidence =>
        modify fun s => s.withDb { s.db with
          operations := s.db.operations.update opId
            (evidenceRow (some (patch.mergeInto evidence))) (evidenceRow_id _) }

/-- A row with another result. -/
def resultRow (result : OperationResult) (row : StoredOperation) : StoredOperation :=
  { row with result := some result }

theorem resultRow_id (result : OperationResult) (row : StoredOperation) :
    (resultRow result row).id = row.id := rfl

/-- The statement of `updateOperationResult`. -/
def setOperationResult (opId : String) (result : OperationResult) (s : SqliteStore) :
    SqliteStore :=
  s.withDb { s.db with
    operations := s.db.operations.update opId (resultRow result) (resultRow_id result) }

def updateOperationResult (opId : String) (result : OperationResult) : StoreM Unit :=
  transaction do
    let op ← read (·.getOperation opId)
    match op with
    | none => throw (operationNotFound opId)
    | some op => do
      verifyEpochFencing op.domainId
      modify (setOperationResult opId result)

def cannotRecordResult (opId why : String) : KernelError :=
  .error ("Cannot record result for operation \"" ++ opId ++ "\": " ++ why)

/-- The three checks of `recordOperationResult` on an operation it found. -/
def resultRecordable (op : StoredOperation) (s : SqliteStore) : Except KernelError Unit :=
  if op.status = .done then
    .error (cannotRecordResult op.id "operation is already finalized with status \"done\"")
  else if !s.db.journalEvents.hasEvent op.id "OPERATION_INTENT_REGISTERED" then
    .error (cannotRecordResult op.id "durable intent was not recorded")
  else if s.db.journalEvents.hasEvent op.id "OPERATION_RESULT_RECORDED" then
    .error (cannotRecordResult op.id "result event already exists")
  else .ok ()

/-- A finished row. -/
def finishedRow (result : OperationResult) (row : StoredOperation) : StoredOperation :=
  { row with
    status := .done
    result := some result
    outputRef := (nonEmpty result.outputRef).or row.outputRef
    capabilityId := (nonEmpty result.base.capabilityId).or row.capabilityId }

theorem finishedRow_id (result : OperationResult) (row : StoredOperation) :
    (finishedRow result row).id = row.id := rfl

/-- The `UPDATE` of `recordOperationResult`. -/
def finishOperation (opId : String) (result : OperationResult) (s : SqliteStore) : SqliteStore :=
  s.withDb { s.db with
    operations := s.db.operations.update opId (finishedRow result) (finishedRow_id result) }

/-- `DELETE FROM resource_leases WHERE operation_id = ?` -/
def deleteLeases (opId : String) (s : SqliteStore) : SqliteStore :=
  s.withDb { s.db with
    resourceLeases := s.db.resourceLeases.deleteWhere fun lease => lease.operationId = opId }

/-- The leases go with a confirmed result, when the caller lets them. -/
def settleLeases (opId : String) (result : OperationResult) (releaseResources : Bool)
    (s : SqliteStore) : SqliteStore :=
  if releaseResources && result.status ≠ .indeterminate then deleteLeases opId s else s

def resultEvent (op : StoredOperation) (result : OperationResult) (releaseResources : Bool) :
    EventInput where
  domainId := op.domainId
  runId := some op.runId
  operationId := some op.id
  type := "OPERATION_RESULT_RECORDED"
  payload := .obj [("result", result.toJs), ("releaseResources", .bool releaseResources)]
  timestamp := result.base.completedAt

def recordOperationResult (opId : String) (result : OperationResult) (releaseResources : Bool) :
    StoreM Unit :=
  transaction do
    let op ← read (·.getOperation opId)
    match op with
    | none => throw (operationNotFound opId)
    | some op => do
      verifyEpochFencing op.domainId
      check (resultRecordable op)
      modify (finishOperation opId result)
      modify (settleLeases opId result releaseResources)
      recordEvent (resultEvent op result releaseResources)

inductive ReplayMode where
  | joined | recorded | indeterminate
  deriving DecidableEq

def ReplayMode.text : ReplayMode → String
  | joined => "joined"
  | recorded => "recorded"
  | indeterminate => "indeterminate"

def replayEvent (domainId opId : String) (mode : ReplayMode) (callingRunId : String)
    (op : Option StoredOperation) (now : Timestamp) : EventInput where
  domainId := domainId
  runId := some callingRunId
  operationId := some opId
  type := "OPERATION_REPLAYED"
  payload := .obj [("mode", .str mode.text), ("opId", .str opId),
    ("callingRunId", .str callingRunId),
    ("originalRunId", ofOption (fun op => .str op.runId) op),
    ("originalStatus", ofOption (fun op => .str op.status.text) op)]
  timestamp := now

def recordReplay (domainId opId : String) (mode : ReplayMode) (callingRunId : String)
    (now : Timestamp) : StoreM Unit := do
  verifyEpochFencing domainId
  let op ← read (·.getOperation opId)
  recordEvent (replayEvent domainId opId mode callingRunId op now)

/-- No fencing check stands here. -/
def releaseResourceLease (operationId : String) (resourceId : Option String) : StoreM Unit :=
  modify fun s => s.withDb { s.db with
    resourceLeases := s.db.resourceLeases.deleteWhere fun lease =>
      lease.operationId = operationId &&
        match nonEmpty resourceId with
        | some resourceId => lease.resourceId = resourceId
        | none => true }

/-! ## Artifacts, snapshots and capabilities -/

/-- The `UNIQUE` columns of `artifacts`. -/
def artifactIdentity (r : ArtifactRecord) : String × String × String × String × String :=
  (r.domainId, r.path, r.dev, r.ino, r.birthtimeNs)

/-- The `CHECK`s of `artifacts`. -/
def artifactChecks (r : ArtifactRecord) : Bool :=
  ["public", "internal", "secret"].contains r.sensitivity &&
    ["unknown", "plaintext", "encrypted"].contains r.encryptionState &&
    ["present", "deleted", "unknown"].contains r.deletionState

def insertArtifact (record : ArtifactRecord) (s : SqliteStore) :
    Except KernelError SqliteStore :=
  if !artifactChecks record then .error (.constraint "CHECK constraint failed")
  else if s.db.artifacts.rows.any fun row => artifactIdentity row = artifactIdentity record then
    .error (.constraint ("UNIQUE constraint failed: artifacts.domain_id, artifacts.path, " ++
      "artifacts.dev, artifacts.ino, artifacts.birthtime_ns"))
  else match s.db.artifacts.insert? record with
    | none => .error (.constraint "UNIQUE constraint failed: artifacts.artifact_id")
    | some artifacts => .ok (s.withDb { s.db with artifacts })

def recordArtifact (record : ArtifactRecord) : StoreM Unit :=
  transaction do
    verifyEpochFencing record.domainId
    exec (insertArtifact record)

/-- The file an artifact statement is about: device, inode, birth time. -/
structure FileIdentity where
  dev : String
  ino : String
  birthtimeNs : String

/-- `WHERE domain_id = ? AND dev = ? AND ino = ? AND birthtime_ns = ?` -/
def FileIdentity.selects (identity : FileIdentity) (domainId : String) (row : ArtifactRecord) :
    Bool :=
  row.domainId = domainId && row.dev = identity.dev && row.ino = identity.ino &&
    row.birthtimeNs = identity.birthtimeNs

def finalizeArtifact (domainId : String) (identity : FileIdentity) (sha256 : String)
    (sizeBytes : Nat) : StoreM Unit :=
  transaction do
    verifyEpochFencing domainId
    modify fun s => s.withDb { s.db with
      artifacts := s.db.artifacts.updateWhere (identity.selects domainId)
        (fun row => { row with sha256 := some sha256, sizeBytes := some sizeBytes })
        (fun _ => rfl) }

def markArtifactDeleted (domainId : String) (identity : FileIdentity) (reason : String)
    (now : Timestamp) : StoreM Unit :=
  transaction do
    verifyEpochFencing domainId
    modify fun s => s.withDb { s.db with
      artifacts := s.db.artifacts.updateWhere (identity.selects domainId)
        (fun row => { row with
          deletionState := "deleted", deletedAt := some now, deletionReason := some reason })
        (fun _ => rfl) }

def recordSnapshot (snapshot : SnapshotRef) : StoreM Unit := do
  verifyEpochFencing snapshot.domainId
  modify fun s => s.withDb { s.db with snapshots := s.db.snapshots.replace snapshot }

/-- No fencing check stands here. -/
def deleteSnapshot (id : String) : StoreM Unit :=
  modify fun s => s.withDb { s.db with
    snapshots := s.db.snapshots.deleteWhere fun row => row.id = id }

def recordCapability (capability : Capability) : StoreM Unit := do
  verifyEpochFencing capability.domainId
  modify fun s => s.withDb { s.db with capabilities := s.db.capabilities.replace capability }

def revokeCapability (id domainId : String) (revokedAt : Timestamp) : StoreM Unit := do
  verifyEpochFencing domainId
  modify fun s => s.withDb { s.db with
    capabilities := s.db.capabilities.updateWhere
      (fun row => row.id = id && row.domainId = domainId)
      (fun row => { row with revokedAt := some revokedAt }) (fun _ => rfl) }

end SqliteStore
end XioFlow
