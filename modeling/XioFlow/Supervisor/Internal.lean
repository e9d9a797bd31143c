/-
  XioFlow.Supervisor.Internal

  The operations that the kernel runs itself, `captureSnapshot` and `rollback`,
  and `adjudicate`, stretch by stretch.

  A rollback that fails gives its resources back and leaves its record active.
-/

import XioFlow.Supervisor.Execute

namespace XioFlow

open Lib
open Lib.Prog (read check exec modify onlyIf throwIf transaction)
open JsValue (ofOption)
open ExecutionDomain (writeResource)
open SqliteStore

namespace Supervisor

/-! ## Intents of the kernel's own operations -/

/-- `allocateResources` of the domain, as a part of a stretch. -/
def allocate (operationId : String) (resources : List String) : KernelM Unit :=
  exec fun k =>
    match k.domain.allocateResources operationId resources 0 with
    | .ok domain => .ok { k with domain }
    | .error e => .error e

/-- `registerOperationIntent` of the domain. -/
def registerOperationIntent [Crypto] (op : Operation) (clock : Clock) : KernelM Unit := do
  check fun k => k.domain.assertOperationIdAvailable op.id
  allocate op.id op.requiredResources
  let k ← read id
  tryCatch (callStore (SqliteStore.registerOperationIntent op k.domain.domainId clock.now))
    fun e => do
      release op.id op.requiredResources clock
      throw e

def activeEvent (domainId : String) (op : Operation) (now : Timestamp) :
    EventInput where
  domainId := domainId
  runId := some op.runId
  operationId := some op.id
  type := "OPERATION_STATUS_TRANSITION"
  payload := .obj [("status", .str "active")]
  timestamp := now

def internalOpcode : OperationKind → Option String
  | .snapshot => some "workspace.snapshot"
  | .rollback => some "workspace.rollback"
  | _ => none

def internalCapabilityUsedEvent (domainId : String) (op : Operation) (capabilityId : String)
    (capAdmission : CapabilityAdmissionResult) (now : Timestamp) : EventInput where
  domainId := domainId
  runId := some op.runId
  operationId := some op.id
  type := "CAPABILITY_USED"
  payload := .obj [("capabilityId", .str capabilityId),
    ("scope", capAdmission.capability.scope.toJs), ("limits", capAdmission.effectiveLimits.toJs),
    ("actor", .str capAdmission.capability.issuedBy),
    ("opcode", ofOption .str (internalOpcode op.kind)), ("workspace", .undefined),
    ("secretRefs", .undefined)]
  timestamp := now

def activateInternalOperation [Crypto] (op : Operation)
    (capAdmission : Option CapabilityAdmissionResult) (clock : Clock) : KernelM Unit := do
  registerOperationIntent op clock
  match op.configSnapshot with
  | some snapshot => callStore (bindRunConfigSnapshot op.runId snapshot)
  | none => pure ()
  callStore (updateOperationStatus op.id .active none none clock.now)
  let k ← read id
  callStore (recordEvent (activeEvent k.domain.domainId op clock.now))
  match nonEmpty op.capabilityId, capAdmission with
  | some capabilityId, some capAdmission =>
    callStore (recordEvent
      (internalCapabilityUsedEvent k.domain.domainId op capabilityId capAdmission clock.now))
  | _, _ => pure ()

/-- What a kernel operation asks of its capability. -/
def internalRequest (capabilityId opcode : String) (mutationRoots : Option (List String))
    (workspace : Option String) (runId opId : String) : CheckCapabilityAdmissionOptions where
  domainId := ""
  currentEpoch := 0
  capabilityId := capabilityId
  mutationRoots := mutationRoots
  opcode := some opcode
  workspace := workspace
  runId := some runId
  opId := some opId

/-- `path.resolve` as text -/
def resolved (fs : FileSystem) (p : String) : String := renderPath (fs.resolve p)

/-! ## Snapshots -/

/-- The roots that are asked for, or all that the capability permits. -/
def snapshotRoots (requested : Option (List String))
    (admission : Option CapabilityAdmissionResult) : List String :=
  match requested.getD [], admission with
  | [], some admission => admission.effectiveMutationRoots
  | roots, _ => roots

/-- The operation of a snapshot before the repository is known. -/
def snapshotOperation [Crypto] (options : CaptureSnapshotOptions) (realRoots : List String)
    (configSnapshot : RequestConfigSnapshot) : Operation where
  id := options.opId
  runId := options.runId
  kind := .snapshot
  name := "snapshot:" ++ realRoots.head?.getD ""
  inputFingerprint := Crypto.sha256 (.obj ([("kind", .str "snapshot"),
    ("roots", .arr (realRoots.map .str)), ("includeIgnored", .bool options.includeIgnored),
    ("trackIgnored", if options.trackIgnored then .str "manifest" else .null)] ++
    (options.maxTreeSizeBytes.map fun size => ("maxTreeSizeBytes", .num size)).toList ++
    [("capabilityId", (options.capabilityId.map Json.str).getD .null)]))
  requiredResources := realRoots.map writeResource
  mutationRoots := some realRoots
  capabilityId := options.capabilityId
  configSnapshot := some configSnapshot
  timeoutMs := options.timeoutMs
  status := .intentRegistered

/-- `git:objects:<commonDir>` joins the resources when the repository was found. -/
def withRepository (commonDir : Option String) (op : Operation) : Operation :=
  { op with
    requiredResources := op.requiredResources ++
      (commonDir.map fun dir => "git:objects:" ++ dir).toList }

namespace Kernel

def putSnapshotCall (call : SnapshotCall) (k : Kernel) : Kernel :=
  { k with snapshotCalls := k.snapshotCalls.replace call }

def endSnapshotCall (ticket : Nat) (k : Kernel) : Kernel :=
  { k with snapshotCalls := k.snapshotCalls.deleteWhere fun call => call.ticket = ticket }

def endRollbackCall (ticket : Nat) (k : Kernel) : Kernel :=
  { k with rollbackCalls := k.rollbackCalls.deleteWhere fun call => call.ticket = ticket }

def endAdjudicateCall (ticket : Nat) (k : Kernel) : Kernel :=
  { k with adjudicateCalls := k.adjudicateCalls.deleteWhere fun call => call.ticket = ticket }

end Kernel

/-- Admission of a kernel operation; nothing comes back while the ancestors of the capability go in
    a circle. -/
def admitInternal (fs : FileSystem) (capabilityId : Option String)
    (request : String → CheckCapabilityAdmissionOptions) (now : Timestamp) :
    KernelM (Option (Option CapabilityAdmissionResult)) :=
  match nonEmpty capabilityId with
  | none => pure (some none)
  | some capabilityId => do
    let admission ← onDomain (ExecutionDomain.checkCapabilityAdmission fs now (request capabilityId))
    return admission.map some

/-- `captureSnapshot` up to its first await: the Git driver looks for the repository before the
    intent, other drivers come after it. -/
def captureSnapshot [Crypto] (fs : FileSystem) (options : CaptureSnapshotOptions)
    (gitShadow : Bool) (configSnapshot : RequestConfigSnapshot) (clock : Clock) :
    KernelM Unit := do
  check (assertOperationIdAvailable options.opId)
  let admitted ← admitInternal fs options.capabilityId (fun capabilityId =>
    internalRequest capabilityId "workspace.snapshot" options.roots options.capabilityWorkspace
      options.runId options.opId) clock.now
  match admitted with
  | none => pure ()
  | some capAdmission => do
    let targetRoots := snapshotRoots options.roots capAdmission
    throwIf targetRoots.isEmpty
      (.error "captureSnapshot requires at least one root directory")
    let op := snapshotOperation options (targetRoots.map (resolved fs)) configSnapshot
    onlyIf (!gitShadow) (activateInternalOperation op capAdmission clock)
    modify fun k => (k.putSnapshotCall
      { ticket := k.nextTicket, op, capAdmission, registered := !gitShadow,
        startTime := clock.now }).tick

/-- The repository was looked for: the intent follows. -/
def repositoryKnown [Crypto] (ticket : Nat) (commonDir : Option String) (clock : Clock) :
    KernelM Unit := do
  let k ← read id
  match (k.snapshotCalls.get? ticket).filter fun call => !call.registered with
  | none => pure ()
  | some call => do
    let op := withRepository commonDir call.op
    tryCatch (do
      activateInternalOperation op call.capAdmission clock
      modify (Kernel.putSnapshotCall { call with op, registered := true }))
      fun e => do
        modify (Kernel.endSnapshotCall ticket)
        throw e

def snapshotEvent (domainId : String) (call : SnapshotCall) (snapRef : SnapshotRef)
    (manifest : JsValue) (now : Timestamp) : EventInput where
  domainId := domainId
  runId := some call.op.runId
  operationId := some call.op.id
  type := "SNAPSHOT_CAPTURED"
  payload := .obj [("snapshotId", .str snapRef.id), ("roots", JsValue.ofStrings snapRef.roots),
    ("treeFingerprint", .str snapRef.treeFingerprint),
    ("commitHash", ofOption .str snapRef.commitHash), ("ignoredManifest", manifest)]
  timestamp := now

/-- The snapshot and the result of its operation, in one transaction. -/
def recordCaptured (domainId : String) (call : SnapshotCall) (snapRef : SnapshotRef)
    (manifest : JsValue) (now : Timestamp) : StoreM Unit :=
  transaction do
    let seq ← recordEventAndTransitionState
      (snapshotEvent domainId call snapRef manifest now)
    let snapRef := { snapRef with journalSeq := some seq }
    recordSnapshot snapRef
    recordOperationResult call.op.id (.snapshot {
      succeeded := true
      snapshot := some snapRef
      capabilityId := call.op.capabilityId
      durationMs := now - call.startTime
      completedAt := now }) true

def failedSnapshot (call : SnapshotCall) (error : KernelError) (now : Timestamp) :
    OperationResult :=
  .snapshot {
    succeeded := false
    errorMessage := some (errorMessage error)
    durationMs := now - call.startTime
    completedAt := now }

/-- The error that the caller gets: it names a failure to record the failure. -/
def snapshotError (error : KernelError) : Option KernelError → KernelError
  | none => error
  | some recordError => .error (errorMessage error ++
      " (additionally, recording the failed snapshot result failed: " ++
      errorMessage recordError ++ ")")

/-- The failure is recorded when the store takes it, and the resources go back. -/
def recordFailedSnapshot (call : SnapshotCall) (error : KernelError) (clock : Clock) :
    KernelM Unit := do
  let recordError ← tryCatch (do
    callStore (recordOperationResult call.op.id
      (failedSnapshot call error clock.now) true)
    return none)
    fun e => return some e
  release call.op.id [] clock
  throw (snapshotError error recordError)

/-- The rest of `captureSnapshot`: a reference with its manifest, or what went wrong. -/
def snapshotTaken (call : SnapshotCall) (outcome : Except KernelError (SnapshotRef × JsValue))
    (clock : Clock) : KernelM Unit := do
  match outcome with
  | .error e => recordFailedSnapshot call e clock
  | .ok (snapRef, manifest) => do
    let k ← read id
    tryCatch (callStore (recordCaptured k.domain.domainId call snapRef manifest clock.now))
      fun e => recordFailedSnapshot call e clock
    release call.op.id [] clock

/-- The call ends, whether it returns or throws. -/
def ending (last : Kernel → Kernel) (p : KernelM Unit) : KernelM Unit :=
  tryCatch (do
    p
    modify last)
    fun e => do
      modify last
      throw e

def captured (ticket : Nat) (outcome : Except KernelError (SnapshotRef × JsValue))
    (clock : Clock) : KernelM Unit := do
  let k ← read id
  match (k.snapshotCalls.get? ticket).filter SnapshotCall.registered with
  | none => pure ()
  | some call => ending (Kernel.endSnapshotCall ticket) (snapshotTaken call outcome clock)

/-! ## Rollback -/

/-- A root, its real path, and the names of both as resources. -/
structure RootAliases where
  root : String
  realRoot : String

def RootAliases.resources (a : RootAliases) : List String :=
  [writeResource a.root, writeResource a.realRoot]

def rootAliases (fs : FileSystem) (root : String) : RootAliases where
  root := root
  realRoot := ((fs.realpathSync (fs.resolve root)).map renderPath).getD root

/-- An operation that works on a root. -/
def touchesRoot (fs : FileSystem) (op : StoredOperation) (a : RootAliases) : Bool :=
  a.resources.any op.requiredResources.contains ||
    (op.mutationRoots.getD []).any fun mr =>
      resolved fs mr = a.root || resolved fs mr = a.realRoot

/-- Nothing else is at work on the roots: not in memory, not in the records, not in the leases. -/
def assertRootsQuiescent (fs : FileSystem) (targetRoots : List String) (opId : String)
    (k : Kernel) : Except KernelError Unit :=
  let aliases := targetRoots.map (rootAliases fs)
  let locked := (aliases.flatMap RootAliases.resources).find? k.domain.isResourceLocked
  match locked with
  | some res => .error (.resourceConflict res ((k.domain.getResourceOwner res).getD "unknown") opId 0)
  | none =>
    let unfinished := (k.domain.store.getUnfinishedOperations k.domain.domainId).findSome? fun op =>
      if op.id = opId then none
      else (aliases.find? (touchesRoot fs op)).map fun a => (writeResource a.root, op.id)
    match unfinished with
    | some (res, holder) => .error (.resourceConflict res holder opId 0)
    | none =>
      let leased := (k.domain.store.getPersistedResourceLeases k.domain.domainId).find? fun lease =>
        lease.operationId ≠ opId && aliases.any fun a => a.resources.contains lease.resourceId
      match leased with
      | some lease => .error (.resourceConflict lease.resourceId lease.operationId opId 0)
      | none => .ok ()

def rollbackOperation [Crypto] (options : RollbackOptions) (targetRoots : List String)
    (configSnapshot : RequestConfigSnapshot) : Operation where
  id := options.opId
  runId := options.runId
  kind := .rollback
  name := "rollback:" ++ options.snapshotId
  inputFingerprint := Crypto.sha256 (.obj [("kind", .str "rollback"),
    ("snapshotId", .str options.snapshotId), ("targetRoots", .arr (targetRoots.map .str)),
    ("capabilityId", (options.capabilityId.map Json.str).getD .null)])
  requiredResources := targetRoots.map writeResource
  mutationRoots := some targetRoots
  capabilityId := options.capabilityId
  configSnapshot := some configSnapshot
  outputRef := some options.snapshotId
  timeoutMs := options.timeoutMs
  status := .intentRegistered

/-- `rollback` up to its first await. -/
def rollback [Crypto] (fs : FileSystem) (options : RollbackOptions)
    (configSnapshot : RequestConfigSnapshot) (clock : Clock) : KernelM Unit := do
  check (assertOperationIdAvailable options.opId)
  let k ← read id
  match k.domain.store.getSnapshot options.snapshotId with
  | none => throw (.error ("Snapshot not found: " ++ options.snapshotId))
  | some snapshot => do
    let requested := (options.roots.getD snapshot.roots).map (resolved fs)
    let admitted ← admitInternal fs options.capabilityId (fun capabilityId =>
      internalRequest capabilityId "workspace.rollback" (some requested)
        options.capabilityWorkspace options.runId options.opId) clock.now
    match admitted with
    | none => pure ()
    | some capAdmission => do
      let targetRoots := (capAdmission.map
        CapabilityAdmissionResult.effectiveMutationRoots).getD requested
      check (assertRootsQuiescent fs targetRoots options.opId)
      activateInternalOperation (rollbackOperation options targetRoots configSnapshot) capAdmission
        clock
      modify fun k => { k.tick with
        rollbackCalls := k.rollbackCalls.replace
          { ticket := k.nextTicket, options, startTime := clock.now } }

/-- The rest of `rollback`: a result is recorded, an error gives the resources back. -/
def rollbackAnswered (call : RollbackCall)
    (outcome : Except KernelError RollbackOperationResult) (clock : Clock) : KernelM Unit :=
  tryCatch (do
    match outcome with
    | .error e => throw e
    | .ok result => do
      callStore (transaction do
        recordOperationResult call.options.opId (.rollback result) true
        updateOperationStatus call.options.opId .done none none clock.now)
      release call.options.opId [] clock)
    fun e => do
      release call.options.opId [] clock
      throw e

def restored (ticket : Nat) (outcome : Except KernelError RollbackOperationResult)
    (clock : Clock) : KernelM Unit := do
  let k ← read id
  match k.rollbackCalls.get? ticket with
  | none => pure ()
  | some call => ending (Kernel.endRollbackCall ticket) (rollbackAnswered call outcome clock)

/-! ## Adjudication -/

def notAdjudicable (opId : String) (op : StoredOperation) : KernelError :=
  .error ("Cannot adjudicate operation \"" ++ opId ++
    "\": status must be 'indeterminate' (current status: '" ++ op.status.text ++ "', result: '" ++
    ((op.result.map fun result => result.status.text).getD "undefined") ++ "')")

/-- `adjudicate` up to its first await; `alive` is what probing the process has found. -/
def adjudicate (opId : String) (options : AdjudicateOptions) (alive : Bool) : KernelM Unit := do
  onDomain (check ExecutionDomain.assertNotFenced)
  let k ← read id
  callStore (verifyEpochFencing k.domain.domainId)
  match k.domain.store.getOperation opId with
  | none => throw (.error ("Operation \"" ++ opId ++ "\" not found"))
  | some op => do
    throwIf (op.status ≠ .done || !op.result.any fun result => result.status = .indeterminate)
      (notAdjudicable opId op)
    modify fun k => { k.tick with
      adjudicateCalls := k.adjudicateCalls.replace {
        ticket := k.nextTicket, options, op
        residualPids := if alive then (op.processIdentity.map ProcessIdentity.pid).toList else [] } }

/-- The members of the process group, or what listing them throws. -/
def residualScan (call : AdjudicateCall) (members : Except KernelError (List Nat)) : List Nat :=
  match members with
  | .ok pids => (call.residualPids ++ pids).eraseDups
  | .error _ => call.residualPids

/-- Why a verdict of a confirmed stop cannot stand. -/
def contradicted (call : AdjudicateCall) (members : Except KernelError (List Nat)) :
    Option KernelError :=
  if call.options.verdict ≠ .confirmedStopped then none
  else
    let start := "Cannot adjudicate operation \"" ++ call.op.id ++ "\" as 'confirmed_stopped': "
    match members with
    | .error e => some (.error (start ++ "residual scan of process group " ++
        (((call.op.processIdentity.bind ProcessIdentity.pgid).map toString).getD "undefined") ++
        " failed: " ++ errorMessage e))
    | .ok _ =>
      match residualScan call members with
      | [] => none
      | pids => some (.error (start ++ "residual processes are still alive: [" ++
          joined (pids.map fun pid => toString pid) ++
          "]. Use 'abandon_with_residuals' or ensure processes are terminated first."))

def adjudicationRecord (call : AdjudicateCall) (residualPids : List Nat) (now : Timestamp) :
    AdjudicationRecord where
  operationId := call.op.id
  verdict := call.options.verdict
  decision := call.options.decision
  actor := call.options.actor
  note := call.options.note
  evidence := call.options.evidence
  residualPids := if residualPids = [] then none else some residualPids
  decidedAt := now

def adjudicatedEvent (domainId : String) (op : StoredOperation) (record : AdjudicationRecord) :
    EventInput where
  domainId := domainId
  runId := some op.runId
  operationId := some op.id
  type := "OPERATION_ADJUDICATED"
  payload := match record.toJs with
    | .obj entries => .obj (entries ++
        [("processIdentity", ofOption ProcessIdentity.toJs op.processIdentity)])
    | other => other
  timestamp := record.decidedAt

/-- `{ ...op.result, adjudication: record }` -/
def withAdjudication (record : AdjudicationRecord) : OperationResult → OperationResult
  | .indeterminate r => .indeterminate { r with adjudication := some record }
  | result => result

/-- The rest of `adjudicate`. -/
def scanAnswered (call : AdjudicateCall) (members : Except KernelError (List Nat))
    (clock : Clock) : KernelM Unit := do
  refuse (contradicted call members)
  let record := adjudicationRecord call (residualScan call members) clock.now
  let k ← read id
  callStore (recordEvent (adjudicatedEvent k.domain.domainId call.op record))
  match call.op.result with
  | some result =>
    callStore (updateOperationResult call.op.id (withAdjudication record result))
  | none => pure ()
  release call.op.id call.op.requiredResources clock

def adjudicated (ticket : Nat) (members : Except KernelError (List Nat)) (clock : Clock) :
    KernelM Unit := do
  let k ← read id
  match k.adjudicateCalls.get? ticket with
  | none => pure ()
  | some call => ending (Kernel.endAdjudicateCall ticket) (scanAnswered call members clock)

end Supervisor
end XioFlow
