/-
  XioFlow.Supervisor.Execute

  `executeProcess`, `runProcess`, `superviseActive` and `cancelOperation`,
  stretch by stretch.

  A stretch that ends in `some result` resolves the promise of the call, one
  that throws rejects it, and one that ends in `none` has left the call at its
  next await.
-/

import XioFlow.Supervisor.InFlight
import XioFlow.Domain.Rebuild

namespace XioFlow

open Lib
open Lib.Prog (read check block modify onlyIf throwIf)
open JsValue (ofStrings ofOption ofNat)
open Recovery (StopProcessResult IdentityVerificationResult unreapedFact)
open SqliteStore

/-! ## Admission -/

namespace ExecutionDomain

/-- The unfinished operations bound to a capability, the requesting one apart. -/
def boundOperations (capabilityId : String) (opId : Option String) (d : ExecutionDomain) :
    List StoredOperation :=
  (d.store.getAllOperations d.domainId).filter fun operation =>
    operation.capabilityId = some capabilityId && some operation.id ≠ opId &&
      operation.status ≠ .done

/-- The request with the counters of the domain. -/
def countedRequest (options : CheckCapabilityAdmissionOptions) (d : ExecutionDomain) :
    CheckCapabilityAdmissionOptions :=
  let active := d.boundOperations options.capabilityId options.opId
  { options with
    domainId := d.domainId
    currentEpoch := d.epoch
    currentConcurrentOps := some active.length
    currentProcesses := some (active.filter fun operation =>
      operation.kind = .process || operation.kind = .service).length }

/-- `checkCapabilityAdmission` of a domain. -/
def checkCapabilityAdmission (fs : FileSystem) (now : Timestamp)
    (options : CheckCapabilityAdmissionOptions) : DomainM (Option CapabilityAdmissionResult) := do
  let counted ← read (countedRequest options)
  onStore (XioFlow.checkCapabilityAdmission fs now counted)

end ExecutionDomain

namespace Supervisor

def writePrefixLength : Nat := "workspace:write:".toList.length

/-- What follows `workspace:write:` in the name of a resource. -/
def writeRoot? (resource : String) : Option String :=
  if hasPrefix "workspace:write:" resource then
    some (String.ofList (resource.toList.drop writePrefixLength))
  else none

def normalizeResourceName (fs : FileSystem) (resource : String) : String :=
  match writeRoot? resource with
  | none => resource
  | some raw =>
    ExecutionDomain.writeResource
      (renderPath ((fs.realpathSync (fs.resolve raw)).getD (fs.resolve raw)))

/-- The limits that a budget asks for. -/
def requestedLimits (budget : Option ResourceBudget) : PartialLimits := fun key =>
  let asked (value : Option Nat) : Option LimitValue :=
    value.map fun n => .finite n (toString n)
  match key with
  | .cpuMs => asked (budget.bind ResourceBudget.maxCpuTimeMs)
  | .memoryBytes => asked (budget.bind ResourceBudget.maxMemoryBytes)
  | .outputBytes => asked (budget.bind ResourceBudget.maxOutputBytes)
  | .processes => asked (budget.bind ResourceBudget.maxPids)
  | .concurrentOps => asked (some 1)

/-- `options.capabilitySecretRefs` with the secrets of the command. -/
def ExecuteProcessOptions.secretRefs (options : ExecuteProcessOptions) : Option (List String) :=
  if options.commandSecretRefs = [] then options.capabilitySecretRefs
  else some (options.capabilitySecretRefs.getD [] ++ options.commandSecretRefs).eraseDups

/-- What `admitProcessScope` asks of the capability. -/
def ExecuteProcessOptions.admissionRequest (options : ExecuteProcessOptions)
    (capabilityId : String) : CheckCapabilityAdmissionOptions where
  domainId := ""
  currentEpoch := 0
  capabilityId := capabilityId
  requiredResources := some options.requiredResources
  mutationRoots := match options.mutationRoots.getD [] with
    | [] => (nonEmpty (some options.cwd)).map fun cwd => [cwd]
    | roots => some roots
  opcode := some "proc.spawn"
  workspace := options.capabilityWorkspace
  secretRefs := options.secretRefs
  requestedLimits := requestedLimits options.resourceBudget
  policyVersion := options.capabilityPolicyVersion
  runId := some options.runId
  opId := some options.opId

/-- What `admitProcessScope` leaves behind: the rewritten options among it. -/
structure ProcessScope where
  options : ExecuteProcessOptions
  mutationRoots : List String
  capAdmission : Option CapabilityAdmissionResult

/-- The scope of a request without a capability. -/
def freeScope (fs : FileSystem) (options : ExecuteProcessOptions) : ProcessScope :=
  let resources := options.requiredResources.map (normalizeResourceName fs)
  { options := { options with requiredResources := resources }
    mutationRoots := match options.mutationRoots.getD [] with
      | [] => resources.filterMap writeRoot?
      | roots => roots
    capAdmission := none }

/-- The scope of a request that its capability admits. -/
def boundScope (options : ExecuteProcessOptions) (admission : CapabilityAdmissionResult) :
    ProcessScope where
  options := { options with
    capabilitySecretRefs := options.secretRefs
    requiredResources := admission.effectiveResources }
  mutationRoots := admission.effectiveMutationRoots
  capAdmission := some admission

/-- Nothing comes back while the ancestors of the capability go in a circle. -/
def admitProcessScope (fs : FileSystem) (options : ExecuteProcessOptions) (now : Timestamp) :
    KernelM (Option ProcessScope) :=
  match nonEmpty options.capabilityId with
  | none => pure (some (freeScope fs options))
  | some capabilityId => do
    let admission ← onDomain (ExecutionDomain.checkCapabilityAdmission fs now
      (options.admissionRequest capabilityId))
    return admission.map (boundScope options)

/-- N3: neither an unknown run nor a finished one takes operations. -/
def assertRunAcceptsOperations (runId opId : String) (k : Kernel) : Except KernelError Unit :=
  match k.domain.store.getRun runId with
  | none => .error (runNotRegistered runId k.domain.domainId)
  | some callingRun =>
    if callingRun.status.terminal then
      .error (runFinalized opId runId callingRun.status)
    else .ok ()

/-! ## Joining and replaying -/

/-- How a call of `executeProcess` goes on after its first stretch. -/
inductive Reply where
  /-- It has an execution of its own in flight. -/
  | started
  /-- It waits for the execution that is in flight already. -/
  | joined
  | replayed (result : OperationResult)
  /-- The walk over the ancestors does not return. -/
  | stuck

def Phase.text : Phase → String
  | waitingResources => "waiting_resources"
  | intentRegistered => "intent_registered"
  | spawning => "spawning"
  | active => "active"
  | stopping => "stopping"
  | done => "done"

def joinInFlight (inFlight : ActiveOperationState) (options : ExecuteProcessOptions)
    (now : Timestamp) : KernelM Reply := do
  if inFlight.options.inputFingerprint ≠ options.inputFingerprint then
    throw (.operationIdConflict options.opId inFlight.options.inputFingerprint
      options.inputFingerprint inFlight.phase.text inFlight.runId)
  else do
    let k ← read id
    callStore (recordReplay k.domain.domainId options.opId .joined options.runId now)
    throwIf options.aborted (.error "Operation wait aborted")
    return .joined

def cannotReplay (opId : String) : KernelError :=
  .error ("Cannot replay process operation \"" ++ opId ++
    "\": stored process result is missing or has an incompatible kind")

/-- `result.kind !== 'process' && result.kind !== 'indeterminate'` -/
def replayable : OperationResult → Bool
  | .process _ | .indeterminate _ => true
  | _ => false

/-- `replayRecorded` of an operation that was found. -/
def replayRecorded (existingRecorded : StoredOperation) (options : ExecuteProcessOptions)
    (now : Timestamp) : KernelM Reply := do
  if existingRecorded.inputFingerprint ≠ options.inputFingerprint then
    throw (.operationIdConflict options.opId existingRecorded.inputFingerprint
      options.inputFingerprint existingRecorded.status.text existingRecorded.runId)
  else if existingRecorded.status ≠ .done then
    throw (.recoveryRequired options.opId existingRecorded.status.text existingRecorded.runId)
  else
    match existingRecorded.result.filter replayable with
    | none => throw (cannotReplay options.opId)
    | some result => do
      let k ← read id
      callStore (recordReplay k.domain.domainId options.opId
        (if result.status = .indeterminate then .indeterminate else .recorded) options.runId now)
      return .replayed (result.withBase
        { result.base with replayed := true, runId := some existingRecorded.runId })

/-- `assertOperationIdAvailable` of the supervisor: queued operations have no durable intent. -/
def assertOperationIdAvailable (opId : String) (k : Kernel) : Except KernelError Unit :=
  match k.activeOperations.get? opId with
  | some active => .error (.duplicateOperation opId active.phase.text active.runId)
  | none => k.domain.assertOperationIdAvailable opId

/-! ## The first stretch -/

/-- `op` of a request. -/
def processOperation (scope : ProcessScope) (facts : RequestFacts) : Operation where
  id := scope.options.opId
  runId := scope.options.runId
  kind := .process
  name := scope.options.name
  inputFingerprint := scope.options.inputFingerprint
  requiredResources := scope.options.requiredResources
  mutationRoots := some scope.mutationRoots
  capabilityId := scope.options.capabilityId
  timeoutMs := scope.options.timeoutMs
  resourceBudget := scope.options.resourceBudget
  spawnGated := some facts.spawnGated
  recoveryEvidence := facts.recoveryEvidence
  configSnapshot := some facts.configSnapshot
  status := .pending

/-- Why the promise of a request was rejected, if it was. -/
def rejectionOf (settled : List ExecutionDomain.Settlement) : Option KernelError :=
  settled.findSome? fun settlement =>
    match settlement.outcome with
    | .rejected e => some e
    | _ => none

/-- `trackOperation`, and `runProcess` up to its first await. -/
def startExecution (scope : ProcessScope) (facts : RequestFacts) (clock : Clock) (k : Kernel) :
    Kernel :=
  let options := scope.options
  let r := k.domain.allocateResourcesWithWait
    ⟨k.nextTicket, options.opId, options.requiredResources⟩ options.waitTimeoutMs options.aborted
  { (k.setActive {
      options
      op := processOperation scope facts
      capAdmission := scope.capAdmission
      startTime := clock.now
      cancelRequested := options.aborted
      awaiting := .resources k.nextTicket (rejectionOf r.2) }).tick with domain := r.1 }

/-- A refusal that is known from elsewhere. -/
def refuse : Option KernelError → KernelM Unit
  | none => pure ()
  | some e => throw e

def executeProcess [Crypto] (fs : FileSystem) (options : ExecuteProcessOptions)
    (facts : RequestFacts) (clock : Clock) : KernelM Reply := do
  refuse facts.invalid
  let admitted ← admitProcessScope fs options clock.now
  match admitted with
  | none => return .stuck
  | some scope => do
    refuse facts.unsupported
    check (assertRunAcceptsOperations options.runId options.opId)
    callStore (bindRunConfigSnapshot options.runId facts.configSnapshot)
    let k ← read id
    match k.activeOperations.get? options.opId with
    | some inFlight => joinInFlight inFlight scope.options clock.now
    | none =>
      match k.domain.store.getOperation options.opId with
      | some existingRecorded => replayRecorded existingRecorded scope.options clock.now
      | none => do
        check (assertOperationIdAvailable options.opId)
        modify (startExecution scope facts clock)
        return .started

/-! ## Stopping -/

/-- The stop that needs no driver. -/
def confirmedStop : StopProcessResult := { stopped := .confirmedStopped }

def indeterminateResult (a : ActiveOperationState) (reason : String) (clock : Clock) :
    IndeterminateResult where
  reason := reason
  recoveryGuidance :=
    "Residual PID detected. Inspect system processes manually before releasing resources."
  durationMs := clock.now - a.startTime
  completedAt := clock.now

/-- `Process <pid>` in the text of a result. -/
def processText (a : ActiveOperationState) : String :=
  "Process " ++ ((a.handle.map fun handle => toString handle.pid).getD "undefined")

/-- `ensureActiveOperation` on a domain that is open. -/
def ensureActiveOperation (opId : String) (k : Kernel) :
    Except KernelError ActiveOperationState :=
  match (k.activeOperations.get? opId).filter fun active => active.phase ≠ .done with
  | some active => .ok active
  | none =>
    match k.domain.store.getOperation opId with
    | none => .error (.operationNotActive opId .notFound)
    | some stored =>
      .error (.operationNotActive opId
        (if stored.status = .done then .alreadyCompleted else .notFound))

/-- The operation, or the error of its absence. -/
def activeOperation (opId : String) : KernelM ActiveOperationState := do
  let k ← read id
  match ensureActiveOperation opId k with
  | .ok active => return active
  | .error e => throw e

/-- The state of an operation whose stop pipeline begins. -/
def stoppingState (reason : TerminationReason) (stopPromise : StopPromise)
    (active : ActiveOperationState) : ActiveOperationState :=
  { active with
    phase := .stopping
    cancelRequested := active.cancelRequested || reason = .userCancelled
    terminationReason := some reason
    stopPromise := some stopPromise }

/-- `handleStopPipeline` up to the answer of the driver.  The status is written whatever it was
    before. -/
def handleStopPipeline (opId : String) (reason : TerminationReason) (clock : Clock) :
    KernelM Unit := do
  let active ← activeOperation opId
  if active.phase = .stopping ∧ active.stopPromise.isSome then pure ()
  else if active.handle.isNone then
    modify (Kernel.updateActive opId (stoppingState reason (.settled (.ok confirmedStop))))
  else do
    modify (Kernel.updateActive opId (stoppingState reason .running))
    tryCatch (callStore (updateOperationStatus opId .stopping none none clock.now))
      fun e => modify (Kernel.updateActive opId (stoppingState reason (.settled (.error e))))

/-- `cancelOperation` up to its first await. -/
def cancelOperation (opId : String) (clock : Clock) : KernelM Unit := do
  let active ← activeOperation opId
  modify (Kernel.updateActive opId fun active =>
    { active with cancelRequested := true, terminationReason := some .userCancelled })
  modify fun k => { k with domain := (k.domain.cancelWait opId).1 }
  if active.phase = .active ∨ active.phase = .stopping then
    handleStopPipeline opId .userCancelled clock
  else
    onlyIf active.stopPromise.isNone (modify (Kernel.updateActive opId fun active =>
      { active with stopPromise := some .requested }))

/-- The state whose stop pipeline awaits the driver, in the map or out of it. -/
def stoppingOperation? (opId : String) (k : Kernel) : Option ActiveOperationState :=
  ((k.activeOperations.get? opId).filter ActiveOperationState.stopRunning).or
    (k.detached.find? fun a => a.opId = opId)

/-- The stop pipeline has come to its end. -/
def settleStop (opId : String) (outcome : Except KernelError StopProcessResult) (k : Kernel) :
    Kernel :=
  { (k.updateActive opId fun a =>
      if a.stopRunning then { a with stopPromise := some (.settled outcome) } else a) with
    detached := k.detached.filter fun a => a.opId ≠ opId }

/-- The stop was not confirmed: an operation without a result becomes indeterminate. -/
def isolateUnstopped (active : ActiveOperationState) (stopRes : StopProcessResult)
    (clock : Clock) : KernelM Unit := do
  let stored ← read fun k => k.domain.store.getOperation active.opId
  onlyIf (stored.any fun op => op.status ≠ .done) do
    let _ ← finalize active.opId (.indeterminate {
      indeterminateResult active (processText active ++ " could not be confirmed stopped: " ++
        stopRes.errorDetails.getD "undefined") clock with
      terminationReason := active.terminationReason
      resourceSamplingError := active.resourceSamplingError })
      { releaseResourceLock := false } clock
    pure ()

/-- The rest of `handleStopPipeline`, with the answer of the driver. -/
def stopAnswered (opId : String) (answer : Except KernelError StopProcessResult)
    (clock : Clock) : KernelM Unit := do
  let k ← read id
  match stoppingOperation? opId k, answer with
  | none, _ => pure ()
  | some _, .error e => modify (settleStop opId (.error e))
  | some active, .ok stopRes =>
    tryCatch (do
      onlyIf (stopRes.stopped ≠ .confirmedStopped) (isolateUnstopped active stopRes clock)
      modify (settleStop opId (.ok stopRes)))
      fun e => modify (settleStop opId (.error e))

/-! ## The launch -/

/-- `finally` of `runProcess`. -/
def settling (opId : String) (p : KernelM (Option OperationResult)) :
    KernelM (Option OperationResult) :=
  tryCatch (do
    let result ← p
    onlyIf result.isSome (modify (Kernel.forget opId))
    return result)
    fun e => do
      modify (Kernel.forget opId)
      throw e

/-- The result of a call that was cancelled before its process was started. -/
def cancelResult (a : ActiveOperationState) (clock : Clock) : OperationResult :=
  .process {
    status := .cancelled
    terminationReason := some .userCancelled
    capabilityId := a.options.capabilityId
    facts := [("isTruncated", .bool false), ("evidence", .str "unobserved"),
      ("identityVerification", .str IdentityVerificationResult.notOriginalProcess.text)]
    durationMs := clock.now - a.startTime
    completedAt := clock.now }

/-- The record of such a call: it has neither capability nor roots. -/
def cancelledOperation (a : ActiveOperationState) : Operation where
  id := a.opId
  runId := a.runId
  kind := .process
  name := a.options.name
  inputFingerprint := a.options.inputFingerprint
  requiredResources := a.options.requiredResources
  configSnapshot := a.op.configSnapshot
  status := .done

def cancelBeforeSpawn [Crypto] (a : ActiveOperationState) (clock : Clock) :
    KernelM OperationResult := do
  modify (Kernel.updateActive a.opId fun a =>
    { a.resolveStop confirmedStop with phase := .done })
  let k ← read id
  match k.domain.store.getOperation a.opId with
  | none => do
    callStore (recordPreIntentCancelledOperation (cancelledOperation a)
      k.domain.domainId (cancelResult a clock))
    release a.opId a.options.requiredResources clock
    return cancelResult a clock
  | some _ =>
    finalize a.opId (cancelResult a clock) { requiredResources := a.options.requiredResources } clock

/-- `registerOperationIntent`; when the store refuses, what was allocated is given back. -/
def registerIntent [Crypto] (a : ActiveOperationState) (clock : Clock) : KernelM Unit := do
  let k ← read id
  tryCatch
    (callStore (registerOperationIntent a.op k.domain.domainId clock.now))
    fun e => do
      release a.opId a.options.requiredResources clock
      throw e

/-- The call goes on with its resources.  The second look at `cancelRequested`, after the intent,
    sees what the first one saw. -/
def afterAllocation [Crypto] (a : ActiveOperationState) (rejection : Option KernelError)
    (clock : Clock) : KernelM (Option OperationResult) :=
  match rejection with
  | some e => throw e
  | none =>
    if a.cancelRequested then do
      let result ← cancelBeforeSpawn a clock
      return some result
    else do
      registerIntent a clock
      modify (Kernel.updateActive a.opId fun a =>
        { a with phase := .spawning, awaiting := .spawn })
      return none

def failSpawn (a : ActiveOperationState) (message : String) (clock : Clock) :
    KernelM (Option OperationResult) := do
  modify (Kernel.updateActive a.opId fun a =>
    { a.resolveStop { confirmedStop with errorDetails := some message } with phase := .done })
  let result ← finalize a.opId (.process {
    status := .failed
    exitCode := some 127
    stderr := message
    capabilityId := a.options.capabilityId
    facts := [("spawnFailure", .str message), ("isTruncated", .bool false),
      ("identityVerification", .str IdentityVerificationResult.notOriginalProcess.text)]
    durationMs := clock.now - a.startTime
    completedAt := clock.now }) { requiredResources := a.options.requiredResources } clock
  return some result

def capabilityUsedEvent (domainId : String) (a : ActiveOperationState) (capabilityId : String)
    (capAdmission : CapabilityAdmissionResult) (now : Timestamp) : EventInput where
  domainId := domainId
  runId := some a.runId
  operationId := some a.opId
  type := "CAPABILITY_USED"
  payload := .obj [("capabilityId", .str capabilityId),
    ("scope", capAdmission.capability.scope.toJs), ("limits", capAdmission.effectiveLimits.toJs),
    ("actor", .str capAdmission.capability.issuedBy), ("opcode", .str "proc.spawn"),
    ("workspace", ofOption .str a.options.capabilityWorkspace),
    ("secretRefs", ofOption ofStrings a.options.capabilitySecretRefs)]
  timestamp := now

/-- `recordCapabilityUsed`, for a call under a capability. -/
def recordCapabilityUsed (a : ActiveOperationState) (now : Timestamp) : KernelM Unit := do
  let k ← read id
  match nonEmpty a.options.capabilityId, a.capAdmission with
  | some capabilityId, some capAdmission =>
    callStore (recordEvent
      (capabilityUsedEvent k.domain.domainId a capabilityId capAdmission now))
  | _, _ => pure ()

/-- `activateOrAbort` up to its first await; `gate` is what `releaseGate` throws. -/
def activate (a : ActiveOperationState) (identity : ProcessIdentity) (gate : Option KernelError)
    (clock : Clock) : KernelM Unit := do
  modify (Kernel.updateActive a.opId fun a => { a with handle := some identity })
  tryCatch (do
    callStore (updateOperationStatus a.opId .active (some identity) none clock.now)
    modify (Kernel.updateActive a.opId fun a => { a with phase := .active })
    refuse gate
    recordCapabilityUsed a clock.now
    awaitAt a.opId (.activation none))
    fun e => modify (Kernel.updateActive a.opId fun a =>
      { a with phase := .stopping, awaiting := .activationStop e })

/-- The message of an error. -/
def errorMessage : KernelError → String
  | .error message | .typeError message | .constraint message
  | .capabilityViolation _ message => message
  | .epochFenced .. => "epoch fenced"
  | .domainLocked .. => "domain locked"
  | .resourceConflict .. => "resource conflict"
  | .duplicateOperation .. => "duplicate operation"
  | .operationNotActive .. => "operation not active"
  | .operationIdConflict .. => "operation id conflict"
  | .recoveryRequired .. => "recovery required"

/-- What is recorded of a process whose activation failed. -/
def activationFailure (a : ActiveOperationState) (statusError : KernelError)
    (stopRes : StopProcessResult) (clock : Clock) : OperationResult :=
  let text := "Failed to register active status: " ++ errorMessage statusError
  if stopRes.stopped = .confirmedStopped then
    .process {
      status := .failed
      stderr := text
      facts := [("spawnFailure", .str (errorMessage statusError)), ("isTruncated", .bool false),
        ("identityVerification", .str IdentityVerificationResult.notOriginalProcess.text)]
      durationMs := clock.now - a.startTime
      completedAt := clock.now }
  else .indeterminate (indeterminateResult a (text ++ ", and process " ++
    ((a.handle.map fun handle => toString handle.pid).getD "undefined") ++
    " could not be confirmed stopped: " ++
    stopRes.errorDetails.getD "residual processes still alive") clock)

/-- The rest of `activateOrAbort`: the error of the activation, or of recording its outcome. -/
def abortActivation (a : ActiveOperationState) (statusError : KernelError)
    (stopRes : StopProcessResult) (clock : Clock) : KernelM Unit := do
  modify (Kernel.updateActive a.opId fun a => { a.resolveStop stopRes with phase := .done })
  tryCatch (do
    let _ ← finalize a.opId (activationFailure a statusError stopRes clock)
      { requiredResources := a.options.requiredResources
        releaseResourceLock := stopRes.stopped = .confirmedStopped } clock
    awaitAt a.opId (.activation (some statusError)))
    fun e => awaitAt a.opId (.activation (some e))

/-! ## Supervision -/

/-- `superviseActive` as a whole: its promise settles before `runProcess` goes on. -/
def supervising (opId : String) (p : KernelM (Option OperationResult)) :
    KernelM (Option OperationResult) :=
  tryCatch (do
    let result ← p
    match result with
    | some result => awaitAt opId (.supervised (.ok result))
    | none => pure ()
    return none)
    fun e => do
      awaitAt opId (.supervised (.error e))
      return none

/-- `superviseActive` up to the race; a stop that was asked for meanwhile is started. -/
def startSupervision (a : ActiveOperationState) (clock : Clock) :
    KernelM (Option OperationResult) := do
  onlyIf a.cancelRequested
    (tryCatch (handleStopPipeline a.opId .userCancelled clock) fun _ => pure ())
  awaitAt a.opId .rootOutcome
  return none

/-- `holdLeases` of a call. -/
def hold (a : ActiveOperationState) (indet : IndeterminateResult) (clock : Clock) :
    KernelM (Option OperationResult) := do
  let around ← read (Kernel.around clock)
  let result ← onDomain (holdLeases a.opId a.options.requiredResources indet around)
  return some result

/-- `recordUnconfirmedStop`: what the stop pipeline has recorded stands. -/
def recordUnconfirmedStop (a : ActiveOperationState) (stopRes : StopProcessResult)
    (withCapability : Bool) (clock : Clock) : KernelM (Option OperationResult) := do
  let stored ← read fun k => k.domain.store.getOperation a.opId
  match stored.filter fun op => op.status = .done with
  | some op =>
    match op.result.filter replayable with
    | some result => return some result
    | none => throw (.error ("Cannot settle process operation \"" ++ a.opId ++
        "\": stored process result is missing or has an incompatible kind"))
  | none =>
    hold a {
      indeterminateResult a (processText a ++
        " was cancelled or stopped but could not be confirmed: " ++
        stopRes.errorDetails.getD "residual processes still alive") clock with
      capabilityId := if withCapability then a.options.capabilityId else none
      terminationReason := a.terminationReason
      resourceSamplingError := a.resourceSamplingError } clock

/-- `settleRootOutcome` up to its first await. -/
def settleRootOutcome (a : ActiveOperationState) (outcome : RootOutcome) (clock : Clock) :
    KernelM (Option OperationResult) :=
  match outcome with
  | .exit res => do
    awaitAt a.opId (.drain res true)
    return none
  | .stop stopRes =>
    if stopRes.stopped = .confirmedStopped then do
      awaitAt a.opId (.rootExit stopRes false)
      return none
    else recordUnconfirmedStop a stopRes false clock
  | .timeout => do
    modify (Kernel.updateActive a.opId fun a =>
      { a with timedOut := true, terminationReason := some .timedOut })
    handleStopPipeline a.opId .timedOut clock
    awaitAt a.opId .timeoutStop
    return none

/-- The end of `settleRootOutcome` after a timeout that did not end in a confirmed exit. -/
def timeoutUnconfirmed (a : ActiveOperationState) (stopRes : StopProcessResult) (clock : Clock) :
    KernelM (Option OperationResult) := do
  let stored ← read fun k => k.domain.store.getOperation a.opId
  match (stored.filter fun op => op.status = .done).bind indeterminateResult? with
  | some result => return some result
  | none => hold a (indeterminateResult a (processText a ++
      " timed out and root process could not be confirmed exited within 1000ms bound: " ++
      stopRes.errorDetails.getD "root process still alive") clock) clock

/-- After `waitRootExit`. -/
def rootExitKnown (a : ActiveOperationState) (stopRes : StopProcessResult) (timedOut : Bool)
    (exited : Option ExitFacts) (clock : Clock) : KernelM (Option OperationResult) :=
  if timedOut then
    match stopRes.stopped, exited with
    | .confirmedStopped, some res => do
      awaitAt a.opId (.drain res false)
      return none
    | _, _ => timeoutUnconfirmed a stopRes clock
  else do
    awaitAt a.opId (.drain (exited.getD ⟨none, some "SIGKILL"⟩) false)
    return none

/-- After the first wait of `drainOrReap`. -/
def drainAnswered (a : ActiveOperationState) (exit : ExitFacts) (exitedNaturally drained : Bool) :
    KernelM (Option OperationResult) := do
  if drained then
    if !exitedNaturally || a.stopPromise.isSome then
      awaitAt a.opId (.drained exit exitedNaturally .unknown)
    else awaitAt a.opId (.settleTree exit)
  else if exitedNaturally then awaitAt a.opId (.reap exit)
  else awaitAt a.opId (.writers exit)
  return none

/-- After the stop of the descendants. -/
def reapAnswered (a : ActiveOperationState) (exit : ExitFacts) (stopRes : StopProcessResult)
    (clock : Clock) : KernelM (Option OperationResult) :=
  if stopRes.stopped = .confirmedStopped then do
    awaitAt a.opId (.lastDrain exit)
    return none
  else hold a (indeterminateResult a (processText a ++
    " exited but residual descendants could not be confirmed stopped: " ++
    stopRes.errorDetails.getD "undefined") clock) clock

/-- After the last wait of `drainOrReap`. -/
def lastDrainAnswered (a : ActiveOperationState) (exit : ExitFacts) (drained : Bool) :
    KernelM (Option OperationResult) := do
  if drained then
    awaitAt a.opId (.drained exit true (if a.stopPromise.isSome then .unknown else .residual))
  else awaitAt a.opId (.writers exit)
  return none

/-- A pipe is still held by a process that nobody has seen. -/
def pipesHeld (a : ActiveOperationState) (exit : ExitFacts) (clock : Clock) :
    KernelM (Option OperationResult) :=
  hold a {
    indeterminateResult a (processText a ++ " exited (exitCode=" ++
      ((exit.exitCode.map fun code => toString code).getD "null") ++ ", signal=" ++
      exit.signal.getD "null" ++ ") and its process group was confirmed stopped, but " ++
      "stdout/stderr pipes are still held by an unobserved escaped process") clock with
    recoveryGuidance := "An escaped process outside the observed process tree still holds the " ++
      "output pipes. Inspect system processes manually before adjudicating and releasing resources."
    capabilityId := a.options.capabilityId } clock

/-- What `settleProcessTree` answers. -/
inductive TreeAnswer where
  | settled (tree : TreeStatus)
  | unconfirmed (stopRes : StopProcessResult)

def treeAnswered (a : ActiveOperationState) (exit : ExitFacts) (answer : TreeAnswer)
    (clock : Clock) : KernelM (Option OperationResult) :=
  match answer with
  | .settled tree => do
    awaitAt a.opId (.drained exit true tree)
    return none
  | .unconfirmed stopRes =>
    hold a {
      indeterminateResult a (processText a ++ " exited but descendants that left its output " ++
        "pipes could not be confirmed stopped: " ++
        stopRes.errorDetails.getD "residual processes still alive") clock with
      capabilityId := a.options.capabilityId } clock

/-- The evidence of the end, before the last questions to the driver. -/
def recordTreeEvidence (a : ActiveOperationState) (exit : ExitFacts) (exitedNaturally : Bool)
    (tree : TreeStatus) (clock : Clock) : KernelM (Option OperationResult) := do
  let source : EvidenceSource := if exitedNaturally then .naturalExit else .stop
  callStore (updateRecoveryEvidence a.opId {
    tree := some { status := tree, source, observedAt := clock.now }
    pipes := some { stdin := .unknown, stdout := .drained, stderr := .drained, source,
                    observedAt := clock.now } })
  awaitAt a.opId (.limitHits exit)
  return none

/-- What the output capture has measured; `collects` is what collecting the read evidence
    throws. -/
structure Measured where
  stdout : String := ""
  stderr : String := ""
  outputRef : Option String := none
  facts : List (String × Json) := []
  collects : Option KernelError := none

/-- A stop that is not the caller's own counts as a failure. -/
def resourceOrTimeoutStopped (a : ActiveOperationState) : Bool :=
  a.timedOut || a.terminationReason.any fun reason =>
    [.memoryExceeded, .cpuExceeded, .pidsExceeded, .outputExceeded, .observationFailed].contains
      reason

def finalStatus (a : ActiveOperationState) (exit : ExitFacts) : ProcessStatus :=
  if resourceOrTimeoutStopped a then .failed
  else if a.cancelRequested then .cancelled
  else if exit.exitCode = some 0 then .succeeded
  else .failed

def buildProcessResult (a : ActiveOperationState) (exit : ExitFacts)
    (identityVerification : IdentityVerificationResult) (measured : Measured) (clock : Clock) :
    ProcessOperationResult where
  status := finalStatus a exit
  exitCode := exit.exitCode
  signal := exit.signal
  stdout := measured.stdout
  stderr := measured.stderr
  outputRef := measured.outputRef
  capabilityId := a.options.capabilityId
  terminationReason := a.terminationReason.or
    (if finalStatus a exit = .succeeded then some .completed else none)
  facts := measured.facts ++ [("identityVerification", .str identityVerification.text)]
  durationMs := clock.now - a.startTime
  completedAt := clock.now

/-- The last stretch of `superviseActive`. -/
def recordResult (a : ActiveOperationState) (result : ProcessOperationResult)
    (collects : Option KernelError) (clock : Clock) : KernelM (Option OperationResult) := do
  refuse collects
  let result ← finalize a.opId (.process result)
    { requiredResources := a.options.requiredResources } clock
  return some result

/-- The result is built; a stop in flight is waited for. -/
def identityAnswered (a : ActiveOperationState) (exit : ExitFacts)
    (identityVerification : IdentityVerificationResult) (measured : Measured) (clock : Clock) :
    KernelM (Option OperationResult) :=
  let result := buildProcessResult a exit identityVerification measured clock
  if a.stopPromise.isSome then do
    awaitAt a.opId (.stopResult result measured.collects)
    return none
  else recordResult a result measured.collects clock

/-- The stop that was waited for has ended. -/
def stopResultKnown (a : ActiveOperationState) (result : ProcessOperationResult)
    (collects : Option KernelError) (outcome : Except KernelError StopProcessResult)
    (clock : Clock) : KernelM (Option OperationResult) :=
  match outcome with
  | .error e => throw e
  | .ok stopRes =>
    if stopRes.stopped = .confirmedStopped then
      recordResult a { result with facts := result.facts ++ unreapedFact stopRes.unreapedPids }
        collects clock
    else recordUnconfirmedStop a stopRes true clock

/-! ## The answers that end an await -/

inductive Answer where
  /-- A promise of the kernel itself is settled. -/
  | settled
  /-- The driver throws. -/
  | threw (e : KernelError)
  /-- The process runs; the second part is what `releaseGate` throws. -/
  | spawned (identity : ProcessIdentity) (gate : Option KernelError)
  | stopped (stopRes : StopProcessResult)
  | outcome (outcome : RootOutcome)
  /-- The sampler is done; the first error it met. -/
  | sampled (samplingError : Option String)
  | rootExited (exited : Option ExitFacts)
  | drained (drained : Bool)
  | tree (answer : TreeAnswer)
  /-- The limit that was hit, when there was one and no other reason is known. -/
  | limitHit (reason : Option TerminationReason)
  | verified (identityVerification : IdentityVerificationResult) (measured : Measured)

/-- The outcome of the race is one that can have won it. -/
def RootOutcome.possible (a : ActiveOperationState) : RootOutcome → Bool
  | .exit _ => true
  | .timeout => a.options.timeoutMs.any fun timeoutMs => 0 < timeoutMs
  | .stop _ =>
    match a.stopPromise with
    | some (.settled (.ok _)) => true
    | _ => false

/-- The outcome of the race, with the stop result that the promise carries. -/
def RootOutcome.known (a : ActiveOperationState) (outcome : RootOutcome) : RootOutcome :=
  match outcome, a.stopPromise with
  | .stop _, some (.settled (.ok stopRes)) => .stop stopRes
  | _, _ => outcome

/-- The error of a driver call inside `superviseActive`. -/
def supervisionThrew (e : KernelError) : KernelM (Option OperationResult) := throw e

/-- What a call does when what it awaits comes; other answers are not for it. -/
def resumed [Crypto] (a : ActiveOperationState) (answer : Answer) (clock : Clock) :
    KernelM (Option OperationResult) :=
  match a.awaiting, answer with
  | .resources ticket rejection, .settled => do
    let k ← read id
    if k.queued ticket then return none
    else settling a.opId (afterAllocation a rejection clock)
  | .spawn, .threw e => settling a.opId (failSpawn a (errorMessage e) clock)
  | .spawn, .spawned identity gate => do
    activate a identity gate clock
    return none
  | .activationStop statusError, .stopped stopRes => do
    abortActivation a statusError stopRes clock
    return none
  | .activationStop _, .threw e => do
    awaitAt a.opId (.activation (some e))
    return none
  | .activation none, .settled => supervising a.opId (startSupervision a clock)
  | .activation (some e), .settled => settling a.opId (throw e)
  | .rootOutcome, .outcome outcome => do
    onlyIf (outcome.possible a) (awaitAt a.opId (.samples (outcome.known a)))
    return none
  | .rootOutcome, .threw e => supervising a.opId (supervisionThrew e)
  | .samples outcome, .sampled samplingError => do
    let a := { a with resourceSamplingError := samplingError.or a.resourceSamplingError }
    modify (Kernel.setActive a)
    supervising a.opId (settleRootOutcome a outcome clock)
  | .timeoutStop, .settled =>
    match a.stopPromise with
    | some (.settled (.ok stopRes)) => do
      awaitAt a.opId (.rootExit stopRes true)
      return none
    | some (.settled (.error e)) => supervising a.opId (supervisionThrew e)
    | _ => return none
  | .rootExit stopRes timedOut, .rootExited exited =>
    supervising a.opId (rootExitKnown a stopRes timedOut exited clock)
  | .rootExit _ _, .threw e => supervising a.opId (supervisionThrew e)
  | .drain exit exitedNaturally, .drained drained =>
    supervising a.opId (drainAnswered a exit exitedNaturally drained)
  | .reap exit, .stopped stopRes => supervising a.opId (reapAnswered a exit stopRes clock)
  | .reap _, .threw e => supervising a.opId (supervisionThrew e)
  | .lastDrain exit, .drained drained => supervising a.opId (lastDrainAnswered a exit drained)
  | .writers exit, .settled => supervising a.opId (pipesHeld a exit clock)
  | .settleTree exit, .tree answer => supervising a.opId (treeAnswered a exit answer clock)
  | .settleTree _, .threw e => supervising a.opId (supervisionThrew e)
  | .drained exit exitedNaturally tree, .settled =>
    supervising a.opId (recordTreeEvidence a exit exitedNaturally tree clock)
  | .limitHits exit, .limitHit reason => do
    modify (Kernel.updateActive a.opId fun a =>
      { a with terminationReason := a.terminationReason.or reason, awaiting := .identity exit })
    return none
  | .limitHits _, .threw e => supervising a.opId (supervisionThrew e)
  | .identity exit, .verified identityVerification measured =>
    supervising a.opId (identityAnswered a exit identityVerification measured clock)
  | .identity _, .threw e => supervising a.opId (supervisionThrew e)
  | .stopResult result collects, .settled =>
    match a.stopPromise with
    | some (.settled outcome) =>
      supervising a.opId (stopResultKnown a result collects outcome clock)
    | _ => return none
  | .supervised (.ok result), .settled => settling a.opId (pure (some result))
  | .supervised (.error e), .settled => settling a.opId (throw e)
  | _, _ => return none

/-- The call of an operation in flight goes on. -/
def resume [Crypto] (opId : String) (answer : Answer) (clock : Clock) :
    KernelM (Option OperationResult) := do
  let k ← read id
  match k.activeOperations.get? opId with
  | some a => resumed a answer clock
  | none => return none

/-! ## Timers -/

/-- The wait timer of a call: the request leaves the queue. -/
def waitTimeout (opId : String) (clock : Clock) (k : Kernel) : Kernel :=
  match k.activeOperations.get? opId with
  | some a =>
    match a.awaiting with
    | .resources ticket _ =>
      let r := k.domain.waitTimeout ticket k.isCancelled clock.elapsed
      if r.2.isEmpty then k
      else { (k.setActive { a with awaiting := .resources ticket (rejectionOf r.2) }) with
        domain := r.1 }
    | _ => k
  | none => k

/-- The sampler finds a limit exceeded, or fails, and asks for a stop. -/
def samplerStop (opId : String) (reason : TerminationReason) (clock : Clock) : KernelM Unit := do
  let k ← read id
  match (k.activeOperations.get? opId).map ActiveOperationState.awaiting with
  | some .rootOutcome | some (.samples _) => do
    modify (Kernel.updateActive opId fun a => { a with terminationReason := some reason })
    tryCatch (handleStopPipeline opId reason clock) fun _ => pure ()
  | _ => pure ()

/-- The sampler sees the system kill the process, and keeps the reason. -/
def limitSampled (opId : String) (reason : TerminationReason) : KernelM Unit :=
  modify (Kernel.updateActive opId fun a =>
    match a.awaiting with
    | .rootOutcome | .samples _ =>
      { a with terminationReason := a.terminationReason.or (some reason) }
    | _ => a)

end Supervisor
end XioFlow
