/-
  XioFlow.Services.Service

  One service of a domain: its runtime state, and what is in flight for it.

  The supervisor keeps one mutable record for each service.  Every function
  that changes it runs without interruption from one await to the next, so a
  step of the machine is one such stretch, and an await is a value of the
  state that names what is waited for.  The journal's events are written in
  the same stretches and read by none of them.
-/

import XioFlow.Types

namespace XioFlow

namespace Services

/-! ## The specification -/

inductive Readiness where
  | spawned
  | stdoutLine
  deriving DecidableEq

inductive RestartPolicy where
  | never
  | onFailure (maxRestarts : Nat)
  deriving DecidableEq

/-- `restart?.maxRestarts ?? 0` -/
def RestartPolicy.maxRestarts : RestartPolicy → Nat
  | never => 0
  | onFailure maxRestarts => maxRestarts

structure ServiceSpec where
  serviceId : String
  requiredResources : List String := []
  readiness : Readiness := .spawned
  restart : RestartPolicy := .never

/-! ## The records of the instances -/

/-- How the operation of an instance ended. -/
inductive InstanceResult where
  | process (status : ProcessStatus)
  | indeterminate
  deriving DecidableEq

inductive InstanceStatus where
  | intentRegistered
  | active
  | done (result : InstanceResult)
  deriving DecidableEq

def InstanceStatus.isDone : InstanceStatus → Bool
  | done _ => true
  | _ => false

/-- The row of the operation `<serviceId>#<index>`. -/
structure InstanceRecord where
  index : Nat
  status : InstanceStatus
  deriving DecidableEq

/-! ## What is in flight -/

inductive ServiceStatus where
  | starting | running | stopping | stopped | failed
  deriving DecidableEq

def ServiceStatus.terminal : ServiceStatus → Bool
  | stopped | failed => true
  | _ => false

/-- `status === 'starting' || status === 'running'` -/
def ServiceStatus.up : ServiceStatus → Bool
  | starting | running => true
  | _ => false

inductive Promise where
  | pending | resolved | rejected
  deriving DecidableEq

/-- The first settlement counts. -/
def Promise.resolve : Promise → Promise
  | pending => resolved
  | p => p

def Promise.reject : Promise → Promise
  | pending => rejected
  | p => p

/-- Where `handleInstanceExit` is; `success` is an exit with code 0 and without a signal,
    `identified` that there was a process handle when it began. -/
inductive ExitHandling where
  /-- The exit promise of the process has no subscriber yet. -/
  | unwatched
  | watched
  /-- `await state.currentStderrDrainer.finishPromise` -/
  | draining (success identified : Bool)
  /-- `await this.driver.verifyIdentity(exitedIdentity)` -/
  | verifying (success identified : Bool)
  /-- `await settleProcessTree(…)` -/
  | settling (success : Bool)
  | over
  deriving DecidableEq

/-- The exit of the instance is awaited or being handled. -/
def ExitHandling.busy : ExitHandling → Bool
  | .unwatched | .over => false
  | _ => true

/-- Where a failed startup is. -/
inductive StartupCleanup where
  /-- `spawnInstance` has rejected, and `settleStartupFailure` comes next. -/
  | caught
  /-- The driver terminates the process, then the exit of its root is awaited. -/
  | terminating
  /-- `await state.currentStderrDrainer.finishPromise`, with the outcome recorded. -/
  | finishing (confirmed exited : Bool)
  deriving DecidableEq

/-- Where a call of `stopService` is that stops a process. -/
inductive StopStage where
  | terminating
  /-- The race between the exit of the root and its bound, after what the driver has answered. -/
  | awaitingExit (confirmed : Bool)
  deriving DecidableEq

/-! ## The state -/

/-- `ServiceRuntimeState`, the resources locked for `service:<serviceId>`, the rows of the
    instances, and the awaits in flight. -/
structure Service where
  spec : ServiceSpec
  /-- The service is in the map of its domain. -/
  registered : Bool := true
  domainClosed : Bool := false
  status : ServiceStatus := .starting
  attemptCount : Nat := 0
  currentInstanceIndex : Nat := 1
  /-- `currentProcessHandle !== null` -/
  currentProcessHandle : Bool := false
  stopRequested : Bool := false
  restartTimer : Bool := false
  pendingInstanceResult : Option ProcessStatus := none
  /-- `failureReason !== undefined` -/
  failureReason : Bool := false
  intentRegistered : Bool := false
  /-- The readiness timer runs, and the listener reads the output. -/
  readinessArmed : Bool := false
  onInstanceExit : Promise := .pending
  stopPromise : Promise := .pending
  operations : List InstanceRecord := []
  lockedResources : List String
  spawning : Bool := false
  exit : ExitHandling := .unwatched
  cleanup : Option StartupCleanup := none
  stops : List StopStage := []
  /-- The instances whose process was spawned and that no driver has vouched for since. -/
  unsettled : List Nat := []
  /-- A call of `stop` has resolved without the promise of the service. -/
  answered : Bool := false

namespace Service

/-- `store.getOperation(state.currentOpId)` -/
def currentOperation (s : Service) : Option InstanceRecord :=
  s.operations.find? fun op => op.index = s.currentInstanceIndex

def setOperation (status : InstanceStatus) (s : Service) : Service :=
  { s with operations := s.operations.map fun op =>
      if op.index = s.currentInstanceIndex then { op with status } else op }

/-- The result is recorded once; `none` is what the store throws otherwise. -/
def recordOperationResult (result : InstanceResult) (s : Service) : Option Service :=
  match s.currentOperation with
  | none => none
  | some op => if op.status.isDone then none else some (s.setOperation (.done result))

/-- `if (op && op.status !== 'done') store.recordOperationResult(…)` -/
def recordUnlessDone (result : InstanceResult) (s : Service) : Service :=
  (s.recordOperationResult result).getD s

/-- `internalReleaseResources('service:<serviceId>', requiredResources)` -/
def releaseResources (s : Service) : Service := { s with lockedResources := [] }

def resolveStop (s : Service) : Service := { s with stopPromise := s.stopPromise.resolve }

def rejectStop (s : Service) : Service := { s with stopPromise := s.stopPromise.reject }

/-- A driver has vouched for the current process. -/
def vouched (s : Service) : Service :=
  { s with unsettled := s.unsettled.filter fun index => index ≠ s.currentInstanceIndex }

/-! ## Starting an instance -/

/-- `settleStartupFailure` once it knows whether the process is gone. -/
def settleStartup (confirmed exited : Bool) (s : Service) : Service :=
  let result : InstanceResult := if confirmed then .process .failed else .indeterminate
  let s := if s.intentRegistered then s.recordUnlessDone result else s
  let s := if confirmed then s.releaseResources else s
  { s with status := .failed, cleanup := some (.finishing confirmed exited) }

/-- `settleStartupFailure` up to its first await. -/
def settleStartupFailure (s : Service) : Service :=
  match s.cleanup with
  | some .caught =>
    let s := { s with stopRequested := true, readinessArmed := false }
    if s.currentProcessHandle then { s with cleanup := some .terminating }
    else s.settleStartup true false
  | _ => s

/-- `spawnInstance` up to the answer of the driver; `accepted` tells whether the store takes the
    intent of the instance. -/
def spawnInstance (index : Nat) (accepted : Bool) (s : Service) : Service :=
  let s := { s with
    currentInstanceIndex := index
    pendingInstanceResult := none
    intentRegistered := false }
  let s := if 1 < index then
      { s with currentProcessHandle := false, onInstanceExit := .pending }
    else s
  if accepted && !(s.operations.any fun op => op.index = index) then
    { s with
      operations := s.operations ++ [⟨index, .intentRegistered⟩]
      intentRegistered := true
      spawning := true
      exit := .unwatched }
  else { s with cleanup := some .caught, exit := .unwatched }

/-- `startService` for an id that is not in the map: the resources are locked, and the first
    instance is on its way. -/
def startService (spec : ServiceSpec) (accepted : Bool) : Service :=
  spawnInstance 1 accepted { spec, lockedResources := spec.requiredResources }

/-- What `driver.spawn` answers, and whether what follows it throws. -/
inductive SpawnAnswer where
  | failed
  | spawned (throws : Bool)

/-- The rest of `spawnInstance`. -/
def spawnAnswered (answer : SpawnAnswer) (s : Service) : Service :=
  if !s.spawning then s
  else
    let s := { s with spawning := false }
    match answer with
    | .failed => { s with cleanup := some .caught }
    | .spawned throws =>
      let s := { s with
        currentProcessHandle := true
        unsettled := s.unsettled ++ [s.currentInstanceIndex] }
      if throws then { s with cleanup := some .caught }
      else
        let s := s.setOperation .active
        let s := if s.currentInstanceIndex = 1 then
            match s.spec.readiness with
            | .spawned => { s with status := .running }
            | .stdoutLine => { s with readinessArmed := true }
          else s
        { s with exit := .watched }

/-- The driver and the root have answered to the cleanup of a startup. -/
def cleanupAnswered (confirmed exited : Bool) (s : Service) : Service :=
  match s.cleanup with
  | some .terminating =>
    let s := if confirmed then s.vouched else s
    s.settleStartup (confirmed && exited) exited
  | _ => s

/-- The last stretch of `settleStartupFailure`. -/
def cleanupFinished (s : Service) : Service :=
  match s.cleanup with
  | some (.finishing confirmed exited) =>
    let s := { s with
      cleanup := none
      onInstanceExit := if exited then s.onInstanceExit.resolve else s.onInstanceExit.reject }
    if confirmed then s.resolveStop else s.rejectStop
  | _ => s

/-! ## The exit of an instance -/

/-- `rejectLifecycle` -/
def rejectLifecycle (s : Service) : Service :=
  { s.rejectStop with
    status := .failed
    readinessArmed := false
    onInstanceExit := s.onInstanceExit.reject
    exit := .over }

/-- The exit promise of the process has settled; `none` is a rejection. -/
def rootExited (success : Option Bool) (s : Service) : Service :=
  if s.exit = .watched then
    match success with
    | none => s.rejectLifecycle
    | some success =>
      { s with
        readinessArmed := false
        exit := .draining success s.currentProcessHandle }
  else s

/-- `stopped` or `failed`: the resources go back, and the stop promise resolves. -/
def conclude (status : ServiceStatus) (s : Service) : Service :=
  { s with status }.releaseResources.resolveStop

/-- `handleInstanceExit` from the record of the result to its end. -/
def finishExit (success : Bool) (s : Service) : Service :=
  let result : ProcessStatus := if success then .succeeded else .failed
  if s.stopRequested then
    { s with
      pendingInstanceResult := some result
      onInstanceExit := s.onInstanceExit.resolve
      exit := .over }
  else
    match s.recordOperationResult (.process result) with
    | none => s.rejectLifecycle
    | some s =>
      let s := { s with onInstanceExit := s.onInstanceExit.resolve, exit := .over }
      if s.domainClosed then s.conclude .stopped
      else if success then s.conclude .stopped
      else if s.attemptCount < s.spec.restart.maxRestarts then
        { s with attemptCount := s.attemptCount + 1, restartTimer := true }
      else s.conclude .failed

/-- The output is drained; where the process had a handle its identity is verified next. -/
def drained (s : Service) : Service :=
  match s.exit with
  | .draining success identified =>
    if identified then { s with exit := .verifying success identified }
    else s.finishExit success
  | _ => s

/-- The identity is known; where no stop was asked for the tree is settled next. -/
def verified (s : Service) : Service :=
  match s.exit with
  | .verifying success identified =>
    if !s.stopRequested && identified then { s with exit := .settling success }
    else s.finishExit success
  | _ => s

/-- What `settleProcessTree` comes to. -/
inductive TreeAnswer where
  | settled
  | unconfirmed
  | throws

/-- The rest of `handleInstanceExit`. -/
def treeSettled (answer : TreeAnswer) (s : Service) : Service :=
  match s.exit, answer with
  | .settling _, .throws => s.rejectLifecycle
  | .settling success, .settled => s.vouched.finishExit success
  | .settling success, .unconfirmed =>
    if s.stopRequested then s.finishExit success
    else
      match s.recordOperationResult .indeterminate with
      | none => s.rejectLifecycle
      | some s => { s with
          status := .failed
          onInstanceExit := s.onInstanceExit.resolve
          exit := .over }.resolveStop
  | _, _ => s

/-- The restart timer fires. -/
def timerFired (accepted : Bool) (s : Service) : Service :=
  if !s.restartTimer then s
  else
    let s := { s with restartTimer := false }
    if s.stopRequested || s.domainClosed then s
    else s.spawnInstance (s.attemptCount + 1) accepted

/-! ## Stopping -/

/-- `stopService` of the owner, up to its first await. -/
def stopOwned (s : Service) : Service :=
  if !s.status.up then s
  else
    let s := { s with stopRequested := true, status := .stopping }
    if s.restartTimer then
      { s with restartTimer := false }.conclude .stopped
    else if s.currentProcessHandle then { s with stops := s.stops ++ [.terminating] }
    else { s with status := .stopped }.resolveStop

/-- `stopService` and `handle.stop()`: a service that is not in the map counts as stopped. -/
def stopService (s : Service) : Service :=
  if s.registered then s.stopOwned else { s with answered := true }

/-- `finalizeStop` -/
def finalizeStop (stopConfirmed rootExited : Bool) (s : Service) : Service :=
  let pending := s.pendingInstanceResult
  let s := { s with pendingInstanceResult := none }
  if stopConfirmed && rootExited && pending.isSome then
    let result : ProcessStatus := if s.failureReason then .failed else .cancelled
    match s.recordOperationResult (.process result) with
    -- What the store throws rejects the call, and the promise stays as it is.
    | none => s
    | some s => s.conclude (if s.failureReason then .failed else .stopped)
  else
    { s.recordUnlessDone .indeterminate with status := .failed }.resolveStop

/-- The driver has answered to the stop in the given place. -/
def stopTerminated (i : Nat) (confirmed : Bool) (s : Service) : Service :=
  match s.stops[i]? with
  | some .terminating =>
    let s := if confirmed then s.vouched else s
    { s with stops := s.stops.set i (.awaitingExit confirmed) }
  | _ => s

/-- The race of the stop in the given place is over: the exit was seen, or the bound has passed. -/
def stopRaced (i : Nat) (timedOut : Bool) (s : Service) : Service :=
  match s.stops[i]? with
  | some (.awaitingExit confirmed) =>
    let raced := { s with stops := s.stops.eraseIdx i }
    if timedOut then raced.finalizeStop confirmed false
    else
      match s.onInstanceExit with
      | .pending => s
      | .resolved => raced.finalizeStop confirmed true
      | .rejected => raced
  | _ => s

/-- The output matches: `state.status = 'running'`, whatever it was. -/
def readinessMatched (s : Service) : Service :=
  if s.readinessArmed then { s with readinessArmed := false, status := .running } else s

/-- The readiness timer fires. -/
def readinessTimedOut (s : Service) : Service :=
  if s.readinessArmed then
    let s := { s with readinessArmed := false, failureReason := true }
    if s.registered then s.stopOwned else s
  else s

/-- `close` of a supervisor: the timers go, what is up is stopped, and the map is empty. -/
def close (s : Service) : Service :=
  if s.registered then
    { ({ s with restartTimer := false } : Service).stopOwned with registered := false }
  else s

end Service

/-! ## Steps -/

inductive ServiceEvent where
  /-- A second call joins the first, or is refused: the id of its first instance is taken. -/
  | startService
  | spawnAnswered (answer : Service.SpawnAnswer)
  | startupFailed
  | cleanupAnswered (confirmed exited : Bool)
  | cleanupFinished
  | rootExited (success : Option Bool)
  | drained
  | verified
  | treeSettled (answer : Service.TreeAnswer)
  | timerFired (accepted : Bool)
  | stopService
  | stopTerminated (i : Nat) (confirmed : Bool)
  | stopRaced (i : Nat) (timedOut : Bool)
  | readinessMatched
  | readinessTimedOut
  | close
  | domainClosed

def Service.after (e : ServiceEvent) (s : Service) : Service :=
  match e with
  | .startService => s
  | .spawnAnswered answer => s.spawnAnswered answer
  | .startupFailed => s.settleStartupFailure
  | .cleanupAnswered confirmed exited => s.cleanupAnswered confirmed exited
  | .cleanupFinished => s.cleanupFinished
  | .rootExited success => s.rootExited success
  | .drained => s.drained
  | .verified => s.verified
  | .treeSettled answer => s.treeSettled answer
  | .timerFired accepted => s.timerFired accepted
  | .stopService => s.stopService
  | .stopTerminated i confirmed => s.stopTerminated i confirmed
  | .stopRaced i timedOut => s.stopRaced i timedOut
  | .readinessMatched => s.readinessMatched
  | .readinessTimedOut => s.readinessTimedOut
  | .close => s.close
  | .domainClosed => { s with domainClosed := true }

end Services
end XioFlow
