/-
  XioFlow.Supervisor.InFlight

  The calls in flight, and what the kernel keeps of them beside the store.

  An asynchronous function of the kernel runs without interruption from one
  await to the next.  A call is therefore a record of where it waits and of the
  variables it still needs, and one stretch between two awaits is one program
  over the kernel.  Everything else may happen between two stretches.
-/

import XioFlow.Supervisor.Finalize
import XioFlow.Recovery.Verdict
import XioFlow.Capability.Attenuation

namespace XioFlow

open Lib Lib.Prog
open ExecutionDomain (internalReleaseResources)
open Recovery (StopProcessResult)

namespace Supervisor

/-! ## Requests -/

/-- `ExecuteProcessOptions`; `inputFingerprint` is the given one, or the hash of the input as
    admission leaves it. -/
structure ExecuteProcessOptions where
  runId : String
  opId : String
  name : String
  /-- `command.cwd` -/
  cwd : String
  /-- The values of `command.secretEnv`. -/
  commandSecretRefs : List String := []
  requiredResources : List String := []
  mutationRoots : Option (List String) := none
  capabilityId : Option String := none
  capabilityWorkspace : Option String := none
  capabilitySecretRefs : Option (List String) := none
  capabilityPolicyVersion : Option String := none
  inputFingerprint : String
  timeoutMs : Option Nat := none
  waitTimeoutMs : Nat := 0
  resourceBudget : Option ResourceBudget := none
  /-- `abortSignal.aborted` -/
  aborted : Bool := false

/-- What the driver and the host contribute to a request. -/
structure RequestFacts where
  /-- What `validateExecuteProcessOptions` or `assertSecretResolverSupported` throws. -/
  invalid : Option KernelError := none
  /-- What `resolveConfinementDriver` or `assertBudgetSupported` throws. -/
  unsupported : Option KernelError := none
  configSnapshot : RequestConfigSnapshot
  spawnGated : Bool := false
  recoveryEvidence : Option RecoveryEvidence := none

/-- What the clock answers while a stretch runs. -/
structure Clock where
  now : Timestamp
  elapsed : Waiter → Nat

/-! ## Where a call of `executeProcess` waits -/

structure ExitFacts where
  exitCode : Option Int
  signal : Option String

/-- The winner of the race between exit, timeout and stop. -/
inductive RootOutcome where
  | exit (res : ExitFacts)
  | timeout
  | stop (stopRes : StopProcessResult)

/-- The awaits of `runProcess` and of what it calls, with the variables needed after them. -/
inductive Awaiting where
  /-- `allocateResourcesWithWait`: pending while the ticket is in the wait queue. -/
  | resources (ticket : Nat) (rejection : Option KernelError)
  | spawn
  /-- The stop of a process whose activation failed. -/
  | activationStop (statusError : KernelError)
  /-- `activateOrAbort` has come to its end. -/
  | activation (failure : Option KernelError)
  | rootOutcome
  /-- `sampler.settle()` -/
  | samples (outcome : RootOutcome)
  /-- The stop pipeline, after the timeout. -/
  | timeoutStop
  /-- `waitRootExit`; the stop was called for by the timeout or from elsewhere. -/
  | rootExit (stopRes : StopProcessResult) (timedOut : Bool)
  | drain (exit : ExitFacts) (exitedNaturally : Bool)
  /-- The stop of the descendants that hold the pipes. -/
  | reap (exit : ExitFacts)
  /-- The last chance to drain, after they were stopped. -/
  | lastDrain (exit : ExitFacts)
  /-- The writers, after the drainers were finalized by force. -/
  | writers (exit : ExitFacts)
  | settleTree (exit : ExitFacts)
  /-- `drainOrReap` has come to its end. -/
  | drained (exit : ExitFacts) (exitedNaturally : Bool) (tree : TreeStatus)
  /-- `recordHardLimitHits` -/
  | limitHits (exit : ExitFacts)
  | identity (exit : ExitFacts)
  /-- The stop pipeline, before the result is recorded. -/
  | stopResult (result : ProcessOperationResult) (collects : Option KernelError)
  /-- `superviseActive` has come to its end. -/
  | supervised (outcome : Except KernelError OperationResult)

inductive Phase where
  | waitingResources | intentRegistered | spawning | active | stopping | done
  deriving DecidableEq

/-- `stopPromise`, by what settles it. -/
inductive StopPromise where
  /-- Made by `cancelOperation` before there was a process to stop. -/
  | requested
  /-- The stop pipeline, which awaits the driver. -/
  | running
  | settled (outcome : Except KernelError StopProcessResult)

/-- `ActiveOperationState` and `ProcessRunPlan` of one call, and where it waits. -/
structure ActiveOperationState where
  options : ExecuteProcessOptions
  op : Operation
  capAdmission : Option CapabilityAdmissionResult
  phase : Phase := .waitingResources
  startTime : Timestamp
  cancelRequested : Bool := false
  timedOut : Bool := false
  terminationReason : Option TerminationReason := none
  resourceSamplingError : Option String := none
  handle : Option ProcessIdentity := none
  stopPromise : Option StopPromise := none
  awaiting : Awaiting

namespace ActiveOperationState

def opId (a : ActiveOperationState) : String := a.options.opId

def runId (a : ActiveOperationState) : String := a.options.runId

/-- `stopResolve?.(res); stopResolve = undefined` -/
def resolveStop (stopRes : StopProcessResult) (a : ActiveOperationState) : ActiveOperationState :=
  match a.stopPromise with
  | some .requested => { a with stopPromise := some (.settled (.ok stopRes)) }
  | _ => a

/-- The stop pipeline of the call awaits the driver. -/
def stopRunning (a : ActiveOperationState) : Bool :=
  match a.stopPromise with
  | some .running => true
  | _ => false

end ActiveOperationState

/-! ## Calls of the other entry points -/

structure CaptureSnapshotOptions where
  runId : String
  opId : String
  roots : Option (List String) := none
  capabilityId : Option String := none
  capabilityWorkspace : Option String := none
  includeIgnored : Bool := false
  /-- `trackIgnored === 'manifest'` -/
  trackIgnored : Bool := false
  maxTreeSizeBytes : Option Nat := none
  timeoutMs : Option Nat := none

/-- `RollbackOptions` without what only the snapshot driver reads. -/
structure RollbackOptions where
  runId : String
  opId : String
  snapshotId : String
  roots : Option (List String) := none
  capabilityId : Option String := none
  capabilityWorkspace : Option String := none
  timeoutMs : Option Nat := none

/-- A call of `captureSnapshot` in flight: before its intent (`assertGitRepo`), or after it. -/
structure SnapshotCall where
  ticket : Nat
  op : Operation
  capAdmission : Option CapabilityAdmissionResult
  registered : Bool
  startTime : Timestamp

/-- A call of `rollback` in flight: all its awaits come after its intent. -/
structure RollbackCall where
  ticket : Nat
  options : RollbackOptions
  startTime : Timestamp

structure AdjudicateOptions where
  verdict : Verdict
  actor : String
  note : Option String := none
  decision : Option Decision := none
  evidence : Option String := none

/-- A call of `adjudicate` that awaits the members of the process group. -/
structure AdjudicateCall where
  ticket : Nat
  options : AdjudicateOptions
  /-- The record as it was read before the await. -/
  op : StoredOperation
  /-- What probing the process itself has found. -/
  residualPids : List Nat

/-! ## The kernel -/

/-- A domain and the calls in flight on it. -/
structure Kernel where
  domain : ExecutionDomain
  activeOperations : Table ActiveOperationState ActiveOperationState.opId := Table.empty
  /-- States that have left the map while their stop pipeline awaits the driver. -/
  detached : List ActiveOperationState := []
  snapshotCalls : Table SnapshotCall SnapshotCall.ticket := Table.empty
  rollbackCalls : Table RollbackCall RollbackCall.ticket := Table.empty
  adjudicateCalls : Table AdjudicateCall AdjudicateCall.ticket := Table.empty
  nextTicket : Nat := 0

/-- One stretch of the kernel between two awaits. -/
abbrev KernelM := Prog Kernel KernelError

def domainPart : Part Kernel ExecutionDomain where
  get k := k.domain
  put k domain := { k with domain }
  get_put _ _ := rfl
  put_get _ := rfl
  put_put _ _ _ := rfl

def onDomain {α : Type} (p : DomainM α) : KernelM α := p.within domainPart

/-- A method of the store, called from the kernel. -/
def callStore {α : Type} (p : StoreM α) : KernelM α := onDomain (onStore p)

theorem run_onDomain {α : Type} (p : DomainM α) (k : Kernel) :
    (onDomain p).run k = ({ k with domain := (p.run k.domain).1 }, (p.run k.domain).2) :=
  run_within domainPart p k

theorem run_callStore {α : Type} (p : StoreM α) (k : Kernel) :
    (callStore p).run k =
      ({ k with domain := { k.domain with store := (p.run k.domain.store).1 } },
        (p.run k.domain.store).2) := by
  unfold callStore
  rw [run_onDomain, ExecutionDomain.run_onStore]

namespace Kernel

/-- `isCancelled` of the queued requests. -/
def isCancelled (k : Kernel) (item : Waiter) : Bool :=
  (k.activeOperations.get? item.operationId).any fun active => active.cancelRequested

def around (clock : Clock) (k : Kernel) : Surroundings := ⟨k.isCancelled, clock.elapsed, clock.now⟩

/-- A request is in the wait queue. -/
def queued (ticket : Nat) (k : Kernel) : Bool :=
  k.domain.waitQueue.any fun item => item.ticket = ticket

/-- `activeOperations.set(opId, active)` -/
def setActive (active : ActiveOperationState) (k : Kernel) : Kernel :=
  { k with activeOperations := k.activeOperations.replace active }

/-- A change to the state of a call; one that has left the map is not found there. -/
def updateActive (opId : String) (f : ActiveOperationState → ActiveOperationState) (k : Kernel) :
    Kernel :=
  match k.activeOperations.get? opId with
  | some active => k.setActive (f active)
  | none => k

/-- `activeOperations.delete(opId)`; a running stop pipeline keeps the state alive. -/
def forget (opId : String) (k : Kernel) : Kernel :=
  { k with
    activeOperations := k.activeOperations.deleteWhere fun active => active.opId = opId
    detached := k.detached ++
      (k.activeOperations.get? opId).toList.filter ActiveOperationState.stopRunning }

/-- The next ticket. -/
def tick (k : Kernel) : Kernel := { k with nextTicket := k.nextTicket + 1 }

end Kernel

def release (operationId : String) (resources : List String) (clock : Clock) : KernelM Unit := do
  let around ← read (Kernel.around clock)
  let _ ← onDomain (internalReleaseResources operationId resources around.isCancelled
    around.elapsed around.now)
  pure ()

def finalize (opId : String) (result : OperationResult) (options : FinalizeOptions)
    (clock : Clock) : KernelM OperationResult := do
  let around ← read (Kernel.around clock)
  onDomain (finalizeOperation opId result options around)

/-- The call goes on to wait elsewhere. -/
def awaitAt (opId : String) (awaiting : Awaiting) : KernelM Unit :=
  modify (Kernel.updateActive opId fun active => { active with awaiting })

end Supervisor
end XioFlow
