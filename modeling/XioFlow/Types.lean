/-
  XioFlow.Types

  The data of the kernel: tasks, runs, operations and their results, and the
  errors that the kernel throws.

  Times are milliseconds since 1970; the source keeps them as ISO 8601
  strings, which `toISOString` gives back where a payload carries one.
-/

import XioFlow.Json
import XioFlow.Lib.Text

namespace XioFlow

open Lib

/-! ## Times -/

/-- Milliseconds since the start of 1970. -/
abbrev Timestamp := Nat

/-- Year, month and day of a day number, counted from 1970-01-01. -/
def civilOfDays (days : Nat) : Nat × Nat × Nat :=
  let z := days + 719468
  let era := z / 146097
  let dayOfEra := z % 146097
  let yearOfEra := (dayOfEra - dayOfEra / 1460 + dayOfEra / 36524 - dayOfEra / 146096) / 365
  let dayOfYear := dayOfEra - (365 * yearOfEra + yearOfEra / 4 - yearOfEra / 100)
  let monthIndex := (5 * dayOfYear + 2) / 153
  let day := dayOfYear - (153 * monthIndex + 2) / 5 + 1
  let month := if monthIndex < 10 then monthIndex + 3 else monthIndex - 9
  let year := yearOfEra + era * 400 + (if month ≤ 2 then 1 else 0)
  (year, month, day)

/-- `Date.prototype.toISOString` for the years up to 9999. -/
def toISOString (t : Timestamp) : String :=
  let (year, month, day) := civilOfDays (t / 86400000)
  let ms := t % 86400000
  let date := padded 4 year ++ "-" ++ padded 2 month ++ "-" ++ padded 2 day
  let time := padded 2 (ms / 3600000) ++ ":" ++ padded 2 (ms / 60000 % 60) ++ ":" ++
    padded 2 (ms / 1000 % 60)
  date ++ "T" ++ time ++ "." ++ padded 3 (ms % 1000) ++ "Z"

example : toISOString 1709210096789 = "2024-02-29T12:34:56.789Z" := by decide

/-! ## Tasks and runs -/

structure Task where
  id : String
  domainId : String
  name : String
  createdAt : Timestamp
  taskMeta : Option Json := none
  deriving DecidableEq

inductive KernelRunStatus where
  | queued | starting | running | stopping | succeeded | failed | cancelled | indeterminate
  deriving DecidableEq, Repr

def KernelRunStatus.text : KernelRunStatus → String
  | queued => "queued"
  | starting => "starting"
  | running => "running"
  | stopping => "stopping"
  | succeeded => "succeeded"
  | failed => "failed"
  | cancelled => "cancelled"
  | indeterminate => "indeterminate"

/-- The four statuses a run never leaves. -/
def KernelRunStatus.terminal : KernelRunStatus → Bool
  | succeeded | failed | cancelled | indeterminate => true
  | queued | starting | running | stopping => false

inductive TerminationReason where
  | completed | userCancelled | timedOut | resourcePreempted | crashDetected | exitUnobserved
  | memoryExceeded | cpuExceeded | pidsExceeded | outputExceeded | observationFailed
  deriving DecidableEq, Repr

def TerminationReason.text : TerminationReason → String
  | completed => "completed"
  | userCancelled => "user_cancelled"
  | timedOut => "timed_out"
  | resourcePreempted => "resource_preempted"
  | crashDetected => "crash_detected"
  | exitUnobserved => "exit_unobserved"
  | memoryExceeded => "memory_exceeded"
  | cpuExceeded => "cpu_exceeded"
  | pidsExceeded => "pids_exceeded"
  | outputExceeded => "output_exceeded"
  | observationFailed => "observation_failed"

/-- The immutable request binding of a run or an operation. -/
structure RequestConfigSnapshot where
  schemaVersion : String
  capabilityId : Option String := none
  capabilityPolicyVersion : Option String := none
  driverName : String
  driverVersion : String
  driverCapabilities : List (String × Json)
  retentionVersion : String
  redactionVersion : String
  config : List (String × Json)
  digest : String
  createdAt : Timestamp
  deriving DecidableEq

structure Run where
  id : String
  taskId : String
  domainId : String
  owner : String
  status : KernelRunStatus
  terminationReason : Option TerminationReason := none
  startedAt : Timestamp
  endedAt : Option Timestamp := none
  configSnapshotWhiteList : List (String × Json) := []
  configSnapshot : Option RequestConfigSnapshot := none
  deriving DecidableEq

/-! ## Operations -/

inductive Enforcement where
  | observe | soft | hard
  deriving DecidableEq, Repr

def Enforcement.text : Enforcement → String
  | observe => "observe"
  | soft => "soft"
  | hard => "hard"

structure ResourceBudget where
  maxMemoryBytes : Option Nat := none
  maxPids : Option Nat := none
  maxCpuTimeMs : Option Nat := none
  maxOutputBytes : Option Nat := none
  enforcement : Enforcement
  deriving DecidableEq

inductive OperationKind where
  | process | filesystem | gate | custom | service | snapshot | rollback
  deriving DecidableEq, Repr

def OperationKind.text : OperationKind → String
  | process => "process"
  | filesystem => "filesystem"
  | gate => "gate"
  | custom => "custom"
  | service => "service"
  | snapshot => "snapshot"
  | rollback => "rollback"

inductive OperationStatus where
  | pending | intentRegistered | active | stopping | done
  deriving DecidableEq, Repr

def OperationStatus.text : OperationStatus → String
  | pending => "pending"
  | intentRegistered => "intent_registered"
  | active => "active"
  | stopping => "stopping"
  | done => "done"

/-- The statuses that `getUnfinishedOperations` selects. -/
def OperationStatus.unfinished : OperationStatus → Bool
  | intentRegistered | active | stopping => true
  | pending | done => false

structure ProcessIdentity where
  pid : Nat
  pgid : Option Nat := none
  startTimeMonotonic : Option Nat := none
  spawnTime : Timestamp
  osStartTime : Option String := none
  commandFingerprint : Option String := none
  bootId : Option String := none
  cgroupPath : Option String := none
  deriving DecidableEq

inductive EvidenceSource where
  | spawn | naturalExit | stop | recovery
  deriving DecidableEq, Repr

inductive TreeStatus where
  | empty | residual | unknown
  deriving DecidableEq, Repr

structure TreeEvidence where
  status : TreeStatus
  scope : Option String := none
  residualPids : Option (List Nat) := none
  source : EvidenceSource
  observedAt : Timestamp
  deriving DecidableEq

inductive PipeStatus where
  | ignored | opened | closed | drained | unknown
  deriving DecidableEq, Repr

structure PipesEvidence where
  stdin : PipeStatus
  stdout : PipeStatus
  stderr : PipeStatus
  source : EvidenceSource
  observedAt : Timestamp
  deriving DecidableEq

inductive ContainmentKind where
  | cgroup | processGroup | trackedTree | none | unknown
  deriving DecidableEq, Repr

inductive ContainmentStatus where
  | held | empty | residual | unknown
  deriving DecidableEq, Repr

structure ContainmentEvidence where
  kind : ContainmentKind
  path : Option String := Option.none
  status : ContainmentStatus
  source : EvidenceSource
  observedAt : Timestamp
  deriving DecidableEq

inductive DescendantEnumeration where
  | full | cgroup | subreaper | none
  deriving DecidableEq, Repr

structure DriverCapabilities where
  processGroupKill : Bool
  accurateStartTime : Bool
  startTimeSource : Option String := none
  descendantEnumeration : DescendantEnumeration
  gatedSpawn : Option Bool := none
  deriving DecidableEq

/-- The launch and recovery facts captured from the original driver at intent time. -/
structure RecoveryEvidence where
  driverName : String
  driverCapabilities : DriverCapabilities
  identity : Option ProcessIdentity := none
  tree : Option TreeEvidence := none
  pipes : Option PipesEvidence := none
  containment : Option ContainmentEvidence := none
  deriving DecidableEq

/-! ## Results -/

/-- The status of a result of any kind. -/
inductive ResultStatus where
  | succeeded | failed | cancelled | indeterminate | restored | partialRestore
  deriving DecidableEq, Repr

def ResultStatus.text : ResultStatus → String
  | succeeded => "succeeded"
  | failed => "failed"
  | cancelled => "cancelled"
  | indeterminate => "indeterminate"
  | restored => "restored"
  | partialRestore => "partial"

inductive Verdict where
  | confirmedStopped | abandonWithResiduals
  deriving DecidableEq, Repr

def Verdict.text : Verdict → String
  | confirmedStopped => "confirmed_stopped"
  | abandonWithResiduals => "abandon_with_residuals"

inductive Decision where
  | succeeded | failed | rolledBack | partialDone
  deriving DecidableEq, Repr

def Decision.text : Decision → String
  | succeeded => "succeeded"
  | failed => "failed"
  | rolledBack => "rolled_back"
  | partialDone => "partial"

structure AdjudicationRecord where
  operationId : String
  verdict : Verdict
  decision : Option Decision := none
  actor : String
  note : Option String := none
  evidence : Option String := none
  residualPids : Option (List Nat) := none
  decidedAt : Timestamp
  deriving DecidableEq

/-- What every result carries. -/
structure BaseResult where
  durationMs : Nat
  completedAt : Timestamp
  replayed : Bool := false
  runId : Option String := none
  capabilityId : Option String := none
  deriving DecidableEq

inductive ProcessStatus where
  | succeeded | failed | cancelled
  deriving DecidableEq, Repr

/-- `facts` holds the measured facts no kernel function reads back: hashes, byte counts,
    truncation marks, resource peaks. -/
structure ProcessOperationResult extends BaseResult where
  status : ProcessStatus
  exitCode : Option Int := none
  signal : Option String := none
  stdout : String := ""
  stderr : String := ""
  outputRef : Option String := none
  terminationReason : Option TerminationReason := none
  residualPids : Option (List Nat) := none
  facts : List (String × Json) := []
  deriving DecidableEq

structure FilesystemOperationResult extends BaseResult where
  succeeded : Bool
  targetPath : String
  action : String
  bytesWritten : Option Nat := none
  outputRef : Option String := none
  errorMessage : Option String := none
  deriving DecidableEq

structure GenericOperationResult extends BaseResult where
  status : ProcessStatus
  outputRef : Option String := none
  errorMessage : Option String := none
  deriving DecidableEq

structure IndeterminateResult extends BaseResult where
  terminationReason : Option TerminationReason := none
  resourceSamplingError : Option String := none
  reason : String
  recoveryGuidance : String
  adjudication : Option AdjudicationRecord := none
  deriving DecidableEq

inductive SnapshotCoverage where
  | worktreeNonIgnored | fullTree
  deriving DecidableEq, Repr

def SnapshotCoverage.text : SnapshotCoverage → String
  | worktreeNonIgnored => "worktree_non_ignored"
  | fullTree => "full_tree"

structure SnapshotRef where
  id : String
  domainId : String
  opId : String
  driver : String
  roots : List String
  coverage : SnapshotCoverage
  treeFingerprint : String
  commitHash : Option String := none
  journalSeq : Option Nat := none
  createdAt : Timestamp
  treeSizeBytes : Option Nat := none
  ignoredManifestDigest : Option String := none
  deriving DecidableEq

structure SnapshotOperationResult extends BaseResult where
  succeeded : Bool
  snapshot : Option SnapshotRef := none
  errorMessage : Option String := none
  deriving DecidableEq

inductive RollbackStatus where
  | restored | partialRestore | failed
  deriving DecidableEq, Repr

structure RollbackOperationResult extends BaseResult where
  status : RollbackStatus
  snapshotId : String
  unrestoredPaths : Option (List String) := none
  coverage : String
  outOfScopeEffects : String
  ignoredFiles : String
  coverageBasis : List String := []
  errorMessage : Option String := none
  deriving DecidableEq

/-- The result of an operation, by kind. -/
inductive OperationResult where
  | process (result : ProcessOperationResult)
  | filesystem (result : FilesystemOperationResult)
  | generic (result : GenericOperationResult)
  | indeterminate (result : IndeterminateResult)
  | snapshot (result : SnapshotOperationResult)
  | rollback (result : RollbackOperationResult)
  deriving DecidableEq

def ProcessStatus.toResultStatus : ProcessStatus → ResultStatus
  | succeeded => .succeeded
  | failed => .failed
  | cancelled => .cancelled

def RollbackStatus.toResultStatus : RollbackStatus → ResultStatus
  | restored => .restored
  | partialRestore => .partialRestore
  | failed => .failed

namespace OperationResult

/-- `result.kind` -/
def kind : OperationResult → String
  | process _ => "process"
  | filesystem _ => "filesystem"
  | generic _ => "generic"
  | indeterminate _ => "indeterminate"
  | snapshot _ => "snapshot"
  | rollback _ => "rollback"

/-- `result.status` -/
def status : OperationResult → ResultStatus
  | process r => r.status.toResultStatus
  | filesystem r => if r.succeeded then .succeeded else .failed
  | generic r => r.status.toResultStatus
  | indeterminate _ => .indeterminate
  | snapshot r => if r.succeeded then .succeeded else .failed
  | rollback r => r.status.toResultStatus

def base : OperationResult → BaseResult
  | process r => r.toBaseResult
  | filesystem r => r.toBaseResult
  | generic r => r.toBaseResult
  | indeterminate r => r.toBaseResult
  | snapshot r => r.toBaseResult
  | rollback r => r.toBaseResult

/-- `result.outputRef`, which only three kinds have. -/
def outputRef : OperationResult → Option String
  | process r => r.outputRef
  | filesystem r => r.outputRef
  | generic r => r.outputRef
  | indeterminate _ | snapshot _ | rollback _ => none

/-- `result.terminationReason`, which only two kinds have. -/
def terminationReason : OperationResult → Option TerminationReason
  | process r => r.terminationReason
  | indeterminate r => r.terminationReason
  | filesystem _ | generic _ | snapshot _ | rollback _ => none

/-- `result.adjudication` -/
def adjudication : OperationResult → Option AdjudicationRecord
  | indeterminate r => r.adjudication
  | process _ | filesystem _ | generic _ | snapshot _ | rollback _ => none

/-- Replace the common part of a result. -/
def withBase : OperationResult → BaseResult → OperationResult
  | process r, b => process { r with toBaseResult := b }
  | filesystem r, b => filesystem { r with toBaseResult := b }
  | generic r, b => generic { r with toBaseResult := b }
  | indeterminate r, b => indeterminate { r with toBaseResult := b }
  | snapshot r, b => snapshot { r with toBaseResult := b }
  | rollback r, b => rollback { r with toBaseResult := b }

theorem status_indeterminate_iff (r : OperationResult) :
    r.status = .indeterminate ↔ ∃ i, r = indeterminate i := by
  cases r with
  | process r | generic r =>
    obtain ⟨_, s, _⟩ := r
    cases s <;> simp [status, ProcessStatus.toResultStatus]
  | filesystem | snapshot => simp only [status]; split <;> simp
  | indeterminate r => simp [status]
  | rollback r =>
    obtain ⟨_, s, _⟩ := r
    cases s <;> simp [status, RollbackStatus.toResultStatus]

end OperationResult

/-- A supervised atomic operation. -/
structure Operation where
  id : String
  runId : String
  kind : OperationKind
  name : String
  inputFingerprint : String
  requiredResources : List String
  mutationRoots : Option (List String) := none
  capabilityId : Option String := none
  timeoutMs : Option Nat := none
  resourceBudget : Option ResourceBudget := none
  spawnGated : Option Bool := none
  recoveryEvidence : Option RecoveryEvidence := none
  configSnapshot : Option RequestConfigSnapshot := none
  outputRef : Option String := none
  status : OperationStatus
  result : Option OperationResult := none
  processIdentity : Option ProcessIdentity := none
  deriving DecidableEq

/-! ## The domain's own records -/

structure OwnerRecord where
  domainId : String
  ownerId : String
  epoch : Int
  heartbeatAt : Timestamp
  expiresAt : Timestamp
  hostname : String
  deriving DecidableEq

structure ResourceLease where
  resourceId : String
  operationId : String
  domainId : String
  acquiredAt : Timestamp
  budget : Option ResourceBudget := none
  deriving DecidableEq

structure ArtifactRecord where
  id : String
  domainId : String
  ownerOperationId : Option String := none
  creatingInstructionId : Option String := none
  path : String
  sha256 : Option String := none
  sizeBytes : Option Nat := none
  createdAt : Timestamp
  /-- as it was stored, which need not be the text of a time -/
  expiresAt : Option String := none
  sensitivity : String
  encryptionState : String
  deletionState : String
  dev : String
  ino : String
  birthtimeNs : String
  deletedAt : Option Timestamp := none
  deletionReason : Option String := none
  deriving DecidableEq

structure CapabilityScope where
  write : List String := []
  exclusive : List String := []
  opcodes : List String := []
  workspaces : List String := []
  paths : List String := []
  secrets : List String := []
  deriving DecidableEq

structure CapabilityLimits where
  cpuMs : Nat
  memoryBytes : Nat
  outputBytes : Nat
  concurrentOps : Nat
  processes : Nat
  deriving DecidableEq

structure Capability where
  id : String
  domainId : String
  scope : CapabilityScope
  issuedBy : String
  policyVersion : String
  reason : String
  limits : CapabilityLimits
  expiresAt : Timestamp
  parentId : Option String := none
  epoch : Int
  createdAt : Timestamp
  revokedAt : Option Timestamp := none
  deriving DecidableEq

/-! ## Errors -/

inductive NotActiveReason where
  | notFound | alreadyCompleted | domainClosed
  deriving DecidableEq, Repr

/-- Why a capability does not permit a request. -/
inductive CapabilityViolationReason where
  | expired | revoked | epochMismatch | outOfScopeResource | outOfScopePath | outOfScopeOpcode
  | outOfScopeWorkspace | outOfScopeSecret | budgetExceeded | concurrencyExceeded
  | policyMismatch | domainMismatch | attenuationWidened
  deriving DecidableEq, Repr

def CapabilityViolationReason.text : CapabilityViolationReason → String
  | expired => "expired"
  | revoked => "revoked"
  | epochMismatch => "epoch_mismatch"
  | outOfScopeResource => "out_of_scope_resource"
  | outOfScopePath => "out_of_scope_path"
  | outOfScopeOpcode => "out_of_scope_opcode"
  | outOfScopeWorkspace => "out_of_scope_workspace"
  | outOfScopeSecret => "out_of_scope_secret"
  | budgetExceeded => "budget_exceeded"
  | concurrencyExceeded => "concurrency_exceeded"
  | policyMismatch => "policy_mismatch"
  | domainMismatch => "domain_mismatch"
  | attenuationWidened => "attenuation_widened"

/-- What the kernel throws: the error classes of the source with their public fields. -/
inductive KernelError where
  | error (message : String)
  | typeError (message : String)
  | constraint (message : String)
  | epochFenced (domainId : String) (expectedEpoch actualEpoch : Int)
  | domainLocked (domainId : String) (ownerPid : Nat) (acquiredAt : Timestamp)
  | resourceConflict (resourceId existingOwnerOpId requestingOpId : String)
      (waitedDurationMs : Nat)
  | duplicateOperation (opId existingStatus existingRunId : String)
  | operationNotActive (opId : String) (reason : NotActiveReason)
  | operationIdConflict (opId existingFingerprint requestedFingerprint existingStatus
      existingRunId : String)
  | recoveryRequired (opId status runId : String)
  | capabilityViolation (reason : CapabilityViolationReason) (message : String)
  deriving DecidableEq

end XioFlow
