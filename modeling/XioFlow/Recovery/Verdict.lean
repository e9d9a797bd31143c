/-
  XioFlow.Recovery.Verdict

  What recovery decides about one unfinished operation.

  The decision asks the platform driver about the process the crashed owner
  left behind, and each answer decides what is asked next.  It is written as an
  inquiry, so that the driver may answer anything at all, or fail to answer.
-/

import XioFlow.Store.Sqlite
import XioFlow.Lib.Inquiry

namespace XioFlow

open Lib

namespace Recovery

/-! ## The driver -/

inductive IdentityVerificationResult where
  | isOriginalProcess | notOriginalProcess | cannotDetermine
  deriving DecidableEq

def IdentityVerificationResult.text : IdentityVerificationResult → String
  | isOriginalProcess => "is_original_process"
  | notOriginalProcess => "not_original_process"
  | cannotDetermine => "cannot_determine"

inductive StopProcessStatus where
  | confirmedStopped | notStopped | cannotDetermine
  deriving DecidableEq

/-- The fields of a stop result that recovery reads. -/
structure StopProcessResult where
  stopped : StopProcessStatus
  unreapedPids : Option (List Nat) := none
  errorDetails : Option String := none

inductive TreeSettlement where
  | empty | residual | unknown
  deriving DecidableEq

/-- A member of a process group: its start time, when the platform knows it. -/
structure GroupMember where
  startTimeMs : Option Int

/-- A call that recovery makes to the driver on behalf of an operation. -/
inductive DriverCall where
  | verifyIdentity (opId : String) (identity : ProcessIdentity)
  | terminate (opId : String) (identity : ProcessIdentity) (graceMs : Nat)
  | settleTree (opId : String) (identity : ProcessIdentity) (waitMs : Nat)
  | isGroupAlive (opId : String) (pgid : Nat)
  | readBootId (opId : String)
  | getGroupEvidence (opId : String) (pgid : Nat)
  | terminateGroup (opId : String) (pgid : Nat) (graceMs : Nat)

abbrev DriverCall.Answer : DriverCall → Type
  | verifyIdentity .. => IdentityVerificationResult
  | terminate .. => StopProcessResult
  | settleTree .. => TreeSettlement
  | isGroupAlive .. => Bool
  | readBootId .. => Option String
  | getGroupEvidence .. => List GroupMember
  | terminateGroup .. => StopProcessResult

/-- The driver: which optional methods it has, and what each call returns or throws. -/
structure PlatformDriver where
  settleTree : Bool := false
  readBootId : Bool := false
  getGroupEvidence : Bool := false
  terminateGroup : Bool := false
  answer : Inquiry.Environment DriverCall DriverCall.Answer KernelError

/-- What recovery reads besides the store and the driver. -/
structure Context where
  now : Timestamp
  /-- `snapshotDriver.fingerprint(roots, { against })`; `none` when it throws, which is caught. -/
  fingerprint : List String → SnapshotRef → Option String
  /-- `Date.parse`, `none` for NaN. -/
  parseDate : String → Option Int

/-! ## The coverage of a rollback -/

inductive EffectsFact where
  | confined | unconfined | unverified
  deriving DecidableEq

def EffectsFact.basis : EffectsFact → String
  | confined => "all_ops_confined"
  | unconfined => "unconfined_op_since_snapshot"
  | unverified => "effects_unverified"

inductive IgnoredManifestState where
  | unchanged | changed | inconclusive | unreadable | absent
  deriving DecidableEq

def IgnoredManifestState.basis : IgnoredManifestState → String
  | unchanged => "ignored_manifest_unchanged"
  | changed => "ignored_manifest_changed"
  | inconclusive => "ignored_manifest_ctime_only"
  | unreadable => "ignored_manifest_unreadable"
  | absent => "ignored_not_captured"

structure RollbackCoverageFacts where
  status : RollbackStatus
  effects : EffectsFact
  snapshotCoverage : SnapshotCoverage
  ignoredManifest : IgnoredManifestState

structure RollbackCoverage where
  coverage : String
  outOfScopeEffects : String
  ignoredFiles : String
  coverageBasis : List String

def deriveRollbackCoverage (facts : RollbackCoverageFacts) : RollbackCoverage :=
  let fullTree := facts.snapshotCoverage = .fullTree
  let ignoredFiles :=
    if fullTree then (if facts.status = .failed then "unverified" else "restored")
    else if facts.ignoredManifest = .unchanged then "unchanged_verified" else "not_captured"
  let ignoredBasis := if fullTree then "snapshot_full_tree" else facts.ignoredManifest.basis
  match facts.status with
  | .failed => ⟨"none", "possible", ignoredFiles, ["fingerprint_mismatch"]⟩
  | .partialRestore =>
    ⟨"declared_roots", "possible", ignoredFiles, ["unrestored_paths", ignoredBasis]⟩
  | .restored =>
    let coverageBasis := [facts.effects.basis, ignoredBasis]
    if facts.effects ≠ .confined then
      ⟨"declared_roots", "possible", ignoredFiles, coverageBasis⟩
    else
      ⟨if ignoredFiles = "not_captured" then "non_ignored" else "complete", "none_possible",
        ignoredFiles, coverageBasis⟩

/-! ## Verdicts -/

inductive RecoveryAction where
  | cleanedUnspawned | stoppedAliveProcess | markedDead | isolatedIndeterminate
  deriving DecidableEq

def RecoveryAction.text : RecoveryAction → String
  | cleanedUnspawned => "cleaned_unspawned"
  | stoppedAliveProcess => "stopped_alive_process"
  | markedDead => "marked_dead"
  | isolatedIndeterminate => "isolated_indeterminate"

/-- A result that says how the operation ended. -/
abbrev ConfirmedResult : Type := { result : OperationResult // result.status ≠ .indeterminate }

/-- `announced` tells whether a service hears of the end of its instance. -/
inductive OperationVerdict where
  | isolate (reason recoveryGuidance : String) (durationMs : Nat) (announced : Bool)
  | conclude (result : ConfirmedResult) (action : RecoveryAction) (announced : Bool)

def isolatedResult (reason recoveryGuidance : String) (durationMs : Nat) (now : Timestamp) :
    OperationResult :=
  .indeterminate { durationMs, completedAt := now, reason, recoveryGuidance }

namespace OperationVerdict

def result (now : Timestamp) : OperationVerdict → OperationResult
  | isolate reason recoveryGuidance durationMs _ =>
    isolatedResult reason recoveryGuidance durationMs now
  | conclude result _ _ => result.1

/-- `resourcesReleased` of the report, and the last argument of `recordOperationResult`. -/
def released : OperationVerdict → Bool
  | isolate .. => false
  | conclude .. => true

def action : OperationVerdict → RecoveryAction
  | isolate .. => .isolatedIndeterminate
  | conclude _ action _ => action

def announced : OperationVerdict → Bool
  | isolate _ _ _ announced => announced
  | conclude _ _ announced => announced

/-- The leases stay exactly with an indeterminate result. -/
theorem status_eq_indeterminate_iff (now : Timestamp) (v : OperationVerdict) :
    (v.result now).status = .indeterminate ↔ v.released = false := by
  cases v with
  | isolate reason recoveryGuidance durationMs announced => exact ⟨fun _ => rfl, fun _ => rfl⟩
  | conclude result action announced =>
    exact ⟨fun h => absurd h result.2, fun h => (by cases h)⟩

/-- Recovery adjudicates nothing: an indeterminate result is left to somebody else. -/
theorem adjudication_eq_none (now : Timestamp) {v : OperationVerdict}
    (h : v.released = false) : (v.result now).adjudication = none := by
  cases v with
  | isolate reason recoveryGuidance durationMs announced => rfl
  | conclude => cases h

end OperationVerdict

def processResult (result : ProcessOperationResult) : ConfirmedResult :=
  ⟨.process result, fun h => by
    obtain ⟨i, hi⟩ := (OperationResult.status_indeterminate_iff _).1 h
    cases hi⟩

def snapshotResult (result : SnapshotOperationResult) : ConfirmedResult :=
  ⟨.snapshot result, fun h => by
    obtain ⟨i, hi⟩ := (OperationResult.status_indeterminate_iff _).1 h
    cases hi⟩

def rollbackResult (result : RollbackOperationResult) : ConfirmedResult :=
  ⟨.rollback result, fun h => by
    obtain ⟨i, hi⟩ := (OperationResult.status_indeterminate_iff _).1 h
    cases hi⟩

/-! ## The decision -/

/-- A decision that may ask the driver. -/
abbrev Decision := Inquiry DriverCall DriverCall.Answer OperationVerdict

open Inquiry (done ask)

/-- The message of an error the kernel throws with nothing but a message. -/
def messageOf : KernelError → String
  | .error message | .typeError message | .constraint message => message
  | _ => ""

def decimal (n : Nat) : String := String.ofList (digitsOf n)

/-- `name.replace(/^rollback:/, '')` -/
def rolledBackSnapshot (name : String) : String :=
  if hasPrefix "rollback:" name then String.ofList (name.toList.drop "rollback:".toList.length)
  else name

/-- A rollback is confirmed by the fingerprint of the tree alone. -/
def rollbackVerdict (getSnapshot : String → Option SnapshotRef) (ctx : Context)
    (op : StoredOperation) : OperationVerdict :=
  let snapshotId := (nonEmpty op.outputRef).getD (rolledBackSnapshot op.name)
  let mismatch : OperationVerdict :=
    .isolate "Rollback interrupted by crash and tree fingerprint does not match target snapshot"
      "Workspace tree may be dirty or partially restored. Inspect files and retry rollback." 0 false
  match getSnapshot snapshotId with
  | none => mismatch
  | some snapshot =>
    let roots := op.mutationRoots.getD snapshot.roots
    if roots ≠ [] ∧ ctx.fingerprint roots snapshot = some snapshot.treeFingerprint then
      -- Neither the confinement of what ran since nor the manifest was verified again.
      let derived := deriveRollbackCoverage
        ⟨.restored, .unverified, snapshot.coverage, .absent⟩
      .conclude (rollbackResult {
        status := .restored
        snapshotId
        coverage := derived.coverage
        outOfScopeEffects := derived.outOfScopeEffects
        ignoredFiles := derived.ignoredFiles
        coverageBasis := derived.coverageBasis
        durationMs := 0
        completedAt := ctx.now }) .cleanedUnspawned false
    else mismatch

def snapshotVerdict (ctx : Context) : OperationVerdict :=
  .conclude (snapshotResult {
    succeeded := false
    errorMessage := some "Snapshot interrupted by crash before completion"
    durationMs := 0
    completedAt := ctx.now }) .cleanedUnspawned false

/-- No identity, and no durable evidence that the gate stayed shut. -/
def unidentifiedVerdict : OperationVerdict :=
  .isolate "Process identity was not recorded; durable gated-spawn evidence does not prove non-execution"
    "Inspect processes and side effects before adjudication. Do not retry with a new operation ID."
    0 true

/-- The launch contract proves that the command never ran. -/
def unspawnedVerdict (ctx : Context) : OperationVerdict :=
  .conclude (processResult {
    status := .failed
    stderr := "Command was not released through its execution gate before the crash"
    facts := [("isTruncated", .bool false),
      ("identityVerification", .str IdentityVerificationResult.notOriginalProcess.text)]
    durationMs := 0
    completedAt := ctx.now }) .cleanedUnspawned true

/-- `unreapedPids?.length ? { unreapedPids } : {}` -/
def unreapedFact : Option (List Nat) → List (String × Json)
  | none | some [] => []
  | some pids => [("unreapedPids", .arr (pids.map fun pid => .num pid))]

def stoppedVerdict (ctx : Context) (durationMs : Nat) (stop : StopProcessResult) :
    OperationVerdict :=
  .conclude (processResult {
    status := .cancelled
    facts := [("evidence", .str "unobserved"), ("isTruncated", .bool false),
      ("identityVerification", .str IdentityVerificationResult.isOriginalProcess.text)] ++
      unreapedFact stop.unreapedPids
    durationMs
    completedAt := ctx.now }) .stoppedAliveProcess true

/-- The process is gone, but nobody saw how it ended. -/
def deadVerdict (ctx : Context) (durationMs : Nat) (reapedOrphans : Bool)
    (unreapedPids : Option (List Nat)) : OperationVerdict :=
  .conclude (processResult {
    status := .failed
    stderr := if reapedOrphans then "orphaned descendants were confirmed stopped during recovery"
      else ""
    terminationReason := some .exitUnobserved
    facts := [("evidence", .str "unobserved"),
      ("residualProcessesReaped", .bool reapedOrphans)] ++ unreapedFact unreapedPids ++
      [("isTruncated", .bool false),
        ("identityVerification", .str IdentityVerificationResult.notOriginalProcess.text)]
    durationMs
    completedAt := ctx.now }) .markedDead true

section Process

variable (driver : PlatformDriver) (ctx : Context) (op : StoredOperation)
  (identity : ProcessIdentity)

/-- `calcDurationMs` -/
def sinceSpawn : Nat := ctx.now - identity.spawnTime

/-- The original process is still alive: stop it. -/
def aliveDecision : Decision :=
  ask (.terminate op.id identity 2000) fun stop =>
    if stop.stopped = .confirmedStopped then done (stoppedVerdict ctx (sinceSpawn ctx identity) stop)
    else done (.isolate "Alive process failed to stop during recovery"
      "Residual PID detected. Check system processes manually." (sinceSpawn ctx identity) true)

/-- The leader is dead and its tree was contained in a cgroup. -/
def cgroupDecision (path : String) : Decision :=
  if !driver.settleTree then
    done (.isolate ("Original intent used cgroup containment but the recovery driver cannot " ++
        "observe cgroup tree settlement")
      ("Inspect the persisted containment path and adjudicate the operation before releasing " ++
        "leases.") (sinceSpawn ctx identity) false)
  else ask (.settleTree op.id identity 0) fun tree =>
    if tree = .empty then done (deadVerdict ctx (sinceSpawn ctx identity) false none)
    else ask (.terminate op.id identity 2000) fun reaped =>
      if reaped.stopped = .confirmedStopped then
        done (deadVerdict ctx (sinceSpawn ctx identity) true reaped.unreapedPids)
      else done (.isolate ("Owner is dead but cgroup " ++ path ++
          " could not be confirmed empty: " ++ reaped.errorDetails.getD "still populated")
        ("Processes left by the crashed owner are still in its cgroup; inspect them before " ++
          "retrying.") (sinceSpawn ctx identity) false)

/-- A member of the group started before the operation did. -/
def hasEarlierProcess (members : List GroupMember) : Bool :=
  let opSpawnMs := match identity.osStartTime with
    | some text => ctx.parseDate text
    | none => some (identity.spawnTime : Int)
  match opSpawnMs with
  | none => false
  | some opSpawnMs => members.any fun m => match m.startTimeMs with
    | some startTimeMs => startTimeMs < opSpawnMs - 1000
    | none => false

/-- The group may be signalled: it is stopped as a whole, or the operation is isolated. -/
def reapDecision (pgid : Nat) : Decision :=
  let unconfirmed : OperationVerdict :=
    .isolate "Owner is dead but its process group could not be confirmed stopped"
      "Residual processes from the crashed owner are still alive; inspect them before retrying."
      (sinceSpawn ctx identity) false
  if driver.terminateGroup then
    ask (.terminateGroup op.id pgid 2000) fun reaped =>
      if reaped.stopped = .confirmedStopped then
        done (deadVerdict ctx (sinceSpawn ctx identity) true reaped.unreapedPids)
      else done unconfirmed
  else done unconfirmed

/-- No signal goes to a group that another program may have taken the number of. -/
def membersDecision (pgid : Nat) : Decision :=
  if driver.getGroupEvidence then
    ask (.getGroupEvidence op.id pgid) fun members =>
      if hasEarlierProcess ctx identity members then
        done (.isolate ("Process group " ++ decimal pgid ++ " membership start time is earlier " ++
            "than operation spawn time; suspected PGID reuse")
          ("External process group occupies the recorded PGID. Do not terminate; verify process " ++
            "ownership manually.") (sinceSpawn ctx identity) false)
      else reapDecision driver ctx op identity pgid
  else reapDecision driver ctx op identity pgid

/-- Nor to a group of another boot session. -/
def groupDecision (pgid : Nat) : Decision :=
  match nonEmpty identity.bootId with
  | none => membersDecision driver ctx op identity pgid
  | some recorded =>
    if driver.readBootId then
      ask (.readBootId op.id) fun current =>
        match nonEmpty current with
        | none => membersDecision driver ctx op identity pgid
        | some current =>
          if recorded ≠ current then
            done (.isolate ("Host bootId changed (recorded: '" ++ recorded ++ "', current: '" ++
                current ++ "'); process group " ++ decimal pgid ++
                " belongs to a different boot session")
              ("Host was rebooted after the crash. Do not terminate external process groups; " ++
                "manual inspection required.") (sinceSpawn ctx identity) false)
          else membersDecision driver ctx op identity pgid
    else membersDecision driver ctx op identity pgid

/-- The leader is dead; a group under its number may still be alive. -/
def leaderlessDecision : Decision :=
  match identity.pgid with
  | none => done (deadVerdict ctx (sinceSpawn ctx identity) false none)
  | some pgid =>
    ask (.isGroupAlive op.id pgid) fun alive =>
      if alive then groupDecision driver ctx op identity pgid
      else done (deadVerdict ctx (sinceSpawn ctx identity) false none)

/-- The leader is dead, which does not say that its descendants are. -/
def deadLeaderDecision : Decision :=
  match nonEmpty identity.cgroupPath, op.recoveryEvidence with
  | none, _ => leaderlessDecision driver ctx op identity
  | some _, none =>
    done (.isolate ("Containment identity exists without original driver evidence; recovery " ++
        "cannot infer cgroup semantics from the replacement driver")
      "Inspect the recorded containment path and adjudicate the operation before releasing leases."
      (sinceSpawn ctx identity) false)
  | some path, some evidence =>
    if evidence.driverCapabilities.descendantEnumeration = .cgroup then
      cgroupDecision driver ctx op identity path
    else leaderlessDecision driver ctx op identity

def identityDecision : Decision :=
  ask (.verifyIdentity op.id identity) fun verification =>
    match verification with
    | .isOriginalProcess => aliveDecision ctx op identity
    | .notOriginalProcess => deadLeaderDecision driver ctx op identity
    | .cannotDetermine =>
      done (.isolate "Cannot determine process identity after restart"
        "Manual inspection required. Resource isolation remains active." (sinceSpawn ctx identity)
        true)

end Process

/-- An operation that ran a process, or was about to. -/
def processDecision (driver : PlatformDriver) (ctx : Context) (op : StoredOperation) : Decision :=
  match op.processIdentity with
  | some identity => identityDecision driver ctx op identity
  | none =>
    if op.status = .intentRegistered ∧ op.spawnGated = some true then done (unspawnedVerdict ctx)
    else done unidentifiedVerdict

/-- What recovery decides about an unfinished operation. -/
def decisionOf [Crypto] (driver : PlatformDriver) (getSnapshot : String → Option SnapshotRef)
    (ctx : Context) (op : StoredOperation) : Decision :=
  match assertOptionalSnapshot op.configSnapshot with
  | .error e =>
    done (.isolate ("Persisted request config snapshot is invalid: " ++ messageOf e)
      ("Inspect the immutable request binding and adjudicate the operation before releasing " ++
        "its lease.") 0 false)
  | .ok _ =>
    match op.kind with
    | .rollback => done (rollbackVerdict getSnapshot ctx op)
    | .snapshot => done (snapshotVerdict ctx)
    | .process | .filesystem | .gate | .custom | .service => processDecision driver ctx op

end Recovery
end XioFlow
