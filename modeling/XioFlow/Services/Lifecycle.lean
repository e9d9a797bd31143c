/-
  XioFlow.Services.Lifecycle

  What is claimed of a service, the condition under which it holds, and the
  phases that a service is in while it does.
-/

import XioFlow.Services.Service
import XioFlow.Lib.Transition

namespace XioFlow

open Lib

namespace Services

namespace Service

/-! ## What is claimed -/

/-- The instances that have a process, or may have one. -/
def liveInstances (s : Service) : List Nat :=
  s.unsettled ++ if s.spawning then [s.currentInstanceIndex] else []

/-- No process is alive, none is on its way, and the resources are free. -/
structure AtRest (s : Service) : Prop where
  alive : s.liveInstances = []
  restart : s.restartTimer = false
  released : s.lockedResources = []

/-- The last instance is recorded as indeterminate, and the resources are locked. -/
structure LeftToAdjudicate (s : Service) : Prop where
  indeterminate : ∃ op, s.currentOperation = some op ∧ op.status = .done .indeterminate
  locked : s.lockedResources = s.spec.requiredResources

def Settled (s : Service) : Prop := s.AtRest ∨ s.LeftToAdjudicate

structure Sound (s : Service) : Prop where
  single : s.liveInstances.length ≤ 1
  numbered : s.operations.map InstanceRecord.index = List.range' 1 s.operations.length
  bounded : s.operations.length ≤ 1 + s.spec.restart.maxRestarts
  locked : s.status.terminal = false → s.lockedResources = s.spec.requiredResources
  stopped : s.stopPromise = .resolved ∨ s.answered = true → s.Settled

/-! ## The condition -/

/-- A stop that has to do something finds a process whose exit is being waited for or handled, a
    restart that is pending, or another stop at work. -/
def StopSafe (s : Service) : Prop :=
  s.status.up = true → s.exit.busy = true ∨ s.restartTimer = true ∨
    (s.stopRequested = true ∧ s.cleanup = none)

def StepSafe (s : Service) : ServiceEvent → Prop
  | .stopService => (s.registered = true → s.StopSafe) ∧ (s.registered = false → s.Settled)
  | .close => s.registered = true → s.restartTimer = false ∧ s.StopSafe
  | _ => True

/-! ## The operation of the current instance -/

@[simp] theorem setOperation_index (status : InstanceStatus) (s : Service) :
    (s.setOperation status).operations.map InstanceRecord.index =
      s.operations.map InstanceRecord.index := by
  unfold setOperation
  rw [List.map_map]
  apply List.map_congr_left
  intro op _
  change (if op.index = s.currentInstanceIndex then { op with status } else op).index = op.index
  split <;> rfl

@[simp] theorem setOperation_length (status : InstanceStatus) (s : Service) :
    (s.setOperation status).operations.length = s.operations.length := by
  rw [setOperation, List.length_map]

theorem currentOperation_setOperation (status : InstanceStatus) (s : Service) :
    (s.setOperation status).currentOperation =
      s.currentOperation.map fun op => { op with status } := by
  unfold currentOperation setOperation
  simp only [List.find?_map]
  have hsame : (fun op : InstanceRecord => decide (op.index = s.currentInstanceIndex)) ∘
      (fun op => if op.index = s.currentInstanceIndex then { op with status } else op) =
        fun op => decide (op.index = s.currentInstanceIndex) := by
    funext op
    change decide ((if op.index = s.currentInstanceIndex then { op with status } else op).index =
      s.currentInstanceIndex) = _
    split <;> rfl
  rw [hsame]
  cases hfound : s.operations.find? fun op => decide (op.index = s.currentInstanceIndex) with
  | none => rfl
  | some op =>
    have hindex : op.index = s.currentInstanceIndex := by
      simpa using List.find?_some hfound
    simp only [Option.map_some, if_pos hindex]

/-- The operation of the current instance is recorded and not yet done. -/
def Open (s : Service) : Prop :=
  ∃ op, s.currentOperation = some op ∧ op.status.isDone = false

variable {s : Service}

theorem recordOperationResult_of_open (h : s.Open) (result : InstanceResult) :
    s.recordOperationResult result = some (s.setOperation (.done result)) := by
  obtain ⟨op, hop, hdone⟩ := h
  unfold recordOperationResult
  rw [hop]
  simp only [hdone, Bool.false_eq_true, if_false]

theorem recordOperationResult_some {s' : Service} {result : InstanceResult}
    (h : s.recordOperationResult result = some s') :
    s.Open ∧ s' = s.setOperation (.done result) := by
  unfold recordOperationResult at h
  cases hop : s.currentOperation with
  | none =>
    rw [hop] at h
    cases h
  | some op =>
    rw [hop] at h
    simp only at h
    split at h
    · cases h
    · rename_i hdone
      cases h
      exact ⟨⟨op, hop, by simpa using hdone⟩, rfl⟩

/-- What is done stays as it was recorded. -/
theorem recordUnlessDone_of_not_open (h : ¬ s.Open) (result : InstanceResult) :
    s.recordUnlessDone result = s := by
  unfold recordUnlessDone
  cases hrecord : s.recordOperationResult result with
  | none => rfl
  | some s' => exact absurd (recordOperationResult_some hrecord).1 h

theorem recordUnlessDone_of_open (h : s.Open) (result : InstanceResult) :
    s.recordUnlessDone result = s.setOperation (.done result) := by
  rw [recordUnlessDone, recordOperationResult_of_open h, Option.getD_some]

theorem indeterminate_setOperation (h : s.Open) :
    ∃ op, (s.setOperation (.done .indeterminate)).currentOperation = some op ∧
      op.status = .done .indeterminate := by
  obtain ⟨op, hop, -⟩ := h
  refine ⟨{ op with status := .done .indeterminate }, ?_, rfl⟩
  rw [currentOperation_setOperation, hop, Option.map_some]

/-! ## Phases -/

/-- What holds in every phase. -/
structure Common (s : Service) : Prop where
  positive : 1 ≤ s.currentInstanceIndex
  numbered : s.operations.map InstanceRecord.index = List.range' 1 s.operations.length
  within : s.attemptCount ≤ s.spec.restart.maxRestarts
  counted : s.currentInstanceIndex ≤ s.attemptCount + 1
  recorded : s.operations.length ≤ s.currentInstanceIndex
  locked : s.status.terminal = false → s.lockedResources = s.spec.requiredResources

/-- Nobody has asked to stop it: it is up, in the map, and its promises are open. -/
structure Unstopped (s : Service) : Prop where
  registered : s.registered = true
  requested : s.stopRequested = false
  up : s.status.up = true
  promise : s.stopPromise = .pending
  answered : s.answered = false
  stops : s.stops = []
  pending : s.pendingInstanceResult = none

/-- The driver is spawning a process. -/
structure Spawning (s : Service) : Prop extends Unstopped s where
  spawning : s.spawning = true
  timer : s.restartTimer = false
  exit : s.exit = .unwatched
  cleanup : s.cleanup = none
  handle : s.currentProcessHandle = false
  readiness : s.readinessArmed = false
  unsettled : s.unsettled = []
  open_ : s.Open
  current : s.currentInstanceIndex = s.attemptCount + 1
  last : s.operations.length = s.currentInstanceIndex
  intent : s.intentRegistered = true

/-- A startup has failed, before or behind its process. -/
structure Failing (s : Service) : Prop where
  registered : s.registered = true
  up : s.status.up = true
  promise : s.stopPromise = .pending
  answered : s.answered = false
  stops : s.stops = []
  pending : s.pendingInstanceResult = none
  spawning : s.spawning = false
  timer : s.restartTimer = false
  exit : s.exit = .unwatched
  readiness : s.readinessArmed = false
  cleanup : s.cleanup = some .caught ∧ s.stopRequested = false ∨ s.cleanup = some .terminating
  process : s.currentProcessHandle = false ∧ s.unsettled = [] ∧ s.cleanup = some .caught ∨
    s.currentProcessHandle = true ∧ s.unsettled = [s.currentInstanceIndex] ∧
      s.intentRegistered = true
  open_ : s.intentRegistered = true → s.Open

/-- A process is watched, or its exit is being handled, and nobody has asked to stop it. -/
structure Watching (s : Service) : Prop extends Unstopped s where
  spawning : s.spawning = false
  timer : s.restartTimer = false
  cleanup : s.cleanup = none
  handle : s.currentProcessHandle = true
  unsettled : s.unsettled = [s.currentInstanceIndex]
  open_ : s.Open
  current : s.currentInstanceIndex = s.attemptCount + 1
  last : s.operations.length = s.currentInstanceIndex
  exit : s.exit = .watched ∨ ∃ success, s.exit = .draining success true ∨
    s.exit = .verifying success true ∨ s.exit = .settling success
  readiness : s.exit ≠ .watched → s.readinessArmed = false

/-- Between two instances: the timer runs, or has found the domain closed. -/
structure Between (s : Service) : Prop extends Unstopped s where
  spawning : s.spawning = false
  exit : s.exit = .over
  cleanup : s.cleanup = none
  unsettled : s.unsettled = []
  handle : s.currentProcessHandle = true
  readiness : s.readinessArmed = false
  current : s.restartTimer = true → s.currentInstanceIndex = s.attemptCount
  last : s.operations.length = s.currentInstanceIndex

/-- What has become of a service that is asked to stop, or has ended. -/
inductive Outcome (s : Service) : Prop where
  | ongoing (hopen : s.Open) (hlocked : s.lockedResources = s.spec.requiredResources)
      (hsettled : s.stopPromise = .resolved ∨ s.answered = true → s.AtRest)
  | atRest (hrest : s.AtRest) (hterminal : s.status.terminal = true)
      (hreadiness : s.readinessArmed = false)
  | left (hleft : s.LeftToAdjudicate)

/-- A service that is asked to stop, or has ended: no process is spawned any more. -/
structure Ending (s : Service) : Prop where
  spawning : s.spawning = false
  timer : s.restartTimer = false
  cleanup : s.cleanup = none ∨ ∃ confirmed exited, s.cleanup = some (.finishing confirmed exited) ∧
    s.status = .failed ∧ s.readinessArmed = false ∧ s.stops = [] ∧ (confirmed = true → s.Settled)
  unsettled : s.unsettled = [] ∨ s.unsettled = [s.currentInstanceIndex]
  requested : s.exit.busy = true → s.stopRequested = true
  handled : s.exit.busy = true → s.exit ≠ .watched → s.readinessArmed = false
  handle : s.status.up = true ∨ s.readinessArmed = true → s.currentProcessHandle = true ∧
    s.cleanup = none
  pending : s.pendingInstanceResult.isSome = true → s.readinessArmed = false
  confirmed : .awaitingExit true ∈ s.stops → s.unsettled = []
  outcome : s.Outcome

inductive Phase (s : Service) : Prop where
  | spawning (h : s.Spawning)
  | failing (h : s.Failing)
  | watching (h : s.Watching)
  | between (h : s.Between)
  | ending (h : s.Ending)

end Service

end Services
end XioFlow
