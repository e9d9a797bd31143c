/-
  XioFlow.Supervisor.WriteRequests

  The operations that take the write resource of a directory, how each kind
  spells the name of the resource, and how they get it and give it back.

  Names are compared as strings.  An uncapped process names the real path, a
  snapshot the resolved one, a service what its caller wrote.
-/

import XioFlow.Capability.Patterns
import XioFlow.Domain.Queueing
import XioFlow.Supervisor.Internal

namespace XioFlow

open Lib
open ExecutionDomain (writeResource)

namespace Supervisor

/-- An operation that takes the write resource of a path.  Under a capability a process names the
    path as its caller does, or as the scope has it, and a snapshot may leave the roots to the
    scope.  `transaction` stands for the inspection, the commit and the abort of a workspace
    transaction, which name its root, or a place below the fork. -/
inductive WriteRequest where
  | executeProcess (path : String) (mutationRoots : List String)
  | executeProcessUnder (path : String) (mutationRoots : List String)
  | startService (path : String)
  | captureSnapshot (path : String)
  | captureSnapshotUnder (path : String)
  | rollback (path : String)
  | rollbackUnder (path : String)
  | materialize (path : String)
  | transaction (path : String) (below : Path)
  deriving DecidableEq

namespace WriteRequest

variable (fs : FileSystem)

/-- The directory, as the caller spells it. -/
def directory : WriteRequest → Path
  | executeProcess path _ | executeProcessUnder path _ | startService path
  | captureSnapshot path | captureSnapshotUnder path | rollback path | rollbackUnder path
  | materialize path => fs.resolve path
  | transaction path below => fs.resolve path ++ below

/-- The real path, or the resolved one where there is none. -/
def realOrResolved (path : String) : Path :=
  (fs.realpathSync (fs.resolve path)).getD (fs.resolve path)

/-- The path in the name of the resource. -/
def lockPath : WriteRequest → String
  | executeProcess path _ => renderPath (realOrResolved fs path)
  | executeProcessUnder path _ | startService path => path
  | captureSnapshot path | rollback path | materialize path => resolved fs path
  | captureSnapshotUnder path => resolved fs (normalizePathPattern fs path)
  | rollbackUnder path => normalizePathPattern fs (resolved fs path)
  | transaction path below => renderPath (realOrResolved fs path ++ below)

def resource (r : WriteRequest) : String := writeResource (r.lockPath fs)

/-- The mutation roots of the operation on record. -/
def mutationRoots : WriteRequest → List String
  | executeProcess path roots =>
    if roots = [] then [renderPath (realOrResolved fs path)] else roots
  | executeProcessUnder _ roots => roots
  | startService _ | materialize _ | transaction _ _ => []
  | captureSnapshot path => [resolved fs path]
  | captureSnapshotUnder path => [resolved fs (normalizePathPattern fs path)]
  | rollback path => [resolved fs path]
  | rollbackUnder path => [normalizePathPattern fs (resolved fs path)]

/-- Only a rollback looks who else is at work on its root. -/
def checksRoots : WriteRequest → Bool
  | rollback _ | rollbackUnder _ => true
  | _ => false

/-- A process may wait for its resource; the others get it at once or fail. -/
def waits : WriteRequest → Bool
  | executeProcess .. | executeProcessUnder .. => true
  | _ => false

/-- How the operation asks the domain for its resource. -/
def asks (r : WriteRequest) (id : String) (maxWaitMs : Nat) (cancelled : Bool) : QueueEvent :=
  if r.waits then .allocateResourcesWithWait id [r.resource fs] maxWaitMs cancelled
  else .allocateResources id [r.resource fs] 0

end WriteRequest

/-! ## Operations at work -/

/-- An operation at work, or one that waits for its resource. -/
structure WriteHolder where
  id : String
  request : WriteRequest
  deriving DecidableEq

/-- The locks of a domain, and the operations that have begun on directories. -/
structure WriteState where
  queue : Queueing
  active : List WriteHolder := []

inductive WriteEvent where
  | start (id : String) (request : WriteRequest) (maxWaitMs : Nat) (cancelled : Bool)
  | finish (id : String) (isCancelled : Waiter → Bool) (elapsed : Waiter → Nat)
      (now : Timestamp)
  /-- whatever else the domain is asked for -/
  | other (e : QueueEvent)

namespace WriteState

variable (fs : FileSystem)

/-- The operation works on the root under one of its two names. -/
def touches (holder : WriteHolder) (a : RootAliases) : Bool :=
  a.resources.contains (holder.request.resource fs) ||
    (holder.request.mutationRoots fs).any fun root =>
      resolved fs root = a.root || resolved fs root = a.realRoot

/-- `assertRootsQuiescent`: neither a lock nor another operation's record names the root. -/
def quiescent (s : WriteState) (id root : String) : Bool :=
  let a := rootAliases fs root
  !(a.resources.any s.queue.domain.isResourceLocked) &&
    s.active.all fun holder => holder.id = id || !touches fs holder a

/-- The operation got its resource, or it waits for it. -/
def begun (q : Queueing) (id : String) (request : WriteRequest) : Bool :=
  q.domain.getResourceOwner (request.resource fs) = some id ||
    q.domain.waitQueue.any fun w => w.operationId = id

def after : WriteEvent → WriteState → WriteState
  | .start id request maxWaitMs cancelled, s =>
    if id = "" || s.active.any fun holder => holder.id = id then s
    else if request.checksRoots && !s.quiescent fs id (request.lockPath fs) then s
    else
      let queue := (request.asks fs id maxWaitMs cancelled).after s.queue
      { queue
        active := if begun fs queue id request then s.active ++ [{ id, request }] else s.active }
  | .finish id isCancelled elapsed now, s =>
    { queue := (QueueEvent.internalReleaseResources id [] isCancelled elapsed now).after s.queue
      active := s.active.filter fun holder => holder.id ≠ id }
  | .other e, s => { s with queue := e.after s.queue }

/-- The operation is at work, and its resource was granted to it and not given back. -/
def holds (s : WriteState) (id : String) (request : WriteRequest) : Prop :=
  { id, request } ∈ s.active ∧ ⟨request.resource fs, id⟩ ∈ s.queue.held

end WriteState

/-! ## The names are those the operations register -/

theorem writeRoot?_writeResource (path : String) : writeRoot? (writeResource path) = some path := by
  have hlist : (writeResource path).toList = "workspace:write:".toList ++ path.toList :=
    String.toList_append
  have hprefix : hasPrefix "workspace:write:" (writeResource path) = true := by
    rw [hasPrefix_iff, hlist]
    exact List.prefix_append _ _
  have hrest : (writeResource path).toList.drop writePrefixLength = path.toList := by
    rw [hlist]
    exact List.drop_left
  unfold writeRoot?
  rw [if_pos hprefix, hrest, String.ofList_toList]

variable (fs : FileSystem)

/-- A process without a capability. -/
theorem freeScope_resources {options : ExecuteProcessOptions} {path : String}
    (h : writeResource path ∈ options.requiredResources) (mutationRoots : List String) :
    (WriteRequest.executeProcess path mutationRoots).resource fs ∈
      (freeScope fs options).options.requiredResources := by
  refine List.mem_map.2 ⟨_, h, ?_⟩
  unfold normalizeResourceName
  rw [writeRoot?_writeResource]
  rfl

/-- A snapshot; under a capability that leaves the roots open, of the normalized paths. -/
theorem snapshotOperation_resources [Crypto] (options : CaptureSnapshotOptions)
    (targetRoots : List String) (configSnapshot : RequestConfigSnapshot) :
    (snapshotOperation options (targetRoots.map (resolved fs)) configSnapshot).requiredResources =
      targetRoots.map fun root => (WriteRequest.captureSnapshot root).resource fs :=
  List.map_map

/-- A rollback, of the roots that are asked for. -/
theorem rollbackOperation_resources [Crypto] (options : RollbackOptions) (roots : List String)
    (configSnapshot : RequestConfigSnapshot) :
    (rollbackOperation options (roots.map (resolved fs)) configSnapshot).requiredResources =
        roots.map (fun root => (WriteRequest.rollback root).resource fs) ∧
      (rollbackOperation options ((roots.map (resolved fs)).map (normalizePathPattern fs))
        configSnapshot).requiredResources =
        roots.map fun root => (WriteRequest.rollbackUnder root).resource fs := by
  constructor
  · exact List.map_map
  · show ((roots.map (resolved fs)).map (normalizePathPattern fs)).map writeResource = _
    rw [List.map_map, List.map_map]
    rfl

end Supervisor
end XioFlow
