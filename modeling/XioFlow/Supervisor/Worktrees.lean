/-
  XioFlow.Supervisor.Worktrees

  `materialize` and `dematerialize` on one domain, between their awaits, with
  the abort of a workspace transaction and whatever other operations do to the
  resources of the domain.

  A worktree is taken by the name it is given; a removal asks for that name
  and for the real path.
-/

import XioFlow.Supervisor.Internal
import XioFlow.Domain.Queueing

namespace XioFlow

open Lib
open ExecutionDomain (writeResource)

namespace Supervisor
namespace Worktrees

/-! ## Calls in flight -/

/-- What a release finds when it scans the wait queue. -/
structure Moment where
  isCancelled : Waiter → Bool
  elapsed : Waiter → Nat
  now : Timestamp

/-- A `materialize` that awaits the driver, or whose caller, a workspace transaction, has not gone
    on yet. -/
structure Materializing where
  opId : String
  newRoot : String
  forTransaction : Bool
  created : Bool := false

/-- A `dematerialize` that awaits the driver. -/
structure Removing where
  owner : String
  newRoot : String
  resources : List String

/-- `issued` and `handedBack` are history: the leases that materializations were given, and the
    materializations whose lease was handed back, each time it was. -/
structure State where
  queueing : Queueing
  /-- `materializedWorkspaces` -/
  materialized : Table Lock Lock.resourceId := Table.empty
  materializing : List Materializing := []
  removing : List Removing := []
  /-- The owner of the abort that runs; commits and aborts run one after the other. -/
  aborting : Option String := none
  issued : List Lock := []
  handedBack : List String := []

namespace State

def domain (s : State) : ExecutionDomain := s.queueing.domain

/-- A step of the domain. -/
def queue (e : QueueEvent) (s : State) : State := { s with queueing := e.after s.queueing }

/-- `allocateResources`, unless it throws. -/
def allocate (operationId : String) (resources : List String) (s : State) : Option State :=
  match s.domain.allocateResources operationId resources 0 with
  | .ok _ => some (s.queue (.allocateResources operationId resources 0))
  | .error _ => none

/-- `internalReleaseResources` -/
def release (operationId : String) (resources : List String) (m : Moment) (s : State) : State :=
  s.queue (.internalReleaseResources operationId resources m.isCancelled m.elapsed m.now)

/-- A release under the name of a materialization hands its lease back. -/
def handBack (owner : String) (resources : List String) (m : Moment) (s : State) : State :=
  let s' := s.release owner resources m
  if s.issued.any fun lock => lock.operationId = owner then
    { s' with handedBack := s.handedBack ++ [owner] }
  else s'

/-- `materialized.delete(resource)` of each -/
def forget (resources : List String) (s : State) : State :=
  { s with materialized := s.materialized.deleteWhere fun lock =>
      resources.contains lock.resourceId }

end State

open State

/-! ## Materialization -/

/-- `materialize` up to the driver; the id holds a random UUID. -/
def materialize (fs : FileSystem) (newRoot opId : String) (forTransaction : Bool) (s : State) :
    State :=
  let absNewRoot := resolved fs newRoot
  let writeRes := writeResource absNewRoot
  if s.domain.isResourceLocked writeRes then s
  else
    match s.domain.assertOperationIdAvailable opId, s.allocate opId [writeRes] with
    | .ok _, some s =>
      { s with
        materializing := s.materializing ++ [{ opId, newRoot := absNewRoot, forTransaction }]
        issued := s.issued ++ [⟨writeRes, opId⟩] }
    | _, _ => s

/-- The rest of `materialize`. -/
def materialized (opId : String) (succeeded : Bool) (m : Moment) (s : State) : State :=
  match s.materializing.find? fun call => call.opId = opId && !call.created with
  | none => s
  | some call =>
    let others := s.materializing.filter fun call => call.opId ≠ opId
    if succeeded then
      { s with
        materialized := s.materialized.replace ⟨writeResource call.newRoot, opId⟩
        materializing :=
          if call.forTransaction then others ++ [{ call with created := true }] else others }
    else { s with materializing := others }.handBack opId [] m

/-- One round of the loop in which a transaction takes its fork over. -/
def takeOver (m : Moment) (s : State) (res : String) : State :=
  let owner := nonEmpty (s.domain.getResourceOwner res)
  let createdOwner := (s.materialized.get? res).map Lock.operationId
  match owner with
  | some owner =>
    if some owner = createdOwner then (s.forget [res]).handBack owner [res] m else s.forget [res]
  | none => s.forget [res]

/-- The names of a worktree: the one that is used, and the real path. -/
def writeResources (fs : FileSystem) (newRoot : String) : List String :=
  (rootAliases fs newRoot).resources.eraseDups

/-- `materialize` of the host of a transaction, once the worktree is there. -/
def forkTaken (fs : FileSystem) (opId : String) (m : Moment) (s : State) : State :=
  match s.materializing.find? fun call => call.opId = opId && call.created with
  | none => s
  | some call =>
    let s := { s with materializing := s.materializing.filter fun call => call.opId ≠ opId }
    if (fs.realpathSync (fs.resolve call.newRoot)).isSome then
      (writeResources fs call.newRoot).foldl (takeOver m) s
    else s

/-! ## Removal -/

/-- The owner on record, unless somebody else holds one of the resources. -/
def recordedOwner (internalLeaseOwner : Option String) (s : State) :
    List String → Option String → Option (Option String)
  | [], recorded => some recorded
  | resource :: resources, recorded =>
    match nonEmpty (s.domain.getResourceOwner resource) with
    | none => recordedOwner internalLeaseOwner s resources recorded
    | some owner =>
      if some owner ≠ internalLeaseOwner ∧
          (s.materialized.get? resource).map Lock.operationId ≠ some owner then none
      else recordedOwner internalLeaseOwner s resources (some owner)

/-- `dematerialize` up to the driver, unless it throws; `fresh` holds a random UUID. -/
def dematerialize (fs : FileSystem) (newRoot : String) (internalLeaseOwner : Option String)
    (fresh : String) (s : State) : Option State :=
  let absNewRoot := resolved fs newRoot
  let resources := writeResources fs absNewRoot
  match recordedOwner internalLeaseOwner s resources none with
  | none => none
  | some recorded =>
    let owner := internalLeaseOwner.getD (recorded.getD fresh)
    let available := internalLeaseOwner.isSome || recorded.isSome ||
      (s.domain.assertOperationIdAvailable owner).toBool
    match available, s.allocate owner resources with
    | true, some s =>
      let s := s.forget resources
      some { s with removing := s.removing ++ [⟨owner, absNewRoot, resources⟩] }
    | _, _ => none

/-- The rest of `dematerialize`, whatever the driver has answered. -/
def removed (owner : String) (m : Moment) (s : State) : State :=
  match s.removing.find? fun call => call.owner = owner with
  | none => s
  | some call =>
    ({ s with removing := s.removing.filter fun call => call.owner ≠ owner }.forget
      call.resources).handBack owner call.resources m

/-! ## Aborts of transactions -/

def abortOwner (txId : String) : String := txId ++ ":abort"

/-- `abortSerialized` up to the driver. -/
def abort (fs : FileSystem) (txId forkPath forkRoot : String) (s : State) : State :=
  let owner := abortOwner txId
  if s.aborting.isSome then s
  else
    match s.domain.assertOperationIdAvailable owner,
        s.allocate owner [writeResource forkRoot] with
    | .ok _, some s =>
      { (dematerialize fs forkPath (some owner) owner s).getD s with aborting := some owner }
    | _, _ => s

/-- `finally` of `abortSerialized`, once its removal has come to its end. -/
def abortEnded (m : Moment) (s : State) : State :=
  match s.aborting with
  | none => s
  | some owner =>
    if s.removing.any fun call => call.owner = owner then s
    else { s with aborting := none }.release owner [] m

/-! ## Steps -/

inductive Step where
  | materialize (fs : FileSystem) (newRoot opId : String) (forTransaction : Bool)
  | materialized (opId : String) (succeeded : Bool) (m : Moment)
  | forkTaken (fs : FileSystem) (opId : String) (m : Moment)
  | dematerialize (fs : FileSystem) (newRoot fresh : String)
  | removed (owner : String) (m : Moment)
  | abort (fs : FileSystem) (txId forkPath forkRoot : String)
  | abortEnded (m : Moment)
  | other (e : QueueEvent)

def Step.after : Step → State → State
  | materialize fs newRoot opId forTransaction, s =>
    Worktrees.materialize fs newRoot opId forTransaction s
  | materialized opId succeeded m, s => Worktrees.materialized opId succeeded m s
  | forkTaken fs opId m, s => Worktrees.forkTaken fs opId m s
  | dematerialize fs newRoot fresh, s =>
    (Worktrees.dematerialize fs newRoot none fresh s).getD s
  | removed owner m, s => Worktrees.removed owner m s
  | abort fs txId forkPath forkRoot, s => Worktrees.abort fs txId forkPath forkRoot s
  | abortEnded m, s => Worktrees.abortEnded m s
  | other e, s => s.queue e

end Worktrees
end Supervisor
end XioFlow
