/-
  XioFlow.Domain.Isolation

  The isolation table of an `ExecutionDomain`: which operation holds which
  resource, which operations take a slot of the concurrency quota, and the
  requests that wait.

  The table lives in memory beside the store.  Every method below runs without
  an await, so that it is one step for the rest of the process; it may still
  throw half way, and what it has done to the memory by then stays.
-/

import XioFlow.Store.Effects
import XioFlow.Lib.Distinct

namespace XioFlow

open Lib Lib.Prog
open JsValue (ofStrings)

/-! ## The domain object -/

/-- An entry of the memory table: a resource and the operation that holds it. -/
structure Lock where
  resourceId : String
  operationId : String
  deriving DecidableEq

/-- A queued request; the ticket is the order in which requests were made. -/
structure Waiter where
  ticket : Nat
  operationId : String
  resources : List String
  deriving DecidableEq

/-- `inMemoryBudgets` is written and never read, and left out. -/
structure ExecutionDomain where
  domainId : String
  store : SqliteStore
  /-- `ownerRecord.epoch` -/
  epoch : Int
  isFenced : Bool := false
  /-- `domainBudget.maxConcurrentOps` -/
  maxConcurrentOps : Option Nat := none
  inMemoryLockedResources : Table Lock Lock.resourceId := Table.empty
  inMemoryAllocatedOps : List String := []
  waitQueue : List Waiter := []
  deriving DecidableEq

/-- A program over a domain: a memory and a store. -/
abbrev DomainM := Prog ExecutionDomain KernelError

/-- The store of a domain as a part of it. -/
def storePart : Part ExecutionDomain SqliteStore where
  get d := d.store
  put d store := { d with store }
  get_put _ _ := rfl
  put_get _ := rfl
  put_put _ _ _ := rfl

/-- A method of the store, called from the domain. -/
def onStore {α : Type} (p : StoreM α) : DomainM α := p.within storePart

namespace ExecutionDomain

/-- `getResourceOwner` -/
def getResourceOwner (d : ExecutionDomain) (resourceId : String) : Option String :=
  (d.inMemoryLockedResources.get? resourceId).map Lock.operationId

def isResourceLocked (d : ExecutionDomain) (resourceId : String) : Bool :=
  (d.getResourceOwner resourceId).isSome

/-- `inMemoryLockedResources.set(resourceId, operationId)` -/
def setLock (operationId resourceId : String) (d : ExecutionDomain) : ExecutionDomain :=
  { d with inMemoryLockedResources := d.inMemoryLockedResources.replace ⟨resourceId, operationId⟩ }

/-- `inMemoryLockedResources.delete(resourceId)` -/
def deleteLock (resourceId : String) (d : ExecutionDomain) : ExecutionDomain :=
  { d with
    inMemoryLockedResources :=
      d.inMemoryLockedResources.deleteWhere fun lock => lock.resourceId = resourceId }

/-- A set with one more element. -/
def insertOp (operationId : String) (ops : List String) : List String :=
  if operationId ∈ ops then ops else ops ++ [operationId]

def epochFencedError (d : ExecutionDomain) : KernelError :=
  .epochFenced d.domainId d.epoch (((d.store.getOwner d.domainId).map OwnerRecord.epoch).getD (-1))

def assertNotFenced (d : ExecutionDomain) : Except KernelError Unit :=
  if d.isFenced then .error d.epochFencedError else .ok ()

/-- The operations that take a slot: allocated in memory, or unfinished in the store. -/
def getActiveOperationIds (d : ExecutionDomain) : List String :=
  (d.inMemoryAllocatedOps ++
    (d.store.getUnfinishedOperations d.domainId).map fun op => op.id).eraseDups

/-- There is no free slot. -/
def quotaFull (d : ExecutionDomain) : Bool :=
  match d.maxConcurrentOps with
  | none | some 0 => false
  | some n => n ≤ d.getActiveOperationIds.length

/-! ## Allocation -/

/-- The name under which a full quota is reported. -/
def quotaResource : String := "domain:max_concurrent_ops"

/-- The first of the resources that another operation holds; an empty id counts as no holder. -/
def firstConflict (d : ExecutionDomain) (operationId : String) :
    List String → Option (String × String)
  | [] => none
  | resourceId :: resources =>
    match d.getResourceOwner resourceId with
    | some existingOwner =>
      if existingOwner ≠ "" ∧ existingOwner ≠ operationId then some (resourceId, existingOwner)
      else d.firstConflict operationId resources
    | none => d.firstConflict operationId resources

def quotaConflict (d : ExecutionDomain) (operationId : String) (waitedDurationMs : Nat) :
    KernelError :=
  .resourceConflict quotaResource (d.getActiveOperationIds.head?.getD "domain-concurrency-cap")
    operationId waitedDurationMs

/-- What a granted allocation writes. -/
def grant (operationId : String) (resources : List String) (d : ExecutionDomain) :
    ExecutionDomain :=
  resources.foldl (fun d resourceId => d.setLock operationId resourceId)
    { d with inMemoryAllocatedOps := insertOp operationId d.inMemoryAllocatedOps }

/-- An operation that holds a resource already may ask for it again. -/
def allocateResources (operationId : String) (resources : List String) (waitedDurationMs : Nat)
    (d : ExecutionDomain) : Except KernelError ExecutionDomain :=
  match d.assertNotFenced with
  | .error e => .error e
  | .ok _ =>
    match d.firstConflict operationId resources with
    | some (resourceId, existingOwner) =>
      .error (.resourceConflict resourceId existingOwner operationId waitedDurationMs)
    | none =>
      if d.quotaFull ∧ operationId ∉ d.getActiveOperationIds then
        .error (d.quotaConflict operationId waitedDurationMs)
      else .ok (d.grant operationId resources)

/-- `diagnoseConflict`: why a request that may not wait any longer was not granted. -/
def diagnoseConflict (operationId : String) (resources : List String) (waitedDurationMs : Nat)
    (d : ExecutionDomain) : KernelError :=
  match d.firstConflict operationId resources with
  | some (resourceId, existingOwner) =>
    .resourceConflict resourceId existingOwner operationId waitedDurationMs
  | none =>
    let earlier := resources.findSome? fun resourceId =>
      (d.waitQueue.find? fun item =>
        item.operationId ≠ operationId && item.resources.contains resourceId).map fun item =>
          (resourceId, item.operationId)
    match earlier with
    | some (resourceId, holder) =>
      .resourceConflict resourceId holder operationId waitedDurationMs
    | none =>
      if d.quotaFull ∧ operationId ∉ d.getActiveOperationIds then
        d.quotaConflict operationId waitedDurationMs
      else .resourceConflict (resources.head?.getD "domain:resource") "unknown" operationId
        waitedDurationMs

/-! ## The wait queue -/

/-- How the promise of a request is settled. -/
inductive Outcome where
  | granted
  /-- Resolved without an allocation, because the caller has cancelled. -/
  | cancelled
  | rejected (e : KernelError)
  deriving DecidableEq

/-- A settled request, and the queue as it was when it was settled. -/
structure Settlement where
  waiter : Waiter
  outcome : Outcome
  queue : List Waiter

/-- `item.resources.some((r) => reservedResources.has(r))` -/
def overlaps (resources reserved : List String) : Bool := resources.any reserved.contains

/-- The scan of the queue from a position on: `before` are the items it has kept so far, whose
    resources are reserved.  `isCancelled` is what the callbacks of the items answer now. -/
def scanQueue (isCancelled : Waiter → Bool) (elapsed : Waiter → Nat) :
    List Waiter → List Waiter → List String → Bool → ExecutionDomain →
      ExecutionDomain × List Settlement
  | before, [], _, _, d => ({ d with waitQueue := before }, [])
  | before, item :: rest, reserved, concurrencyBlocked, d =>
    let settled (outcome : Outcome) (r : ExecutionDomain × List Settlement) :=
      (r.1, ⟨item, outcome, before ++ item :: rest⟩ :: r.2)
    if isCancelled item then
      settled .cancelled (scanQueue isCancelled elapsed before rest reserved concurrencyBlocked d)
    else if overlaps item.resources reserved || concurrencyBlocked then
      scanQueue isCancelled elapsed (before ++ [item]) rest (reserved ++ item.resources)
        concurrencyBlocked d
    else
      match allocateResources item.operationId item.resources (elapsed item) d with
      | .ok d' =>
        settled .granted (scanQueue isCancelled elapsed before rest reserved concurrencyBlocked d')
      | .error (.resourceConflict resourceId _ _ _) =>
        scanQueue isCancelled elapsed (before ++ [item]) rest (reserved ++ item.resources)
          (concurrencyBlocked || resourceId = quotaResource) d
      | .error e =>
        settled (.rejected e)
          (scanQueue isCancelled elapsed before rest reserved concurrencyBlocked d)

def processWaitQueue (isCancelled : Waiter → Bool) (elapsed : Waiter → Nat)
    (d : ExecutionDomain) : ExecutionDomain × List Settlement :=
  if d.isFenced then (d, []) else scanQueue isCancelled elapsed [] d.waitQueue [] false d

/-- What `allocateResourcesWithWait` does before its first await: it settles the request, or
    queues it. -/
def allocateResourcesWithWait (item : Waiter) (maxWaitMs : Nat) (cancelled : Bool)
    (d : ExecutionDomain) : ExecutionDomain × List Settlement :=
  let settled (outcome : Outcome) (d' : ExecutionDomain) : ExecutionDomain × List Settlement :=
    (d', [⟨item, outcome, d.waitQueue⟩])
  let queued : ExecutionDomain × List Settlement :=
    ({ d with waitQueue := d.waitQueue ++ [item] }, [])
  match d.assertNotFenced with
  | .error e => settled (.rejected e) d
  | .ok _ =>
    if cancelled then settled .cancelled d
    else if overlaps item.resources (d.waitQueue.flatMap Waiter.resources) then
      if maxWaitMs = 0 then
        settled (.rejected (d.diagnoseConflict item.operationId item.resources 0)) d
      else queued
    else
      match allocateResources item.operationId item.resources 0 d with
      | .ok d' => settled .granted d'
      | .error (.resourceConflict resourceId holder requesting waited) =>
        if maxWaitMs = 0 then
          settled (.rejected (.resourceConflict resourceId holder requesting waited)) d
        else queued
      | .error e => settled (.rejected e) d

/-- `cancelWait`: the first request of the operation leaves the queue, and nothing is scanned. -/
def cancelWait (operationId : String) (d : ExecutionDomain) : ExecutionDomain × List Settlement :=
  match d.waitQueue.find? fun item => item.operationId = operationId with
  | none => (d, [])
  | some item =>
    ({ d with waitQueue := d.waitQueue.eraseP fun item => item.operationId = operationId },
      [⟨item, .cancelled, d.waitQueue⟩])

/-- The timer of a request: it leaves the queue, and nothing is scanned. -/
def waitTimeout (ticket : Nat) (isCancelled : Waiter → Bool) (elapsed : Waiter → Nat)
    (d : ExecutionDomain) : ExecutionDomain × List Settlement :=
  match d.waitQueue.find? fun item => item.ticket = ticket with
  | none => (d, [])
  | some item =>
    let d' := { d with waitQueue := d.waitQueue.eraseP fun item => item.ticket = ticket }
    let outcome : Outcome :=
      if isCancelled item then .cancelled
      else .rejected (d'.diagnoseConflict item.operationId item.resources (elapsed item))
    (d', [⟨item, outcome, d.waitQueue⟩])

/-! ## Release -/

/-- The leases that an operation has in the store. -/
def persistedLeases (d : ExecutionDomain) (operationId : String) : List String :=
  ((d.store.getPersistedResourceLeases d.domainId).filter
    fun lease => lease.operationId = operationId).map ResourceLease.resourceId

/-- The statement of `releaseResourceLease` on the store of a domain. -/
def dropLease (operationId : String) (resourceId : Option String) (d : ExecutionDomain) :
    ExecutionDomain :=
  { d with store := ((SqliteStore.releaseResourceLease operationId resourceId).run d.store).1 }

/-- The locks and leases that go when an operation releases some resources by name. -/
def releaseNamed (operationId : String) (persisted : List String) :
    List String → ExecutionDomain → ExecutionDomain × List String
  | [], d => (d, [])
  | resourceId :: resources, d =>
    if d.getResourceOwner resourceId = some operationId ∨ resourceId ∈ persisted then
      let r := releaseNamed operationId persisted resources
        ((d.deleteLock resourceId).dropLease operationId (some resourceId))
      (r.1, resourceId :: r.2)
    else releaseNamed operationId persisted resources d

/-- The table without the locks of an operation. -/
def deleteLocksOf (operationId : String) (d : ExecutionDomain) : ExecutionDomain :=
  { d with
    inMemoryLockedResources :=
      d.inMemoryLockedResources.deleteWhere fun lock => lock.operationId = operationId }

/-- Everything that an operation holds. -/
def releaseAll (operationId : String) (d : ExecutionDomain) : ExecutionDomain × List String :=
  ((d.deleteLocksOf operationId).dropLease operationId none,
    (d.inMemoryLockedResources.select fun lock => lock.operationId = operationId).map
      Lock.resourceId)

/-- The locks and leases that a release takes away; no names stand for all. -/
def releaseLocks (operationId : String) (resources : List String) (d : ExecutionDomain) :
    ExecutionDomain × List String :=
  if resources = [] then releaseAll operationId d
  else releaseNamed operationId (d.persistedLeases operationId) resources d

/-- An operation that holds nothing any more leaves the memory set. -/
def forgetIdle (operationId : String) (d : ExecutionDomain) : ExecutionDomain :=
  if d.inMemoryLockedResources.rows.any fun lock => lock.operationId = operationId then d
  else { d with inMemoryAllocatedOps := d.inMemoryAllocatedOps.filter fun id => id ≠ operationId }

def releasedEvent (domainId operationId : String) (released : List String) (now : Timestamp) :
    SqliteStore.EventInput where
  domainId := domainId
  operationId := some operationId
  type := "RESOURCES_RELEASED"
  payload := .obj [("operationId", .str operationId), ("resources", ofStrings released),
    ("releaseReason", .str "kernel_release")]
  timestamp := now

/-- `internalReleaseResources`; an absent list of resources is the empty one. -/
def internalReleaseResources (operationId : String) (resources : List String)
    (isCancelled : Waiter → Bool) (elapsed : Waiter → Nat) (now : Timestamp) :
    DomainM (List Settlement) := do
  check assertNotFenced
  let d ← read id
  onStore (SqliteStore.verifyEpochFencing d.domainId)
  let released ← block fun d => .ok (releaseLocks operationId resources d)
  modify (forgetIdle operationId)
  onStore (SqliteStore.recordEvent (releasedEvent d.domainId operationId released now))
  block fun d => .ok (processWaitQueue isCancelled elapsed d)

/-! ## Operation ids -/

/-- Recorded operations and the owners in memory have their ids taken. -/
def assertOperationIdAvailable (opId : String) (d : ExecutionDomain) : Except KernelError Unit :=
  match d.assertNotFenced with
  | .error e => .error e
  | .ok _ =>
    match d.store.getOperation opId with
    | some existing => .error (.duplicateOperation opId existing.status.text existing.runId)
    | none =>
      if opId ∈ d.inMemoryAllocatedOps then
        .error (.duplicateOperation opId "allocated" "unknown")
      else .ok ()

end ExecutionDomain
end XioFlow
