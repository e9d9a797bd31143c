/-
  XioFlow.Supervisor.Adjudications

  Calls of `adjudicate`, among everything else that the kernel and its host do.

  A call reads the record, awaits the members of the process group and then
  writes three times: the event, the result, the release.  Between the read and
  the writes, and between two runs of the process, the domain may become any
  other domain; a process that dies leaves the store as the last block left it.
-/

import XioFlow.Supervisor.Internal
import XioFlow.Lib.Cutoff

namespace XioFlow

open Lib
open Lib.Prog (check read modify cut)

namespace Supervisor

/-! ## `control.resolve` -/

structure ControlResolveArgs where
  lease : String
  decision : Decision
  reason : String
  evidence : Option String := none

def operationIdFromLease (lease : String) : Except KernelError String :=
  match lease.toList.drop "lease:".length with
  | [] => .error (.error "control target lease is empty")
  | id => .ok (String.ofList id)

def ControlResolveArgs.options (args : ControlResolveArgs) (actor : String) :
    AdjudicateOptions where
  verdict := if args.decision = .succeeded then .confirmedStopped else .abandonWithResiduals
  actor := actor
  note := some args.reason
  decision := some args.decision
  evidence := args.evidence

/-- `IsaControlPlane.resolve` up to the first await of `adjudicate`. -/
def resolve (args : ControlResolveArgs) (actor : String) (alive : Bool) : KernelM Unit := do
  match operationIdFromLease args.lease with
  | .error e => throw e
  | .ok opId => do
    let k ← read id
    match k.domain.store.getOperation opId with
    | none => throw (.error ("Operation \"" ++ opId ++ "\" not found"))
    | some _ => adjudicate opId (args.options actor) alive

/-! ## Runs -/

/-- The kernel, and the operations of the calls that have returned. -/
structure AdjudicationRun where
  kernel : Kernel
  succeeded : List String := []

/-- The end of one call: what the driver and the clock answer, after how many blocks the process
    dies, and what the driver would list in the recorded control group. -/
structure ScanAnswer where
  members : Except KernelError (List Nat)
  clock : Clock
  dies : Option Nat := none
  cgroupMembers : List Nat := []

inductive AdjudicationEvent where
  /-- Whatever else happens: admissions, releases, `recover()`, other processes. -/
  | elsewhere (k : Kernel)
  /-- The process starts again, and no call is in flight. -/
  | restart (k : Kernel)
  | adjudicate (opId : String) (options : AdjudicateOptions) (alive : Bool)
  | resolve (args : ControlResolveArgs) (actor : String) (alive : Bool)
  | adjudicated (ticket : Nat) (answer : ScanAnswer)

namespace Kernel

/-- The process is gone, and with it every call. -/
def died (k : Kernel) : Kernel := { k with adjudicateCalls := Table.empty }

/-- The kernel after the end of a call, and whether the call has returned. -/
def afterScan (k : Kernel) (ticket : Nat) (answer : ScanAnswer) : Kernel × Bool :=
  let p := Supervisor.adjudicated ticket answer.members answer.clock
  match answer.dies with
  | some n => ((cut n p k).died, false)
  | none => ((p.run k).1, (p.run k).2.toBool)

end Kernel

namespace AdjudicationRun

/-- No call is in flight. -/
def start (k : Kernel) : AdjudicationRun := { kernel := k.died }

def after (e : AdjudicationEvent) (w : AdjudicationRun) : AdjudicationRun :=
  match e with
  | .elsewhere k => { w with kernel := { k with adjudicateCalls := w.kernel.adjudicateCalls } }
  | .restart k => { w with kernel := k.died }
  | .adjudicate opId options alive =>
    { w with kernel := ((Supervisor.adjudicate opId options alive).run w.kernel).1 }
  | .resolve args actor alive =>
    { w with kernel := ((Supervisor.resolve args actor alive).run w.kernel).1 }
  | .adjudicated ticket answer =>
    match w.kernel.adjudicateCalls.get? ticket with
    | none => w
    | some call =>
      let r := w.kernel.afterScan ticket answer
      { kernel := r.1
        succeeded := if r.2 then w.succeeded ++ [call.op.id] else w.succeeded }

end AdjudicationRun

/-! ## What is claimed of a call -/

/-- The operation was adjudicated before. -/
def AdjudicationRun.Already (w : AdjudicationRun) (opId : String) : Prop :=
  opId ∈ w.succeeded ∨ ∃ op r record, w.kernel.domain.store.getOperation opId = some op ∧
    op.result = some (.indeterminate r) ∧ r.adjudication = some record

/-- All that a call writes: the event, the adjudication, and no lease of the operation is left. -/
structure Complete (call : AdjudicateCall) (answer : ScanAnswer) (s s' : SqliteStore) : Prop where
  event : ∃ row, row.type = "OPERATION_ADJUDICATED" ∧ row.operationId = nonEmpty (some call.op.id) ∧
    (s.db.journalEvents.append row).rows <+: s'.db.journalEvents.rows
  stored : ∃ op r, s'.getOperation call.op.id = some op ∧ op.result = some (.indeterminate r) ∧
    r.adjudication =
      some (adjudicationRecord call (residualScan call answer.members) answer.clock.now)
  leases : ∀ lease ∈ s'.db.resourceLeases.rows, lease.operationId = call.op.id →
    lease.resourceId ∉ call.op.requiredResources

def serviceLeaseHolder (serviceId : String) : String := "service:" ++ serviceId

/-- An operation of one of the instances of a service. -/
def InstanceOf (serviceId opId : String) : Prop :=
  ∃ index : Nat, opId = serviceId ++ "#" ++ toString index

/-- Nobody knows how the operation ended. -/
def Unsettled (op : StoredOperation) : Prop :=
  op.status ≠ .done ∨ ∃ r, op.result = some (.indeterminate r) ∧ r.adjudication = none

/-- The operation itself, and the service whose last unsettled instance it is. -/
inductive HoldsFor (k : Kernel) (op : StoredOperation) : String → Prop where
  | itself : HoldsFor k op op.id
  | service (serviceId : String) (hkind : op.kind = .service)
      (hinstance : InstanceOf serviceId op.id)
      (hlast : ∀ other ∈ k.domain.store.db.operations.rows, InstanceOf serviceId other.id →
        Unsettled other → other.id = op.id) :
      HoldsFor k op (serviceLeaseHolder serviceId)

/-- The lock of the holder is not one that the queue has handed out anew. -/
def StaysLocked (k k' : Kernel) (r holder : String) : Prop :=
  k'.domain.getResourceOwner r = some holder ∧
    ¬ ∃ item ∈ k.domain.waitQueue, item.operationId = holder ∧ r ∈ item.resources

/-- According to the driver something of the operation is still alive. -/
def Alive (call : AdjudicateCall) (answer : ScanAnswer) : Prop :=
  call.residualPids ≠ [] ∨ answer.members ≠ .ok [] ∨
    ((call.op.processIdentity.bind ProcessIdentity.cgroupPath).isSome = true ∧
      answer.cgroupMembers ≠ [])

/-- The exit that an adjudication is claimed to be. -/
structure Exit (w : AdjudicationRun) (call : AdjudicateCall) (answer : ScanAnswer)
    (k' : Kernel) (returned : Bool) : Prop where
  once : w.Already call.op.id → returned = false ∧ k'.domain = w.kernel.domain
  atomic : k'.domain.store = w.kernel.domain.store ∨
    Complete call answer w.kernel.domain.store k'.domain.store
  evidence : returned = true → call.options.verdict = .confirmedStopped → ¬ Alive call answer
  released : returned = true → ∀ r ∈ call.op.requiredResources, ∀ holder,
    HoldsFor w.kernel call.op holder → ¬ StaysLocked w.kernel k' r holder

def StepExit (w : AdjudicationRun) : AdjudicationEvent → Prop
  | .adjudicated ticket answer =>
    ∀ call, w.kernel.adjudicateCalls.get? ticket = some call →
      Exit w call answer (w.kernel.afterScan ticket answer).1 (w.kernel.afterScan ticket answer).2
  | _ => True

/-! ## The condition -/

/-- The call is refused before its first write. -/
def Refused (k : Kernel) (call : AdjudicateCall) (answer : ScanAnswer) : Prop :=
  contradicted call answer.members ≠ none ∨
    (∃ e, SqliteStore.epochFencing k.domain.domainId k.domain.store = .error e) ∨
    k.domain.domainId = ""

/-- The blocks of a call before its first write: it finds the call and the domain, and the store
    checks the epoch. -/
def blocksBeforeEvent : Nat := 3

/-- No write is refused after the first. -/
structure Writable (k : Kernel) (call : AdjudicateCall) : Prop where
  notFenced : k.domain.isFenced = false
  recorded : ∃ op, k.domain.store.getOperation call.op.id = some op ∧
    op.domainId = k.domain.domainId
  leases : ∀ lease ∈ k.domain.store.db.resourceLeases.rows, lease.operationId = call.op.id →
    lease.domainId = k.domain.domainId

/-- The first call that gets so far, and nothing comes between its writes. -/
structure Orderly (w : AdjudicationRun) (ticket : Nat) (call : AdjudicateCall)
    (answer : ScanAnswer) : Prop where
  fresh : ¬ w.Already call.op.id
  writable : Writable w.kernel call
  whole : ∀ n, answer.dies = some n → n ≤ blocksBeforeEvent ∨
    (Supervisor.adjudicated ticket answer.members answer.clock).length w.kernel ≤ n
  cgroup : call.options.verdict = .confirmedStopped →
    (call.op.processIdentity.bind ProcessIdentity.cgroupPath).isSome = true →
      answer.cgroupMembers = []
  service : ∀ serviceId, HoldsFor w.kernel call.op (serviceLeaseHolder serviceId) →
    ∀ r ∈ call.op.requiredResources,
      w.kernel.domain.getResourceOwner r = some (serviceLeaseHolder serviceId) →
        r ∈ w.kernel.domain.persistedLeases call.op.id

def StepOrderly (w : AdjudicationRun) : AdjudicationEvent → Prop
  | .adjudicated ticket answer =>
    ∀ call, w.kernel.adjudicateCalls.get? ticket = some call →
      Refused w.kernel call answer ∨ Orderly w ticket call answer
  | _ => True

end Supervisor
end XioFlow
