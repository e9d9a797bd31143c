/-
  XioFlow.Domain.Rebuild

  `rebuildIsolationFromStore`: the memory table of a domain that has just been
  acquired, computed from what the store holds.

  Leases come first, then the resources of unfinished operations, then the
  roots of workspace commits that the journal shows as begun and not ended.
  The first two overwrite what is there; only the third refuses an overlap.
-/

import XioFlow.Domain.Effects

namespace XioFlow

open Lib

namespace ExecutionDomain

/-! ## The commits in flight -/

/-- A `Map` from transaction ids, in insertion order. -/
abbrev TxMap (α : Type) := List (String × α)

/-- `map.get(txId)` -/
def TxMap.get? {α : Type} (m : TxMap α) (txId : String) : Option α :=
  (m.find? fun entry => entry.1 = txId).map Prod.snd

/-- `map.set(txId, value)`: an id that is there keeps its place. -/
def TxMap.set {α : Type} (m : TxMap α) (txId : String) (value : α) : TxMap α :=
  if m.any fun entry => entry.1 = txId then
    m.map fun entry => if entry.1 = txId then (txId, value) else entry
  else m ++ [(txId, value)]

/-- `map.delete(txId)` -/
def TxMap.delete {α : Type} (m : TxMap α) (txId : String) : TxMap α :=
  m.filter fun entry => !decide (entry.1 = txId)

/-- The two roots that `TX_BEGUN` names, as they stand in its payload. -/
structure BegunRoots where
  root : Option Json
  forkRoot : Option Json

/-- What the scan of the journal has found so far. -/
structure CommitScan where
  roots : TxMap BegunRoots := []
  pending : TxMap (List String) := []

/-- `a ?? b`: `null` counts as absent. -/
def coalesce : Option Json → Option Json → Option Json
  | none, b | some .null, b => b
  | some a, _ => some a

def incompleteEvidence (txId : String) : KernelError :=
  .error ("Workspace transaction \"" ++ txId ++ "\" has incomplete commit isolation evidence")

/-- One event of the journal. -/
def scanCommitEvent (event : JournalRow) (s : CommitScan) : Except KernelError CommitScan :=
  match hasPrefix "TX_" event.type, event.payload.strField? "txId" with
  | true, some txId =>
    if event.type = "TX_BEGUN" then
      let begun : BegunRoots := ⟨event.payload.field? "root", event.payload.field? "forkRoot"⟩
      .ok { s with roots := s.roots.set txId begun }
    else if event.type = "TX_COMMITTING" then
      let begun := s.roots.get? txId
      let target := coalesce (event.payload.field? "root") (begun.bind BegunRoots.root)
      let source := coalesce (event.payload.field? "sourceRoot") (begun.bind BegunRoots.forkRoot)
      match target, source with
      | some (.str target), some (.str source) =>
        .ok { s with pending := s.pending.set txId [target, source].eraseDups }
      | _, _ => .error (incompleteEvidence txId)
    else if event.type = "TX_COMMITTED" ∨ event.type = "TX_ABORTED" then
      .ok { s with pending := s.pending.delete txId }
    else .ok s
  | _, _ => .ok s

def scanCommits : List JournalRow → CommitScan → Except KernelError CommitScan
  | [], s => .ok s
  | event :: events, s =>
    match scanCommitEvent event s with
    | .error e => .error e
    | .ok s => scanCommits events s

/-! ## The rebuild -/

def applyOwner (txId : String) : String := txId ++ ":apply"

def writeResource (root : String) : String := "workspace:write:" ++ root

/-- The roots of one commit; an empty id counts as no holder. -/
def protectRoots (owner : String) : List String → ExecutionDomain →
    Except KernelError ExecutionDomain
  | [], d => .ok d
  | root :: roots, d =>
    match d.getResourceOwner (writeResource root) with
    | some existing =>
      if existing ≠ "" ∧ existing ≠ owner then
        .error (.resourceConflict (writeResource root) existing owner 0)
      else protectRoots owner roots (d.setLock owner (writeResource root))
    | none => protectRoots owner roots (d.setLock owner (writeResource root))

/-- The commits that must be finished before anybody else writes their roots. -/
def protectCommits : TxMap (List String) → ExecutionDomain → Except KernelError ExecutionDomain
  | [], d => .ok d
  | (txId, protectedRoots) :: pending, d =>
    match d.store.getOperation (applyOwner txId) with
    | some operation =>
      .error (.duplicateOperation (applyOwner txId) operation.status.text operation.runId)
    | none =>
      match protectRoots (applyOwner txId) protectedRoots d with
      | .error e => .error e
      | .ok d =>
        protectCommits pending
          { d with inMemoryAllocatedOps := insertOp (applyOwner txId) d.inMemoryAllocatedOps }

/-- `this.inMemoryLockedResources.set(lease.resourceId, lease.operationId)` for every lease. -/
def lockLeases (leases : List ResourceLease) (d : ExecutionDomain) : ExecutionDomain :=
  leases.foldl (fun d lease => d.setLock lease.operationId lease.resourceId) d

/-- The set and the locks of the unfinished operations. -/
def lockOperations (ops : List StoredOperation) (d : ExecutionDomain) : ExecutionDomain :=
  ops.foldl (fun d op => d.grant op.id op.requiredResources) d

/-- The memory without its locks and without its set. -/
def cleared (d : ExecutionDomain) : ExecutionDomain :=
  { d with inMemoryLockedResources := Table.empty, inMemoryAllocatedOps := [] }

def rebuildIsolationFromStore (d : ExecutionDomain) : Except KernelError ExecutionDomain :=
  let locked := lockOperations (d.store.getUnfinishedOperations d.domainId)
    (lockLeases (d.store.getPersistedResourceLeases d.domainId) d.cleared)
  match scanCommits (d.store.getJournalEvents d.domainId) {} with
  | .error e => .error e
  | .ok scan => protectCommits scan.pending locked

/-! ## What each part leaves -/

/-- Every lock is the one that was there, or that of a lease on the resource. -/
theorem lockLeases_effect (leases : List ResourceLease) (d : ExecutionDomain) :
    SameButLocks d (lockLeases leases d) ∧
      (lockLeases leases d).inMemoryAllocatedOps = d.inMemoryAllocatedOps ∧
      ∀ r, (∃ lease ∈ leases, lease.resourceId = r ∧
          (lockLeases leases d).getResourceOwner r = some lease.operationId) ∨
        ((lockLeases leases d).getResourceOwner r = d.getResourceOwner r ∧
          ∀ lease ∈ leases, lease.resourceId ≠ r) := by
  induction leases generalizing d with
  | nil => exact ⟨SameButLocks.refl d, rfl, fun r => .inr ⟨rfl, by simp⟩⟩
  | cons lease leases ih =>
    obtain ⟨hsame, hops, howner⟩ := ih (d.setLock lease.operationId lease.resourceId)
    have hfirst : SameButLocks d (d.setLock lease.operationId lease.resourceId) :=
      ⟨rfl, rfl, rfl, rfl, rfl, rfl⟩
    refine ⟨hfirst.trans hsame, hops, fun r => ?_⟩
    rcases howner r with ⟨other, hmem, hres⟩ | ⟨hold, hothers⟩
    · exact .inl ⟨other, List.mem_cons_of_mem _ hmem, hres⟩
    · rw [getResourceOwner_setLock] at hold
      by_cases heq : r = lease.resourceId
      · rw [if_pos heq] at hold
        exact .inl ⟨lease, List.mem_cons_self, heq.symm, hold⟩
      · rw [if_neg heq] at hold
        exact .inr ⟨hold, List.forall_mem_cons.2 ⟨fun h => heq h.symm, hothers⟩⟩

/-- Every lock is the one that was there, or that of an operation which requires the resource. -/
theorem lockOperations_effect (ops : List StoredOperation) (d : ExecutionDomain) :
    SameButLocks d (lockOperations ops d) ∧
      (∀ id, id ∈ (lockOperations ops d).inMemoryAllocatedOps ↔
        id ∈ d.inMemoryAllocatedOps ∨ ∃ op ∈ ops, op.id = id) ∧
      ∀ r, (∃ op ∈ ops, r ∈ op.requiredResources ∧
          (lockOperations ops d).getResourceOwner r = some op.id) ∨
        ((lockOperations ops d).getResourceOwner r = d.getResourceOwner r ∧
          ∀ op ∈ ops, r ∉ op.requiredResources) := by
  induction ops generalizing d with
  | nil =>
    exact ⟨SameButLocks.refl d, fun id => by simp [lockOperations],
      fun r => .inr ⟨rfl, by simp⟩⟩
  | cons op ops ih =>
    obtain ⟨hsame, hops, howner⟩ := ih (d.grant op.id op.requiredResources)
    have hfirst := sameButLocks_grant op.id op.requiredResources d
    refine ⟨hfirst.trans hsame, fun id => ?_, fun r => ?_⟩
    · have hrest := hops id
      rw [grant_inMemoryAllocatedOps, mem_insertOp] at hrest
      show id ∈ (lockOperations ops (d.grant op.id op.requiredResources)).inMemoryAllocatedOps ↔ _
      rw [hrest, List.exists_mem_cons_iff]
      constructor
      · rintro ((rfl | h) | h)
        · exact .inr (.inl rfl)
        · exact .inl h
        · exact .inr (.inr h)
      · rintro (h | rfl | h)
        · exact .inl (.inr h)
        · exact .inl (.inl rfl)
        · exact .inr h
    · rcases howner r with ⟨other, hmem, hres⟩ | ⟨hold, hothers⟩
      · exact .inl ⟨other, List.mem_cons_of_mem _ hmem, hres⟩
      · rw [getResourceOwner_grant] at hold
        by_cases hr : r ∈ op.requiredResources
        · rw [if_pos hr] at hold
          exact .inl ⟨op, List.mem_cons_self, hr, hold⟩
        · rw [if_neg hr] at hold
          exact .inr ⟨hold, List.forall_mem_cons.2 ⟨hr, hothers⟩⟩

/-- A lock with a named holder stays; a new one belongs to an id that no operation has. -/
def OnlyAdds (isNew : String → Prop) (d d' : ExecutionDomain) : Prop :=
  ∀ r, (∀ holder, holder ≠ "" → d.getResourceOwner r = some holder →
      d'.getResourceOwner r = some holder) ∧
    ∀ holder, d'.getResourceOwner r = some holder →
      d.getResourceOwner r = some holder ∨ isNew holder

variable {d d' : ExecutionDomain}

theorem OnlyAdds.trans {isNew : String → Prop} {d₁ : ExecutionDomain} (h : OnlyAdds isNew d d₁)
    (h' : OnlyAdds isNew d₁ d') : OnlyAdds isNew d d' := by
  intro r
  refine ⟨fun holder hnamed hold => (h' r).1 holder hnamed ((h r).1 holder hnamed hold), ?_⟩
  intro holder hnew
  rcases (h' r).2 holder hnew with hold | hisNew
  · exact (h r).2 holder hold
  · exact .inr hisNew

theorem onlyAdds_setLock {isNew : String → Prop} {owner r : String} (hnew : isNew owner)
    (hfree : ∀ holder, d.getResourceOwner r = some holder → holder = "" ∨ holder = owner) :
    OnlyAdds isNew d (d.setLock owner r) := by
  intro r'
  rw [getResourceOwner_setLock]
  by_cases heq : r' = r
  · subst heq
    rw [if_pos rfl]
    refine ⟨fun holder hnamed hold => ?_, fun holder h => ?_⟩
    · have hsame := (hfree holder hold).resolve_left hnamed
      rw [hsame]
    · rw [← Option.some.inj h]
      exact .inr hnew
  · rw [if_neg heq]
    exact ⟨fun holder _ hold => hold, fun holder h => .inl h⟩

theorem protectRoots_ok {owner : String} (isNew : String → Prop) (hnew : isNew owner)
    {roots : List String} (h : protectRoots owner roots d = .ok d') :
    SameButLocks d d' ∧ OnlyAdds isNew d d' := by
  induction roots generalizing d with
  | nil =>
    rw [protectRoots, Except.ok.injEq] at h
    rw [← h]
    exact ⟨SameButLocks.refl d, fun r => ⟨fun _ _ hold => hold, fun _ hold => .inl hold⟩⟩
  | cons root roots ih =>
    have hstep (hfree : ∀ holder, d.getResourceOwner (writeResource root) = some holder →
        holder = "" ∨ holder = owner)
        (hrest : protectRoots owner roots (d.setLock owner (writeResource root)) = .ok d') :
        SameButLocks d d' ∧ OnlyAdds isNew d d' := by
      obtain ⟨hsame, hadds⟩ := ih hrest
      have hfirst : SameButLocks d (d.setLock owner (writeResource root)) :=
        ⟨rfl, rfl, rfl, rfl, rfl, rfl⟩
      exact ⟨hfirst.trans hsame, (onlyAdds_setLock hnew hfree).trans hadds⟩
    rw [protectRoots] at h
    cases howner : d.getResourceOwner (writeResource root) with
    | none =>
      rw [howner] at h
      apply hstep _ h
      intro holder hold
      rw [howner] at hold
      cases hold
    | some =>
      rw [howner] at h
      simp only at h
      split at h
      · cases h
      · rename_i hfree
        apply hstep _ h
        intro holder hold
        rw [howner, Option.some.injEq] at hold
        rw [← hold]
        by_contra hother
        rw [not_or] at hother
        exact hfree hother

/-- The owner of a commit that the store does not know as an operation. -/
def FreshOwner (s : SqliteStore) (holder : String) : Prop := s.getOperation holder = none

theorem protectCommits_ok {pending : TxMap (List String)} (h : protectCommits pending d = .ok d') :
    SameButLocks d d' ∧ OnlyAdds (FreshOwner d.store) d d' := by
  induction pending generalizing d with
  | nil =>
    rw [protectCommits, Except.ok.injEq] at h
    rw [← h]
    exact ⟨SameButLocks.refl d, fun r => ⟨fun _ _ hold => hold, fun _ hold => .inl hold⟩⟩
  | cons entry pending ih =>
    obtain ⟨txId, protectedRoots⟩ := entry
    rw [protectCommits] at h
    cases hoperation : d.store.getOperation (applyOwner txId) with
    | some =>
      rw [hoperation] at h
      cases h
    | none =>
      rw [hoperation] at h
      simp only at h
      cases hroots : protectRoots (applyOwner txId) protectedRoots d with
      | error =>
        rw [hroots] at h
        cases h
      | ok d₁ =>
        rw [hroots] at h
        obtain ⟨hsame, hadds⟩ := protectRoots_ok (FreshOwner d.store) hoperation hroots
        obtain ⟨hsame', hadds'⟩ := ih h
        have hslot : SameButLocks d₁ { d₁ with
            inMemoryAllocatedOps := insertOp (applyOwner txId) d₁.inMemoryAllocatedOps } :=
          ⟨rfl, rfl, rfl, rfl, rfl, rfl⟩
        refine ⟨(hsame.trans hslot).trans hsame', hadds.trans ?_⟩
        rw [show FreshOwner d.store = FreshOwner d₁.store by rw [hsame.store]]
        exact hadds'

/-! ## What the whole leaves -/

/-- No resource of the store is claimed twice, by leases or by unfinished operations. -/
structure Uncontested (d : ExecutionDomain) : Prop where
  leases : ∀ lease ∈ d.store.getPersistedResourceLeases d.domainId, lease.operationId ≠ "" ∧
    ∀ other ∈ d.store.getPersistedResourceLeases d.domainId,
      other.resourceId = lease.resourceId → other.operationId = lease.operationId
  operations : ∀ op ∈ d.store.getUnfinishedOperations d.domainId, ∀ r ∈ op.requiredResources,
    (∀ other ∈ d.store.getUnfinishedOperations d.domainId, r ∈ other.requiredResources →
      other.id = op.id) ∧
    ∀ lease ∈ d.store.getPersistedResourceLeases d.domainId, lease.resourceId = r →
      lease.operationId = op.id

/-- What a domain looks like once its isolation was rebuilt. -/
structure Rebuilt (d d' : ExecutionDomain) : Prop where
  same : SameButLocks d d'
  /-- A lock is held for a lease, for an unfinished operation, or for a commit in flight. -/
  origin : ∀ r holder, d'.getResourceOwner r = some holder →
    (∃ lease ∈ d.store.getPersistedResourceLeases d.domainId,
      lease.resourceId = r ∧ lease.operationId = holder) ∨
    (∃ op ∈ d.store.getUnfinishedOperations d.domainId,
      r ∈ op.requiredResources ∧ op.id = holder) ∨ FreshOwner d.store holder
  leases : Uncontested d → ∀ lease ∈ d.store.getPersistedResourceLeases d.domainId,
    d'.getResourceOwner lease.resourceId = some lease.operationId
  operations : Uncontested d → ∀ op ∈ d.store.getUnfinishedOperations d.domainId, op.id ≠ "" →
    ∀ r ∈ op.requiredResources, d'.getResourceOwner r = some op.id

theorem getResourceOwner_cleared (d : ExecutionDomain) (r : String) :
    d.cleared.getResourceOwner r = none := rfl

theorem rebuildIsolationFromStore_ok (h : d.rebuildIsolationFromStore = .ok d') : Rebuilt d d' := by
  unfold rebuildIsolationFromStore at h
  cases hscan : scanCommits (d.store.getJournalEvents d.domainId) {} with
  | error =>
    rw [hscan] at h
    cases h
  | ok =>
    rw [hscan] at h
    obtain ⟨hsame, hadds⟩ := protectCommits_ok h
    obtain ⟨hsameLeases, -, hleases⟩ :=
      lockLeases_effect (d.store.getPersistedResourceLeases d.domainId) d.cleared
    obtain ⟨hsameOps, -, hoperations⟩ :=
      lockOperations_effect (d.store.getUnfinishedOperations d.domainId)
        (lockLeases (d.store.getPersistedResourceLeases d.domainId) d.cleared)
    have hcleared : SameButLocks d d.cleared := ⟨rfl, rfl, rfl, rfl, rfl, rfl⟩
    have hlocked := (hcleared.trans hsameLeases).trans hsameOps
    refine ⟨hlocked.trans hsame, fun r holder howner => ?_, fun hfree lease hlease => ?_,
      fun hfree op hop hnamed r hr => ?_⟩
    · rcases (hadds r).2 holder howner with hold | hnew
      · rcases hoperations r with ⟨op, hop, hr, hthis⟩ | ⟨hthis, -⟩
        · rw [hthis, Option.some.injEq] at hold
          exact .inr (.inl ⟨op, hop, hr, hold⟩)
        · rw [hthis] at hold
          rcases hleases r with ⟨lease, hlease, hr, hthat⟩ | ⟨hthat, -⟩
          · rw [hthat, Option.some.injEq] at hold
            exact .inl ⟨lease, hlease, hr, hold⟩
          · rw [hthat, getResourceOwner_cleared] at hold
            cases hold
      · rw [hlocked.store] at hnew
        exact .inr (.inr hnew)
    · -- Whatever set the lock last did so for the same holder.
      obtain ⟨hnamed, hothers⟩ := hfree.leases lease hlease
      refine (hadds _).1 _ hnamed ?_
      rcases hoperations lease.resourceId with ⟨op, hop, hr, hthis⟩ | ⟨hthis, -⟩
      · rw [hthis, (hfree.operations op hop _ hr).2 lease hlease rfl]
      · rw [hthis]
        rcases hleases lease.resourceId with ⟨other, hother, hr, hthat⟩ | ⟨-, hnone⟩
        · rw [hthat, hothers other hother hr]
        · exact absurd rfl (hnone lease hlease)
    · refine (hadds _).1 _ hnamed ?_
      rcases hoperations r with ⟨other, hother, hr', hthis⟩ | ⟨-, hnone⟩
      · rw [hthis, (hfree.operations op hop r hr).1 other hother hr']
      · exact absurd hr (hnone op hop)

end ExecutionDomain
end XioFlow
