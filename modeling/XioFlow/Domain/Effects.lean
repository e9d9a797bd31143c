/-
  XioFlow.Domain.Effects

  What each method of the isolation table does to the locks, the memory set,
  the queue and the leases.  Proofs about the domain go through these lemmas
  and never unfold a method.
-/

import XioFlow.Domain.Isolation

namespace XioFlow

open Lib Lib.Prog
open JsValue (ofStrings)
open SqliteStore

namespace ExecutionDomain

/-! ## Single entries -/

theorem getResourceOwner_setLock (operationId resourceId r : String) (d : ExecutionDomain) :
    (d.setLock operationId resourceId).getResourceOwner r =
      if r = resourceId then some operationId else d.getResourceOwner r := by
  show ((d.inMemoryLockedResources.replace ⟨resourceId, operationId⟩).get? r).map _ = _
  rw [Table.get?_replace]
  by_cases heq : r = resourceId
  · rw [if_pos heq.symm, if_pos heq]
    rfl
  · rw [if_neg fun h => heq h.symm, if_neg heq]
    rfl

theorem getResourceOwner_deleteWhere (p : Lock → Bool) (r : String) (d : ExecutionDomain) :
    ({ d with inMemoryLockedResources :=
        d.inMemoryLockedResources.deleteWhere p } : ExecutionDomain).getResourceOwner r =
      (d.getResourceOwner r).filter fun operationId => !p ⟨r, operationId⟩ := by
  show ((d.inMemoryLockedResources.deleteWhere p).get? r).map _ =
    ((d.inMemoryLockedResources.get? r).map _).filter _
  rw [Table.get?_deleteWhere]
  cases hlock : d.inMemoryLockedResources.get? r with
  | none => rfl
  | some lock =>
    have hkey : lock.resourceId = r := Table.key_of_get? hlock
    have hsame : (⟨r, lock.operationId⟩ : Lock) = lock := by
      cases lock
      simp only at hkey
      rw [hkey]
    simp only [Option.map_some, Option.filter_some, hsame]
    split <;> rfl

theorem getResourceOwner_deleteLock (resourceId r : String) (d : ExecutionDomain) :
    (d.deleteLock resourceId).getResourceOwner r =
      if r = resourceId then none else d.getResourceOwner r := by
  unfold deleteLock
  rw [getResourceOwner_deleteWhere]
  cases d.getResourceOwner r with
  | none => simp
  | some =>
    by_cases heq : r = resourceId
    · simp [heq]
    · simp [heq]

variable {operationId : String} {d d' : ExecutionDomain}

theorem mem_insertOp {id : String} {ops : List String} :
    id ∈ insertOp operationId ops ↔ id = operationId ∨ id ∈ ops := by
  unfold insertOp
  split
  · rename_i hmem
    constructor
    · exact .inr
    · rintro (rfl | h)
      · exact hmem
      · exact h
  · rw [List.mem_append, List.mem_singleton, or_comm]

theorem mem_getActiveOperationIds {id : String} :
    id ∈ d.getActiveOperationIds ↔
      id ∈ d.inMemoryAllocatedOps ∨
        ∃ op ∈ d.store.getUnfinishedOperations d.domainId, op.id = id := by
  unfold getActiveOperationIds
  rw [List.mem_eraseDups, List.mem_append, List.mem_map]

/-! ## Allocation -/

/-- What a granted allocation leaves alone. -/
structure SameButLocks (d d' : ExecutionDomain) : Prop where
  domainId : d'.domainId = d.domainId
  store : d'.store = d.store
  epoch : d'.epoch = d.epoch
  isFenced : d'.isFenced = d.isFenced
  maxConcurrentOps : d'.maxConcurrentOps = d.maxConcurrentOps
  waitQueue : d'.waitQueue = d.waitQueue

theorem SameButLocks.refl (d : ExecutionDomain) : SameButLocks d d := ⟨rfl, rfl, rfl, rfl, rfl, rfl⟩

theorem SameButLocks.trans {d₁ : ExecutionDomain} (h : SameButLocks d d₁)
    (h' : SameButLocks d₁ d') : SameButLocks d d' :=
  ⟨h'.domainId.trans h.domainId, h'.store.trans h.store, h'.epoch.trans h.epoch,
    h'.isFenced.trans h.isFenced, h'.maxConcurrentOps.trans h.maxConcurrentOps,
    h'.waitQueue.trans h.waitQueue⟩

theorem setLocks_effect (operationId : String) (resources : List String) (d : ExecutionDomain) :
    let d' := resources.foldl (fun d resourceId => d.setLock operationId resourceId) d
    SameButLocks d d' ∧ d'.inMemoryAllocatedOps = d.inMemoryAllocatedOps ∧
      ∀ r, d'.getResourceOwner r =
        if r ∈ resources then some operationId else d.getResourceOwner r := by
  induction resources generalizing d with
  | nil => exact ⟨SameButLocks.refl d, rfl, fun r => by simp⟩
  | cons resourceId resources ih =>
    obtain ⟨hsame, hops, howner⟩ := ih (d.setLock operationId resourceId)
    have hfirst : SameButLocks d (d.setLock operationId resourceId) :=
      ⟨rfl, rfl, rfl, rfl, rfl, rfl⟩
    refine ⟨hfirst.trans hsame, hops, fun r => ?_⟩
    show (resources.foldl _ (d.setLock operationId resourceId)).getResourceOwner r = _
    rw [howner, getResourceOwner_setLock]
    by_cases hmem : r ∈ resources
    · rw [if_pos hmem, if_pos (List.mem_cons_of_mem _ hmem)]
    · by_cases heq : r = resourceId
      · rw [if_neg hmem, if_pos heq, if_pos (by rw [heq]; exact List.mem_cons_self ..)]
      · rw [if_neg hmem, if_neg heq, if_neg]
        rw [List.mem_cons]
        exact fun h => h.elim heq hmem

section Grant

variable (operationId : String) (resources : List String) (d : ExecutionDomain)

theorem sameButLocks_grant : SameButLocks d (d.grant operationId resources) := by
  have hfirst : SameButLocks d
      { d with inMemoryAllocatedOps := insertOp operationId d.inMemoryAllocatedOps } :=
    ⟨rfl, rfl, rfl, rfl, rfl, rfl⟩
  exact hfirst.trans (setLocks_effect operationId resources _).1

@[simp] theorem grant_inMemoryAllocatedOps :
    (d.grant operationId resources).inMemoryAllocatedOps =
      insertOp operationId d.inMemoryAllocatedOps :=
  (setLocks_effect operationId resources _).2.1

theorem getResourceOwner_grant (r : String) :
    (d.grant operationId resources).getResourceOwner r =
      if r ∈ resources then some operationId else d.getResourceOwner r :=
  (setLocks_effect operationId resources _).2.2 r

end Grant

/-- No other operation holds the resource. -/
def FreeFor (d : ExecutionDomain) (operationId resourceId : String) : Prop :=
  ∀ holder, d.getResourceOwner resourceId = some holder → holder = operationId

/-- The code takes the resource for free: it is, or its holder has the empty id. -/
def TakenAsFree (d : ExecutionDomain) (operationId resourceId : String) : Prop :=
  ∀ holder, d.getResourceOwner resourceId = some holder → holder ≠ "" → holder = operationId

variable {resources : List String}

theorem firstConflict_eq_none_iff :
    d.firstConflict operationId resources = none ↔
      ∀ r ∈ resources, d.TakenAsFree operationId r := by
  induction resources with
  | nil => simp [firstConflict]
  | cons r resources ih =>
    rw [List.forall_mem_cons]
    unfold firstConflict
    cases howner : d.getResourceOwner r with
    | none =>
      have hfree : d.TakenAsFree operationId r := by
        intro holder h
        rw [howner] at h
        cases h
      simp only
      rw [ih]
      exact ⟨fun h => ⟨hfree, h⟩, fun h => h.2⟩
    | some holder =>
      simp only
      by_cases hother : holder ≠ "" ∧ holder ≠ operationId
      · rw [if_pos hother]
        simp only [reduceCtorEq, false_iff]
        exact fun h => hother.2 (h.1 holder howner hother.1)
      · have hfree : d.TakenAsFree operationId r := by
          intro holder' h hnamed
          rw [howner] at h
          cases h
          by_contra hne
          exact hother ⟨hnamed, hne⟩
        rw [if_neg hother, ih]
        exact ⟨fun h => ⟨hfree, h⟩, fun h => h.2⟩

/-- A resource that is reported as a conflict is held by another operation. -/
theorem firstConflict_eq_some {r holder : String}
    (h : d.firstConflict operationId resources = some (r, holder)) :
    r ∈ resources ∧ d.getResourceOwner r = some holder ∧ holder ≠ operationId := by
  induction resources with
  | nil => cases h
  | cons r' resources ih =>
    unfold firstConflict at h
    cases howner : d.getResourceOwner r' with
    | none =>
      rw [howner] at h
      obtain ⟨hmem, hrest⟩ := ih h
      exact ⟨List.mem_cons_of_mem _ hmem, hrest⟩
    | some =>
      rw [howner] at h
      simp only at h
      split at h
      · rename_i hne
        cases h
        exact ⟨List.mem_cons_self .., howner, hne.2⟩
      · obtain ⟨hmem, hrest⟩ := ih h
        exact ⟨List.mem_cons_of_mem _ hmem, hrest⟩

/-- A granted allocation: nothing was fenced, held by others, or over the quota. -/
structure Allocated (operationId : String) (resources : List String)
    (d d' : ExecutionDomain) : Prop where
  notFenced : d.isFenced = false
  free : ∀ r ∈ resources, d.TakenAsFree operationId r
  slot : d.quotaFull = false ∨ operationId ∈ d.getActiveOperationIds
  eq : d' = d.grant operationId resources

theorem allocateResources_ok {waited : Nat}
    (h : allocateResources operationId resources waited d = .ok d') :
    Allocated operationId resources d d' := by
  unfold allocateResources assertNotFenced at h
  cases hfenced : d.isFenced with
  | true =>
    rw [hfenced] at h
    cases h
  | false =>
    rw [hfenced] at h
    simp only [Bool.false_eq_true, if_false] at h
    cases hconflict : d.firstConflict operationId resources with
    | some =>
      rw [hconflict] at h
      cases h
    | none =>
      rw [hconflict] at h
      simp only at h
      split at h
      · cases h
      · rename_i hslot
        cases h
        refine ⟨hfenced, firstConflict_eq_none_iff.1 hconflict, ?_, rfl⟩
        rw [not_and_or, not_not] at hslot
        exact hslot.imp_left (fun hq => by simpa using hq)

/-- Why an allocation was refused: a fence, a held resource, or a full quota. -/
inductive Refused (operationId : String) (resources : List String) (d : ExecutionDomain) :
    KernelError → Prop where
  | fenced : d.isFenced = true → Refused operationId resources d d.epochFencedError
  | held (r holder : String) (waited : Nat) : r ∈ resources →
      d.getResourceOwner r = some holder → holder ≠ operationId →
      Refused operationId resources d (.resourceConflict r holder operationId waited)
  | full (waited : Nat) : d.quotaFull = true →
      Refused operationId resources d (d.quotaConflict operationId waited)

theorem allocateResources_error {waited : Nat} {e : KernelError}
    (h : allocateResources operationId resources waited d = .error e) :
    Refused operationId resources d e := by
  unfold allocateResources assertNotFenced at h
  cases hfenced : d.isFenced with
  | true =>
    rw [hfenced] at h
    cases h
    exact .fenced hfenced
  | false =>
    rw [hfenced] at h
    simp only [Bool.false_eq_true, if_false] at h
    cases hconflict : d.firstConflict operationId resources with
    | some =>
      rw [hconflict] at h
      cases h
      obtain ⟨hmem, howner, hne⟩ := firstConflict_eq_some hconflict
      exact .held _ _ _ hmem howner hne
    | none =>
      rw [hconflict] at h
      simp only at h
      split at h
      · rename_i hfull
        cases h
        exact .full _ hfull.1
      · cases h

/-! ## Release -/

/-- Whether a release takes the lock of a resource away. -/
def Drops (d : ExecutionDomain) (operationId : String) (resources : List String) (r : String) :
    Prop :=
  if resources = [] then d.getResourceOwner r = some operationId
  else r ∈ resources ∧
    (d.getResourceOwner r = some operationId ∨ r ∈ d.persistedLeases operationId)

/-- What a release leaves alone, besides the leases of other operations. -/
structure Released (operationId : String) (d d' : ExecutionDomain) : Prop where
  domainId : d'.domainId = d.domainId
  epoch : d'.epoch = d.epoch
  isFenced : d'.isFenced = d.isFenced
  maxConcurrentOps : d'.maxConcurrentOps = d.maxConcurrentOps
  waitQueue : d'.waitQueue = d.waitQueue
  currentEpoch : d'.store.currentEpoch = d.store.currentEpoch
  db : ∃ leases, d'.store.db = { d.store.db with resourceLeases := leases } ∧
    (∀ lease ∈ leases.rows, lease ∈ d.store.db.resourceLeases.rows) ∧
    ∀ lease ∈ d.store.db.resourceLeases.rows, lease.operationId ≠ operationId →
      lease ∈ leases.rows

theorem Released.refl (operationId : String) (d : ExecutionDomain) : Released operationId d d :=
  ⟨rfl, rfl, rfl, rfl, rfl, rfl, d.store.db.resourceLeases, rfl, fun _ h => h, fun _ h _ => h⟩

theorem Released.trans {d₁ : ExecutionDomain} (h : Released operationId d d₁)
    (h' : Released operationId d₁ d') : Released operationId d d' := by
  obtain ⟨leases, hdb, hsub, hkeep⟩ := h.db
  obtain ⟨leases', hdb', hsub', hkeep'⟩ := h'.db
  rw [hdb] at hdb' hsub' hkeep'
  refine ⟨h'.domainId.trans h.domainId, h'.epoch.trans h.epoch, h'.isFenced.trans h.isFenced,
    h'.maxConcurrentOps.trans h.maxConcurrentOps, h'.waitQueue.trans h.waitQueue,
    h'.currentEpoch.trans h.currentEpoch, leases', hdb', ?_, ?_⟩
  · exact fun lease hlease => hsub lease (hsub' lease hlease)
  · exact fun lease hlease hne => hkeep' lease (hkeep lease hlease hne) hne

theorem released_dropLease (operationId : String) (resourceId : Option String)
    (d : ExecutionDomain) : Released operationId d (d.dropLease operationId resourceId) := by
  refine ⟨rfl, rfl, rfl, rfl, rfl, rfl, _, rfl, ?_, ?_⟩
  · exact fun lease hlease => (Table.mem_deleteWhere.1 hlease).1
  · intro lease hlease hne
    refine Table.mem_deleteWhere.2 ⟨hlease, ?_⟩
    simp [hne]

/-- Releasing a resource by name deletes the lease for it, too. -/
theorem not_mem_dropLease {r : String} {lease : ResourceLease}
    (hlease : lease ∈ (d.dropLease operationId (some r)).store.db.resourceLeases.rows) :
    ¬ (lease.operationId = operationId ∧ lease.resourceId = r) := by
  rintro ⟨rfl, rfl⟩
  have hkept := (Table.mem_deleteWhere.1 hlease).2
  cases hempty : nonEmpty (some lease.resourceId) with
  | none => simp [hempty] at hkept
  | some =>
    rw [(nonEmpty_some_eq hempty).2] at hempty
    simp [hempty] at hkept

theorem releaseNamed_effect (operationId : String) (persisted resources : List String)
    (d : ExecutionDomain) :
    let d' := (releaseNamed operationId persisted resources d).1
    Released operationId d d' ∧ d'.inMemoryAllocatedOps = d.inMemoryAllocatedOps ∧
      (∀ r, d'.getResourceOwner r =
        if r ∈ resources ∧ (d.getResourceOwner r = some operationId ∨ r ∈ persisted) then none
        else d.getResourceOwner r) ∧
      ∀ lease ∈ d'.store.db.resourceLeases.rows, lease.operationId = operationId →
        ¬ (lease.resourceId ∈ resources ∧
          (d.getResourceOwner lease.resourceId = some operationId ∨
            lease.resourceId ∈ persisted)) := by
  induction resources generalizing d with
  | nil =>
    exact ⟨Released.refl _ d, rfl, fun r => by simp [releaseNamed],
      fun lease _ _ h => by simpa using h.1⟩
  | cons r₀ resources ih =>
    unfold releaseNamed
    by_cases hdrop : d.getResourceOwner r₀ = some operationId ∨ r₀ ∈ persisted
    · rw [if_pos hdrop]
      obtain ⟨hrel, hops, howner, hleases⟩ :=
        ih ((d.deleteLock r₀).dropLease operationId (some r₀))
      have hlock : Released operationId d (d.deleteLock r₀) :=
        ⟨rfl, rfl, rfl, rfl, rfl, rfl, _, rfl, fun _ h => h, fun _ h _ => h⟩
      have hfirst : Released operationId d
          ((d.deleteLock r₀).dropLease operationId (some r₀)) :=
        hlock.trans (released_dropLease operationId (some r₀) (d.deleteLock r₀))
      have hone : ∀ r, ((d.deleteLock r₀).dropLease operationId (some r₀)).getResourceOwner r =
          if r = r₀ then none else d.getResourceOwner r :=
        fun r => getResourceOwner_deleteLock r₀ r d
      refine ⟨hfirst.trans hrel, hops, fun r => ?_, fun lease hlease hop => ?_⟩
      · show (releaseNamed operationId persisted resources _).1.getResourceOwner r = _
        rw [howner, hone]
        by_cases heq : r = r₀
        · subst heq
          simp [hdrop]
        · rw [if_neg heq]
          simp [heq]
      · have hgone : lease.resourceId ≠ r₀ := by
          intro heq
          obtain ⟨leases, hdb, hsub, -⟩ := hrel.db
          have hold := hsub lease (by rw [hdb] at hlease; exact hlease)
          exact not_mem_dropLease hold ⟨hop, heq⟩
        rintro ⟨hmem, hheld⟩
        refine hleases lease hlease hop ⟨(List.mem_cons.1 hmem).resolve_left hgone, ?_⟩
        rw [hone, if_neg hgone]
        exact hheld
    · rw [if_neg hdrop]
      obtain ⟨hrel, hops, howner, hleases⟩ := ih d
      refine ⟨hrel, hops, fun r => ?_, fun lease hlease hop => ?_⟩
      · show (releaseNamed operationId persisted resources d).1.getResourceOwner r = _
        rw [howner]
        by_cases heq : r = r₀
        · subst heq
          simp [hdrop]
        · simp [heq]
      · rintro ⟨hmem, hheld⟩
        rcases List.mem_cons.1 hmem with heq | hrest
        · exact hdrop (heq ▸ hheld)
        · exact hleases lease hlease hop ⟨hrest, hheld⟩

/-- A release takes away the locks it says, and the leases of the operation for them. -/
theorem releaseLocks_effect (operationId : String) (resources : List String)
    (d : ExecutionDomain) :
    let d' := (releaseLocks operationId resources d).1
    Released operationId d d' ∧ d'.inMemoryAllocatedOps = d.inMemoryAllocatedOps ∧
      (∀ r, (d.Drops operationId resources r → d'.getResourceOwner r = none) ∧
        (¬ d.Drops operationId resources r → d'.getResourceOwner r = d.getResourceOwner r)) ∧
      ∀ lease ∈ d'.store.db.resourceLeases.rows, lease.operationId = operationId →
        ¬ d.Drops operationId resources lease.resourceId := by
  unfold releaseLocks Drops
  by_cases hall : resources = []
  · rw [if_pos hall]
    simp only [hall, if_true]
    refine ⟨?_, rfl, fun r => ?_, fun lease hlease hop => ?_⟩
    · have hlocks : Released operationId d (d.deleteLocksOf operationId) :=
        ⟨rfl, rfl, rfl, rfl, rfl, rfl, _, rfl, fun _ h => h, fun _ h _ => h⟩
      exact hlocks.trans (released_dropLease operationId none _)
    · have howner : (releaseAll operationId d).1.getResourceOwner r =
          (d.getResourceOwner r).filter fun id => !decide (id = operationId) :=
        getResourceOwner_deleteWhere (fun lock => decide (lock.operationId = operationId)) r d
      rw [howner]
      constructor
      · intro h
        rw [h]
        simp
      · intro h
        cases hr : d.getResourceOwner r with
        | none => rfl
        | some id =>
          rw [hr] at h
          have hne : id ≠ operationId := fun heq => h (by rw [heq])
          simp [hne]
    · have hkept := (Table.mem_deleteWhere.1 hlease).2
      simp [hop, nonEmpty] at hkept
  · rw [if_neg hall]
    simp only [hall, if_false]
    obtain ⟨hrel, hops, howner, hleases⟩ :=
      releaseNamed_effect operationId (d.persistedLeases operationId) resources d
    refine ⟨hrel, hops, fun r => ⟨fun h => ?_, fun h => ?_⟩, hleases⟩
    · rw [howner, if_pos h]
    · rw [howner, if_neg h]

theorem forgetIdle_owner (operationId : String) (d : ExecutionDomain) (r : String) :
    (forgetIdle operationId d).getResourceOwner r = d.getResourceOwner r := by
  unfold forgetIdle
  split <;> rfl

theorem released_forgetIdle (operationId : String) (d : ExecutionDomain) :
    Released operationId d (forgetIdle operationId d) := by
  unfold forgetIdle
  split
  · exact Released.refl _ d
  · exact ⟨rfl, rfl, rfl, rfl, rfl, rfl, _, rfl, fun _ h => h, fun _ h _ => h⟩

/-! ## The whole release -/

/-- Nothing stops the domain from writing, and its journal takes its events. -/
structure Unfenced (d : ExecutionDomain) : Prop where
  notFenced : d.isFenced = false
  currentEpoch : epochFencing d.domainId d.store = .ok ()
  named : d.domainId ≠ ""

theorem Unfenced.released (h : Unfenced d) (hrel : Released operationId d d') : Unfenced d' := by
  obtain ⟨leases, hdb, -⟩ := hrel.db
  refine ⟨hrel.isFenced.trans h.notFenced, ?_, ?_⟩
  · rw [hrel.domainId, epochFencing_congr _ (by rw [hdb]) hrel.currentEpoch]
    exact h.currentEpoch
  · rw [hrel.domainId]
    exact h.named

/-- The domain with one more journal row. -/
def appendEvent (row : JournalRow) (d : ExecutionDomain) : ExecutionDomain :=
  { d with store := SqliteStore.appendEvent row d.store }

/-- The domain after a release and before the queue is scanned. -/
def afterRelease (operationId : String) (resources : List String) (row : JournalRow)
    (d : ExecutionDomain) : ExecutionDomain :=
  appendEvent row (forgetIdle operationId (releaseLocks operationId resources d).1)

theorem run_onStore {α : Type} (p : StoreM α) (d : ExecutionDomain) :
    (onStore p).run d = ({ d with store := (p.run d.store).1 }, (p.run d.store).2) :=
  run_within storePart p d

theorem run_assertNotFenced (h : d.isFenced = false) :
    (check assertNotFenced : DomainM Unit).run d = (d, .ok ()) := by
  have hcheck : d.assertNotFenced = .ok () := by
    unfold assertNotFenced
    rw [if_neg (by simp [h])]
  rw [run_check, hcheck]

theorem run_verifyEpochFencing (h : epochFencing d.domainId d.store = .ok ()) :
    (onStore (verifyEpochFencing d.domainId)).run d = (d, .ok ()) := by
  rw [run_onStore]
  unfold verifyEpochFencing
  rw [run_check, h]

theorem releasedEvent_envelope {domainId : String} (hnamed : domainId ≠ "")
    (operationId : String) (released : List String) (now : Timestamp) :
    ∃ envelope, (releasedEvent domainId operationId released now).envelope = .ok envelope := by
  have hplain : JsValue.plainEntries [("operationId", .str operationId),
      ("resources", ofStrings released), ("releaseReason", .str "kernel_release")] = true := by
    refine JsValue.plainEntries_cons (.inr rfl) ?_
    refine JsValue.plainEntries_cons (.inr (JsValue.ofStrings_plain released)) ?_
    exact JsValue.plainEntries_cons (.inr rfl) rfl
  have hschema : validSchemaVersion "xio/event/1.0" = true := by decide
  have hname : validEventName "RESOURCES_RELEASED" = true := by decide
  exact createEventEnvelope_of_plain hnamed hschema hname rfl hplain

theorem afterRelease_waitQueue (operationId : String) (resources : List String) (row : JournalRow)
    (d : ExecutionDomain) : (afterRelease operationId resources row d).waitQueue = d.waitQueue :=
  (Released.trans (releaseLocks_effect operationId resources d).1
    (released_forgetIdle operationId _)).waitQueue

theorem afterRelease_owner (operationId : String) (resources : List String) (row : JournalRow)
    (d : ExecutionDomain) (r : String) :
    (afterRelease operationId resources row d).getResourceOwner r =
      (releaseLocks operationId resources d).1.getResourceOwner r :=
  forgetIdle_owner operationId _ r

theorem Unfenced.afterRelease (h : Unfenced d) (operationId : String) (resources : List String)
    (row : JournalRow) : Unfenced (afterRelease operationId resources row d) := by
  have hreleased := h.released (Released.trans (releaseLocks_effect operationId resources d).1
    (released_forgetIdle operationId _))
  refine ⟨hreleased.notFenced, ?_, hreleased.named⟩
  exact (SqliteStore.epochFencing_congr _ rfl rfl).trans hreleased.currentEpoch

/-- On an unfenced domain a release returns, and scans the queue at its end. -/
theorem internalReleaseResources_run (h : Unfenced d) (operationId : String)
    (resources : List String) (isCancelled : Waiter → Bool) (elapsed : Waiter → Nat)
    (now : Timestamp) :
    ∃ row, row.type = "RESOURCES_RELEASED" ∧
      (internalReleaseResources operationId resources isCancelled elapsed now).run d =
        let r := processWaitQueue isCancelled elapsed (afterRelease operationId resources row d)
        (r.1, .ok r.2) := by
  have hrel := Released.trans (releaseLocks_effect operationId resources d).1
    (released_forgetIdle operationId _)
  have hafter := h.released hrel
  obtain ⟨envelope, henv⟩ := releasedEvent_envelope h.named operationId
    (releaseLocks operationId resources d).2 now
  have hrecord := SqliteStore.recordEvent_run
    (e := releasedEvent d.domainId operationId (releaseLocks operationId resources d).2 now)
    (s := (forgetIdle operationId (releaseLocks operationId resources d).1).store)
    (by
      have hepoch := hafter.currentEpoch
      rw [hrel.domainId] at hepoch
      exact hepoch)
    (by
      intro opId _ hneeds
      exact absurd hneeds (by simp [releasedEvent, SqliteStore.EventInput.eventName,
        SqliteStore.requiresIntent]))
    (by
      intro opId _ hneeds
      exact absurd hneeds (by simp [releasedEvent, SqliteStore.EventInput.eventName]))
    henv
  let row := SqliteStore.eventRow
    (releasedEvent d.domainId operationId (releaseLocks operationId resources d).2 now) envelope
  have hevent : (onStore (SqliteStore.recordEvent (releasedEvent d.domainId operationId
      (releaseLocks operationId resources d).2 now))).run
        (forgetIdle operationId (releaseLocks operationId resources d).1) =
      (afterRelease operationId resources row d, .ok ()) := by
    rw [run_onStore, hrecord]
    rfl
  refine ⟨row, (createEventEnvelope_ok henv).2.1, ?_⟩
  unfold internalReleaseResources
  simp only [run_bind, run_assertNotFenced h.notFenced, run_read, id,
    run_verifyEpochFencing h.currentEpoch, run_block, run_modify, hevent]

/-- A release that throws on its fence checks has done nothing. -/
theorem internalReleaseResources_fenced
    (h : d.isFenced = true ∨ ∃ e, epochFencing d.domainId d.store = .error e)
    (operationId : String) (resources : List String) (isCancelled : Waiter → Bool)
    (elapsed : Waiter → Nat) (now : Timestamp) :
    ∃ e, (internalReleaseResources operationId resources isCancelled elapsed now).run d =
      (d, .error e) := by
  unfold internalReleaseResources
  cases hfenced : d.isFenced with
  | true =>
    have hcheck : d.assertNotFenced = .error d.epochFencedError := by
      unfold assertNotFenced
      rw [if_pos hfenced]
    exact ⟨d.epochFencedError, by simp only [run_bind, run_check, hcheck]⟩
  | false =>
    obtain ⟨e, hepoch⟩ := h.resolve_left (by simp [hfenced])
    have hverify : (onStore (verifyEpochFencing d.domainId)).run d =
        (d, .error e) := by
      rw [run_onStore]
      unfold verifyEpochFencing
      rw [run_check, hepoch]
    exact ⟨e, by simp only [run_bind, run_assertNotFenced hfenced, run_read, id, hverify]⟩

/-- Past its fence checks a release takes the locks away; it scans the queue at its end, unless
    the journal refuses its event. -/
theorem internalReleaseResources_unfenced (hfenced : d.isFenced = false)
    (hepoch : SqliteStore.epochFencing d.domainId d.store = .ok ()) (operationId : String)
    (resources : List String) (isCancelled : Waiter → Bool) (elapsed : Waiter → Nat)
    (now : Timestamp) :
    (d.domainId ≠ "" ∧ ∃ row,
      (internalReleaseResources operationId resources isCancelled elapsed now).run d =
        let r := processWaitQueue isCancelled elapsed (afterRelease operationId resources row d)
        (r.1, .ok r.2)) ∨
    ∃ e, (internalReleaseResources operationId resources isCancelled elapsed now).run d =
      (forgetIdle operationId (releaseLocks operationId resources d).1, .error e) := by
  unfold internalReleaseResources
  simp only [run_bind, run_assertNotFenced hfenced, run_read, id, run_verifyEpochFencing hepoch,
    run_block, run_modify, run_onStore]
  have hatomic := SqliteStore.atomic_recordEvent
    (releasedEvent d.domainId operationId (releaseLocks operationId resources d).2 now)
  cases hrun : (SqliteStore.recordEvent (releasedEvent d.domainId operationId
      (releaseLocks operationId resources d).2 now)).run
        (forgetIdle operationId (releaseLocks operationId resources d).1).store with
  | mk s r =>
    cases r with
    | error e =>
      obtain rfl := hatomic _ _ _ hrun
      exact .inr ⟨e, rfl⟩
    | ok =>
      obtain ⟨envelope, henv, rfl⟩ := (SqliteStore.recordEvent_ok hrun).appended
      exact .inl ⟨createEventEnvelope_domainId henv, _, rfl⟩

end ExecutionDomain
end XioFlow
