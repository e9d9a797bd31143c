/-
  XioFlow.Domain.WaitQueue

  The requests that wait for resources, over any order of requests,
  allocations, releases, cancellations and timeouts.

  Requests that compete are granted in the order they were made, and each
  resource has one holder.  A release scans the queue, so that nothing stays
  in it that could be granted; a cancellation and a timeout do not, and what
  waited for the request that left is forgotten until the next release.
-/

import XioFlow.Domain.Effects
import XioFlow.Lib.Transition

namespace XioFlow

open Lib

namespace ExecutionDomain

/-! ## More locks, fewer grants -/

/-- Locks and memory operations are only added. -/
structure Grows (d d' : ExecutionDomain) : Prop where
  domainId : d'.domainId = d.domainId
  store : d'.store = d.store
  isFenced : d'.isFenced = d.isFenced
  maxConcurrentOps : d'.maxConcurrentOps = d.maxConcurrentOps
  owner : ∀ r holder, d.getResourceOwner r = some holder → d'.getResourceOwner r = some holder
  ops : d.inMemoryAllocatedOps ⊆ d'.inMemoryAllocatedOps

theorem Grows.refl (d : ExecutionDomain) : Grows d d :=
  ⟨rfl, rfl, rfl, rfl, fun _ _ h => h, fun _ h => h⟩

theorem Grows.trans {d d₁ d' : ExecutionDomain} (h : Grows d d₁) (h' : Grows d₁ d') :
    Grows d d' :=
  ⟨h'.domainId.trans h.domainId, h'.store.trans h.store, h'.isFenced.trans h.isFenced,
    h'.maxConcurrentOps.trans h.maxConcurrentOps,
    fun r holder howner => h'.owner r holder (h.owner r holder howner),
    fun _ hid => h'.ops (h.ops hid)⟩

/-- A request under an id, and not for the quota by name. -/
def Ordinary (w : Waiter) : Prop := w.operationId ≠ "" ∧ quotaResource ∉ w.resources

/-- Every holder has an id. -/
def HoldersNamed (d : ExecutionDomain) : Prop :=
  ∀ r holder, d.getResourceOwner r = some holder → holder ≠ ""

variable {resources : List String} {operationId : String}

/-- A granted allocation keeps the locks of named holders and adds its own. -/
theorem Allocated.owner {d d' : ExecutionDomain}
    (h : Allocated operationId resources d d') (r : String) :
    (∀ holder, holder ≠ "" → d.getResourceOwner r = some holder →
      d'.getResourceOwner r = some holder) ∧
    (∀ holder, d'.getResourceOwner r = some holder →
      d.getResourceOwner r = some holder ∨ holder = operationId ∧ r ∈ resources) ∧
    (r ∈ resources → d'.getResourceOwner r = some operationId) := by
  obtain ⟨-, hfree, -, rfl⟩ := h
  rw [getResourceOwner_grant]
  by_cases hmem : r ∈ resources
  · rw [if_pos hmem]
    refine ⟨fun holder hnamed howner => ?_, fun holder howner => ?_, fun _ => rfl⟩
    · rw [hfree r hmem holder howner hnamed]
    · exact .inr ⟨(Option.some.inj howner).symm, hmem⟩
  · rw [if_neg hmem]
    exact ⟨fun _ _ h => h, fun _ h => .inl h, fun h => absurd h hmem⟩

theorem grows_of_allocated
    {d d' : ExecutionDomain} (hnamed : HoldersNamed d)
    (h : Allocated operationId resources d d') : Grows d d' := by
  have howner := h.owner
  obtain ⟨-, -, -, rfl⟩ := h
  have hsame := sameButLocks_grant operationId resources d
  refine ⟨hsame.domainId, hsame.store, hsame.isFenced, hsame.maxConcurrentOps, ?_, ?_⟩
  · exact fun r holder hr => (howner r).1 holder (hnamed r holder hr) hr
  · intro _ hid
    rw [grant_inMemoryAllocatedOps, mem_insertOp]
    exact .inr hid

theorem HoldersNamed.allocated
    {d d' : ExecutionDomain} (h : HoldersNamed d) (hop : operationId ≠ "")
    (halloc : Allocated operationId resources d d') : HoldersNamed d' := by
  intro r holder howner
  rcases (halloc.owner r).2.1 holder howner with hbefore | ⟨rfl, -⟩
  · exact h r holder hbefore
  · exact hop

theorem quotaFull_grows {d d' : ExecutionDomain} (h : Grows d d') (hfull : d.quotaFull = true) :
    d'.quotaFull = true := by
  have hactive : d.getActiveOperationIds.length ≤ d'.getActiveOperationIds.length := by
    refine List.Nodup.length_le_of_subset ?_ fun id hid => ?_
    · rw [← eraseDups_eq_self_iff]
      unfold getActiveOperationIds
      rw [(eraseDups_eq_self_iff _).2 (nodup_eraseDups _)]
    · rw [mem_getActiveOperationIds] at hid ⊢
      rw [h.store, h.domainId]
      exact hid.imp_left fun hmem => h.ops hmem
  unfold quotaFull at hfull ⊢
  rw [h.maxConcurrentOps]
  split
  · rename_i hnone
    rw [hnone] at hfull
    exact hfull
  · rename_i hzero
    rw [hzero] at hfull
    exact hfull
  · rename_i n hn hsome
    rw [hsome] at hfull
    simp only [decide_eq_true_eq] at hfull ⊢
    omega

/-- A waiter that could be granted now, with the waiters ahead of it in the queue. -/
def Grantable (d : ExecutionDomain) (ahead : List Waiter) (w : Waiter) : Prop :=
  (∀ r ∈ w.resources, d.FreeFor w.operationId r) ∧
    overlaps w.resources (ahead.flatMap Waiter.resources) = false ∧ d.quotaFull = false

/-- No waiter in the queue could be granted. -/
def NoLostWakeup (d : ExecutionDomain) : Prop :=
  ∀ ahead w behind, d.waitQueue = ahead ++ w :: behind → ¬ Grantable d ahead w

theorem Grantable.of_grows {d d' : ExecutionDomain} {ahead : List Waiter} {w : Waiter}
    (hgrows : Grows d d') (h : Grantable d' ahead w) : Grantable d ahead w := by
  obtain ⟨hfree, hoverlaps, hquota⟩ := h
  refine ⟨fun r hr holder howner => hfree r hr holder (hgrows.owner r holder howner),
    hoverlaps, ?_⟩
  by_contra hfull
  have hfull' := quotaFull_grows hgrows (by simpa using hfull)
  rw [hfull'] at hquota
  cases hquota

/-- A refusal for a conflict is a reason not to be granted. -/
theorem not_grantable_of_refused {d d' : ExecutionDomain} {w : Waiter} {e : KernelError}
    (hrefused : Refused w.operationId w.resources d e) (hfenced : d.isFenced = false)
    (hgrows : Grows d d') (ahead : List Waiter) : ¬ Grantable d' ahead w := by
  rintro ⟨hfree, -, hquota⟩
  cases hrefused with
  | fenced h =>
    rw [hfenced] at h
    cases h
  | held r holder waited hmem howner hne =>
    exact hne (hfree r hmem holder (hgrows.owner r holder howner))
  | full waited hfull =>
    rw [quotaFull_grows hgrows hfull] at hquota
    cases hquota

/-! ## The scan -/

/-- What a scan of the queue does, item by item; the items it keeps reserve their resources. -/
inductive Scan (isCancelled : Waiter → Bool) : List Waiter → List Waiter → Bool →
    ExecutionDomain → ExecutionDomain → List Settlement → Prop where
  | done (before : List Waiter) (blocked : Bool) (d : ExecutionDomain) :
    Scan isCancelled before [] blocked d { d with waitQueue := before } []
  | cancelled {before item rest blocked d d' out} (hcancelled : isCancelled item = true)
    (hrest : Scan isCancelled before rest blocked d d' out) :
    Scan isCancelled before (item :: rest) blocked d d'
      (⟨item, .cancelled, before ++ item :: rest⟩ :: out)
  | blocked {before item rest blocked d d' out}
    (hblocked : overlaps item.resources (before.flatMap Waiter.resources) = true ∨ blocked = true)
    (hrest : Scan isCancelled (before ++ [item]) rest blocked d d' out) :
    Scan isCancelled before (item :: rest) blocked d d' out
  | granted {before item rest d d₁ d' out}
    (hdisjoint : overlaps item.resources (before.flatMap Waiter.resources) = false)
    (halloc : Allocated item.operationId item.resources d d₁)
    (hrest : Scan isCancelled before rest false d₁ d' out) :
    Scan isCancelled before (item :: rest) false d d'
      (⟨item, .granted, before ++ item :: rest⟩ :: out)
  | refused {before item rest d d' out} {e : KernelError} (blocked : Bool)
    (hrefused : Refused item.operationId item.resources d e)
    (hblocked : blocked = true → ∃ holder requesting waited,
      e = .resourceConflict quotaResource holder requesting waited)
    (hrest : Scan isCancelled (before ++ [item]) rest blocked d d' out) :
    Scan isCancelled before (item :: rest) false d d' out
  | rejected {before item rest d d' out} {e : KernelError}
    (hrefused : Refused item.operationId item.resources d e)
    (hrest : Scan isCancelled before rest false d d' out) :
    Scan isCancelled before (item :: rest) false d d'
      (⟨item, .rejected e, before ++ item :: rest⟩ :: out)

theorem scan_scanQueue (isCancelled : Waiter → Bool) (elapsed : Waiter → Nat)
    (before rest : List Waiter) (blocked : Bool) (d : ExecutionDomain) :
    Scan isCancelled before rest blocked d
      (scanQueue isCancelled elapsed before rest (before.flatMap Waiter.resources) blocked d).1
      (scanQueue isCancelled elapsed before rest (before.flatMap Waiter.resources) blocked d).2 := by
  induction rest generalizing before blocked d with
  | nil => exact .done before blocked d
  | cons item rest ih =>
    have hreserved : before.flatMap Waiter.resources ++ item.resources =
        (before ++ [item]).flatMap Waiter.resources := by simp
    unfold scanQueue
    by_cases hcancelled : isCancelled item = true
    · rw [if_pos hcancelled]
      exact .cancelled hcancelled (ih before blocked d)
    rw [if_neg hcancelled]
    by_cases hblocked : (overlaps item.resources (before.flatMap Waiter.resources) || blocked) = true
    · rw [if_pos hblocked, hreserved]
      exact .blocked (by simpa using hblocked) (ih (before ++ [item]) blocked d)
    rw [if_neg hblocked]
    obtain ⟨hdisjoint, rfl⟩ : overlaps item.resources (before.flatMap Waiter.resources) = false ∧
        blocked = false := by simpa using hblocked
    cases halloc : allocateResources item.operationId item.resources (elapsed item) d with
    | ok d₁ => exact .granted hdisjoint (allocateResources_ok halloc) (ih before false d₁)
    | error e =>
      have hrefused := allocateResources_error halloc
      cases e with
      | resourceConflict resourceId =>
        simp only [hreserved, Bool.false_or]
        refine .refused (decide (resourceId = quotaResource)) hrefused (fun hname => ?_)
          (ih (before ++ [item]) _ d)
        rw [of_decide_eq_true hname]
        exact ⟨_, _, _, rfl⟩
      | _ => exact .rejected hrefused (ih before false d)

section Scan

variable {isCancelled : Waiter → Bool} {before rest : List Waiter} {blocked : Bool}
  {d d' : ExecutionDomain} {out : List Settlement}

theorem Scan.grows (h : Scan isCancelled before rest blocked d d' out) (hnamed : HoldersNamed d)
    (hitems : ∀ item ∈ rest, Ordinary item) : Grows d d' ∧ HoldersNamed d' := by
  induction h with
  | done =>
    exact ⟨⟨rfl, rfl, rfl, rfl, fun _ _ h => h, fun _ h => h⟩, hnamed⟩
  | cancelled _ _ ih | blocked _ _ ih | refused _ _ _ _ ih | rejected _ _ ih =>
    exact ih hnamed (List.forall_mem_of_forall_mem_cons hitems)
  | granted _ halloc _ ih =>
    have hnamed₁ := hnamed.allocated (hitems _ (List.mem_cons_self ..)).1 halloc
    obtain ⟨hgrows, hnamed'⟩ := ih hnamed₁ (List.forall_mem_of_forall_mem_cons hitems)
    exact ⟨(grows_of_allocated hnamed halloc).trans hgrows, hnamed'⟩

/-- The items that stay are items of the queue, in their order. -/
theorem Scan.kept (h : Scan isCancelled before rest blocked d d' out) :
    ∃ kept, d'.waitQueue = before ++ kept ∧ kept.Sublist rest := by
  induction h with
  | done => exact ⟨[], by simp, List.Sublist.refl _⟩
  | cancelled _ _ ih | granted _ _ _ ih | rejected _ _ ih =>
    obtain ⟨kept, hqueue, hsub⟩ := ih
    exact ⟨kept, hqueue, hsub.cons _⟩
  | @blocked _ item _ _ _ _ _ _ _ ih | @refused _ item _ _ _ _ _ _ _ _ _ ih =>
    obtain ⟨kept, hqueue, hsub⟩ := ih
    exact ⟨item :: kept, by rw [hqueue, List.append_assoc, List.singleton_append],
      hsub.cons_cons item⟩

/-- The item that a scan leaves first, and what it keeps behind it. -/
theorem Scan.kept_head {item : Waiter} {kept : List Waiter}
    (h : Scan isCancelled (before ++ [item]) rest blocked d d' out)
    (hqueue : d'.waitQueue = before ++ kept) : ∃ kept', kept = item :: kept' ∧
      d'.waitQueue = before ++ [item] ++ kept' := by
  obtain ⟨kept', hqueue', -⟩ := h.kept
  refine ⟨kept', ?_, hqueue'⟩
  rw [hqueue', List.append_assoc, List.singleton_append] at hqueue
  exact (List.append_cancel_left hqueue).symm

/-- What a scan keeps could not be granted. -/
theorem Scan.not_grantable (h : Scan isCancelled before rest blocked d d' out)
    (hfenced : d.isFenced = false) (hnamed : HoldersNamed d)
    (hitems : ∀ item ∈ rest, Ordinary item) (hblocked : blocked = true → d.quotaFull = true) :
    ∀ kept, d'.waitQueue = before ++ kept →
      ∀ mid w behind, kept = mid ++ w :: behind → ¬ Grantable d' (before ++ mid) w := by
  induction h with
  | done =>
    intro kept hqueue mid w behind hkept
    have hnil : kept = [] := by simpa using hqueue
    rw [hnil] at hkept
    simp at hkept
  | cancelled _ _ ih =>
    exact ih hfenced hnamed (List.forall_mem_of_forall_mem_cons hitems) hblocked
  | granted _ halloc _ ih =>
    exact ih ((grows_of_allocated hnamed halloc).isFenced.trans hfenced)
      (hnamed.allocated (hitems _ (List.mem_cons_self ..)).1 halloc)
      (List.forall_mem_of_forall_mem_cons hitems) (by simp)
  | rejected _ _ ih =>
    exact ih hfenced hnamed (List.forall_mem_of_forall_mem_cons hitems) (by simp)
  | @blocked before item rest blocked d d' out hreason hrest ih =>
    intro kept hqueue mid w behind hkept
    have hitems' := List.forall_mem_of_forall_mem_cons hitems
    have hgrows := (hrest.grows hnamed hitems').1
    obtain ⟨kept', rfl, hqueue'⟩ := hrest.kept_head hqueue
    cases mid with
    | nil =>
      cases hkept
      rintro ⟨-, hdisjoint, hquota⟩
      rcases hreason with hoverlaps | hfull
      · rw [List.append_nil, hoverlaps] at hdisjoint
        cases hdisjoint
      · rw [quotaFull_grows hgrows (hblocked hfull)] at hquota
        cases hquota
    | cons m mid =>
      obtain ⟨rfl, hlast⟩ : item = m ∧ kept' = mid ++ w :: behind := by simpa using hkept
      have hlater := ih hfenced hnamed hitems' hblocked kept' hqueue' mid w behind hlast
      rwa [List.append_assoc, List.singleton_append] at hlater
  | @refused before item rest d d' out e blocked' hrefused hname hrest ih =>
    intro kept hqueue mid w behind hkept
    have hitems' := List.forall_mem_of_forall_mem_cons hitems
    have hgrows := (hrest.grows hnamed hitems').1
    obtain ⟨kept', rfl, hqueue'⟩ := hrest.kept_head hqueue
    cases mid with
    | nil =>
      cases hkept
      exact not_grantable_of_refused hrefused hfenced hgrows _
    | cons m mid =>
      obtain ⟨rfl, hlast⟩ : item = m ∧ kept' = mid ++ w :: behind := by simpa using hkept
      -- the rest is blocked only when the quota itself was the conflict
      have hfull : blocked' = true → d.quotaFull = true := by
        intro hb
        obtain ⟨holder, requesting, waited, rfl⟩ := hname hb
        cases hrefused with
        | held _ _ _ hmem => exact absurd hmem (hitems item (List.mem_cons_self ..)).2
        | full _ hfull => exact hfull
      have hlater := ih hfenced hnamed hitems' hfull kept' hqueue' mid w behind hlast
      rwa [List.append_assoc, List.singleton_append] at hlater

/-- A granted item is disjoint from all that the queue held ahead of it. -/
theorem Scan.granted_behind (h : Scan isCancelled before rest blocked d d' out) :
    ∀ g ∈ out, g.outcome = .granted → ∃ ahead behind, g.queue = ahead ++ g.waiter :: behind ∧
      overlaps g.waiter.resources (ahead.flatMap Waiter.resources) = false ∧
      g.queue.Sublist (before ++ rest) := by
  induction h with
  | done => simp
  | @cancelled before item rest _ _ _ _ _ _ ih | @rejected before item rest _ _ _ _ _ _ ih =>
    intro g hg houtcome
    rcases List.mem_cons.1 hg with rfl | hg
    · cases houtcome
    · obtain ⟨ahead, behind, hsplit, hdisjoint, hsub⟩ := ih g hg houtcome
      refine ⟨ahead, behind, hsplit, hdisjoint, hsub.trans ?_⟩
      exact (List.Sublist.refl before).append (List.sublist_cons_self item rest)
  | @granted before item rest _ _ _ _ hdisjoint _ _ ih =>
    intro g hg houtcome
    rcases List.mem_cons.1 hg with rfl | hg
    · exact ⟨before, rest, rfl, hdisjoint, List.Sublist.refl _⟩
    · obtain ⟨ahead, behind, hsplit, hdisjoint, hsub⟩ := ih g hg houtcome
      refine ⟨ahead, behind, hsplit, hdisjoint, hsub.trans ?_⟩
      exact (List.Sublist.refl before).append (List.sublist_cons_self item rest)
  | @blocked before item rest _ _ _ _ _ _ ih | @refused before item rest _ _ _ _ _ _ _ _ ih =>
    intro g hg houtcome
    obtain ⟨ahead, behind, hsplit, hdisjoint, hsub⟩ := ih g hg houtcome
    rw [List.append_assoc, List.singleton_append] at hsub
    exact ⟨ahead, behind, hsplit, hdisjoint, hsub⟩

/-- A scan leaves the lock of a named holder, and every new lock belongs to a granted item. -/
theorem Scan.owner (h : Scan isCancelled before rest blocked d d' out) (r : String) :
    (∀ holder, holder ≠ "" → d.getResourceOwner r = some holder →
      d'.getResourceOwner r = some holder) ∧
    ∀ holder, d'.getResourceOwner r = some holder → d.getResourceOwner r = some holder ∨
      ∃ g ∈ out, g.outcome = .granted ∧ g.waiter.operationId = holder ∧ r ∈ g.waiter.resources := by
  induction h with
  | done => exact ⟨fun _ _ h => h, fun _ h => .inl h⟩
  | blocked _ _ ih | refused _ _ _ _ ih => exact ih
  | cancelled _ _ ih | rejected _ _ ih =>
    refine ⟨ih.1, fun holder howner => (ih.2 holder howner).imp_right ?_⟩
    rintro ⟨g, hg, hgranted⟩
    exact ⟨g, List.mem_cons_of_mem _ hg, hgranted⟩
  | granted _ halloc _ ih =>
    obtain ⟨hkeeps, hadds, -⟩ := halloc.owner r
    refine ⟨fun holder hnamed howner => ih.1 holder hnamed (hkeeps holder hnamed howner),
      fun holder howner => ?_⟩
    rcases ih.2 holder howner with hbefore | ⟨g, hg, hgranted⟩
    · rcases hadds holder hbefore with hfirst | ⟨rfl, hmem⟩
      · exact .inl hfirst
      · exact .inr ⟨_, List.mem_cons_self .., rfl, rfl, hmem⟩
    · exact .inr ⟨g, List.mem_cons_of_mem _ hg, hgranted⟩

/-- A granted item under an id holds all of its resources when the scan is over. -/
theorem Scan.granted_owner (h : Scan isCancelled before rest blocked d d' out) :
    ∀ g ∈ out, g.outcome = .granted → g.waiter.operationId ≠ "" →
      ∀ r ∈ g.waiter.resources, d'.getResourceOwner r = some g.waiter.operationId := by
  induction h with
  | done => simp
  | blocked _ _ ih | refused _ _ _ _ ih => exact ih
  | cancelled _ _ ih | rejected _ _ ih =>
    intro g hg houtcome
    rcases List.mem_cons.1 hg with rfl | hg
    · cases houtcome
    · exact ih g hg houtcome
  | granted _ halloc hrest ih =>
    intro g hg houtcome hnamed r hr
    rcases List.mem_cons.1 hg with rfl | hg
    · exact (hrest.owner r).1 _ hnamed ((halloc.owner r).2.2 hr)
    · exact ih g hg houtcome hnamed r hr

/-- A scan writes the lock table, the memory set and the queue. -/
theorem Scan.store (h : Scan isCancelled before rest blocked d d' out) :
    d'.domainId = d.domainId ∧ d'.store = d.store ∧ d'.isFenced = d.isFenced := by
  induction h with
  | done => exact ⟨rfl, rfl, rfl⟩
  | cancelled _ _ ih | blocked _ _ ih | refused _ _ _ _ ih | rejected _ _ ih => exact ih
  | @granted _ item _ d _ _ _ _ halloc _ ih =>
    have hgrant := sameButLocks_grant item.operationId item.resources d
    rw [halloc.eq] at ih
    obtain ⟨hdomain, hstore, hfenced⟩ := ih
    exact ⟨hdomain.trans hgrant.domainId, hstore.trans hgrant.store,
      hfenced.trans hgrant.isFenced⟩

end Scan

/-! ## A request -/

/-- What `allocateResourcesWithWait` does before its first await. -/
inductive Requested (item : Waiter) (d : ExecutionDomain) : ExecutionDomain → List Settlement → Prop
  where
  | granted {d'} : overlaps item.resources (d.waitQueue.flatMap Waiter.resources) = false →
      Allocated item.operationId item.resources d d' →
      Requested item d d' [⟨item, .granted, d.waitQueue⟩]
  | settled (outcome : Outcome) : outcome ≠ .granted →
      Requested item d d [⟨item, outcome, d.waitQueue⟩]
  | queued : d.isFenced = false →
      (overlaps item.resources (d.waitQueue.flatMap Waiter.resources) = true ∨
        ∃ e, Refused item.operationId item.resources d e) →
      Requested item d { d with waitQueue := d.waitQueue ++ [item] } []

theorem requested_allocateResourcesWithWait (item : Waiter) (maxWaitMs : Nat) (cancelled : Bool)
    (d : ExecutionDomain) :
    Requested item d (allocateResourcesWithWait item maxWaitMs cancelled d).1
      (allocateResourcesWithWait item maxWaitMs cancelled d).2 := by
  unfold allocateResourcesWithWait
  cases hfenced : d.assertNotFenced with
  | error => exact .settled _ (by simp)
  | ok =>
    have hopen : d.isFenced = false := by
      unfold assertNotFenced at hfenced
      split at hfenced
      · cases hfenced
      · rename_i h
        simpa using h
    simp only
    split
    · exact .settled _ (by simp)
    split
    · rename_i hoverlaps
      split
      · exact .settled _ (by simp)
      · exact .queued hopen (.inl hoverlaps)
    rename_i hdisjoint
    cases halloc : allocateResources item.operationId item.resources 0 d with
    | ok => exact .granted (by simpa using hdisjoint) (allocateResources_ok halloc)
    | error e =>
      have hrefused := allocateResources_error halloc
      cases e with
      | resourceConflict =>
        simp only
        split
        · exact .settled _ (by simp)
        · exact .queued hopen (.inr ⟨_, hrefused⟩)
      | _ => exact .settled _ (by simp)

/-! ## A whole release -/

/-- The queue is processed on the lock table, the memory set and the queue itself. -/
theorem processWaitQueue_keeps (isCancelled : Waiter → Bool) (elapsed : Waiter → Nat)
    (d : ExecutionDomain) :
    (processWaitQueue isCancelled elapsed d).1.domainId = d.domainId ∧
      (processWaitQueue isCancelled elapsed d).1.store = d.store ∧
      (processWaitQueue isCancelled elapsed d).1.isFenced = d.isFenced := by
  unfold processWaitQueue
  split
  · exact ⟨rfl, rfl, rfl⟩
  · exact (scan_scanQueue isCancelled elapsed [] d.waitQueue false d).store

theorem processWaitQueue_store (isCancelled : Waiter → Bool) (elapsed : Waiter → Nat)
    (d : ExecutionDomain) : (processWaitQueue isCancelled elapsed d).1.store = d.store :=
  (processWaitQueue_keeps isCancelled elapsed d).2.1

/-- A release returns on an unfenced domain only. -/
theorem release_returns_iff {d : ExecutionDomain}
    {isCancelled : Waiter → Bool} {elapsed : Waiter → Nat} {now : Timestamp} :
    (∃ d' settled, (internalReleaseResources operationId resources isCancelled elapsed now).run d =
      (d', .ok settled)) ↔ Unfenced d := by
  constructor
  · rintro ⟨d', settled, hrun⟩
    rcases Bool.eq_false_or_eq_true d.isFenced with hfenced | hopen
    · obtain ⟨e, hthrows⟩ := internalReleaseResources_fenced (.inl hfenced) operationId
        resources isCancelled elapsed now
      cases hthrows.symm.trans hrun
    cases hepoch : SqliteStore.epochFencing d.domainId d.store with
    | error e' =>
      obtain ⟨e, hthrows⟩ := internalReleaseResources_fenced (.inr ⟨e', hepoch⟩) operationId
        resources isCancelled elapsed now
      cases hthrows.symm.trans hrun
    | ok =>
      rcases internalReleaseResources_unfenced hopen hepoch operationId resources isCancelled
        elapsed now with ⟨hnamed, -⟩ | ⟨e, hthrows⟩
      · exact ⟨hopen, hepoch, hnamed⟩
      · cases hthrows.symm.trans hrun
  · intro h
    obtain ⟨row, -, hrun⟩ := internalReleaseResources_run h operationId resources isCancelled elapsed
      now
    exact ⟨_, _, hrun⟩

/-- In the store a release changes the leases of its operation and adds an event. -/
theorem release_store {d d' : ExecutionDomain}
    {isCancelled : Waiter → Bool} {elapsed : Waiter → Nat} {now : Timestamp}
    {settled : List Settlement}
    (h : (internalReleaseResources operationId resources isCancelled elapsed now).run d =
      (d', .ok settled)) :
    ∃ row leases, d'.store = SqliteStore.appendEvent row
        (d.store.withDb { d.store.db with resourceLeases := leases }) ∧
      (∀ lease ∈ leases.rows, lease ∈ d.store.db.resourceLeases.rows) ∧
      ∀ lease ∈ d.store.db.resourceLeases.rows, lease.operationId ≠ operationId →
        lease ∈ leases.rows := by
  obtain ⟨row, -, hrun⟩ := internalReleaseResources_run (release_returns_iff.1 ⟨d', settled, h⟩)
    operationId resources isCancelled elapsed now
  have hd' : d'.store = (afterRelease operationId resources row d).store := by
    have hfirst : d' = (processWaitQueue isCancelled elapsed
        (afterRelease operationId resources row d)).1 := congrArg Prod.fst (h.symm.trans hrun)
    rw [hfirst, processWaitQueue_store]
  have hrel := Released.trans (releaseLocks_effect operationId resources d).1
    (released_forgetIdle operationId _)
  obtain ⟨leases, hdb, hsub, hkeep⟩ := hrel.db
  refine ⟨row, leases, ?_, hsub, hkeep⟩
  rw [hd']
  show SqliteStore.appendEvent row (forgetIdle operationId
    (releaseLocks operationId resources d).1).store = _
  congr 1
  have hepoch := hrel.currentEpoch
  cases hstore : (forgetIdle operationId (releaseLocks operationId resources d).1).store with
  | mk =>
    rw [hstore] at hdb hepoch
    simp only at hdb hepoch
    rw [hdb, hepoch]
    rfl

/-- However a release ends, it has touched no operation. -/
theorem release_operations (operationId : String) (resources : List String)
    (isCancelled : Waiter → Bool) (elapsed : Waiter → Nat) (now : Timestamp)
    (d : ExecutionDomain) :
    ((internalReleaseResources operationId resources isCancelled elapsed now).run
      d).1.store.db.operations = d.store.db.operations := by
  rcases hrun : (internalReleaseResources operationId resources isCancelled elapsed now).run d
    with ⟨d', e | settled⟩
  · rcases Bool.eq_false_or_eq_true d.isFenced with hfenced | hopen
    · obtain ⟨e', hthrows⟩ := internalReleaseResources_fenced (.inl hfenced) operationId
        resources isCancelled elapsed now
      cases hthrows.symm.trans hrun
      rfl
    cases hepoch : SqliteStore.epochFencing d.domainId d.store with
    | error e' =>
      obtain ⟨e'', hthrows⟩ := internalReleaseResources_fenced (.inr ⟨e', hepoch⟩) operationId
        resources isCancelled elapsed now
      cases hthrows.symm.trans hrun
      rfl
    | ok =>
      rcases internalReleaseResources_unfenced hopen hepoch operationId resources isCancelled
        elapsed now with ⟨-, row, hreturns⟩ | ⟨e', hthrows⟩
      · cases hreturns.symm.trans hrun
      · cases hthrows.symm.trans hrun
        obtain ⟨leases, hdb, -⟩ := (Released.trans
          (releaseLocks_effect operationId resources d).1
          (released_forgetIdle operationId _)).db
        rw [hdb]
  · obtain ⟨row, leases, hstore, -⟩ := release_store hrun
    rw [hstore]
    rfl

end ExecutionDomain
end XioFlow
