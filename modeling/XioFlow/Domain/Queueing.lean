/-
  XioFlow.Domain.Queueing

  The wait queue over any sequence of requests, allocations, releases,
  cancellations and timeouts.

  Every wakeup is due to a release.  A cancellation or a timeout that takes a
  request out of the queue may unblock the ones behind it and wakes nobody, and
  this is the only way to leave a request waiting that could be granted.
-/

import XioFlow.Domain.WaitQueue

namespace XioFlow

open Lib
open ExecutionDomain

/-! ## Events -/

/-- What the event loop can run between two awaits, as far as the queue is concerned. -/
inductive QueueEvent where
  | allocateResourcesWithWait (operationId : String) (resources : List String)
      (maxWaitMs : Nat) (cancelled : Bool)
  | allocateResources (operationId : String) (resources : List String) (waitedDurationMs : Nat)
  | internalReleaseResources (operationId : String) (resources : List String)
      (isCancelled : Waiter → Bool) (elapsed : Waiter → Nat) (now : Timestamp)
  | cancelWait (operationId : String)
  | waitTimeout (ticket : Nat) (isCancelled : Waiter → Bool) (elapsed : Waiter → Nat)

/-- A domain, the next ticket, and what has been granted and not been released. -/
structure Queueing where
  domain : ExecutionDomain
  nextTicket : Nat
  held : List Lock

/-- The locks of an operation on some resources. -/
def locksFor (operationId : String) (resources : List String) : List Lock :=
  resources.map fun resourceId => ⟨resourceId, operationId⟩

/-- The locks that a settled request got. -/
def Settlement.locks (g : Settlement) : List Lock :=
  if g.outcome = .granted then locksFor g.waiter.operationId g.waiter.resources else []

namespace Queueing

/-- A domain as it was opened: all its locks are held. -/
def start (d : ExecutionDomain) : Queueing := ⟨d, 0, d.inMemoryLockedResources.rows⟩

end Queueing

namespace QueueEvent

/-- The domain after the event, and the requests it settles. -/
def run : QueueEvent → Queueing → ExecutionDomain × List Settlement
  | allocateResourcesWithWait operationId resources maxWaitMs cancelled, q =>
    ExecutionDomain.allocateResourcesWithWait ⟨q.nextTicket, operationId, resources⟩ maxWaitMs
      cancelled q.domain
  | allocateResources operationId resources waitedDurationMs, q =>
    match ExecutionDomain.allocateResources operationId resources waitedDurationMs q.domain with
    | .ok d => (d, [])
    | .error _ => (q.domain, [])
  | internalReleaseResources operationId resources isCancelled elapsed now, q =>
    match (ExecutionDomain.internalReleaseResources operationId resources isCancelled elapsed
        now).run q.domain with
    | (d, .ok settled) => (d, settled)
    | (d, .error _) => (d, [])
  | cancelWait operationId, q => ExecutionDomain.cancelWait operationId q.domain
  | waitTimeout ticket isCancelled elapsed, q =>
    ExecutionDomain.waitTimeout ticket isCancelled elapsed q.domain

/-- The locks an event grants. -/
def grants (e : QueueEvent) (q : Queueing) : List Lock :=
  (match e with
    | allocateResources operationId resources waitedDurationMs =>
      match ExecutionDomain.allocateResources operationId resources waitedDurationMs
          q.domain with
      | .ok _ => locksFor operationId resources
      | .error _ => []
    | _ => []) ++ (e.run q).2.flatMap Settlement.locks

/-- Whether an event gives a lock back: a release that gets past its fence checks. -/
def givesBack (e : QueueEvent) (d : ExecutionDomain) (lock : Lock) : Bool :=
  match e with
  | internalReleaseResources operationId resources _ _ _ =>
    !d.isFenced && (SqliteStore.epochFencing d.domainId d.store).toBool &&
      lock.operationId = operationId && (resources.isEmpty || resources.contains lock.resourceId)
  | _ => false

def after (e : QueueEvent) (q : Queueing) : Queueing where
  domain := (e.run q).1
  nextTicket := q.nextTicket + 1
  held := (q.held.filter fun lock => !e.givesBack q.domain lock) ++ e.grants q

/-- The requests that the event takes out of the queue the first of. -/
def removes : QueueEvent → Option (Waiter → Bool)
  | cancelWait operationId => some fun w => w.operationId = operationId
  | waitTimeout ticket _ _ => some fun w => w.ticket = ticket
  | _ => none

/-- Requests are made under an id, and nobody waits for the quota by name. -/
def Ordinary : QueueEvent → Prop
  | allocateResourcesWithWait operationId resources _ _ =>
    operationId ≠ "" ∧ quotaResource ∉ resources
  | allocateResources operationId _ _ => operationId ≠ ""
  | _ => True

end QueueEvent

/-! ## Taking a request out of the queue -/

namespace ExecutionDomain

/-- The domain without the first request of a kind. -/
def withoutFirst (p : Waiter → Bool) (d : ExecutionDomain) : ExecutionDomain :=
  { d with waitQueue := d.waitQueue.eraseP p }

variable {d : ExecutionDomain}

theorem withoutFirst_of_find?_eq_none {p : Waiter → Bool} (h : d.waitQueue.find? p = none) :
    d.withoutFirst p = d := by
  unfold withoutFirst
  rw [List.eraseP_of_forall_not (fun w hw => by simpa using List.find?_eq_none.1 h w hw)]

theorem cancelWait_fst (operationId : String) (d : ExecutionDomain) :
    (cancelWait operationId d).1 = d.withoutFirst fun w => w.operationId = operationId := by
  unfold cancelWait
  split
  · rename_i hnone
    rw [withoutFirst_of_find?_eq_none hnone]
  · rfl

theorem waitTimeout_fst (ticket : Nat) (isCancelled : Waiter → Bool) (elapsed : Waiter → Nat)
    (d : ExecutionDomain) :
    (waitTimeout ticket isCancelled elapsed d).1 = d.withoutFirst fun w => w.ticket = ticket := by
  unfold waitTimeout
  split
  · rename_i hnone
    rw [withoutFirst_of_find?_eq_none hnone]
  · rfl

/-- The first request of the kind is all that a later request waits for. -/
def Strands (p : Waiter → Bool) (d : ExecutionDomain) : Prop :=
  ∃ ahead x mid w behind, d.waitQueue = ahead ++ x :: (mid ++ w :: behind) ∧
    (∀ y ∈ ahead, p y = false) ∧ p x = true ∧ Grantable d (ahead ++ mid) w

/-- Taking a request out loses a wakeup exactly when a later one waited for it alone. -/
theorem noLostWakeup_withoutFirst_iff {p : Waiter → Bool} (h : NoLostWakeup d) :
    NoLostWakeup (d.withoutFirst p) ↔ ¬ Strands p d := by
  constructor
  · rintro hafter ⟨ahead, x, mid, w, behind, hqueue, hahead, hx, hgrantable⟩
    have herased : (d.withoutFirst p).waitQueue = (ahead ++ mid) ++ w :: behind := by
      show d.waitQueue.eraseP p = _
      rw [hqueue, List.eraseP_append_right _ (fun y hy => by simp [hahead y hy]),
        List.eraseP_cons_of_pos hx, List.append_assoc]
    exact hafter _ w behind herased hgrantable
  · intro hstrands pre w behind hqueue hgrantable
    by_cases hany : ∃ y ∈ d.waitQueue, p y = true
    · obtain ⟨y, hy, hpy⟩ := hany
      obtain ⟨x, ahead, rest, hahead, hx, hsplit, herased⟩ := List.exists_of_eraseP hy hpy
      have hcut : ahead ++ rest = pre ++ w :: behind := herased.symm.trans hqueue
      rcases List.append_eq_append_iff.1 hcut with ⟨mid, rfl, hrest⟩ | ⟨c, hc, hw⟩
      · -- the waiter stood behind the one that left
        refine hstrands ⟨ahead, x, mid, w, behind, ?_, ?_, hx, hgrantable⟩
        · rw [hsplit, hrest]
        · exact fun y hy => by simpa using hahead y hy
      · -- the waiter stood ahead of it, where nothing has changed
        cases c with
        | nil =>
          refine hstrands ⟨ahead, x, [], w, behind, ?_, ?_, hx, ?_⟩
          · rw [hsplit, List.nil_append, ← List.nil_append rest, ← hw]
          · exact fun y hy => by simpa using hahead y hy
          · have heq : ahead = pre := by simpa using hc
            rw [List.append_nil, heq]
            exact hgrantable
        | cons c cs =>
          obtain ⟨rfl, -⟩ := List.cons.inj hw
          exact h pre w (cs ++ x :: rest) (by rw [hsplit, hc]; simp) hgrantable
    · have hnone : d.waitQueue.eraseP p = d.waitQueue :=
        List.eraseP_of_forall_not fun y hy => fun hp => hany ⟨y, hy, hp⟩
      exact h pre w behind (hnone.symm.trans hqueue) hgrantable

/-! ## Wakeups -/

/-- The domain as ordinary events find it and leave it. -/
structure Ready (d : ExecutionDomain) : Prop where
  unfenced : Unfenced d
  holders : HoldersNamed d
  waiters : ∀ w ∈ d.waitQueue, ExecutionDomain.Ordinary w

/-- A scan of a ready domain. -/
theorem processWaitQueue_ready (h : Ready d) (isCancelled : Waiter → Bool)
    (elapsed : Waiter → Nat) :
    Ready (processWaitQueue isCancelled elapsed d).1 ∧
      NoLostWakeup (processWaitQueue isCancelled elapsed d).1 := by
  have hscan := scan_scanQueue isCancelled elapsed [] d.waitQueue false d
  have hrun : processWaitQueue isCancelled elapsed d =
      scanQueue isCancelled elapsed [] d.waitQueue [] false d := by
    unfold processWaitQueue
    rw [if_neg (by simp [h.unfenced.notFenced])]
  rw [hrun]
  obtain ⟨hdomain, hstore, hfenced⟩ := hscan.store
  obtain ⟨kept, hqueue, hsub⟩ := hscan.kept
  refine ⟨⟨⟨hfenced.trans h.unfenced.notFenced, ?_, ?_⟩, (hscan.grows h.holders h.waiters).2, ?_⟩, ?_⟩
  · exact (congrArg₂ SqliteStore.epochFencing hdomain hstore).trans h.unfenced.currentEpoch
  · exact fun hempty => h.unfenced.named (hdomain.symm.trans hempty)
  · intro w hw
    rw [show (scanQueue isCancelled elapsed [] d.waitQueue [] false d).1.waitQueue = kept from
      hqueue] at hw
    exact h.waiters w (hsub.subset hw)
  · intro ahead w behind hsplit
    exact hscan.not_grantable h.unfenced.notFenced h.holders h.waiters (by simp) kept hqueue
      ahead w behind (hqueue.symm.trans hsplit)

theorem afterRelease_ready (h : Ready d) (operationId : String) (resources : List String)
    (row : JournalRow) : Ready (afterRelease operationId resources row d) := by
  refine ⟨h.unfenced.afterRelease operationId resources row, ?_, ?_⟩
  · intro r holder howner
    rw [afterRelease_owner] at howner
    obtain ⟨-, -, hdrops, -⟩ := releaseLocks_effect operationId resources d
    by_cases hdrop : d.Drops operationId resources r
    · rw [(hdrops r).1 hdrop] at howner
      cases howner
    · rw [(hdrops r).2 hdrop] at howner
      exact h.holders r holder howner
  · rw [afterRelease_waitQueue]
    exact h.waiters

theorem grant_ready {d' : ExecutionDomain} {operationId : String} {resources : List String}
    (h : Ready d) (hop : operationId ≠ "") (halloc : Allocated operationId resources d d') :
    Ready d' := by
  have hholders := h.holders.allocated hop halloc
  obtain ⟨-, -, -, rfl⟩ := halloc
  have hsame := sameButLocks_grant operationId resources d
  refine ⟨⟨hsame.isFenced.trans h.unfenced.notFenced, ?_, ?_⟩, hholders, ?_⟩
  · exact (congrArg₂ SqliteStore.epochFencing hsame.domainId hsame.store).trans
      h.unfenced.currentEpoch
  · exact fun hempty => h.unfenced.named (hsame.domainId.symm.trans hempty)
  · rw [hsame.waitQueue]
    exact h.waiters

/-- A grant wakes nobody and leaves nobody to wake. -/
theorem grant_noLostWakeup {d' : ExecutionDomain} {operationId : String} {resources : List String}
    (h : NoLostWakeup d) (hnamed : HoldersNamed d) (halloc : Allocated operationId resources d d') :
    NoLostWakeup d' := by
  have hgrows := grows_of_allocated hnamed halloc
  obtain ⟨-, -, -, rfl⟩ := halloc
  intro ahead w behind hqueue hgrantable
  rw [(sameButLocks_grant operationId resources d).waitQueue] at hqueue
  exact h ahead w behind hqueue (hgrantable.of_grows hgrows)

/-- A request that has to wait could not be granted. -/
theorem queued_noLostWakeup {item : Waiter} (h : NoLostWakeup d) (hfenced : d.isFenced = false)
    (hwhy : overlaps item.resources (d.waitQueue.flatMap Waiter.resources) = true ∨
      ∃ e, Refused item.operationId item.resources d e) :
    NoLostWakeup { d with waitQueue := d.waitQueue ++ [item] } := by
  intro ahead w behind hqueue hgrantable
  have hbefore : Grantable d ahead w := hgrantable
  rcases List.eq_nil_or_concat behind with rfl | ⟨behind', last, rfl⟩
  · obtain ⟨rfl, hw⟩ := List.append_inj' hqueue rfl
    cases hw
    rcases hwhy with hoverlaps | ⟨e, hrefused⟩
    · rw [hbefore.2.1] at hoverlaps
      cases hoverlaps
    · exact not_grantable_of_refused hrefused hfenced (Grows.refl d) _ hbefore
  · have hsplit : d.waitQueue ++ [item] = (ahead ++ w :: behind') ++ [last] := by
      simpa using hqueue
    exact h ahead w behind' (List.append_inj' hsplit rfl).1 hbefore

end ExecutionDomain

namespace QueueEvent

/-- The event takes out the request that a later one waits for alone. -/
def Strands (e : QueueEvent) (q : Queueing) : Prop :=
  ∃ p, e.removes = some p ∧ q.domain.Strands p

theorem requested_run (q : Queueing) (operationId : String) (resources : List String)
    (maxWaitMs : Nat) (cancelled : Bool) :
    let r := (allocateResourcesWithWait operationId resources maxWaitMs cancelled).run q
    Requested ⟨q.nextTicket, operationId, resources⟩ q.domain r.1 r.2 :=
  requested_allocateResourcesWithWait _ maxWaitMs cancelled q.domain

/-- One event of a ready domain: a wakeup is lost exactly when the event strands a request. -/
theorem ready_after {e : QueueEvent} {q : Queueing} (he : e.Ordinary) (h : Ready q.domain)
    (hwoken : NoLostWakeup q.domain) :
    Ready (e.after q).domain ∧ (NoLostWakeup (e.after q).domain ↔ ¬ e.Strands q) := by
  have hnone : e.removes = none → ¬ e.Strands q := by
    rintro hremoves ⟨p, hp, -⟩
    rw [hremoves] at hp
    cases hp
  have hremoval : ∀ p, e.removes = some p → (e.run q).1 = q.domain.withoutFirst p →
      Ready (e.after q).domain ∧ (NoLostWakeup (e.after q).domain ↔ ¬ e.Strands q) := by
    intro p hp hrun
    have hstrands : e.Strands q ↔ q.domain.Strands p :=
      ⟨fun ⟨p', hp', hs⟩ => by cases hp.symm.trans hp'; exact hs, fun hs => ⟨p, hp, hs⟩⟩
    show Ready (e.run q).1 ∧ (NoLostWakeup (e.run q).1 ↔ _)
    rw [hrun, hstrands]
    refine ⟨⟨⟨h.unfenced.notFenced, h.unfenced.currentEpoch, h.unfenced.named⟩, h.holders, ?_⟩,
      noLostWakeup_withoutFirst_iff hwoken⟩
    exact fun w hw => h.waiters w (List.mem_of_mem_eraseP hw)
  have hkept : e.removes = none → Ready (e.run q).1 ∧ NoLostWakeup (e.run q).1 →
      Ready (e.after q).domain ∧ (NoLostWakeup (e.after q).domain ↔ ¬ e.Strands q) := by
    rintro hremoves ⟨hready, hlost⟩
    exact ⟨hready, iff_of_true hlost (hnone hremoves)⟩
  cases e with
  | allocateResourcesWithWait operationId resources maxWaitMs cancelled =>
    refine hkept rfl ?_
    have hrequested := requested_run q operationId resources maxWaitMs cancelled
    generalize run _ q = r at hrequested
    obtain ⟨d', out⟩ := r
    cases hrequested with
    | granted hdisjoint halloc =>
      exact ⟨grant_ready h he.1 halloc, grant_noLostWakeup hwoken h.holders halloc⟩
    | settled outcome hne => exact ⟨h, hwoken⟩
    | queued hfenced hwhy =>
      refine ⟨⟨⟨h.unfenced.notFenced, h.unfenced.currentEpoch, h.unfenced.named⟩,
        h.holders, ?_⟩, queued_noLostWakeup hwoken hfenced hwhy⟩
      intro w hw
      rcases List.mem_append.1 hw with hw | hw
      · exact h.waiters w hw
      · rw [List.mem_singleton.1 hw]
        exact he
  | allocateResources operationId resources waitedDurationMs =>
    refine hkept rfl ?_
    simp only [run]
    cases halloc : ExecutionDomain.allocateResources operationId resources waitedDurationMs
        q.domain with
    | error => exact ⟨h, hwoken⟩
    | ok d' =>
      exact ⟨grant_ready h he (allocateResources_ok halloc),
        grant_noLostWakeup hwoken h.holders (allocateResources_ok halloc)⟩
  | internalReleaseResources operationId resources isCancelled elapsed now =>
    refine hkept rfl ?_
    obtain ⟨row, -, hrun⟩ :=
      internalReleaseResources_run h.unfenced operationId resources isCancelled elapsed now
    simp only [run, hrun]
    exact processWaitQueue_ready (afterRelease_ready h operationId resources row) isCancelled
      elapsed
  | cancelWait operationId => exact hremoval _ rfl (cancelWait_fst operationId q.domain)
  | waitTimeout ticket isCancelled elapsed =>
    exact hremoval _ rfl (waitTimeout_fst ticket isCancelled elapsed q.domain)

end QueueEvent

/-- On an unfenced domain, along every run of ordinary events: no wakeup is lost exactly as long
    as no cancellation and no timeout strands a request. -/
theorem noLostWakeup_along_iff {d : ExecutionDomain} (hunfenced : Unfenced d)
    (hholders : HoldersNamed d) (hqueue : d.waitQueue = []) (events : List QueueEvent)
    (hordinary : ∀ e ∈ events, e.Ordinary) :
    Along QueueEvent.after (fun q e => NoLostWakeup (e.after q).domain) (Queueing.start d) events ↔
      Along QueueEvent.after (fun q e => ¬ e.Strands q) (Queueing.start d) events := by
  have hready : Ready (Queueing.start d).domain :=
    ⟨hunfenced, hholders, fun w hw => by simp [Queueing.start, hqueue] at hw⟩
  have hwoken : NoLostWakeup (Queueing.start d).domain := by
    intro ahead w behind hsplit
    simp [Queueing.start, hqueue] at hsplit
  generalize Queueing.start d = q at hready hwoken ⊢
  induction events generalizing q with
  | nil => exact Iff.rfl
  | cons e events ih =>
    obtain ⟨hready', hiff⟩ :=
      QueueEvent.ready_after (hordinary e (List.mem_cons_self ..)) hready hwoken
    simp only [Along]
    rw [hiff]
    refine and_congr_right fun hkept => ?_
    exact ih (List.forall_mem_of_forall_mem_cons hordinary) _ hready' (hiff.2 hkept)

/-- A domain in which nothing has happened. -/
def openedDomain : ExecutionDomain where
  domainId := "d"
  store := { db := Database.sample, currentEpoch := some 1 }
  epoch := 1

theorem openedDomain_unfenced : Unfenced openedDomain := ⟨rfl, rfl, by decide⟩

theorem openedDomain_holders : HoldersNamed openedDomain := by
  intro r holder howner
  cases howner

/-- A request that waits for a release, and the release. -/
def releaseRun : List QueueEvent :=
  [.allocateResources "A" ["r"] 0, .allocateResourcesWithWait "B" ["r"] 1000 false,
    .internalReleaseResources "A" [] (fun _ => false) (fun _ => 5) 10]

/-- A release strands nobody. -/
theorem release_wakes :
    Along QueueEvent.after (fun q e => NoLostWakeup (e.after q).domain)
      (Queueing.start openedDomain) releaseRun := by
  refine (noLostWakeup_along_iff openedDomain_unfenced openedDomain_holders rfl releaseRun
    ?_).2 ?_
  · intro e he
    simp only [releaseRun, List.mem_cons, List.not_mem_nil, or_false] at he
    rcases he with rfl | rfl | rfl
    · exact (by decide : "A" ≠ "")
    · exact (by decide : "B" ≠ "" ∧ quotaResource ∉ ["r"])
    · trivial
  · refine ⟨?_, ?_, ?_, trivial⟩ <;> exact fun ⟨p, hp, _⟩ => by cases hp

/-- `B` waits for `A`, `C` waits for `B`; then `B` gives up. -/
def timeoutRun : List QueueEvent :=
  [.allocateResources "A" ["r"] 0, .allocateResourcesWithWait "B" ["r", "s"] 1000 false,
    .allocateResourcesWithWait "C" ["s"] 5000 false,
    .waitTimeout 1 (fun _ => false) (fun _ => 1000)]

/-- Nobody holds what `C` waits for, nobody waits ahead of it, and it sleeps on. -/
theorem timeout_loses_wakeup :
    Unfenced openedDomain ∧ openedDomain.waitQueue = [] ∧
      ¬ Along QueueEvent.after (fun q e => NoLostWakeup (e.after q).domain)
        (Queueing.start openedDomain) timeoutRun := by
  refine ⟨openedDomain_unfenced, rfl, ?_⟩
  rintro ⟨-, -, -, hwoken, -⟩
  refine hwoken [] ⟨2, "C", ["s"]⟩ [] (by decide) ⟨?_, rfl, by decide⟩
  intro r hr holder howner
  have hfree : (afterAll QueueEvent.after (Queueing.start openedDomain)
      timeoutRun).domain.getResourceOwner "s" = none := by decide
  rw [List.mem_singleton.1 hr] at howner
  exact absurd (hfree.symm.trans howner) (by simp)

/-! ## Order and exclusivity -/

namespace ExecutionDomain

/-- Each lease of the domain in the store has its lock in memory. -/
def LeasesAgree (d : ExecutionDomain) : Prop :=
  ∀ lease ∈ d.store.getPersistedResourceLeases d.domainId,
    lease.operationId ≠ "" ∧ d.getResourceOwner lease.resourceId = some lease.operationId

variable {d : ExecutionDomain} {operationId : String}

theorem mem_persistedLeases {r : String} (h : r ∈ d.persistedLeases operationId) :
    ∃ lease ∈ d.store.getPersistedResourceLeases d.domainId,
      lease.operationId = operationId ∧ lease.resourceId = r := by
  obtain ⟨lease, hlease, rfl⟩ := List.mem_map.1 h
  obtain ⟨hmem, hop⟩ := List.mem_filter.1 hlease
  exact ⟨lease, hmem, of_decide_eq_true hop, rfl⟩

/-- Where leases agree with locks, a release takes away locks of the operation only. -/
theorem LeasesAgree.owner_of_drops {r : String} {resources : List String} (h : LeasesAgree d)
    (hdrops : d.Drops operationId resources r) :
    d.getResourceOwner r = some operationId ∧ (resources = [] ∨ r ∈ resources) := by
  unfold Drops at hdrops
  split at hdrops
  · rename_i hall
    exact ⟨hdrops, .inl hall⟩
  · obtain ⟨hmem, howner | hpersisted⟩ := hdrops
    · exact ⟨howner, .inr hmem⟩
    · obtain ⟨lease, hlease, rfl, rfl⟩ := mem_persistedLeases hpersisted
      exact ⟨(h lease hlease).2, .inr hmem⟩

theorem LeasesAgree.releaseLocks (h : LeasesAgree d) (operationId : String)
    (resources : List String) : LeasesAgree (releaseLocks operationId resources d).1 := by
  obtain ⟨hrel, -, hdrops, hleases⟩ := releaseLocks_effect operationId resources d
  intro lease hlease
  obtain ⟨hmem, hdomain⟩ := Table.mem_select.1 hlease
  obtain ⟨leases, hdb, hsub, -⟩ := hrel.db
  have hold : lease ∈ d.store.getPersistedResourceLeases d.domainId := by
    rw [hrel.domainId] at hdomain
    rw [hdb] at hmem
    exact Table.mem_select.2 ⟨hsub lease hmem, hdomain⟩
  obtain ⟨hnamed, howner⟩ := h lease hold
  have hkept : ¬ d.Drops operationId resources lease.resourceId := by
    intro hdrop
    have hop := (h.owner_of_drops hdrop).1
    rw [howner, Option.some.injEq] at hop
    exact hleases lease hmem hop hdrop
  exact ⟨hnamed, ((hdrops _).2 hkept).trans howner⟩

/-- Leases agree with locks as long as named holders keep them. -/
theorem LeasesAgree.mono {d' : ExecutionDomain} (h : LeasesAgree d)
    (hdomain : d'.domainId = d.domainId) (hstore : d'.store = d.store)
    (hkeeps : ∀ r holder, holder ≠ "" → d.getResourceOwner r = some holder →
      d'.getResourceOwner r = some holder) : LeasesAgree d' := by
  intro lease hlease
  rw [hdomain, hstore] at hlease
  obtain ⟨hnamed, howner⟩ := h lease hlease
  exact ⟨hnamed, hkeeps _ _ hnamed howner⟩

theorem cancelWait_grants_nothing : ∀ g ∈ (cancelWait operationId d).2, g.outcome ≠ .granted := by
  unfold cancelWait
  split <;> simp

theorem waitTimeout_grants_nothing {ticket : Nat} {isCancelled : Waiter → Bool}
    {elapsed : Waiter → Nat} :
    ∀ g ∈ (waitTimeout ticket isCancelled elapsed d).2, g.outcome ≠ .granted := by
  unfold waitTimeout
  split
  · simp
  · split <;> simp

end ExecutionDomain

theorem mem_locksFor {lock : Lock} {operationId : String} {resources : List String} :
    lock ∈ locksFor operationId resources ↔
      lock.operationId = operationId ∧ lock.resourceId ∈ resources := by
  unfold locksFor
  rw [List.mem_map]
  constructor
  · rintro ⟨r, hr, rfl⟩
    exact ⟨rfl, hr⟩
  · rintro ⟨rfl, hr⟩
    exact ⟨_, hr, rfl⟩

theorem mem_settlement_locks {lock : Lock} {out : List Settlement} :
    lock ∈ out.flatMap Settlement.locks ↔ ∃ g ∈ out, g.outcome = .granted ∧
      g.waiter.operationId = lock.operationId ∧ lock.resourceId ∈ g.waiter.resources := by
  rw [List.mem_flatMap]
  refine exists_congr fun g => and_congr_right fun _ => ?_
  unfold Settlement.locks
  by_cases hgranted : g.outcome = .granted
  · rw [if_pos hgranted, mem_locksFor]
    exact ⟨fun h => ⟨hgranted, h.1.symm, h.2⟩, fun h => ⟨h.2.1.symm, h.2.2⟩⟩
  · rw [if_neg hgranted]
    exact ⟨fun h => absurd h (List.not_mem_nil), fun h => absurd h.1 hgranted⟩

/-- What holds of every event of a run: who holds what afterwards, and in which order. -/
structure ServedInOrder (e : QueueEvent) (q : Queueing) : Prop where
  /-- What was granted to an operation and not given back is locked by it. -/
  locked : ∀ lock ∈ (e.after q).held, lock.operationId ≠ "" →
    (e.after q).domain.getResourceOwner lock.resourceId = some lock.operationId
  /-- So no two operations have been granted one resource. -/
  exclusive : ∀ lock ∈ (e.after q).held, ∀ lock' ∈ (e.after q).held,
    lock.operationId ≠ "" → lock'.operationId ≠ "" → lock.resourceId = lock'.resourceId →
      lock.operationId = lock'.operationId
  /-- A granted request has all of its resources. -/
  whole : ∀ g ∈ (e.run q).2, g.outcome = .granted → g.waiter.operationId ≠ "" →
    ∀ r ∈ g.waiter.resources,
      (e.after q).domain.getResourceOwner r = some g.waiter.operationId
  /-- Nobody gets a lock otherwise, so the others have none of theirs. -/
  granted : ∀ r holder, (e.after q).domain.getResourceOwner r = some holder →
    q.domain.getResourceOwner r = some holder ∨ ⟨r, holder⟩ ∈ e.grants q
  /-- A granted request competes with no earlier one that still waits. -/
  inOrder : ∀ g ∈ (e.run q).2, g.outcome = .granted → ∀ w ∈ g.queue,
    w.ticket < g.waiter.ticket → overlaps g.waiter.resources w.resources = false

/-- The queue is in the order of the tickets, and the locks are those that were granted. -/
structure Orderly (q : Queueing) : Prop where
  tickets : q.domain.waitQueue.Pairwise fun w w' => w.ticket < w'.ticket
  fresh : ∀ w ∈ q.domain.waitQueue, w.ticket < q.nextTicket
  leases : LeasesAgree q.domain
  locked : ∀ lock ∈ q.held, lock.operationId ≠ "" →
    q.domain.getResourceOwner lock.resourceId = some lock.operationId

/-- What an event does to the locks and to the queue: `givesBack` are the locks it releases,
    `granted` those it grants. -/
structure Turn (q : Queueing) (givesBack : Lock → Bool) (granted : List Lock)
    (d' : ExecutionDomain) (out : List Settlement) : Prop where
  keeps : ∀ lock : Lock, lock.operationId ≠ "" → givesBack lock = false →
    q.domain.getResourceOwner lock.resourceId = some lock.operationId →
    d'.getResourceOwner lock.resourceId = some lock.operationId
  gets : ∀ lock ∈ granted, lock.operationId ≠ "" →
    d'.getResourceOwner lock.resourceId = some lock.operationId
  adds : ∀ r holder, d'.getResourceOwner r = some holder →
    q.domain.getResourceOwner r = some holder ∨ ⟨r, holder⟩ ∈ granted
  leases : LeasesAgree d'
  queue : d'.waitQueue.Sublist q.domain.waitQueue ∨
    ∃ w, w.ticket = q.nextTicket ∧ d'.waitQueue = q.domain.waitQueue ++ [w]
  whole : ∀ g ∈ out, g.outcome = .granted →
    ∀ r ∈ g.waiter.resources, ⟨r, g.waiter.operationId⟩ ∈ granted
  inOrder : ∀ g ∈ out, g.outcome = .granted → ∀ w ∈ g.queue,
    w.ticket < g.waiter.ticket → overlaps g.waiter.resources w.resources = false

theorem overlaps_eq_false_of_mem {resources : List String} {queue : List Waiter} {w : Waiter}
    (h : overlaps resources (queue.flatMap Waiter.resources) = false) (hw : w ∈ queue) :
    overlaps resources w.resources = false := by
  unfold overlaps at h ⊢
  rw [List.any_eq_false] at h ⊢
  intro r hr hcontains
  refine h r hr ?_
  rw [List.contains_iff_mem] at hcontains ⊢
  exact List.mem_flatMap.2 ⟨w, hw, hcontains⟩

section Turn

variable {q : Queueing} {d' : ExecutionDomain} {out : List Settlement}

/-- An event that touches no lock and no lease. -/
theorem turn_of_idle (hleases : LeasesAgree q.domain) (givesBack : Lock → Bool)
    (hout : ∀ g ∈ out, g.outcome ≠ .granted) (hdomain : d'.domainId = q.domain.domainId)
    (hstore : d'.store = q.domain.store)
    (howner : ∀ r, d'.getResourceOwner r = q.domain.getResourceOwner r)
    (hqueue : d'.waitQueue.Sublist q.domain.waitQueue ∨
      ∃ w, w.ticket = q.nextTicket ∧ d'.waitQueue = q.domain.waitQueue ++ [w]) :
    Turn q givesBack (out.flatMap Settlement.locks) d' out where
  keeps lock _ _ h := (howner _).trans h
  gets lock hlock := by
    obtain ⟨g, hg, houtcome, -⟩ := mem_settlement_locks.1 hlock
    exact absurd houtcome (hout g hg)
  adds r holder h := .inl ((howner r).symm.trans h)
  leases := hleases.mono hdomain hstore fun r holder _ h => (howner r).trans h
  queue := hqueue
  whole g hg houtcome := absurd houtcome (hout g hg)
  inOrder g hg houtcome := absurd houtcome (hout g hg)

/-- An allocation that was granted without a wait. -/
theorem turn_of_allocated {operationId : String} {resources : List String}
    (hleases : LeasesAgree q.domain) (halloc : Allocated operationId resources q.domain d')
    (hwhole : ∀ g ∈ out, g.outcome = .granted → ∀ r ∈ g.waiter.resources,
      ⟨r, g.waiter.operationId⟩ ∈ locksFor operationId resources)
    (hinOrder : ∀ g ∈ out, g.outcome = .granted → ∀ w ∈ g.queue,
      w.ticket < g.waiter.ticket → overlaps g.waiter.resources w.resources = false) :
    Turn q (fun _ => false) (locksFor operationId resources) d' out := by
  have howner := halloc.owner
  obtain ⟨-, -, -, heq⟩ := halloc
  have hsame : SameButLocks q.domain d' := heq ▸ sameButLocks_grant operationId resources q.domain
  refine ⟨fun lock hnamed _ h => (howner _).1 _ hnamed h, ?_, ?_, ?_, ?_, hwhole, hinOrder⟩
  · intro lock hlock _
    obtain ⟨rfl, hmem⟩ := mem_locksFor.1 hlock
    exact (howner _).2.2 hmem
  · intro r holder h
    exact ((howner r).2.1 holder h).imp_right mem_locksFor.2
  · exact hleases.mono hsame.domainId hsame.store fun r => (howner r).1
  · rw [hsame.waitQueue]
    exact .inl (List.Sublist.refl _)

theorem turn_of_requested {item : Waiter} (hleases : LeasesAgree q.domain)
    (hticket : item.ticket = q.nextTicket) (h : Requested item q.domain d' out) :
    Turn q (fun _ => false) (out.flatMap Settlement.locks) d' out := by
  cases h with
  | granted hdisjoint halloc =>
    have hlocks : [(⟨item, .granted, q.domain.waitQueue⟩ : Settlement)].flatMap
        Settlement.locks = locksFor item.operationId item.resources := by
      simp [Settlement.locks]
    rw [hlocks]
    refine turn_of_allocated hleases halloc ?_ ?_
    · intro g hg _ r hr
      rw [List.mem_singleton.1 hg] at hr ⊢
      exact mem_locksFor.2 ⟨rfl, hr⟩
    · intro g hg _ w hw _
      rw [List.mem_singleton.1 hg] at hw ⊢
      exact overlaps_eq_false_of_mem hdisjoint hw
  | settled outcome hne =>
    exact turn_of_idle hleases _ (by simpa using hne) rfl rfl (fun _ => rfl)
      (.inl (List.Sublist.refl _))
  | queued =>
    exact turn_of_idle hleases _ (by simp) rfl rfl (fun _ => rfl)
      (.inr ⟨item, hticket, rfl⟩)

/-- A request that is taken out. -/
theorem turn_of_removal (hleases : LeasesAgree q.domain) (p : Waiter → Bool)
    (hout : ∀ g ∈ out, g.outcome ≠ .granted) :
    Turn q (fun _ => false) (out.flatMap Settlement.locks) (q.domain.withoutFirst p) out :=
  turn_of_idle hleases _ hout rfl rfl (fun _ => rfl) (.inl List.eraseP_sublist)

/-- A release past its fence checks, whatever it does to the journal. -/
theorem turn_of_release {operationId : String} {resources : List String}
    (hleases : LeasesAgree q.domain)
    (hdomain : d'.domainId = q.domain.domainId)
    (hrows : d'.store.db.resourceLeases =
      (releaseLocks operationId resources q.domain).1.store.db.resourceLeases)
    (howner : ∀ r, d'.getResourceOwner r =
      (releaseLocks operationId resources q.domain).1.getResourceOwner r)
    (hqueue : d'.waitQueue = q.domain.waitQueue) {givesBack : Lock → Bool}
    (hgives : ∀ lock : Lock, lock.operationId = operationId →
      (resources = [] ∨ lock.resourceId ∈ resources) → givesBack lock = true) :
    Turn q givesBack [] d' [] := by
  obtain ⟨hrel, -, hdrops, -⟩ := releaseLocks_effect operationId resources q.domain
  refine ⟨?_, by simp, ?_, ?_, ?_, by simp, by simp⟩
  · intro lock _ hkept h
    rw [howner, (hdrops _).2, h]
    intro hdrop
    obtain ⟨howned, hnamed⟩ := hleases.owner_of_drops hdrop
    rw [h, Option.some.injEq] at howned
    rw [hgives lock howned hnamed] at hkept
    cases hkept
  · intro r holder h
    rw [howner] at h
    by_cases hdrop : q.domain.Drops operationId resources r
    · rw [(hdrops r).1 hdrop] at h
      cases h
    · rw [(hdrops r).2 hdrop] at h
      exact .inl h
  · intro lease hlease
    have hafter := hleases.releaseLocks operationId resources
    unfold LeasesAgree SqliteStore.getPersistedResourceLeases at hafter
    unfold SqliteStore.getPersistedResourceLeases at hlease
    rw [hrel.domainId] at hafter
    rw [hdomain, hrows] at hlease
    rw [howner]
    exact hafter lease hlease
  · rw [hqueue]
    exact .inl (List.Sublist.refl _)

/-- The scan that follows a release. -/
theorem turn_of_scan {d₁ : ExecutionDomain} {givesBack : Lock → Bool} {isCancelled : Waiter → Bool}
    (hfirst : Turn q givesBack [] d₁ []) (hqueue : d₁.waitQueue = q.domain.waitQueue)
    (htickets : q.domain.waitQueue.Pairwise fun w w' => w.ticket < w'.ticket)
    (hscan : Scan isCancelled [] d₁.waitQueue false d₁ d' out) :
    Turn q givesBack (out.flatMap Settlement.locks) d' out := by
  refine ⟨?_, ?_, ?_, ?_, ?_, ?_, ?_⟩
  · exact fun lock hnamed hkept h =>
      (hscan.owner _).1 _ hnamed (hfirst.keeps lock hnamed hkept h)
  · intro lock hlock hnamed
    obtain ⟨g, hg, houtcome, hop, hmem⟩ := mem_settlement_locks.1 hlock
    rw [← hop]
    exact hscan.granted_owner g hg houtcome (hop ▸ hnamed) _ hmem
  · intro r holder h
    rcases (hscan.owner r).2 holder h with hbefore | ⟨g, hg, houtcome, hop, hmem⟩
    · exact .inl ((hfirst.adds r holder hbefore).resolve_right (List.not_mem_nil))
    · exact .inr (mem_settlement_locks.2 ⟨g, hg, houtcome, hop, hmem⟩)
  · obtain ⟨hdomain, hstore, -⟩ := hscan.store
    exact hfirst.leases.mono hdomain hstore fun r => (hscan.owner r).1
  · obtain ⟨kept, hkept, hsub⟩ := hscan.kept
    rw [hkept, List.nil_append, ← hqueue]
    exact .inl hsub
  · exact fun g hg houtcome r hr => mem_settlement_locks.2 ⟨g, hg, houtcome, rfl, hr⟩
  · intro g hg houtcome w hw hearlier
    obtain ⟨ahead, behind, hsplit, hdisjoint, hsub⟩ := hscan.granted_behind g hg houtcome
    rw [List.nil_append, hqueue] at hsub
    have hsorted := htickets.sublist hsub
    rw [hsplit] at hsorted hw
    -- an earlier request stands ahead of it, where the scan has looked
    rcases List.mem_append.1 hw with hahead | hbehind
    · exact overlaps_eq_false_of_mem hdisjoint hahead
    · obtain ⟨-, hlater, -⟩ := List.pairwise_append.1 hsorted
      rcases List.mem_cons.1 hbehind with rfl | hlast
      · exact absurd hearlier (Nat.lt_irrefl _)
      · exact absurd hearlier (Nat.lt_asymm ((List.pairwise_cons.1 hlater).1 w hlast))

end Turn

namespace QueueEvent

/-- The three ends of a release: a fence check that throws, a scan of the queue, and a journal
    that refuses the event. -/
theorem run_release_cases (operationId : String) (resources : List String)
    (isCancelled : Waiter → Bool) (elapsed : Waiter → Nat) (now : Timestamp) (q : Queueing) :
    let e := internalReleaseResources operationId resources isCancelled elapsed now
    ((q.domain.isFenced = true ∨ ∃ err,
        SqliteStore.epochFencing q.domain.domainId q.domain.store = .error err) ∧
      e.run q = (q.domain, [])) ∨
      q.domain.isFenced = false ∧
        SqliteStore.epochFencing q.domain.domainId q.domain.store = .ok () ∧
        ((∃ row, e.run q = processWaitQueue isCancelled elapsed
          (afterRelease operationId resources row q.domain)) ∨
        e.run q = (forgetIdle operationId (releaseLocks operationId resources q.domain).1, [])) := by
  intro e
  have hrun : e.run q = match (ExecutionDomain.internalReleaseResources operationId resources
      isCancelled elapsed now).run q.domain with
    | (d, .ok settled) => (d, settled)
    | (d, .error _) => (d, []) := rfl
  have hfenced : (q.domain.isFenced = true ∨ ∃ err,
      SqliteStore.epochFencing q.domain.domainId q.domain.store = .error err) →
        e.run q = (q.domain, []) := by
    intro h
    obtain ⟨err, hthrows⟩ := internalReleaseResources_fenced h operationId resources isCancelled
      elapsed now
    rw [hrun, hthrows]
  rcases Bool.eq_false_or_eq_true q.domain.isFenced with hf | hopen
  · exact .inl ⟨.inl hf, hfenced (.inl hf)⟩
  cases hepoch : SqliteStore.epochFencing q.domain.domainId q.domain.store with
  | error err => exact .inl ⟨.inr ⟨err, rfl⟩, hfenced (.inr ⟨err, hepoch⟩)⟩
  | ok u =>
    rcases internalReleaseResources_unfenced hopen hepoch operationId resources isCancelled
      elapsed now with ⟨-, row, hreturns⟩ | ⟨err, hthrows⟩
    · refine .inr ⟨hopen, rfl, .inl ⟨row, ?_⟩⟩
      rw [hrun, hreturns]
    · refine .inr ⟨hopen, rfl, .inr ?_⟩
      rw [hrun, hthrows]

variable {q : Queueing}

theorem turn_internalRelease (h : Orderly q) (operationId : String) (resources : List String)
    (isCancelled : Waiter → Bool) (elapsed : Waiter → Nat) (now : Timestamp) :
    let e := internalReleaseResources operationId resources isCancelled elapsed now
    Turn q (e.givesBack q.domain) (e.grants q) (e.run q).1 (e.run q).2 := by
  intro e
  have hgrants : e.grants q = (e.run q).2.flatMap Settlement.locks := rfl
  rw [hgrants]
  rcases run_release_cases operationId resources isCancelled elapsed now q with
    ⟨-, hrun⟩ | ⟨hopen, hepoch, hends⟩
  · rw [show e.run q = (q.domain, []) from hrun]
    exact turn_of_idle h.leases _ (by simp) rfl rfl (fun _ => rfl) (.inl (List.Sublist.refl _))
  have hgives : ∀ lock : Lock, lock.operationId = operationId →
      (resources = [] ∨ lock.resourceId ∈ resources) → e.givesBack q.domain lock = true := by
    intro lock hop hnamed
    simp only [e, givesBack, hopen, hepoch, hop]
    simpa [Except.toBool] using hnamed
  obtain ⟨hrel, -⟩ := releaseLocks_effect operationId resources q.domain
  have hrel' := hrel.trans (released_forgetIdle operationId _)
  have hrows : ∀ d : ExecutionDomain,
      (forgetIdle operationId d).store.db.resourceLeases = d.store.db.resourceLeases := by
    intro d
    unfold forgetIdle
    split <;> rfl
  rcases hends with ⟨row, hreturns⟩ | hthrows
  · have hqueue := afterRelease_waitQueue operationId resources row q.domain
    have hdomain : (afterRelease operationId resources row q.domain).domainId =
        q.domain.domainId := hrel'.domainId
    have hfirst : Turn q (e.givesBack q.domain) []
        (afterRelease operationId resources row q.domain) [] :=
      turn_of_release h.leases hdomain (hrows _)
        (afterRelease_owner operationId resources row q.domain) hqueue hgives
    have hscan := scan_scanQueue isCancelled elapsed []
      (afterRelease operationId resources row q.domain).waitQueue false
      (afterRelease operationId resources row q.domain)
    have hprocess : processWaitQueue isCancelled elapsed
        (afterRelease operationId resources row q.domain) =
          scanQueue isCancelled elapsed []
            (afterRelease operationId resources row q.domain).waitQueue [] false
            (afterRelease operationId resources row q.domain) := by
      unfold processWaitQueue
      rw [if_neg]
      show ¬ (forgetIdle operationId (releaseLocks operationId resources q.domain).1).isFenced
        = true
      rw [hrel'.isFenced, hopen]
      simp
    rw [show e.run q = _ from hreturns, hprocess]
    exact turn_of_scan hfirst hqueue h.tickets hscan
  · rw [show e.run q = _ from hthrows]
    exact turn_of_release h.leases hrel'.domainId (hrows _)
      (forgetIdle_owner operationId _) hrel'.waitQueue hgives

/-- Every event takes its turn. -/
theorem turn (e : QueueEvent) (h : Orderly q) :
    Turn q (e.givesBack q.domain) (e.grants q) (e.run q).1 (e.run q).2 := by
  cases e with
  | allocateResourcesWithWait operationId resources maxWaitMs cancelled =>
    exact turn_of_requested h.leases rfl (requested_allocateResourcesWithWait
      ⟨q.nextTicket, operationId, resources⟩ maxWaitMs cancelled q.domain)
  | allocateResources operationId resources waitedDurationMs =>
    simp only [grants, run]
    cases halloc : ExecutionDomain.allocateResources operationId resources waitedDurationMs
        q.domain with
    | error =>
      exact turn_of_idle h.leases _ (by simp) rfl rfl (fun _ => rfl)
        (.inl (List.Sublist.refl _))
    | ok d' =>
      simp only [List.flatMap_nil, List.append_nil]
      exact turn_of_allocated h.leases (allocateResources_ok halloc) (by simp) (by simp)
  | internalReleaseResources operationId resources isCancelled elapsed now =>
    exact turn_internalRelease h operationId resources isCancelled elapsed now
  | cancelWait operationId =>
    have hrun : ((cancelWait operationId).run q).1 = _ := cancelWait_fst operationId q.domain
    rw [hrun]
    exact turn_of_removal h.leases _ cancelWait_grants_nothing
  | waitTimeout ticket isCancelled elapsed =>
    have hrun : ((waitTimeout ticket isCancelled elapsed).run q).1 = _ :=
      waitTimeout_fst ticket isCancelled elapsed q.domain
    rw [hrun]
    exact turn_of_removal h.leases _ waitTimeout_grants_nothing

/-- A turn keeps the queue in order, and everything that was granted locked. -/
theorem orderly_after (e : QueueEvent) (h : Orderly q) :
    ServedInOrder e q ∧ Orderly (e.after q) := by
  have hturn := e.turn h
  have hlocked : ∀ lock ∈ (e.after q).held, lock.operationId ≠ "" →
      (e.after q).domain.getResourceOwner lock.resourceId = some lock.operationId := by
    intro lock hlock hnamed
    rcases List.mem_append.1 hlock with hbefore | hgranted
    · obtain ⟨hheld, hkept⟩ := List.mem_filter.1 hbefore
      exact hturn.keeps lock hnamed (by simpa using hkept) (h.locked lock hheld hnamed)
    · exact hturn.gets lock hgranted hnamed
  constructor
  · refine ⟨hlocked, ?_, ?_, hturn.adds, hturn.inOrder⟩
    · intro lock hlock lock' hlock' hnamed hnamed' hsame
      have howner := hlocked lock hlock hnamed
      rw [hsame, hlocked lock' hlock' hnamed', Option.some.injEq] at howner
      exact howner.symm
    · exact fun g hg houtcome hnamed r hr => hturn.gets _ (hturn.whole g hg houtcome r hr) hnamed
  · refine ⟨?_, ?_, hturn.leases, hlocked⟩
    · rcases hturn.queue with hsub | ⟨w, hticket, hqueue⟩
      · exact h.tickets.sublist hsub
      · show ((e.run q).1.waitQueue).Pairwise _
        rw [hqueue, List.pairwise_append]
        refine ⟨h.tickets, List.pairwise_singleton _ _, fun w' hw' w'' hw'' => ?_⟩
        rw [List.mem_singleton.1 hw'', hticket]
        exact h.fresh w' hw'
    · intro w' hw'
      show w'.ticket < q.nextTicket + 1
      rcases hturn.queue with hsub | ⟨w, hticket, hqueue⟩
      · exact Nat.lt_succ_of_lt (h.fresh w' (hsub.subset hw'))
      · have hmem : w' ∈ q.domain.waitQueue ++ [w] := hqueue ▸ hw'
        rcases List.mem_append.1 hmem with hold | hnew
        · exact Nat.lt_succ_of_lt (h.fresh w' hold)
        · rw [List.mem_singleton.1 hnew, hticket]
          exact Nat.lt_succ_self _

/-- The operation that asks for resources. -/
def requester : QueueEvent → Option String
  | allocateResourcesWithWait operationId _ _ _ | allocateResources operationId _ _ =>
    some operationId
  | _ => none

/-- The operation that gives resources back. -/
def releaser : QueueEvent → Option String
  | internalReleaseResources operationId _ _ _ _ => some operationId
  | _ => none

/-- A named holder keeps its locks while others release theirs. -/
theorem keeps_after {e : QueueEvent} (h : Orderly q) {r holder : String} (hnamed : holder ≠ "")
    (hother : e.releaser ≠ some holder) (howner : q.domain.getResourceOwner r = some holder) :
    (e.after q).domain.getResourceOwner r = some holder := by
  apply (e.turn h).keeps ⟨r, holder⟩ hnamed _ howner
  cases e with
  | internalReleaseResources operationId resources isCancelled elapsed now =>
    have hne : holder ≠ operationId := fun heq => hother (heq ▸ rfl)
    simp [givesBack, hne]
  | _ => rfl

/-- What a scan grants stood in the queue, and what it keeps did. -/
theorem processWaitQueue_waiters (isCancelled : Waiter → Bool) (elapsed : Waiter → Nat)
    (d : ExecutionDomain) :
    (∀ g ∈ (processWaitQueue isCancelled elapsed d).2, g.outcome = .granted →
      g.waiter ∈ d.waitQueue) ∧
    ∀ w ∈ (processWaitQueue isCancelled elapsed d).1.waitQueue, w ∈ d.waitQueue := by
  unfold processWaitQueue
  split
  · exact ⟨fun g hg => absurd hg List.not_mem_nil, fun _ hw => hw⟩
  · have hscan := scan_scanQueue isCancelled elapsed [] d.waitQueue false d
    refine ⟨fun g hg hgranted => ?_, fun w hw => ?_⟩
    · obtain ⟨ahead, behind, hsplit, -, hsub⟩ := hscan.granted_behind g hg hgranted
      apply hsub.subset
      rw [hsplit]
      exact List.mem_append_right _ List.mem_cons_self
    · obtain ⟨kept, hkept, hsub⟩ := hscan.kept
      exact hsub.subset ((congrArg (w ∈ ·) hkept).mp hw)

/-- A request that an event grants, or leaves in the queue, was in the queue or is its own. -/
theorem waiter_after (e : QueueEvent) (q : Queueing) :
    (∀ g ∈ (e.run q).2, g.outcome = .granted →
      e.requester = some g.waiter.operationId ∨ g.waiter ∈ q.domain.waitQueue) ∧
    ∀ w ∈ (e.after q).domain.waitQueue, e.requester = some w.operationId ∨ w ∈ q.domain.waitQueue := by
  show _ ∧ ∀ w ∈ (e.run q).1.waitQueue, _
  cases e with
  | allocateResourcesWithWait operationId resources maxWaitMs cancelled =>
    have hrequested := requested_run q operationId resources maxWaitMs cancelled
    generalize run _ q = r at hrequested
    obtain ⟨d', out⟩ := r
    cases hrequested with
    | granted hdisjoint halloc =>
      refine ⟨fun g hg _ => .inl ?_, fun w hw => .inr ?_⟩
      · rw [List.mem_singleton.1 hg]
        rfl
      · obtain ⟨-, -, -, rfl⟩ := halloc
        rw [(sameButLocks_grant operationId resources q.domain).waitQueue] at hw
        exact hw
    | settled =>
      refine ⟨fun g hg _ => .inl ?_, fun w hw => .inr hw⟩
      rw [List.mem_singleton.1 hg]
      rfl
    | queued =>
      refine ⟨fun g hg => absurd hg List.not_mem_nil, fun w hw => ?_⟩
      rcases List.mem_append.1 hw with hold | hnew
      · exact .inr hold
      · rw [List.mem_singleton.1 hnew]
        exact .inl rfl
  | allocateResources operationId resources waitedDurationMs =>
    simp only [run]
    cases halloc : ExecutionDomain.allocateResources operationId resources waitedDurationMs
        q.domain with
    | error => exact ⟨fun g hg => absurd hg List.not_mem_nil, fun w hw => .inr hw⟩
    | ok =>
      refine ⟨fun g hg => absurd hg List.not_mem_nil, fun w hw => .inr ?_⟩
      obtain ⟨-, -, -, rfl⟩ := allocateResources_ok halloc
      simp only at hw
      rw [(sameButLocks_grant operationId resources q.domain).waitQueue] at hw
      exact hw
  | internalReleaseResources operationId resources isCancelled elapsed now =>
    rcases run_release_cases operationId resources isCancelled elapsed now q with
      ⟨-, hrun⟩ | ⟨-, -, ⟨row, hrun⟩ | hrun⟩
    · rw [hrun]
      exact ⟨fun g hg => absurd hg List.not_mem_nil, fun w hw => .inr hw⟩
    · rw [hrun]
      obtain ⟨hgranted, hkept⟩ := processWaitQueue_waiters isCancelled elapsed
        (afterRelease operationId resources row q.domain)
      rw [afterRelease_waitQueue] at hgranted hkept
      exact ⟨fun g hg hout => .inr (hgranted g hg hout), fun w hw => .inr (hkept w hw)⟩
    · rw [hrun]
      refine ⟨fun g hg => absurd hg List.not_mem_nil, fun w hw => .inr ?_⟩
      have hsame : (forgetIdle operationId (releaseLocks operationId resources
          q.domain).1).waitQueue = q.domain.waitQueue :=
        ((releaseLocks_effect operationId resources q.domain).1.trans
          (released_forgetIdle operationId _)).waitQueue
      rw [← hsame]
      exact hw
  | cancelWait operationId =>
    refine ⟨fun g hg hout => absurd hout (cancelWait_grants_nothing g hg), fun w hw => .inr ?_⟩
    have hrun : ((cancelWait operationId).run q).1 = _ := cancelWait_fst operationId q.domain
    rw [hrun] at hw
    exact List.mem_of_mem_eraseP hw
  | waitTimeout ticket isCancelled elapsed =>
    refine ⟨fun g hg hout => absurd hout (waitTimeout_grants_nothing g hg), fun w hw => .inr ?_⟩
    have hrun : ((waitTimeout ticket isCancelled elapsed).run q).1 = _ :=
      waitTimeout_fst ticket isCancelled elapsed q.domain
    rw [hrun] at hw
    exact List.mem_of_mem_eraseP hw

/-- A holder held the resource before, or waited, or asks for it. -/
theorem holder_after {e : QueueEvent} (h : Orderly q) {r holder : String}
    (howner : (e.after q).domain.getResourceOwner r = some holder) :
    q.domain.getResourceOwner r = some holder ∨ e.requester = some holder ∨
      ∃ w ∈ q.domain.waitQueue, w.operationId = holder := by
  rcases (e.turn h).adds r holder howner with hbefore | hgrant
  · exact .inl hbefore
  refine .inr ?_
  rcases List.mem_append.1 hgrant with hown | hsettled
  · cases e with
    | allocateResources operationId =>
      simp only at hown
      split at hown
      · have hop : holder = operationId := (mem_locksFor.1 hown).1
        exact .inl (hop ▸ rfl)
      · cases hown
    | _ => cases hown
  · obtain ⟨g, hg, hgranted, hop, -⟩ := mem_settlement_locks.1 hsettled
    have hholder : g.waiter.operationId = holder := hop
    rcases (e.waiter_after q).1 g hg hgranted with hactor | hwaiter
    · exact .inl (hholder ▸ hactor)
    · exact .inr ⟨g.waiter, hwaiter, hholder⟩

end QueueEvent

theorem orderly_start {d : ExecutionDomain} (hleases : LeasesAgree d) (hqueue : d.waitQueue = []) :
    Orderly (Queueing.start d) := by
  refine ⟨?_, ?_, hleases, fun lock hlock _ => ?_⟩
  · simp [Queueing.start, hqueue]
  · simp [Queueing.start, hqueue]
  · show (d.inMemoryLockedResources.get? lock.resourceId).map Lock.operationId = _
    rw [Table.get?_of_mem hlock]
    rfl

/-- Along every run, fenced or not: requests that compete are granted in the order in which they
    were made, all at once, and each resource has one holder. -/
theorem servedInOrder_along {d : ExecutionDomain} (hleases : LeasesAgree d)
    (hqueue : d.waitQueue = []) (events : List QueueEvent) :
    Along QueueEvent.after (fun q e => ServedInOrder e q) (Queueing.start d) events := by
  have hstart : Orderly (Queueing.start d) := orderly_start hleases hqueue
  generalize Queueing.start d = q at hstart ⊢
  induction events generalizing q with
  | nil => trivial
  | cons e events ih =>
    obtain ⟨hserved, hafter⟩ := e.orderly_after hstart
    exact ⟨hserved, ih _ hafter⟩

/-- Two requests wait for the resource of a third; it is released, and then by the first of them. -/
def releaseTwiceRun : List QueueEvent :=
  [.allocateResources "A" ["r"] 0, .allocateResourcesWithWait "B" ["r"] 1000 false,
    .allocateResourcesWithWait "C" ["r", "s"] 1000 false,
    .internalReleaseResources "A" [] (fun _ => false) (fun _ => 5) 10,
    .internalReleaseResources "B" [] (fun _ => false) (fun _ => 15) 20]

/-- The two are served in turn. -/
theorem release_serves_in_order :
    Along QueueEvent.after (fun q e => ServedInOrder e q) (Queueing.start openedDomain)
        releaseTwiceRun ∧
      (afterAll QueueEvent.after (Queueing.start openedDomain)
        (releaseTwiceRun.take 4)).domain.getResourceOwner "r" = some "B" ∧
      (afterAll QueueEvent.after (Queueing.start openedDomain)
        releaseTwiceRun).domain.getResourceOwner "r" = some "C" :=
  ⟨servedInOrder_along (fun lease hlease => by cases hlease) rfl releaseTwiceRun,
    by decide +kernel, by decide +kernel⟩

end XioFlow
