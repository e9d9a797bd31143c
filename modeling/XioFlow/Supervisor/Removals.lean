/-
  XioFlow.Supervisor.Removals

  What every step keeps of materializations and removals, in any order, with
  aborts and steps of other operations between them.

  A removal in flight holds what it has asked for until it settles.  A record
  of a materialization is that of a lease which nobody has begun to hand back,
  so that a removal that takes the record over is the only one to do so.
-/

import XioFlow.Supervisor.Worktrees

namespace XioFlow

open Lib
open ExecutionDomain (writeResource)

namespace Supervisor
namespace Worktrees

open State

/-! ## A worktree and its two names -/

structure Worktree where
  /-- The path that `materialize` was given, resolved. -/
  given : String
  real : String

namespace Worktree

def named (w : Worktree) (name : String) : Bool := name = w.given || name = w.real

/-- The write resources of both paths. -/
def resources (w : Worktree) : List String := [writeResource w.given, writeResource w.real]

/-- The worktree is there under both names. -/
def Reachable (w : Worktree) (fs : FileSystem) : Prop :=
  ∀ name, w.named name = true → (rootAliases fs name).realRoot = w.real

end Worktree

/-! ## Ordinary runs -/

/-- A new identity, which holds a random UUID or which `assertOperationIdAvailable` has let pass. -/
structure Fresh (s : State) (id : String) : Prop where
  named : id ≠ ""
  issued : id ∉ s.issued.map Lock.operationId
  removing : id ∉ s.removing.map Removing.owner

/-- New identities are new, other operations release under their own, and a worktree that is
    removed is there. -/
def Ordinary (w : Worktree) (s : State) : Step → Prop
  | .materialize _ _ opId _ => Fresh s opId
  | .dematerialize fs newRoot fresh =>
    Fresh s fresh ∧ (w.named (resolved fs newRoot) = true → w.Reachable fs)
  | .abort fs txId forkPath _ =>
    Fresh s (abortOwner txId) ∧ (w.named (resolved fs forkPath) = true → w.Reachable fs)
  | .other e => (∀ id, e.requester = some id → id ≠ "") ∧
    ∀ id, e.releaser = some id → id ∉ s.removing.map Removing.owner
  | _ => True

/-! ## The invariant -/

structure Sound (w : Worktree) (s : State) : Prop where
  orderly : XioFlow.Orderly s.queueing
  holders : ExecutionDomain.HoldersNamed s.domain
  waiters : ∀ item ∈ s.domain.waitQueue, item.operationId ≠ ""
  issued : (s.issued.map Lock.operationId).Nodup
  back : s.handedBack.Nodup
  backIssued : ∀ id ∈ s.handedBack, id ∈ s.issued.map Lock.operationId
  owners : (s.removing.map Removing.owner).Nodup
  held : ∀ call ∈ s.removing, call.owner ≠ "" ∧ call.resources ≠ [] ∧
    ∀ r ∈ call.resources, s.domain.getResourceOwner r = some call.owner
  live : ∀ call ∈ s.removing, call.owner ∉ s.handedBack
  worktree : ∀ call ∈ s.removing, w.named call.newRoot = true →
    writeResource w.real ∈ call.resources
  /-- A record is that of a lease that nobody has begun to hand back. -/
  record : ∀ lock ∈ s.materialized.rows, lock ∈ s.issued ∧ lock.operationId ∉ s.handedBack ∧
    lock.operationId ∉ s.removing.map Removing.owner
  recorded : ∀ lock ∈ s.materialized.rows, ∀ call ∈ s.materializing, call.created = false →
    call.opId ≠ lock.operationId
  calls : (s.materializing.map Materializing.opId).Nodup
  call : ∀ call ∈ s.materializing, ⟨writeResource call.newRoot, call.opId⟩ ∈ s.issued
  pending : ∀ call ∈ s.materializing, call.created = false →
    call.opId ∉ s.handedBack ∧ call.opId ∉ s.removing.map Removing.owner

section Steps

variable {w : Worktree} {s : State}

/-! ## The domain -/

/-- A step of the domain in which no remover releases anything. -/
theorem Sound.queue (h : Sound w s) {e : QueueEvent}
    (hrequester : ∀ id, e.requester = some id → id ≠ "")
    (hreleaser : ∀ id, e.releaser = some id → id ∉ s.removing.map Removing.owner) :
    Sound w (s.queue e) where
  orderly := (e.orderly_after h.orderly).2
  holders := by
    intro r holder howner
    rcases QueueEvent.holder_after h.orderly howner with hbefore | hasks | ⟨item, hitem, rfl⟩
    · exact h.holders r holder hbefore
    · exact hrequester holder hasks
    · exact h.waiters item hitem
  waiters := by
    intro item hitem
    rcases (e.waiter_after s.queueing).2 item hitem with hasks | hbefore
    · exact hrequester _ hasks
    · exact h.waiters item hbefore
  issued := h.issued
  back := h.back
  backIssued := h.backIssued
  owners := h.owners
  held := by
    intro call hcall
    obtain ⟨hnamed, hsome, hheld⟩ := h.held call hcall
    refine ⟨hnamed, hsome, fun r hr => ?_⟩
    apply QueueEvent.keeps_after h.orderly hnamed _ (hheld r hr)
    intro hrelease
    exact hreleaser _ hrelease (List.mem_map_of_mem hcall)
  live := h.live
  worktree := h.worktree
  record := h.record
  recorded := h.recorded
  calls := h.calls
  call := h.call
  pending := h.pending

variable {owner : String} {fs : FileSystem}

theorem Sound.release (h : Sound w s) (hother : owner ∉ s.removing.map Removing.owner)
    (resources : List String) (m : Moment) : Sound w (s.release owner resources m) :=
  h.queue nofun fun _ heq => Option.some.inj heq ▸ hother

variable {s' : State} {newRoot : String} {internalLeaseOwner : Option String}

variable {resources : List String}

theorem allocate_eq_some {operationId : String}
    (h : s.allocate operationId resources = some s') :
    s' = s.queue (.allocateResources operationId resources 0) ∧
      ExecutionDomain.Allocated operationId resources s.domain s'.domain := by
  unfold State.allocate at h
  split at h
  · rename_i d halloc
    cases h
    refine ⟨rfl, ?_⟩
    have hdomain : (s.queue (.allocateResources operationId resources 0)).domain = d := by
      show ((QueueEvent.allocateResources operationId resources 0).run s.queueing).1 = d
      simp only [QueueEvent.run]
      rw [show ExecutionDomain.allocateResources operationId resources 0 s.queueing.domain = .ok d
        from halloc]
    rw [hdomain]
    exact ExecutionDomain.allocateResources_ok halloc
  · cases h

theorem Sound.allocate (h : Sound w s) {operationId : String}
    (hnamed : operationId ≠ "") (halloc : s.allocate operationId resources = some s') :
    Sound w s' := by
  obtain ⟨rfl, -⟩ := allocate_eq_some halloc
  exact h.queue (fun _ heq => Option.some.inj heq ▸ hnamed) nofun

/-! ## Records -/

theorem Sound.forget (h : Sound w s) (resources : List String) : Sound w (s.forget resources) :=
  { h with
    record := fun lock hlock => h.record lock (Table.mem_deleteWhere.1 hlock).1
    recorded := fun lock hlock => h.recorded lock (Table.mem_deleteWhere.1 hlock).1 }

/-- The identities that were issued are different. -/
theorem Sound.issued_unique (h : Sound w s) {lock lock' : Lock} (hlock : lock ∈ s.issued)
    (hlock' : lock' ∈ s.issued) (hid : lock.operationId = lock'.operationId) : lock = lock' :=
  List.inj_on_of_nodup_map h.issued hlock hlock' hid

/-- A lease is handed back that nobody else deals with. -/
theorem Sound.handBack (h : Sound w s) (resources : List String) (m : Moment)
    (hother : owner ∉ s.removing.map Removing.owner) (hback : owner ∉ s.handedBack)
    (hrecord : ∀ lock ∈ s.materialized.rows, lock.operationId ≠ owner)
    (hcalls : ∀ call ∈ s.materializing, call.created = false → call.opId ≠ owner) :
    Sound w (s.handBack owner resources m) := by
  have hrelease : Sound w (s.release owner resources m) := h.release hother resources m
  unfold State.handBack
  simp only
  split
  · rename_i hissued
    have hmem : owner ∈ s.issued.map Lock.operationId := by
      obtain ⟨lock, hlock, hid⟩ := List.any_eq_true.1 hissued
      exact List.mem_map.2 ⟨lock, hlock, of_decide_eq_true hid⟩
    have hlogged : ∀ id, id ≠ owner → id ∉ s.handedBack → id ∉ s.handedBack ++ [owner] := by
      intro id hne hnot hid
      rcases List.mem_append.1 hid with hold | hnew
      · exact hnot hold
      · exact hne (List.mem_singleton.1 hnew)
    exact
      { hrelease with
        back := by
          rw [List.nodup_append]
          refine ⟨h.back, List.nodup_singleton owner, fun id hid id' hid' => ?_⟩
          rw [List.mem_singleton.1 hid']
          exact fun heq => hback (heq ▸ hid)
        backIssued := by
          intro id hid
          rcases List.mem_append.1 hid with hold | hnew
          · exact h.backIssued id hold
          · rw [List.mem_singleton.1 hnew]
            exact hmem
        live := fun call hcall => hlogged _
          (fun heq => hother (heq ▸ List.mem_map_of_mem hcall)) (h.live call hcall)
        record := fun lock hlock =>
          ⟨(h.record lock hlock).1, hlogged _ (hrecord lock hlock) (h.record lock hlock).2.1,
            (h.record lock hlock).2.2⟩
        pending := fun call hcall hcreated =>
          ⟨hlogged _ (hcalls call hcall hcreated) (h.pending call hcall hcreated).1,
            (h.pending call hcall hcreated).2⟩ }
  · exact hrelease

/-! ## Materializations -/

theorem Sound.materialize (h : Sound w s) {opId : String} {forTransaction : Bool}
    (hfresh : Fresh s opId) : Sound w (materialize fs newRoot opId forTransaction s) := by
  unfold Worktrees.materialize
  simp only
  split
  · exact h
  split
  · rename_i s' _ halloc
    have hs' : Sound w s' := h.allocate hfresh.named halloc
    obtain ⟨rfl, -⟩ := allocate_eq_some halloc
    have hback : opId ∉ s.handedBack := fun hid => hfresh.issued (h.backIssued opId hid)
    have hrecord : ∀ lock ∈ s.materialized.rows, opId ≠ lock.operationId := by
      rintro lock hlock rfl
      exact hfresh.issued (List.mem_map_of_mem (h.record lock hlock).1)
    exact
      { hs' with
        issued := by
          rw [List.map_append, List.nodup_append]
          refine ⟨h.issued, List.nodup_singleton opId, fun id hid id' hid' => ?_⟩
          rw [List.mem_singleton.1 hid']
          rintro rfl
          exact hfresh.issued hid
        backIssued := fun id hid => by
          rw [List.map_append]
          exact List.mem_append_left _ (h.backIssued id hid)
        record := fun lock hlock =>
          ⟨List.mem_append_left _ (h.record lock hlock).1, (h.record lock hlock).2⟩
        recorded := fun lock hlock call hcall hcreated => by
          rcases List.mem_append.1 hcall with hold | hnew
          · exact h.recorded lock hlock call hold hcreated
          · rw [List.mem_singleton.1 hnew]
            exact hrecord lock hlock
        calls := by
          rw [List.map_append, List.nodup_append]
          refine ⟨h.calls, List.nodup_singleton opId, fun id hid id' hid' => ?_⟩
          rw [List.mem_singleton.1 hid']
          rintro rfl
          obtain ⟨call, hcall, hid⟩ := List.mem_map.1 hid
          exact hfresh.issued (List.mem_map.2 ⟨_, h.call call hcall, hid⟩)
        call := fun call hcall => by
          rcases List.mem_append.1 hcall with hold | hnew
          · exact List.mem_append_left _ (h.call call hold)
          · rw [List.mem_singleton.1 hnew]
            exact List.mem_append_right _ (List.mem_singleton_self _)
        pending := fun call hcall hcreated => by
          rcases List.mem_append.1 hcall with hold | hnew
          · exact h.pending call hold hcreated
          · rw [List.mem_singleton.1 hnew]
            exact ⟨hback, hfresh.removing⟩ }
  · exact h

/-- Calls that have come to their end are forgotten. -/
theorem Sound.fewerCalls (h : Sound w s) {calls : List Materializing}
    (hsub : calls.Sublist s.materializing) : Sound w { s with materializing := calls } :=
  { h with
    recorded := fun lock hlock call hcall => h.recorded lock hlock call (hsub.subset hcall)
    calls := h.calls.sublist (hsub.map _)
    call := fun call hcall => h.call call (hsub.subset hcall)
    pending := fun call hcall => h.pending call (hsub.subset hcall) }

theorem Sound.materialized (h : Sound w s) (opId : String) (succeeded : Bool) (m : Moment) :
    Sound w (materialized opId succeeded m s) := by
  unfold Worktrees.materialized
  split
  · exact h
  rename_i call hfind
  have hcall : call ∈ s.materializing := List.mem_of_find?_eq_some hfind
  obtain ⟨hid, hcreated⟩ : call.opId = opId ∧ call.created = false := by
    have hp := List.find?_some hfind
    simpa using hp
  obtain ⟨hback, hremoving⟩ := h.pending call hcall hcreated
  rw [hid] at hback hremoving
  have hsub : (s.materializing.filter fun call => call.opId ≠ opId).Sublist s.materializing :=
    List.filter_sublist
  have hothers : ∀ call' ∈ s.materializing.filter fun call => call.opId ≠ opId,
      call'.opId ≠ opId := fun call' hcall' => by simpa using (List.mem_filter.1 hcall').2
  have hrecord : ∀ lock ∈ s.materialized.rows, lock.operationId ≠ opId := fun lock hlock heq =>
    h.recorded lock hlock call hcall hcreated (hid.trans heq.symm)
  cases succeeded with
  | false =>
    rw [if_neg Bool.false_ne_true]
    exact (h.fewerCalls hsub).handBack [] m hremoving hback hrecord fun call' hcall' _ =>
      hothers call' hcall'
  | true =>
    rw [if_pos rfl]
    -- the record is new, and the call goes on only for a transaction
    have hkept : ∀ call' ∈ (if call.forTransaction then
        (s.materializing.filter fun call => call.opId ≠ opId) ++ [{ call with created := true }]
        else s.materializing.filter fun call => call.opId ≠ opId),
        call'.created = false →
          call' ∈ s.materializing ∧ call'.opId ≠ opId := by
      intro call' hcall' hopen
      split at hcall'
      · rcases List.mem_append.1 hcall' with hold | hnew
        · exact ⟨hsub.subset hold, hothers call' hold⟩
        · rw [List.mem_singleton.1 hnew] at hopen
          cases hopen
      · exact ⟨hsub.subset hcall', hothers call' hcall'⟩
    have hrow : ∀ lock ∈ (s.materialized.replace ⟨writeResource call.newRoot, opId⟩).rows,
        lock ∈ s.materialized.rows ∨ lock = ⟨writeResource call.newRoot, opId⟩ := by
      intro lock hlock
      rcases Table.mem_append_rows.1 hlock with hold | hnew
      · exact .inl (Table.mem_deleteWhere.1 hold).1
      · exact .inr hnew
    exact
      { h with
        record := fun lock hlock => by
          rcases hrow lock hlock with hold | rfl
          · exact h.record lock hold
          · exact ⟨hid ▸ h.call call hcall, hback, hremoving⟩
        recorded := fun lock hlock call' hcall' hopen => by
          obtain ⟨hmem, hne⟩ := hkept call' hcall' hopen
          rcases hrow lock hlock with hold | rfl
          · exact h.recorded lock hold call' hmem hopen
          · exact hne
        calls := by
          split
          · rw [List.map_append, List.nodup_append]
            refine ⟨h.calls.sublist (hsub.map _), List.nodup_singleton _, ?_⟩
            intro id hmem id' hmem'
            rw [List.mem_singleton.1 hmem', show ({ call with created := true } :
              Materializing).opId = opId from hid]
            obtain ⟨call', hcall', rfl⟩ := List.mem_map.1 hmem
            exact hothers call' hcall'
          · exact h.calls.sublist (hsub.map _)
        call := fun call' hcall' => by
          split at hcall'
          · rcases List.mem_append.1 hcall' with hold | hnew
            · exact h.call call' (hsub.subset hold)
            · rw [List.mem_singleton.1 hnew]
              exact h.call call hcall
          · exact h.call call' (hsub.subset hcall')
        pending := fun call' hcall' hopen => h.pending call' (hkept call' hcall' hopen).1 hopen }

theorem Sound.takeOver (h : Sound w s) (m : Moment) (res : String) :
    Sound w (takeOver m s res) := by
  unfold Worktrees.takeOver
  simp only
  split
  · rename_i owner _
    split
    · rename_i hcreated
      obtain ⟨lock, hget, hid⟩ := Option.map_eq_some_iff.1 hcreated.symm
      have hlock : lock ∈ s.materialized.rows := Table.mem_of_get? hget
      obtain ⟨hissued, hback, hremoving⟩ := h.record lock hlock
      rw [hid] at hback hremoving
      refine (h.forget [res]).handBack [res] m hremoving hback (fun lock' hlock' heq => ?_)
        fun call hcall hopen heq => ?_
      · -- a record of the same lease would be this one, which is deleted
        obtain ⟨hmem, hkept⟩ := Table.mem_deleteWhere.1 hlock'
        have hsame : lock' = lock :=
          h.issued_unique (h.record lock' hmem).1 hissued (heq.trans hid.symm)
        rw [hsame, Table.key_of_get? hget] at hkept
        simp at hkept
      · exact h.recorded lock hlock call hcall hopen (heq.trans hid.symm)
    · exact h.forget [res]
  · exact h.forget [res]

theorem Sound.forkTaken (h : Sound w s) (fs : FileSystem) (opId : String) (m : Moment) :
    Sound w (forkTaken fs opId m s) := by
  unfold Worktrees.forkTaken
  split
  · exact h
  rename_i call _
  simp only
  have hfewer := h.fewerCalls (List.filter_sublist (p := fun call => call.opId ≠ opId))
  split
  · generalize writeResources fs call.newRoot = resources
    generalize ({ s with materializing := _ } : State) = s₁ at hfewer
    induction resources generalizing s₁ with
    | nil => exact hfewer
    | cons res resources ih => exact ih _ (hfewer.takeOver m res)
  · exact hfewer

/-! ## Removals -/

/-- A removal looks at each of its resources: what is held is held by the remover, or recorded. -/
theorem recordedOwner_eq_some {first recorded : Option String}
    (h : recordedOwner internalLeaseOwner s resources first = some recorded) :
    (∀ r ∈ resources, ∀ holder, holder ≠ "" → s.domain.getResourceOwner r = some holder →
      some holder = internalLeaseOwner ∨ ⟨r, holder⟩ ∈ s.materialized.rows) ∧
    (recorded = first ∨ ∃ owner, recorded = some owner ∧ owner ≠ "" ∧ ∃ r ∈ resources,
      some owner = internalLeaseOwner ∨ ⟨r, owner⟩ ∈ s.materialized.rows) := by
  induction resources generalizing first with
  | nil => exact ⟨fun r hr => absurd hr List.not_mem_nil, .inl (Option.some.inj h).symm⟩
  | cons resource resources ih =>
    unfold recordedOwner at h
    split at h
    · rename_i hnone
      obtain ⟨hheld, hrecorded⟩ := ih h
      refine ⟨fun r hr holder hnamed howner => ?_, hrecorded.imp_right fun hex => ?_⟩
      · rcases List.mem_cons.1 hr with rfl | hrest
        · rw [howner] at hnone
          have hsome : nonEmpty (some holder) = some holder :=
            Option.filter_some_pos (decide_eq_true hnamed)
          rw [hsome] at hnone
          cases hnone
        · exact hheld r hrest holder hnamed howner
      · obtain ⟨owner, heq, hnamed, r, hr, hown⟩ := hex
        exact ⟨owner, heq, hnamed, r, List.mem_cons_of_mem _ hr, hown⟩
    · rename_i owner hsome
      split at h
      · cases h
      rename_i hallowed
      obtain ⟨howner, hnamed⟩ := Option.filter_eq_some_iff.1 hsome
      have hown : some owner = internalLeaseOwner ∨
          ⟨resource, owner⟩ ∈ s.materialized.rows := by
        by_cases hinternal : some owner = internalLeaseOwner
        · exact .inl hinternal
        · refine .inr ?_
          have hrow : (s.materialized.get? resource).map Lock.operationId = some owner := by
            by_contra hne
            exact hallowed ⟨hinternal, hne⟩
          obtain ⟨lock, hget, rfl⟩ := Option.map_eq_some_iff.1 hrow
          have hkey : lock.resourceId = resource := Table.key_of_get? hget
          exact hkey ▸ Table.mem_of_get? hget
      obtain ⟨hheld, hrecorded⟩ := ih h
      refine ⟨fun r hr holder hnamed' howner' => ?_, .inr ?_⟩
      · rcases List.mem_cons.1 hr with rfl | hrest
        · rw [howner] at howner'
          rw [← Option.some.inj howner']
          exact hown
        · exact hheld r hrest holder hnamed' howner'
      · rcases hrecorded with rfl | ⟨owner', heq, hnamed', r, hr, hown'⟩
        · exact ⟨owner, rfl, of_decide_eq_true hnamed, resource, List.mem_cons_self, hown⟩
        · exact ⟨owner', heq, hnamed', r, List.mem_cons_of_mem _ hr, hown'⟩

/-- A removal that reaches the driver: what it asks for, and who it is. -/
structure Started (fs : FileSystem) (newRoot : String) (internalLeaseOwner : Option String)
    (fresh : String) (s s' : State) (owner : String) : Prop where
  allocated : ExecutionDomain.Allocated owner (writeResources fs (resolved fs newRoot)) s.domain
    s'.domain
  eq : s' = { (s.queue (.allocateResources owner (writeResources fs (resolved fs newRoot)) 0)).forget
      (writeResources fs (resolved fs newRoot)) with
    removing := s.removing ++
      [⟨owner, resolved fs newRoot, writeResources fs (resolved fs newRoot)⟩] }
  held : ∀ r ∈ writeResources fs (resolved fs newRoot), ∀ holder, holder ≠ "" →
    s.domain.getResourceOwner r = some holder →
      some holder = internalLeaseOwner ∨ ⟨r, holder⟩ ∈ s.materialized.rows
  owner : some owner = internalLeaseOwner ∨ internalLeaseOwner = none ∧ (owner = fresh ∨
    owner ≠ "" ∧ ∃ r ∈ writeResources fs (resolved fs newRoot),
      ⟨r, owner⟩ ∈ s.materialized.rows)

theorem dematerialize_eq_some {fresh : String}
    (h : dematerialize fs newRoot internalLeaseOwner fresh s = some s') :
    ∃ owner, Started fs newRoot internalLeaseOwner fresh s s' owner := by
  unfold dematerialize at h
  simp only at h
  split at h
  · cases h
  rename_i recorded hrecorded
  obtain ⟨hheld, howner⟩ := recordedOwner_eq_some hrecorded
  split at h
  · rename_i s₁ _ halloc
    obtain ⟨rfl, hallocated⟩ := allocate_eq_some halloc
    cases h
    refine ⟨_, hallocated, rfl, hheld, ?_⟩
    cases internalLeaseOwner with
    | some => exact .inl rfl
    | none =>
      refine .inr ⟨rfl, ?_⟩
      rcases howner with rfl | ⟨owner, rfl, hnamed, r, hr, hown⟩
      · exact .inl rfl
      · exact .inr ⟨hnamed, r, hr, hown.resolve_left nofun⟩
  · cases h

/-- A lease that is handed over names who removes. -/
theorem started_of_leased {owner fresh : String}
    (h : dematerialize fs newRoot (some owner) fresh s = some s') :
    Started fs newRoot (some owner) fresh s s' owner := by
  obtain ⟨owner', hstarted⟩ := dematerialize_eq_some h
  rcases hstarted.owner with heq | ⟨heq, -⟩
  · exact Option.some.inj heq ▸ hstarted
  · cases heq

theorem writeResources_ne_nil (fs : FileSystem) (newRoot : String) :
    writeResources fs newRoot ≠ [] := by
  intro hnil
  have hmem : writeResource newRoot ∈ writeResources fs newRoot :=
    List.mem_eraseDups.2 List.mem_cons_self
  rw [hnil] at hmem
  cases hmem

/-- A removal asks for the real path of the worktree, whatever name it uses. -/
theorem real_mem_writeResources {name : String} (hreach : w.Reachable fs)
    (hname : w.named name = true) : writeResource w.real ∈ writeResources fs name := by
  rw [← hreach name hname]
  exact List.mem_eraseDups.2 (List.mem_cons_of_mem _ List.mem_cons_self)

/-- The removal is in flight, under an identity that nobody uses, or with a lease that is recorded. -/
theorem Sound.started (h : Sound w s) {fresh : String}
    (hstarted : Started fs newRoot internalLeaseOwner fresh s s' owner)
    (hfresh : Fresh s owner ∨ ∃ r ∈ writeResources fs (resolved fs newRoot),
      ⟨r, owner⟩ ∈ s.materialized.rows)
    (hreach : w.named (resolved fs newRoot) = true → w.Reachable fs) (hnamed : owner ≠ "") :
    Sound w s' := by
  obtain ⟨hallocated, rfl, -, -⟩ := hstarted
  have hqueue : Sound w (s.queue
      (.allocateResources owner (writeResources fs (resolved fs newRoot)) 0)) :=
    h.queue (fun _ heq => Option.some.inj heq ▸ hnamed) nofun
  have hforget := hqueue.forget (writeResources fs (resolved fs newRoot))
  have hback : owner ∉ s.handedBack := by
    rcases hfresh with hfresh | ⟨r, -, hrow⟩
    · exact fun hid => hfresh.issued (h.backIssued owner hid)
    · exact (h.record _ hrow).2.1
  have hremoving : owner ∉ s.removing.map Removing.owner := by
    rcases hfresh with hfresh | ⟨r, -, hrow⟩
    · exact hfresh.removing
    · exact (h.record _ hrow).2.2
  -- no record that is left is of the remover
  have hrecord : ∀ lock ∈ (s.forget (writeResources fs (resolved fs newRoot))).materialized.rows,
      lock.operationId ≠ owner := by
    rintro lock hlock rfl
    obtain ⟨hmem, hkept⟩ := Table.mem_deleteWhere.1 hlock
    rcases hfresh with hfresh | ⟨r, hr, hrow⟩
    · exact hfresh.issued (List.mem_map_of_mem (h.record lock hmem).1)
    · have hsame : lock = ⟨r, lock.operationId⟩ :=
        h.issued_unique (h.record lock hmem).1 (h.record _ hrow).1 rfl
      rw [hsame] at hkept
      simp [hr] at hkept
  have hpending : ∀ call ∈ s.materializing, call.created = false → call.opId ≠ owner := by
    rintro call hcall hopen rfl
    rcases hfresh with hfresh | ⟨r, -, hrow⟩
    · exact hfresh.issued (List.mem_map.2 ⟨_, h.call call hcall, rfl⟩)
    · exact h.recorded _ hrow call hcall hopen rfl
  have hlonger : ∀ id, id ≠ owner → id ∉ s.removing.map Removing.owner →
      id ∉ (s.removing ++ [(⟨owner, resolved fs newRoot,
        writeResources fs (resolved fs newRoot)⟩ : Removing)]).map Removing.owner := by
    intro id hne hnot hid
    rw [List.map_append] at hid
    rcases List.mem_append.1 hid with hold | hnew
    · exact hnot hold
    · exact hne (List.mem_singleton.1 hnew)
  exact
    { hforget with
      owners := by
        rw [List.map_append, List.nodup_append]
        refine ⟨h.owners, List.nodup_singleton owner, fun id hid id' hid' => ?_⟩
        rw [List.mem_singleton.1 hid']
        rintro rfl
        exact hremoving hid
      held := fun call hcall => by
        rcases List.mem_append.1 hcall with hold | hnew
        · exact hforget.held call hold
        · rw [List.mem_singleton.1 hnew]
          exact ⟨hnamed, writeResources_ne_nil fs _, fun r hr => (hallocated.owner r).2.2 hr⟩
      live := fun call hcall => by
        rcases List.mem_append.1 hcall with hold | hnew
        · exact h.live call hold
        · rw [List.mem_singleton.1 hnew]
          exact hback
      worktree := fun call hcall hname => by
        rcases List.mem_append.1 hcall with hold | hnew
        · exact h.worktree call hold hname
        · rw [List.mem_singleton.1 hnew] at hname ⊢
          exact real_mem_writeResources (hreach hname) hname
      record := fun lock hlock =>
        ⟨(hforget.record lock hlock).1, (hforget.record lock hlock).2.1,
          hlonger _ (hrecord lock hlock) (hforget.record lock hlock).2.2⟩
      pending := fun call hcall hopen =>
        ⟨(h.pending call hcall hopen).1,
          hlonger _ (hpending call hcall hopen) (h.pending call hcall hopen).2⟩ }

/-- Removals that have come to their end are forgotten. -/
theorem Sound.fewerRemovals (h : Sound w s) {removing : List Removing}
    (hsub : removing.Sublist s.removing) : Sound w { s with removing } := by
  have hsubset : ∀ id, id ∉ s.removing.map Removing.owner → id ∉ removing.map Removing.owner :=
    fun id hnot hid => hnot ((hsub.map _).subset hid)
  exact
    { h with
      owners := h.owners.sublist (hsub.map _)
      held := fun call hcall => h.held call (hsub.subset hcall)
      live := fun call hcall => h.live call (hsub.subset hcall)
      worktree := fun call hcall => h.worktree call (hsub.subset hcall)
      record := fun lock hlock => ⟨(h.record lock hlock).1, (h.record lock hlock).2.1,
        hsubset _ (h.record lock hlock).2.2⟩
      pending := fun call hcall hopen =>
        ⟨(h.pending call hcall hopen).1, hsubset _ (h.pending call hcall hopen).2⟩ }

theorem not_mem_owners (owner : String) :
    owner ∉ (s.removing.filter fun call => call.owner ≠ owner).map Removing.owner := by
  intro hid
  obtain ⟨call, hcall, rfl⟩ := List.mem_map.1 hid
  simpa using (List.mem_filter.1 hcall).2

theorem Sound.removed (h : Sound w s) (owner : String) (m : Moment) :
    Sound w (removed owner m s) := by
  unfold Worktrees.removed
  split
  · exact h
  rename_i call hfind
  have hcall : call ∈ s.removing := List.mem_of_find?_eq_some hfind
  have howner : call.owner = owner := by
    have hp := List.find?_some hfind
    exact of_decide_eq_true hp
  have hmem : owner ∈ s.removing.map Removing.owner :=
    howner ▸ List.mem_map_of_mem (f := Removing.owner) hcall
  refine ((h.fewerRemovals List.filter_sublist).forget call.resources).handBack call.resources m
    (not_mem_owners owner) (howner ▸ h.live call hcall) (fun lock hlock heq => ?_)
    fun call' hcall' hopen heq => ?_
  · have hrow : lock ∈ s.materialized.rows := (Table.mem_deleteWhere.1 hlock).1
    exact (h.record lock hrow).2.2 (heq ▸ hmem)
  · exact (h.pending call' hcall' hopen).2 (heq ▸ hmem)

/-! ## Aborts -/

theorem Sound.setAborting (h : Sound w s) (aborting : Option String) :
    Sound w { s with aborting } := { h with }

theorem Sound.abort (h : Sound w s) {txId forkPath forkRoot : String}
    (hfresh : Fresh s (abortOwner txId))
    (hreach : w.named (resolved fs forkPath) = true → w.Reachable fs) :
    Sound w (abort fs txId forkPath forkRoot s) := by
  unfold Worktrees.abort
  simp only
  split
  · exact h
  split
  · rename_i s₁ _ halloc
    have hs₁ : Sound w s₁ := h.allocate hfresh.named halloc
    obtain ⟨rfl, -⟩ := allocate_eq_some halloc
    refine Sound.setAborting ?_ _
    cases hdemat : dematerialize fs forkPath (some (abortOwner txId)) (abortOwner txId)
        (s.queue (.allocateResources (abortOwner txId) [writeResource forkRoot] 0)) with
    | none => exact hs₁
    | some =>
      have hstarted := started_of_leased hdemat
      exact hs₁.started hstarted (.inl ⟨hfresh.named, hfresh.issued, hfresh.removing⟩) hreach
        hfresh.named
  · exact h

theorem Sound.abortEnded (h : Sound w s) (m : Moment) : Sound w (abortEnded m s) := by
  unfold Worktrees.abortEnded
  split
  · exact h
  split
  · exact h
  · rename_i owner _ hnone
    refine (h.setAborting none).release (fun hid => hnone ?_) [] m
    obtain ⟨call, hcall, howner⟩ := List.mem_map.1 hid
    exact List.any_eq_true.2 ⟨call, hcall, decide_eq_true howner⟩

/-! ## Every step -/

theorem Sound.after (h : Sound w s) {l : Step} (hl : Ordinary w s l) : Sound w (l.after s) := by
  cases l with
  | materialize => exact h.materialize hl
  | materialized opId succeeded m => exact h.materialized opId succeeded m
  | forkTaken fs opId m => exact h.forkTaken fs opId m
  | dematerialize fs newRoot fresh =>
    show Sound w ((dematerialize fs newRoot none fresh s).getD s)
    cases hdemat : dematerialize fs newRoot none fresh s with
    | none => exact h
    | some =>
      obtain ⟨owner, hstarted⟩ := dematerialize_eq_some hdemat
      rcases hstarted.owner with heq | ⟨-, rfl | ⟨hnamed, hrow⟩⟩
      · cases heq
      · exact h.started hstarted (.inl hl.1) hl.2 hl.1.named
      · exact h.started hstarted (.inr hrow) hl.2 hnamed
  | removed owner m => exact h.removed owner m
  | abort => exact h.abort hl.1 hl.2
  | abortEnded m => exact h.abortEnded m
  | other => exact h.queue hl.1 hl.2

end Steps

end Worktrees
end Supervisor
end XioFlow
