/-
  XioFlow.Supervisor.RemovalRuns

  Who removes a worktree, over every run.

  A removal gives back exactly what it has asked for.  Two removals of one
  worktree never meet at the driver, since both ask for the real path.  Only a
  removal that uses the name under which the worktree was made asks for that
  name, too.
-/

import XioFlow.Supervisor.Removals

namespace XioFlow

open Lib
open ExecutionDomain (writeResource)
open ExecutionDomain

namespace Supervisor
namespace Worktrees

open State

/-! ## What is asked of a removal -/

/-- The resources go back and nothing else: `d₁` is the domain before the queue is served. -/
structure HandsBack (owner : String) (resources : List String) (d d₁ : ExecutionDomain) : Prop
    where
  own : ∀ r ∈ resources, d.getResourceOwner r = some owner
  locks : ∀ r, d₁.getResourceOwner r = if r ∈ resources then none else d.getResourceOwner r
  slots : ∀ id, id ≠ owner → (id ∈ d₁.getActiveOperationIds ↔ id ∈ d.getActiveOperationIds)

/-- The end of a removal; a release that throws on its fence checks does nothing. -/
def Settles (call : Removing) (m : Moment) (s s' : State) : Prop :=
  ((s.domain.isFenced = true ∨ ∃ err,
      SqliteStore.epochFencing s.domain.domainId s.domain.store = .error err) ∧
    s'.domain = s.domain) ∨ ∃ d₁, HandsBack call.owner call.resources s.domain d₁ ∧
    (s'.domain = d₁ ∨
      s'.domain = (processWaitQueue m.isCancelled m.elapsed d₁).1)

/-- The driver is asked by a remover that holds both paths, and that took them from nobody but a
    materialization of the worktree. -/
def AskedByOwner (w : Worktree) (s s' : State) : Prop :=
  ∀ call, s'.removing = s.removing ++ [call] → w.named call.newRoot = true →
    (∀ r ∈ w.resources, s'.domain.getResourceOwner r = some call.owner) ∧
    ∀ r ∈ w.resources, ∀ holder, s.domain.getResourceOwner r = some holder →
      holder = call.owner ∨ (⟨r, holder⟩ ∈ s.issued ∧ holder ∉ s.handedBack)

structure RemovedByOwner (w : Worktree) (s : State) (l : Step) : Prop where
  asked : AskedByOwner w s (l.after s)
  once : (l.after s).handedBack.Nodup
  alone : ((l.after s).removing.filter fun call => w.named call.newRoot).length ≤ 1
  settles : ∀ owner m, l = .removed owner m → ∀ call ∈ s.removing, call.owner = owner →
    Settles call m s (l.after s)

/-- A removal of the worktree uses the name that it was given. -/
def NamedAsGiven (w : Worktree) : Step → Prop
  | .dematerialize fs newRoot _ => resolved fs newRoot = w.real → w.real = w.given
  | .abort fs _ forkPath _ => resolved fs forkPath = w.real → w.real = w.given
  | _ => True

section Guarantees

variable {w : Worktree} {s : State}

/-! ## What a run guarantees -/

/-- Two removals of one worktree would both hold its real path. -/
theorem Sound.alone (h : Sound w s) :
    (s.removing.filter fun call => w.named call.newRoot).length ≤ 1 := by
  have howns : ∀ call ∈ s.removing.filter fun call => w.named call.newRoot,
      s.domain.getResourceOwner (writeResource w.real) = some call.owner := by
    intro call hcall
    obtain ⟨hmem, hname⟩ := List.mem_filter.1 hcall
    exact (h.held call hmem).2.2 _ (h.worktree call hmem hname)
  have hnodup : ((s.removing.filter fun call => w.named call.newRoot).map
      Removing.owner).Nodup := h.owners.sublist (List.filter_sublist.map _)
  generalize s.removing.filter (fun call => w.named call.newRoot) = removals at howns hnodup
  rcases removals with _ | ⟨call, _ | ⟨call', rest⟩⟩
  · exact Nat.zero_le 1
  · exact Nat.le_refl 1
  · have hsame : some call.owner = some call'.owner :=
      (howns call List.mem_cons_self).symm.trans
        (howns call' (List.mem_cons_of_mem _ List.mem_cons_self))
    rw [List.map_cons, List.map_cons, List.nodup_cons] at hnodup
    exact absurd (Option.some.inj hsame ▸ List.mem_cons_self) hnodup.1

/-- A step that begins no removal asks the driver for none. -/
theorem asked_of_length {s' : State} (h : s'.removing.length ≤ s.removing.length) :
    AskedByOwner w s s' := by
  intro call hcall
  rw [hcall, List.length_append, List.length_singleton] at h
  omega

theorem handBack_removing (owner : String) (resources : List String) (m : Moment) (s : State) :
    (s.handBack owner resources m).removing = s.removing := by
  unfold State.handBack
  simp only
  split <;> rfl

theorem takeOver_removing (m : Moment) (s : State) (res : String) :
    (takeOver m s res).removing = s.removing := by
  unfold takeOver
  simp only
  split
  · split
    · exact handBack_removing _ _ _ _
    · rfl
  · rfl

theorem forkTaken_removing (fs : FileSystem) (opId : String) (m : Moment) (s : State) :
    (forkTaken fs opId m s).removing = s.removing := by
  unfold forkTaken
  split
  · rfl
  rename_i call _
  simp only
  split
  · generalize writeResources fs call.newRoot = resources
    generalize hs₁ : ({ s with materializing := _ } : State) = s₁
    have hremoving : s₁.removing = s.removing := hs₁ ▸ rfl
    clear hs₁
    induction resources generalizing s₁ with
    | nil => exact hremoving
    | cons res resources ih => exact ih _ ((takeOver_removing m s₁ res).trans hremoving)
  · rfl

/-- Both names of the worktree are asked for by a removal that uses the given one. -/
theorem mem_writeResources_of_given {fs : FileSystem} {name : String} (hreach : w.Reachable fs)
    (hname : w.named name = true) (hgiven : name = w.real → w.real = w.given) :
    ∀ r ∈ w.resources, r ∈ writeResources fs name := by
  have heq : name = w.given := by
    rcases Bool.or_eq_true_iff.1 hname with hg | hr
    · exact of_decide_eq_true hg
    · exact (of_decide_eq_true hr).trans (hgiven (of_decide_eq_true hr))
  intro r hr
  rcases List.mem_cons.1 hr with rfl | hr
  · rw [heq]
    exact List.mem_eraseDups.2 List.mem_cons_self
  · rw [List.mem_singleton.1 hr]
    exact real_mem_writeResources hreach hname

variable {owner : String}

/-- A removal that uses the given name, begun in a state that has all the locks of the one before. -/
theorem Sound.asked (h : Sound w s) {s₁ s' : State} {fs : FileSystem} {newRoot fresh : String}
    {internalLeaseOwner : Option String}
    (hstarted : Started fs newRoot internalLeaseOwner fresh s₁ s' owner)
    (hinternal : ∀ holder, some holder = internalLeaseOwner → holder = owner)
    (hkeeps : ∀ r holder, holder ≠ "" → s.domain.getResourceOwner r = some holder →
      s₁.domain.getResourceOwner r = some holder) (hrows : s₁.materialized = s.materialized)
    (hremoving : s₁.removing = s.removing)
    (hreach : w.named (resolved fs newRoot) = true → w.Reachable fs)
    (hgiven : resolved fs newRoot = w.real → w.real = w.given) : AskedByOwner w s s' := by
  intro call hcall hname
  obtain ⟨hallocated, hs', hheld, -⟩ := hstarted
  have hnew : call = ⟨owner, resolved fs newRoot, writeResources fs (resolved fs newRoot)⟩ := by
    rw [hs'] at hcall
    have hcall' : s₁.removing ++ [_] = s.removing ++ [call] := hcall
    rw [hremoving] at hcall'
    exact (List.singleton_inj.1 (List.append_cancel_left hcall')).symm
  subst hnew
  have hall := mem_writeResources_of_given (hreach hname) hname hgiven
  refine ⟨fun r hr => (hallocated.owner r).2.2 (hall r hr), fun r hr holder howner => ?_⟩
  have hnamed : holder ≠ "" := h.holders r holder howner
  rcases hheld r (hall r hr) holder hnamed (hkeeps r holder hnamed howner) with hown | hrow
  · exact .inl (hinternal holder hown)
  · obtain ⟨hissued, hback, -⟩ := h.record _ (hrows ▸ hrow)
    exact .inr ⟨hissued, hback⟩

/-- A release by name of what is held gives back exactly that. -/
theorem handsBack_releaseLocks {resources : List String} {d : ExecutionDomain}
    (hsome : resources ≠ []) (hown : ∀ r ∈ resources, d.getResourceOwner r = some owner) :
    HandsBack owner resources d
      (forgetIdle owner (releaseLocks owner resources d).1) := by
  obtain ⟨hrel, hops, hdrops, -⟩ := releaseLocks_effect owner resources d
  have hdrops_iff : ∀ r, d.Drops owner resources r ↔ r ∈ resources := by
    intro r
    unfold ExecutionDomain.Drops
    rw [if_neg hsome]
    exact ⟨fun h => h.1, fun hr => ⟨hr, .inl (hown r hr)⟩⟩
  refine ⟨hown, fun r => ?_, fun id hne => ?_⟩
  · rw [forgetIdle_owner]
    by_cases hr : r ∈ resources
    · rw [if_pos hr, (hdrops r).1 ((hdrops_iff r).2 hr)]
    · rw [if_neg hr, (hdrops r).2 fun hdrop => hr ((hdrops_iff r).1 hdrop)]
  · have hrel' := hrel.trans (released_forgetIdle owner _)
    obtain ⟨leases, hdb, -⟩ := hrel'.db
    have hunfinished : (forgetIdle owner
        (releaseLocks owner resources d).1).store.getUnfinishedOperations
          d.domainId = d.store.getUnfinishedOperations d.domainId := by
      unfold SqliteStore.getUnfinishedOperations
      rw [hdb]
    have hmemory : id ∈ (forgetIdle owner
        (releaseLocks owner resources d).1).inMemoryAllocatedOps ↔
          id ∈ d.inMemoryAllocatedOps := by
      unfold forgetIdle
      split
      · rw [hops]
      · show id ∈ List.filter _ _ ↔ _
        rw [hops, List.mem_filter]
        exact ⟨fun h => h.1, fun h => ⟨h, decide_eq_true hne⟩⟩
    rw [mem_getActiveOperationIds, mem_getActiveOperationIds,
      hmemory, hrel'.domainId, hunfinished]

/-- An event in the journal changes nothing of it. -/
theorem HandsBack.appendEvent {resources : List String} {d d₁ : ExecutionDomain}
    (h : HandsBack owner resources d d₁) (row : JournalRow) :
    HandsBack owner resources d (appendEvent row d₁) :=
  ⟨h.own, h.locks, h.slots⟩

theorem Sound.settles (h : Sound w s) {call : Removing} (hcall : call ∈ s.removing) (m : Moment) :
    Settles call m s (Worktrees.removed call.owner m s) := by
  have hfind : s.removing.find? (fun other => other.owner = call.owner) = some call := by
    cases hfound : s.removing.find? fun other => other.owner = call.owner with
    | none => exact absurd (decide_eq_true rfl) (List.find?_eq_none.1 hfound call hcall)
    | some =>
      have howner := List.find?_some hfound
      rw [List.inj_on_of_nodup_map h.owners (List.mem_of_find?_eq_some hfound) hcall
        (of_decide_eq_true howner)]
  have hdomain : (Worktrees.removed call.owner m s).domain =
      ((QueueEvent.internalReleaseResources call.owner call.resources m.isCancelled m.elapsed
        m.now).run s.queueing).1 := by
    unfold Worktrees.removed
    rw [hfind]
    simp only [State.handBack]
    split <;> rfl
  obtain ⟨-, hsome, hown⟩ := h.held call hcall
  have hback : HandsBack call.owner call.resources s.domain _ := handsBack_releaseLocks hsome hown
  rcases QueueEvent.run_release_cases call.owner call.resources m.isCancelled m.elapsed m.now
    s.queueing with ⟨hfenced, hrun⟩ | ⟨-, -, ⟨row, hrun⟩ | hrun⟩
  · refine .inl ⟨hfenced, ?_⟩
    rw [hdomain, hrun]
    rfl
  · refine .inr ⟨_, hback.appendEvent row, .inr ?_⟩
    rw [hdomain, hrun]
    rfl
  · refine .inr ⟨_, hback, .inl ?_⟩
    rw [hdomain, hrun]
    rfl

theorem Sound.askedByOwner (h : Sound w s) {l : Step} (hl : Ordinary w s l)
    (hgiven : NamedAsGiven w l) : AskedByOwner w s (l.after s) := by
  cases l with
  | materialize fs newRoot opId forTransaction =>
    apply asked_of_length
    show (Worktrees.materialize fs newRoot opId forTransaction s).removing.length ≤ _
    unfold Worktrees.materialize
    simp only
    split
    · exact Nat.le_refl _
    split
    · rename_i s' _ halloc
      obtain ⟨rfl, -⟩ := allocate_eq_some halloc
      exact Nat.le_refl _
    · exact Nat.le_refl _
  | materialized opId succeeded m =>
    apply asked_of_length
    show (Worktrees.materialized opId succeeded m s).removing.length ≤ _
    unfold Worktrees.materialized
    split
    · exact Nat.le_refl _
    · simp only
      split
      · exact Nat.le_refl _
      · rw [handBack_removing]
  | forkTaken fs opId m =>
    apply asked_of_length
    show (Worktrees.forkTaken fs opId m s).removing.length ≤ _
    rw [forkTaken_removing]
  | dematerialize fs newRoot fresh =>
    show AskedByOwner w s ((dematerialize fs newRoot none fresh s).getD s)
    cases hdemat : dematerialize fs newRoot none fresh s with
    | none => exact asked_of_length (Nat.le_refl _)
    | some =>
      obtain ⟨owner, hstarted⟩ := dematerialize_eq_some hdemat
      exact h.asked hstarted nofun (fun _ _ _ howner => howner) rfl rfl hl.2 hgiven
  | removed owner m =>
    apply asked_of_length
    show (Worktrees.removed owner m s).removing.length ≤ _
    unfold Worktrees.removed
    split
    · exact Nat.le_refl _
    · rw [handBack_removing]
      exact List.length_filter_le _ _
  | abort fs txId forkPath forkRoot =>
    show AskedByOwner w s (Worktrees.abort fs txId forkPath forkRoot s)
    unfold Worktrees.abort
    simp only
    split
    · exact asked_of_length (Nat.le_refl _)
    split
    · rename_i s₁ _ halloc
      obtain ⟨rfl, -⟩ := allocate_eq_some halloc
      cases hdemat : dematerialize fs forkPath (some (abortOwner txId)) (abortOwner txId)
          (s.queue (.allocateResources (abortOwner txId) [writeResource forkRoot] 0)) with
      | none => exact asked_of_length (Nat.le_refl _)
      | some s₂ =>
        have hstarted := started_of_leased hdemat
        have hasked : AskedByOwner w s s₂ :=
          h.asked hstarted (fun _ heq => Option.some.inj heq)
            (fun r holder hnamed => QueueEvent.keeps_after h.orderly hnamed nofun) rfl rfl hl.2
            hgiven
        exact hasked
    · exact asked_of_length (Nat.le_refl _)
  | abortEnded m =>
    apply asked_of_length
    show (Worktrees.abortEnded m s).removing.length ≤ _
    unfold Worktrees.abortEnded
    split
    · exact Nat.le_refl _
    · split <;> exact Nat.le_refl _
  | other => exact asked_of_length (Nat.le_refl _)

theorem Sound.removedByOwner (h : Sound w s) {l : Step} (hl : Ordinary w s l)
    (hgiven : NamedAsGiven w l) : RemovedByOwner w s l where
  asked := h.askedByOwner hl hgiven
  once := (h.after hl).back
  alone := (h.after hl).alone
  settles := by
    rintro owner m rfl call hcall rfl
    exact h.settles hcall m

end Guarantees

/-- A domain before anything was materialized in it. -/
theorem sound_start (w : Worktree) {d : ExecutionDomain} (hleases : ExecutionDomain.LeasesAgree d)
    (hholders : ExecutionDomain.HoldersNamed d) (hqueue : d.waitQueue = []) :
    Sound w { queueing := Queueing.start d } := by
  have horderly : XioFlow.Orderly (Queueing.start d) := orderly_start hleases hqueue
  exact
    { orderly := horderly
      holders := hholders
      waiters := fun item hitem => by
        have hmem : item ∈ d.waitQueue := hitem
        rw [hqueue] at hmem
        cases hmem
      issued := List.nodup_nil
      back := List.nodup_nil
      backIssued := nofun
      owners := List.nodup_nil
      held := nofun
      live := nofun
      worktree := nofun
      record := nofun
      recorded := nofun
      calls := List.nodup_nil
      call := nofun
      pending := nofun }

/-- In every run in which the removals of a worktree use the name that it was given, it is removed
    only by its owner. -/
theorem removedByOwner_along (w : Worktree) (d : ExecutionDomain)
    (hleases : ExecutionDomain.LeasesAgree d) (hholders : ExecutionDomain.HoldersNamed d)
    (hqueue : d.waitQueue = []) (ls : List Step)
    (h : Along Step.after (fun s l => Ordinary w s l ∧ NamedAsGiven w l)
      { queueing := Queueing.start d } ls) :
    Along Step.after (RemovedByOwner w) { queueing := Queueing.start d } ls :=
  h.imp (fun _ _ hs hl => ⟨hs.removedByOwner hl.1 hl.2, hs.after hl.1⟩)
    (sound_start w hleases hholders hqueue)

/-! ## A worktree behind a link -/

def linkedFiles : FileSystem where
  cwd := []
  realpathSync := fun path => if path = ["link", "x"] then some ["real", "x"] else some path
  existsSync := fun _ => true

def linked : Worktree := ⟨"/link/x", "/real/x"⟩

def idle : Moment := ⟨fun _ => false, fun _ => 0, 0⟩

def begun : State := { queueing := Queueing.start openedDomain }

theorem linked_reachable : linked.Reachable linkedFiles := by
  intro name hname
  rcases Bool.or_eq_true_iff.1 hname with hgiven | hreal
  · rw [of_decide_eq_true hgiven]
    decide
  · rw [of_decide_eq_true hreal]
    decide

/-- The worktree is made and removed under the name it was given. -/
def madeAndRemoved : List Step :=
  [.materialize linkedFiles "/link/x" "mat-s-1" false, .materialized "mat-s-1" true idle,
    .dematerialize linkedFiles "/link/x" "demat-1", .removed "mat-s-1" idle]

theorem madeAndRemoved_removedByOwner :
    (afterAll Step.after begun madeAndRemoved).handedBack = ["mat-s-1"] ∧
      Along Step.after (RemovedByOwner linked) begun madeAndRemoved := by
  refine ⟨by decide, removedByOwner_along linked openedDomain
    (fun lease hlease => by cases hlease) openedDomain_holders rfl madeAndRemoved ?_⟩
  refine ⟨⟨⟨by decide, by decide, by decide⟩, trivial⟩, ⟨trivial, trivial⟩,
    ⟨⟨⟨by decide, by decide, by decide⟩, fun _ => linked_reachable⟩, fun heq => ?_⟩,
    ⟨trivial, trivial⟩, trivial⟩
  exact absurd heq (by decide : resolved linkedFiles "/link/x" ≠ "/real/x")

/-- A transaction takes the worktree over, and an operation takes the name it was given. -/
def taken : List Step :=
  [.materialize linkedFiles "/link/x" "mat-s-1" true, .materialized "mat-s-1" true idle,
    .forkTaken linkedFiles "mat-s-1" idle,
    .other (.allocateResources "P" [writeResource "/link/x"] 0)]

/-- The driver is asked to remove the worktree under its real path, while `P` holds the given one. -/
theorem removed_under_its_holder :
    Along Step.after (Ordinary linked) begun
        (taken ++ [.dematerialize linkedFiles "/real/x" "demat-1"]) ∧
      ¬ Along Step.after (RemovedByOwner linked) begun
        (taken ++ [.dematerialize linkedFiles "/real/x" "demat-1"]) := by
  constructor
  · refine ⟨⟨by decide, by decide, by decide⟩, trivial, trivial, ⟨fun id hid => ?_, nofun⟩,
      ⟨⟨by decide, by decide, by decide⟩, fun _ => linked_reachable⟩, trivial⟩
    rw [← Option.some.inj hid]
    decide
  · intro h
    have hlast := (along_append.1 h).2.1.asked
      ⟨"demat-1", "/real/x", [writeResource "/real/x"]⟩ rfl (by decide)
    rcases hlast.2 (writeResource "/link/x") List.mem_cons_self "P" (by decide) with
      heq | ⟨hissued, -⟩
    · exact absurd heq (by decide)
    · exact absurd hissued (by decide)

end Worktrees
end Supervisor
end XioFlow
