/-
  XioFlow.Supervisor.WriteExclusion

  Two operations on one directory exclude each other exactly where they name
  its write resource alike.

  That the names are equal is enough because the domain grants a resource to
  one operation at a time, which is an invariant of its runs.  Where they
  differ nothing keeps the second operation from its start, not even the look
  of a rollback at its root: of two rollbacks the one that is not named by the
  real path goes first.
-/

import XioFlow.Supervisor.WriteRequests

namespace XioFlow

open Lib
open ExecutionDomain (writeResource)
open ExecutionDomain

namespace Supervisor

variable {fs : FileSystem}

/-! ## What is claimed of two requests -/

/-- Both name the same existing directory. -/
def SameDirectory (fs : FileSystem) (a b : WriteRequest) : Prop :=
  ∃ real, fs.realpathSync (a.directory fs) = some real ∧
    fs.realpathSync (b.directory fs) = some real

/-- In no run of the domain, from the moment it was opened, do two operations with these requests
    hold their resources at the same time. -/
def NeverBothHold (fs : FileSystem) (a b : WriteRequest) : Prop :=
  ∀ d : ExecutionDomain, LeasesAgree d → d.waitQueue = [] →
    ∀ (events : List WriteEvent) (idA idB : String), idA ≠ idB →
      ¬ ((afterAll (WriteState.after fs) { queue := Queueing.start d } events).holds fs idA a ∧
        (afterAll (WriteState.after fs) { queue := Queueing.start d } events).holds fs idB b)

/-! ## The invariant -/

/-- What was granted and not given back is the operation's in the table of locks. -/
structure WriteState.Registered (s : WriteState) : Prop where
  orderly : XioFlow.Orderly s.queue
  named : ∀ holder ∈ s.active, holder.id ≠ ""

namespace WriteState.Registered

theorem opened {d : ExecutionDomain} (hleases : LeasesAgree d) (hqueue : d.waitQueue = []) :
    Registered { queue := Queueing.start d } :=
  ⟨orderly_start hleases hqueue, fun _ hholder => absurd hholder List.not_mem_nil⟩

theorem after {s : WriteState} (h : s.Registered) (e : WriteEvent) :
    (WriteState.after fs e s).Registered := by
  cases e with
  | start id request maxWaitMs cancelled =>
    rw [WriteState.after]
    split
    · exact h
    · rename_i hid
      split
      · exact h
      · refine ⟨((request.asks fs id maxWaitMs cancelled).orderly_after h.orderly).2, ?_⟩
        intro holder hholder
        simp only at hholder
        split at hholder
        · rcases List.mem_append.1 hholder with hold | hnew
          · exact h.named holder hold
          · rw [List.mem_singleton.1 hnew]
            rintro rfl
            exact hid rfl
        · exact h.named holder hholder
  | finish id isCancelled elapsed now =>
    exact ⟨(QueueEvent.orderly_after _ h.orderly).2,
      fun holder hholder => h.named holder (List.mem_filter.1 hholder).1⟩
  | other e => exact ⟨(e.orderly_after h.orderly).2, h.named⟩

/-- Who holds a resource is its owner. -/
theorem owner {s : WriteState} (h : s.Registered) {id : String} {request : WriteRequest}
    (hholds : s.holds fs id request) :
    s.queue.domain.getResourceOwner (request.resource fs) = some id :=
  h.orderly.locked _ hholds.2 (h.named _ hholds.1)

end WriteState.Registered

/-- Two operations that name the resource alike never hold it at the same time. -/
theorem neverBothHold_of_eq {a b : WriteRequest} (heq : a.resource fs = b.resource fs) :
    NeverBothHold fs a b := by
  rintro d hleases hqueue events idA idB hne ⟨hA, hB⟩
  have hregistered := afterAll_invariant (I := WriteState.Registered)
    (fun s e h => @WriteState.Registered.after fs s h e)
    (WriteState.Registered.opened hleases hqueue) events
  have hownerA := hregistered.owner hA
  have hownerB := hregistered.owner hB
  rw [heq, hownerB] at hownerA
  exact hne (Option.some.inj hownerA).symm

/-! ## A run in which both hold -/

/-- A domain at its start. -/
def freshDomain : ExecutionDomain where
  domainId := "domain"
  store := { db := Database.empty, currentEpoch := none }
  epoch := 1

theorem freshDomain_owner (r : String) : freshDomain.getResourceOwner r = none := rfl

theorem allocateResources_free {d : ExecutionDomain} {id r : String} (hfenced : d.isFenced = false)
    (hquota : d.maxConcurrentOps = none) (hfree : d.getResourceOwner r = none) :
    d.allocateResources id [r] 0 = .ok (d.grant id [r]) := by
  have hconflict : d.firstConflict id [r] = none := by
    rw [firstConflict_eq_none_iff]
    intro r' hr' holder howner
    rw [List.mem_singleton.1 hr', hfree] at howner
    cases howner
  have hslot : d.quotaFull = false := by rw [quotaFull, hquota]
  simp only [allocateResources, assertNotFenced, hfenced,
    hconflict, hslot, Bool.false_eq_true, if_false, false_and]

/-- A free resource is granted at once, to processes as to the others. -/
theorem asks_free {q : Queueing} {id : String} {request : WriteRequest}
    (hfenced : q.domain.isFenced = false) (hquota : q.domain.maxConcurrentOps = none)
    (hqueue : q.domain.waitQueue = [])
    (hfree : q.domain.getResourceOwner (request.resource fs) = none) :
    (request.asks fs id 0 false).after q =
      { domain := q.domain.grant id [request.resource fs]
        nextTicket := q.nextTicket + 1
        held := q.held ++ [⟨request.resource fs, id⟩] } := by
  have halloc : q.domain.allocateResources id [request.resource fs] 0 =
      .ok (q.domain.grant id [request.resource fs]) :=
    allocateResources_free hfenced hquota hfree
  have hkept : ∀ locks : List Lock, locks.filter (fun _ => !false) = locks :=
    fun locks => List.filter_eq_self.2 fun _ _ => rfl
  unfold WriteRequest.asks
  split
  · have hrun : ExecutionDomain.allocateResourcesWithWait
        ⟨q.nextTicket, id, [request.resource fs]⟩ 0 false q.domain =
          (q.domain.grant id [request.resource fs],
            [⟨⟨q.nextTicket, id, [request.resource fs]⟩, .granted, q.domain.waitQueue⟩]) := by
      unfold ExecutionDomain.allocateResourcesWithWait
      simp [assertNotFenced, hfenced, hqueue, overlaps, halloc]
    unfold QueueEvent.after QueueEvent.grants QueueEvent.run QueueEvent.givesBack
    simp only [hrun, hkept]
    rfl
  · unfold QueueEvent.after QueueEvent.grants QueueEvent.run QueueEvent.givesBack
    simp only [halloc, hkept]
    rfl

/-- A start that finds its id unused, its root quiescent and its resource free. -/
theorem start_granted {s : WriteState} {id : String} {request : WriteRequest} (hnamed : id ≠ "")
    (hid : ∀ holder ∈ s.active, holder.id ≠ id)
    (hquiet : request.checksRoots = true → s.quiescent fs id (request.lockPath fs) = true)
    (hfenced : s.queue.domain.isFenced = false)
    (hquota : s.queue.domain.maxConcurrentOps = none) (hqueue : s.queue.domain.waitQueue = [])
    (hfree : s.queue.domain.getResourceOwner (request.resource fs) = none) :
    WriteState.after fs (.start id request 0 false) s =
      { queue :=
          { domain := s.queue.domain.grant id [request.resource fs]
            nextTicket := s.queue.nextTicket + 1
            held := s.queue.held ++ [⟨request.resource fs, id⟩] }
        active := s.active ++ [{ id, request }] } := by
  have hunused : (id = "" || s.active.any fun holder => holder.id = id) = false := by
    rw [Bool.or_eq_false_iff, decide_eq_false_iff_not, List.any_eq_false]
    refine ⟨hnamed, fun holder hmem => ?_⟩
    rw [decide_eq_true_eq]
    exact hid holder hmem
  have hpass : (request.checksRoots && !s.quiescent fs id (request.lockPath fs)) = false := by
    cases hchecks : request.checksRoots with
    | false => rfl
    | true => rw [hquiet hchecks]; rfl
  have hgranted := @asks_free fs _ id _ hfenced hquota hqueue hfree
  have howner : (s.queue.domain.grant id [request.resource fs]).getResourceOwner
      (request.resource fs) = some id := by
    rw [getResourceOwner_grant, if_pos (List.mem_singleton_self _)]
  rw [WriteState.after, hunused, hpass, hgranted]
  simp only [WriteState.begun, howner, decide_true, Bool.true_or, if_true, Bool.false_eq_true,
    if_false]

/-- The state once the first operation has started in a fresh domain. -/
def WriteState.first (fs : FileSystem) (request : WriteRequest) : WriteState where
  queue :=
    { domain := freshDomain.grant "first" [request.resource fs]
      nextTicket := 1
      held := [⟨request.resource fs, "first"⟩] }
  active := [⟨"first", request⟩]

/-- Where the names differ the second operation starts beside the first, if it finds its root
    quiescent. -/
theorem bothHold_of_ne {first second : WriteRequest}
    (hne : first.resource fs ≠ second.resource fs)
    (hquiet : second.checksRoots = true →
      (WriteState.first fs first).quiescent fs "second" (second.lockPath fs) = true) :
    ¬ NeverBothHold fs first second := by
  have hfirst : WriteState.after fs (.start "first" first 0 false)
      { queue := Queueing.start freshDomain } = WriteState.first fs first :=
    start_granted (by decide) (fun _ hholder => absurd hholder List.not_mem_nil) (fun _ => rfl) rfl
      rfl rfl (freshDomain_owner _)
  have hsame := sameButLocks_grant "first" [first.resource fs] freshDomain
  have hbeside := @start_granted fs (WriteState.first fs first) "second" second (by decide)
    (fun holder hmem => by
      rw [List.mem_singleton.1 hmem]
      show "first" ≠ "second"
      decide) hquiet hsame.isFenced hsame.maxConcurrentOps hsame.waitQueue (by
      show (freshDomain.grant "first" [first.resource fs]).getResourceOwner _ = none
      rw [getResourceOwner_grant, if_neg fun h => hne (List.mem_singleton.1 h).symm,
        freshDomain_owner])
  intro hnever
  refine hnever freshDomain (fun lease hlease => by cases hlease) rfl
    [.start "first" first 0 false, .start "second" second 0 false] "first" "second" (by decide) ?_
  rw [afterAll, hfirst, afterAll, hbeside, afterAll]
  exact ⟨⟨by simp [WriteState.first], by simp [WriteState.first]⟩, by simp, by simp⟩

theorem NeverBothHold.symm {a b : WriteRequest} (h : NeverBothHold fs a b) :
    NeverBothHold fs b a :=
  fun d hleases hqueue events idB idA hne hboth =>
    h d hleases hqueue events idA idB (Ne.symm hne) ⟨hboth.2, hboth.1⟩

theorem resource_inj {a b : WriteRequest} :
    a.resource fs = b.resource fs ↔ a.lockPath fs = b.lockPath fs := by
  constructor
  · intro h
    have hroots := congrArg writeRoot? h
    rw [WriteRequest.resource, WriteRequest.resource, writeRoot?_writeResource,
      writeRoot?_writeResource] at hroots
    exact Option.some.inj hroots
  · intro h
    rw [WriteRequest.resource, h, WriteRequest.resource]

/-! ## Two rollbacks -/

section Rollbacks

variable {a b : WriteRequest}

theorem mutationRoots_of_checksRoots (h : a.checksRoots = true) :
    a.mutationRoots fs = [a.lockPath fs] := by
  cases a with
  | rollback | rollbackUnder => rfl
  | _ => cases h

/-- A rollback names a path that is resolved. -/
theorem resolved_lockPath (hlawful : fs.Lawful) (h : a.checksRoots = true) :
    resolved fs (a.lockPath fs) = a.lockPath fs := by
  cases a with
  | rollback path =>
    exact congrArg renderPath (fs.resolve_renderPath (fs.resolve_proper hlawful.cwd path))
  | rollbackUnder path =>
    exact resolve_normalizePathPattern hlawful (fs.resolve_proper hlawful.cwd path)
  | _ => cases h

/-- The first rollback is not seen by the second, where it has neither of its names. -/
theorem quiescent_of_ne (hlawful : fs.Lawful) (ha : a.checksRoots = true)
    (hroot : a.lockPath fs ≠ b.lockPath fs)
    (hreal : a.lockPath fs ≠ (rootAliases fs (b.lockPath fs)).realRoot) :
    (WriteState.first fs a).quiescent fs "second" (b.lockPath fs) = true := by
  have hresource : ∀ root, a.lockPath fs ≠ root → writeResource root ≠ a.resource fs := by
    intro root hne heq
    have hroots := congrArg writeRoot? heq
    rw [WriteRequest.resource, writeRoot?_writeResource, writeRoot?_writeResource] at hroots
    exact hne (Option.some.inj hroots).symm
  have hlocked : ∀ root, a.lockPath fs ≠ root →
      (freshDomain.grant "first" [a.resource fs]).isResourceLocked (writeResource root) = false := by
    intro root hne
    have hother : writeResource root ∉ [a.resource fs] :=
      fun hmem => hresource root hne (List.mem_singleton.1 hmem)
    rw [isResourceLocked, getResourceOwner_grant, if_neg hother]
    rfl
  have hroots := @mutationRoots_of_checksRoots fs a ha
  have hresolved := resolved_lockPath hlawful ha
  have huntouched : WriteState.touches fs ⟨"first", a⟩ (rootAliases fs (b.lockPath fs)) = false := by
    unfold WriteState.touches RootAliases.resources
    rw [hroots]
    simp only [List.any_cons, List.any_nil, hresolved, List.contains_cons, List.contains_nil,
      Bool.or_false, Bool.or_eq_false_iff, decide_eq_false_iff_not, beq_eq_false_iff_ne]
    exact ⟨⟨(hresource _ hroot).symm, (hresource _ hreal).symm⟩, hroot, hreal⟩
  unfold WriteState.quiescent RootAliases.resources WriteState.first
  simp only [List.any_cons, List.any_nil, List.all_cons, List.all_nil, huntouched]
  rw [hlocked (rootAliases fs (b.lockPath fs)).root hroot, hlocked _ hreal]
  rfl

/-- Of a root that is the real path of another one the real path is itself. -/
theorem realRoot_realRoot (hlawful : fs.Lawful) {root other : String}
    (h : root = (rootAliases fs other).realRoot) : (rootAliases fs root).realRoot = root := by
  have hother : root = ((fs.realpathSync (fs.resolve other)).map renderPath).getD other := h
  show ((fs.realpathSync (fs.resolve root)).map renderPath).getD root = root
  cases hreal : fs.realpathSync (fs.resolve other) with
  | none =>
    rw [hreal] at hother
    rw [hother, show (Option.map renderPath none).getD other = other from rfl, hreal]
    rfl
  | some real =>
    rw [hreal] at hother
    have hproper := hlawful.proper _ real (fs.resolve_proper hlawful.cwd other) hreal
    rw [hother, show (Option.map renderPath (some real)).getD other = renderPath real from rfl,
      fs.resolve_renderPath hproper, FileSystem.realpathSync_self hlawful hreal]
    rfl

/-- Of two rollbacks with different names one does not see the other. -/
theorem bothHold_of_rollbacks (hlawful : fs.Lawful) (ha : a.checksRoots = true)
    (hb : b.checksRoots = true) (hne : a.lockPath fs ≠ b.lockPath fs) : ¬ NeverBothHold fs a b := by
  by_cases hreal : a.lockPath fs = (rootAliases fs (b.lockPath fs)).realRoot
  · -- `a` has the real path of `b`: it does not see `b`
    have hself := realRoot_realRoot hlawful hreal
    intro hnever
    refine bothHold_of_ne (fun h => hne (resource_inj.1 h).symm)
      (fun _ => quiescent_of_ne hlawful hb hne.symm ?_) hnever.symm
    rw [hself]
    exact hne.symm
  · exact bothHold_of_ne (fun h => hne (resource_inj.1 h))
      fun _ => quiescent_of_ne hlawful ha hne hreal

end Rollbacks

/-! ## Exclusion -/

/-- Where the paths differ, both hold in some run. -/
theorem bothHold_of_lockPath_ne (hlawful : fs.Lawful) {a b : WriteRequest}
    (hne : a.lockPath fs ≠ b.lockPath fs) : ¬ NeverBothHold fs a b := by
  cases hb : b.checksRoots with
  | false =>
    refine bothHold_of_ne (fun h => hne (resource_inj.1 h)) fun hchecks => ?_
    rw [hb] at hchecks
    cases hchecks
  | true =>
    cases ha : a.checksRoots with
    | true => exact bothHold_of_rollbacks hlawful ha hb hne
    | false =>
      intro hnever
      refine bothHold_of_ne (fun h => hne (resource_inj.1 h).symm) (fun hchecks => ?_) hnever.symm
      rw [ha] at hchecks
      cases hchecks

/-! ## Paths given as the real ones -/

namespace WriteRequest

/-- The caller's spelling. -/
def path : WriteRequest → String
  | executeProcess path _ | executeProcessUnder path _ | startService path
  | captureSnapshot path | captureSnapshotUnder path | rollback path | rollbackUnder path
  | materialize path | transaction path _ => path

/-- The spelling is read as a pattern of the capability. -/
def readAsPattern : WriteRequest → Bool
  | captureSnapshotUnder _ | rollbackUnder _ => true
  | _ => false

/-- The caller gives the directory by its real absolute path, in which a pattern has no wildcard. -/
structure GivenReal (fs : FileSystem) (r : WriteRequest) : Prop where
  given : fs.realpathSync (fs.resolve r.path) = some (fs.resolve r.path)
  text : r.path = renderPath (fs.resolve r.path)
  plain : r.readAsPattern = true → fromWildcard r.path = []
  directory : fs.realpathSync (r.directory fs) = some (r.directory fs)

theorem normalizePathPattern_of_real {path : String}
    (hreal : fs.realpathSync (fs.resolve path) = some (fs.resolve path))
    (hplain : fromWildcard path = []) :
    normalizePathPattern fs path = renderPath (fs.resolve path) := by
  have hnormal : normalizePathPattern fs path = fs.resolveRealPath path := if_pos hplain
  rw [hnormal, fs.resolveRealPath_eq, FileSystem.real, FileSystem.realPath_some hreal]

/-- All kinds of operations name a real absolute path by itself. -/
theorem GivenReal.lockPath {r : WriteRequest} (h : r.GivenReal fs) :
    r.lockPath fs = renderPath (r.directory fs) := by
  obtain ⟨hgiven, htext, hplain, -⟩ := h
  cases r with
  | executeProcess path | transaction path =>
    have hreal : realOrResolved fs path = fs.resolve path := congrArg (Option.getD · _) hgiven
    simp only [WriteRequest.lockPath, WriteRequest.directory, hreal]
  | executeProcessUnder | startService => exact htext
  | captureSnapshot | rollback | materialize => rfl
  | captureSnapshotUnder path =>
    have hnormal : normalizePathPattern fs path = renderPath (fs.resolve path) :=
      normalizePathPattern_of_real hgiven (hplain rfl)
    have htext' : path = renderPath (fs.resolve path) := htext
    show resolved fs (normalizePathPattern fs path) = _
    rw [hnormal, ← htext']
    rfl
  | rollbackUnder path =>
    have hnormal : normalizePathPattern fs path = renderPath (fs.resolve path) :=
      normalizePathPattern_of_real hgiven (hplain rfl)
    have htext' : path = renderPath (fs.resolve path) := htext
    show normalizePathPattern fs (renderPath (fs.resolve path)) = _
    rw [← htext', hnormal]
    rfl

end WriteRequest

/-- Two operations exclude each other exactly where they name the resource alike; so they do when
    both are given the directory by its real path. -/
theorem neverBothHold (hlawful : fs.Lawful) (a b : WriteRequest) :
    (NeverBothHold fs a b ↔ a.lockPath fs = b.lockPath fs) ∧
      (SameDirectory fs a b → a.GivenReal fs → b.GivenReal fs → NeverBothHold fs a b) := by
  constructor
  · constructor
    · intro hnever
      by_contra hne
      exact bothHold_of_lockPath_ne hlawful hne hnever
    · exact fun hpath => neverBothHold_of_eq (resource_inj.2 hpath)
  · rintro ⟨real, hrealA, hrealB⟩ hA hB
    have hdirectory : a.directory fs = b.directory fs := by
      rw [hA.directory, Option.some.injEq] at hrealA
      rw [hB.directory, Option.some.injEq] at hrealB
      rw [hrealA, hrealB]
    refine neverBothHold_of_eq (resource_inj.2 ?_)
    rw [hA.lockPath, hB.lockPath, hdirectory]

/-- A process and a snapshot of the real directory exclude each other. -/
theorem neverBothHold_real :
    NeverBothHold linkedFiles (.executeProcess "/w" []) (.captureSnapshot "/w") := by
  have hresolve : linkedFiles.resolve "/w" = ["w"] := by decide
  have hreal : linkedFiles.realpathSync (linkedFiles.resolve "/w") =
      some (linkedFiles.resolve "/w") := by
    rw [hresolve]
    rfl
  have htext : "/w" = renderPath (linkedFiles.resolve "/w") := by
    rw [hresolve]
    decide
  exact (neverBothHold linkedFiles_lawful _ _).2 ⟨_, hreal, hreal⟩ ⟨hreal, htext, nofun, hreal⟩
    ⟨hreal, htext, nofun, hreal⟩

/-- A process and a snapshot of the same spelling: one names the real path, the other does not. -/
theorem writeExclusion_fails : linkedFiles.Lawful ∧
    SameDirectory linkedFiles (.executeProcess "/link" []) (.captureSnapshot "/link") ∧
    ¬ NeverBothHold linkedFiles (.executeProcess "/link" []) (.captureSnapshot "/link") := by
  have hresolve : linkedFiles.resolve "/link" = ["link"] := by decide
  have hreal : linkedFiles.realpathSync (linkedFiles.resolve "/link") = some ["w"] := by
    rw [hresolve]
    rfl
  refine ⟨linkedFiles_lawful, ⟨["w"], hreal, hreal⟩,
    bothHold_of_lockPath_ne linkedFiles_lawful fun hpath => ?_⟩
  change renderPath ((linkedFiles.realpathSync (linkedFiles.resolve "/link")).getD _) =
    renderPath (linkedFiles.resolve "/link") at hpath
  rw [hreal, hresolve] at hpath
  exact absurd hpath (by decide)

end Supervisor
end XioFlow
