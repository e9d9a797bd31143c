/-
  XioFlow.Supervisor.RollbackRoots

  The roots of a rollback: those it is admitted for and locks, and those it
  restores.

  The first are taken from the options and the capability, the second from the
  snapshot.  Git gets the second as pathspecs, and checks out what they match
  wherever it lies: whether that stays inside what is locked depends on how the
  two lists relate, and on what git makes of a root that is not only names.
-/

import XioFlow.Capability.Patterns
import XioFlow.Supervisor.Steps
import XioFlow.Store.Quiet
import XioFlow.Lib.Wp
import XioFlow.Domain.Queueing

namespace XioFlow

open Lib
open Lib.Prog (Blocks run_bind run_read bind_ok read_ok check_ok exec_ok pure_ok throw_ok
  modify_ok wp_state)
open ExecutionDomain (writeResource)
open SqliteStore

/-! ## Roots as directories -/

/-- `resolveRealPath` of the snapshot driver: what does not exist is only resolved. -/
def driverRealPath (fs : FileSystem) (p : String) : Path :=
  (fs.realpathSync (fs.resolve p)).getD (fs.resolve p)

/-- The path is the root or lies below it. -/
def Inside (fs : FileSystem) (root : String) (p : Path) : Prop := driverRealPath fs root <+: p

theorem Inside.trans {fs : FileSystem} {root root' : String} {p : Path}
    (h : Inside fs root (driverRealPath fs root')) (hp : Inside fs root' p) : Inside fs root p :=
  List.IsPrefix.trans h hp

/-- The repository of a snapshot, and what git matches in it. -/
structure GitRepository where
  /-- the top of the working tree -/
  repoRoot : Path
  /-- The pathspec matches the file, a path from the top of the working tree. -/
  selects : String → Path → Prop

/-- `path.relative(repoRoot, root) || '.'`, of the names of a root below the top. -/
def pathspecOf (names : Path) : String :=
  if names = [] then "." else String.ofList (renderPath names).toList.tail

/-- Names that git reads as they are: no glob characters, and no colon in front. -/
def Literal (names : Path) : Prop :=
  (∀ name ∈ names, ProperName name ∧ ∀ c ∈ name.toList, c ∉ ['*', '?', '[', '\\']) ∧
    ∀ name ∈ names.head?, name.toList.head? ≠ some ':'

namespace GitRepository

variable (git : GitRepository)

/-- A pathspec of names matches what lies at them or below. -/
def Lawful : Prop :=
  ∀ names file, Literal names → (git.selects (pathspecOf names) file ↔ names <+: file)

/-- Every root lies in the working tree; else git refuses its pathspec, and nothing is restored. -/
def HasRoots (fs : FileSystem) (roots : List String) : Prop :=
  ∀ root ∈ roots, git.repoRoot <+: driverRealPath fs root

end GitRepository

/-- What `restore` may rewrite or delete: it checks out what the pathspecs of the roots of the
    snapshot match, and deletes what they match in their scope. -/
def MayRestore (fs : FileSystem) (git : GitRepository) (snapshot : SnapshotRef) (p : Path) : Prop :=
  git.HasRoots fs snapshot.roots ∧
    ∃ root ∈ snapshot.roots, ∃ names file, driverRealPath fs root = git.repoRoot ++ names ∧
      git.selects (pathspecOf names) file ∧ p = git.repoRoot ++ file

/-- Each root of the snapshot lies in one of the targets, and so does all that git matches for a
    root that it does not read as it is. -/
def RootsCovered (fs : FileSystem) (git : GitRepository) (snapshot : SnapshotRef)
    (targets : List String) : Prop :=
  git.HasRoots fs snapshot.roots → ∀ root ∈ snapshot.roots, ∀ names,
    driverRealPath fs root = git.repoRoot ++ names →
      (Literal names → ∃ target ∈ targets, Inside fs target (driverRealPath fs root)) ∧
      (¬ Literal names → ∀ file, git.selects (pathspecOf names) file →
        ∃ target ∈ targets, Inside fs target (git.repoRoot ++ file))

/-- Where git does as it promises, everything that may be restored lies in a target exactly when
    the roots are covered. -/
theorem mayRestore_inside_iff {fs : FileSystem} {git : GitRepository} {snapshot : SnapshotRef}
    (hgit : git.Lawful) (targets : List String) :
    (∀ p, MayRestore fs git snapshot p → ∃ target ∈ targets, Inside fs target p) ↔
      RootsCovered fs git snapshot targets := by
  constructor
  · intro hinside hroots root hroot names hnames
    refine ⟨fun hliteral => ?_, fun _ file hfile => ?_⟩
    · have hself : git.selects (pathspecOf names) names :=
        (hgit names names hliteral).2 (List.prefix_refl _)
      rw [hnames]
      exact hinside _ ⟨hroots, root, hroot, names, names, hnames, hself, rfl⟩
    · exact hinside _ ⟨hroots, root, hroot, names, file, hnames, hfile, rfl⟩
  · rintro hcovered p ⟨hroots, root, hroot, names, file, hnames, hfile, rfl⟩
    obtain ⟨hread, hother⟩ := hcovered hroots root hroot names hnames
    by_cases hliteral : Literal names
    · obtain ⟨target, htarget, hcontains⟩ := hread hliteral
      obtain ⟨rest, rfl⟩ := (hgit names file hliteral).1 hfile
      have hbelow : Inside fs root (git.repoRoot ++ (names ++ rest)) := by
        show driverRealPath fs root <+: _
        rw [hnames, ← List.append_assoc]
        exact List.prefix_append _ _
      exact ⟨target, htarget, hcontains.trans hbelow⟩
    · exact hother hliteral file hfile

namespace Supervisor

variable (fs : FileSystem) (git : GitRepository) (options : RollbackOptions)
  (snapshot : SnapshotRef)

/-- The roots that a call asks for. -/
def requestedRoots : List String := (options.roots.getD snapshot.roots).map (resolved fs)

/-- The roots that a call locks: those it asks for; under a capability their real paths, or all of
    its scope when it asks for none. -/
def rollbackRoots (s : SqliteStore) : List String :=
  match (nonEmpty options.capabilityId).bind (storedCapability s) with
  | none => requestedRoots fs options snapshot
  | some cap =>
    match requestedRoots fs options snapshot with
    | [] => (normalizeScope fs cap.scope.toInput).paths
    | roots => roots.map (normalizePathPattern fs)

/-- What `rollback` asks of a capability. -/
def rollbackRequest (capabilityId : String) : CheckCapabilityAdmissionOptions :=
  internalRequest capabilityId "workspace.rollback" (some (requestedRoots fs options snapshot))
    options.capabilityWorkspace options.runId options.opId

/-- The admission that a call under a capability gets. -/
def rollbackAdmission (now : Timestamp) (d : ExecutionDomain) :
    Option CapabilityAdmissionResult :=
  (nonEmpty options.capabilityId).bind fun capabilityId =>
    match admission fs d.store now
      (d.countedRequest (rollbackRequest fs options snapshot capabilityId)) with
    | some (.ok result) => some result
    | _ => none

/-! ## What the operation holds -/

/-- The operation has the lock and the lease for writing to a root, and its record names it. -/
structure HoldsWrite (opId root : String) (d : ExecutionDomain) : Prop where
  lock : d.getResourceOwner (writeResource root) = some opId
  record : ∃ op, d.store.getOperation opId = some op ∧ writeResource root ∈ op.requiredResources
  lease : ∃ lease ∈ d.store.db.resourceLeases.rows,
    lease.operationId = opId ∧ lease.resourceId = writeResource root

/-- Every path that the restore may modify lies in a root that the operation holds, and in one that
    it was admitted for. -/
def StaysInside (admitted : Option CapabilityAdmissionResult) (d : ExecutionDomain) : Prop :=
  ∀ p, MayRestore fs git snapshot p →
    (∃ root, Inside fs root p ∧ HoldsWrite options.opId root d) ∧
    ∀ result, admitted = some result → ∃ root ∈ result.effectiveMutationRoots, Inside fs root p

/-! ## The roots that are locked -/

theorem writeResource_injective {root root' : String}
    (h : writeResource root = writeResource root') :
    root = root' := by
  unfold writeResource at h
  have hlist := congrArg String.toList h
  rw [String.toList_append, String.toList_append] at hlist
  exact String.toList_inj.1 (List.append_cancel_left hlist)

variable {fs : FileSystem} {git : GitRepository} {options : RollbackOptions}
  {snapshot : SnapshotRef} {clock : Clock} {op : Operation}

/-- What the capability admits are the roots computed from what was asked for. -/
theorem effectiveMutationRoots_of_admission {capabilityId : String} {now : Timestamp}
    {d : ExecutionDomain} {result : CapabilityAdmissionResult}
    (hid : nonEmpty options.capabilityId = some capabilityId) (h : admission fs d.store now
      (d.countedRequest (rollbackRequest fs options snapshot capabilityId)) = some (.ok result)) :
    result.effectiveMutationRoots = rollbackRoots fs options snapshot d.store := by
  obtain ⟨cap, hcap, -, -, hwithin⟩ := admission_ok_iff.1 h
  have hstored : storedCapability d.store capabilityId = some cap := hcap
  have hroots := (withinScope_ok_iff.1 hwithin).2.2.2.1
  unfold rollbackRoots
  rw [hid, Option.bind_some, hstored]
  have hrequested : (d.countedRequest
      (rollbackRequest fs options snapshot capabilityId)).mutationRoots.getD [] =
      requestedRoots fs options snapshot := rfl
  rcases effectiveMutationRoots_ok_iff.1 hroots with ⟨hnone, heq⟩ | ⟨hsome, heq, -⟩
  · rw [hrequested] at hnone
    rw [heq, hnone]
    rfl
  · rw [heq]
    rw [hrequested] at hsome ⊢
    obtain ⟨root, rest, hcons⟩ := List.exists_cons_of_ne_nil hsome
    rw [hcons]

/-- A call without a capability that names the roots of the snapshot locks enough. -/
theorem rollbackRoots_cover (hcwd : ∀ name ∈ fs.cwd, ProperName name)
    (hcapability : nonEmpty options.capabilityId = none)
    (hnamed : ∀ root ∈ snapshot.roots, root ∈ options.roots.getD snapshot.roots) (s : SqliteStore) :
    ∀ root ∈ snapshot.roots, ∃ target ∈ rollbackRoots fs options snapshot s,
      Inside fs target (driverRealPath fs root) := by
  intro root hroot
  have hresolved : fs.resolve (resolved fs root) = fs.resolve root :=
    fs.resolve_renderPath (fs.resolve_proper hcwd root)
  refine ⟨resolved fs root, ?_, ?_⟩
  · unfold rollbackRoots
    rw [hcapability]
    exact List.mem_map_of_mem (hnamed root hroot)
  · have hsame : driverRealPath fs (resolved fs root) = driverRealPath fs root := by
      unfold driverRealPath
      rw [hresolved]
    exact hsame ▸ List.prefix_refl _

variable {k k' : Kernel}

theorem admitInternal_nextTicket {capabilityId : Option String}
    {request : String → CheckCapabilityAdmissionOptions} {now : Timestamp}
    {r : Except KernelError (Option (Option CapabilityAdmissionResult))}
    (h : (admitInternal fs capabilityId request now).run k = (k', r)) :
    k'.nextTicket = k.nextTicket := by
  have hkeeps : Prog.Keeps (fun k₁ : Kernel => k₁.nextTicket = k.nextTicket)
      (admitInternal fs capabilityId request now) := by
    unfold admitInternal
    split
    · exact Prog.keeps_pure _
    · refine Prog.Keeps.bind ?_ fun _ => Prog.keeps_pure _
      intro k₁ hk₁
      refine wp_state.2 ?_
      rw [run_onDomain]
      exact hk₁
  have hstate := hkeeps.state (s := k) rfl
  rw [h] at hstate
  exact hstate

/-- What a capability admits before a rollback goes on. -/
theorem admitInternal_ok {capAdmission : Option CapabilityAdmissionResult}
    (h : (admitInternal fs options.capabilityId (rollbackRequest fs options snapshot)
      clock.now).run k = (k', .ok (some capAdmission))) :
    rollbackAdmission fs options snapshot clock.now k.domain = capAdmission ∧
      (capAdmission.map CapabilityAdmissionResult.effectiveMutationRoots).getD
          (requestedRoots fs options snapshot) =
        rollbackRoots fs options snapshot k.domain.store := by
  unfold admitInternal at h
  unfold rollbackAdmission
  cases hid : nonEmpty options.capabilityId with
  | none =>
    rw [hid] at h
    obtain ⟨rfl, hanswer⟩ := pure_ok h
    cases hanswer
    refine ⟨rfl, ?_⟩
    unfold rollbackRoots
    rw [hid]
    rfl
  | some capabilityId =>
    rw [hid] at h
    obtain ⟨answer, k₁, hcheck, hanswer⟩ := bind_ok h
    obtain ⟨rfl, hmap⟩ := pure_ok hanswer
    have hreturned := congrArg Prod.snd hcheck
    rw [run_onDomain] at hreturned
    have hrun : ((ExecutionDomain.checkCapabilityAdmission fs clock.now
        (rollbackRequest fs options snapshot capabilityId)).run k.domain).2 = .ok answer :=
      hreturned
    unfold ExecutionDomain.checkCapabilityAdmission at hrun
    rw [run_bind, run_read] at hrun
    simp only at hrun
    rw [ExecutionDomain.run_onStore] at hrun
    have hadmission := checkCapabilityAdmission_answer fs k.domain.store clock.now
      (k.domain.countedRequest (rollbackRequest fs options snapshot capabilityId))
    have hanswered := hadmission.symm.trans hrun
    rcases hcase : admission fs k.domain.store clock.now (k.domain.countedRequest
      (rollbackRequest fs options snapshot capabilityId)) with _ | e | result
    · rw [hcase] at hanswered
      cases hanswered
      cases hmap
    · rw [hcase] at hanswered
      cases hanswered
    · rw [hcase] at hanswered
      cases hanswered
      cases hmap
      refine ⟨?_, ?_⟩
      · rw [Option.bind_some, hcase]
      · exact effectiveMutationRoots_of_admission hid hcase

/-! ## The intent of a kernel operation -/

/-- The operation has its record, its locks and its leases. -/
structure Intended (op : Operation) (d : ExecutionDomain) : Prop where
  record : ∃ row, d.store.getOperation op.id = some row ∧
    row.requiredResources = op.requiredResources
  lock : ∀ r ∈ op.requiredResources, d.getResourceOwner r = some op.id
  lease : ∀ r ∈ op.requiredResources, ∃ lease ∈ d.store.db.resourceLeases.rows,
    lease.operationId = op.id ∧ lease.resourceId = r

/-- A write to the store that leaves the leases and the resources of the record. -/
theorem Intended.write (h : Intended op k.domain) {s : SqliteStore}
    (hk : k' = { k with domain := { k.domain with store := s } })
    (hrecord : ∀ row, k.domain.store.getOperation op.id = some row →
      ∃ row', s.getOperation op.id = some row' ∧ row'.requiredResources = row.requiredResources)
    (hleases : s.db.resourceLeases = k.domain.store.db.resourceLeases) : Intended op k'.domain := by
  subst hk
  obtain ⟨⟨row, hrow, hresources⟩, hlock, hlease⟩ := h
  obtain ⟨row', hrow', hsame⟩ := hrecord row hrow
  refine ⟨⟨row', hrow', hsame.trans hresources⟩, hlock, fun r hr => ?_⟩
  obtain ⟨lease, hmem, hown⟩ := hlease r hr
  exact ⟨lease, by rw [← hleases] at hmem; exact hmem, hown⟩

/-- The operation has what its intent gives, and no call was added. -/
def Prepared (op : Operation) (n : Nat) (k : Kernel) : Prop :=
  Intended op k.domain ∧ k.nextTicket = n

/-- A method of the store that is about something else. -/
theorem keeps_prepared_quiet {n : Nat} {α : Type} {p : StoreM α} (hp : Blocks Quiet p) :
    Prog.Keeps (Prepared op n) (callStore p) := by
  intro k hk
  refine wp_state.2 ?_
  rw [run_callStore]
  have hquiet := hp.run Quiet.refl Quiet.trans k.domain.store
  refine ⟨hk.1.write rfl (fun row hrow => ?_) hquiet.resourceLeases, hk.2⟩
  obtain ⟨row', hrow', heq⟩ := hquiet.kept hrow
  have hresources := congrArg (fun row : StoredOperation => row.requiredResources) heq
  exact ⟨row', hrow', hresources⟩

theorem keeps_prepared_updateOperationStatus (op : Operation) (n : Nat) (now : Timestamp) :
    Prog.Keeps (Prepared op n)
      (callStore (updateOperationStatus op.id .active none none now)) := by
  intro k hk
  refine wp_state.2 ?_
  rw [run_callStore]
  rcases hrun : (updateOperationStatus op.id .active none none now).run
    k.domain.store with ⟨s', e | u⟩
  · have hsame : s' = k.domain.store := Prog.atomic_transaction _ _ _ _ hrun
    subst hsame
    exact hk
  · refine ⟨hk.1.write rfl (fun row hrow => ?_) ?_, hk.2⟩
    · rcases updateOperationStatus_ok hrun with ⟨hnone, -⟩ | ⟨_, _, _, hevent⟩
      · rw [hrow] at hnone
        cases hnone
      · refine ⟨statusRow .active none none now row, ?_, rfl⟩
        rw [hevent.getOperation_eq, getOperation_setOperationStatus, if_pos rfl, hrow]
        rfl
    · rcases updateOperationStatus_ok hrun with ⟨-, rfl⟩ | ⟨_, _, _, hevent⟩
      · rfl
      · obtain ⟨row, rfl⟩ := hevent.frame
        rfl

variable [Crypto]

theorem registerOperationIntent_ok {u : Unit}
    (h : (registerOperationIntent op clock).run k = (k', .ok u)) : Prepared op k.nextTicket k' := by
  unfold registerOperationIntent at h
  obtain ⟨_, k₁, hcheck, h1⟩ := bind_ok h
  obtain ⟨rfl, -⟩ := check_ok hcheck
  obtain ⟨_, k₂, hallocate, h2⟩ := bind_ok h1
  have hgrant := exec_ok hallocate
  obtain ⟨k₃, _, hread, h3⟩ := bind_ok h2
  obtain ⟨rfl, rfl⟩ := read_ok hread
  rcases Prog.tryCatch_ok h3 with hrun | ⟨k₄, e, -, hthrow⟩
  · rw [run_callStore] at hrun
    have hk' := (congrArg Prod.fst hrun).symm
    rcases hregister : (SqliteStore.registerOperationIntent op k₃.domain.domainId clock.now).run
      k₃.domain.store with ⟨s', r⟩
    rw [hregister] at hrun hk'
    have hr : r = .ok u := congrArg Prod.snd hrun
    rw [hr] at hregister
    obtain ⟨operations, leases, hops, hleases, hevent⟩ :=
      (SqliteStore.registerOperationIntent_ok hregister).effect
    split at hgrant
    · rename_i domain hdomain
      cases hgrant
      obtain ⟨-, -, -, rfl⟩ := ExecutionDomain.allocateResources_ok hdomain
      subst hk'
      let granted := k₁.domain.grant op.id op.requiredResources
      refine ⟨⟨⟨SqliteStore.intentRow op granted.domainId, ?_, rfl⟩, ?_, ?_⟩, rfl⟩
      · show s'.getOperation op.id = _
        rw [hevent.getOperation_eq]
        exact (Table.get?_insert? hops op.id).trans (if_pos rfl)
      · intro r hr
        have howner := k₁.domain.getResourceOwner_grant op.id op.requiredResources r
        exact howner.trans (if_pos hr)
      · intro r hr
        obtain ⟨row, rfl⟩ := hevent.frame
        refine ⟨SqliteStore.intentLease op granted.domainId clock.now r, ?_, rfl, rfl⟩
        exact (hleases _).2 (Or.inr ⟨r, hr, rfl⟩)
    · cases hgrant
  · obtain ⟨_, _, _, h4⟩ := bind_ok hthrow
    exact (throw_ok h4).elim

/-- Once it is active the operation has what its intent has given it. -/
theorem activateInternalOperation_ok {capAdmission : Option CapabilityAdmissionResult} {u : Unit}
    (h : (activateInternalOperation op capAdmission clock).run k = (k', .ok u)) :
    Prepared op k.nextTicket k' := by
  unfold activateInternalOperation at h
  obtain ⟨_, k₁, hregister, h1⟩ := bind_ok h
  have hprepared : Prepared op k.nextTicket k₁ := registerOperationIntent_ok hregister
  have hstate := congrArg Prod.fst h1
  rw [← show _ = k' from hstate]
  refine Prog.Keeps.state ?_ hprepared
  have htail : ∀ report : Kernel → KernelM Unit,
      (∀ k', Prog.Keeps (Prepared op k.nextTicket) (report k')) →
      Prog.Keeps (Prepared op k.nextTicket) (do
        callStore (updateOperationStatus op.id .active none none clock.now)
        let k ← Prog.read id
        callStore (recordEvent (activeEvent k.domain.domainId op clock.now))
        report k) := by
    intro report hreport
    refine (keeps_prepared_updateOperationStatus op _ _).bind fun _ => ?_
    refine (Prog.keeps_read _).bind fun k' => ?_
    exact (keeps_prepared_quiet (quiet_recordEvent _)).bind fun _ => hreport k'
  cases op.configSnapshot with
  | none =>
    refine htail _ fun k' => ?_
    split
    · exact keeps_prepared_quiet (quiet_recordEvent _)
    · exact Prog.keeps_pure _
  | some =>
    refine (keeps_prepared_quiet (quiet_bindRunConfigSnapshot _ _)).bind fun _ => ?_
    refine htail _ fun k' => ?_
    split
    · exact keeps_prepared_quiet (quiet_recordEvent _)
    · exact Prog.keeps_pure _

/-! ## The rollback -/

variable {fs : FileSystem} {git : GitRepository} {options : RollbackOptions}
  {snapshot : SnapshotRef} {configSnapshot : RequestConfigSnapshot} {clock : Clock} {k k' : Kernel}
  {u : Unit}

/-- A rollback that got as far as its restore was admitted for its roots and holds them. -/
theorem rollback_prepared
    (hsnapshot : k.domain.store.getSnapshot options.snapshotId = some snapshot)
    (hrun : (rollback fs options configSnapshot clock).run k = (k', .ok u))
    (hrestores : k'.nextTicket ≠ k.nextTicket) :
    (∀ result, rollbackAdmission fs options snapshot clock.now k.domain = some result →
        result.effectiveMutationRoots = rollbackRoots fs options snapshot k.domain.store) ∧
      Intended (rollbackOperation options (rollbackRoots fs options snapshot k.domain.store)
        configSnapshot) k'.domain := by
  unfold rollback at hrun
  obtain ⟨_, k₁, hcheck, h1⟩ := bind_ok hrun
  obtain ⟨rfl, -⟩ := check_ok hcheck
  obtain ⟨k₂, _, hread, h2⟩ := bind_ok h1
  obtain ⟨rfl, rfl⟩ := read_ok hread
  simp only at h2
  rw [show k₂.domain.store.getSnapshot options.snapshotId = some snapshot from hsnapshot] at h2
  obtain ⟨admitted, k₃, hadmit, h3⟩ := bind_ok h2
  have hticket : k₃.nextTicket = k₂.nextTicket := admitInternal_nextTicket hadmit
  cases admitted with
  | none =>
    obtain ⟨rfl, -⟩ := pure_ok h3
    exact absurd hticket hrestores
  | some capAdmission =>
    have hadmitted := admitInternal_ok hadmit
    obtain ⟨hadmission, hroots⟩ := hadmitted
    obtain ⟨_, k₄, hquiescent, h4⟩ := bind_ok h3
    obtain ⟨rfl, -⟩ := check_ok hquiescent
    obtain ⟨_, k₅, hactivate, h5⟩ := bind_ok h4
    obtain ⟨hintended, -⟩ := activateInternalOperation_ok hactivate
    obtain rfl := modify_ok h5
    have htargets : (capAdmission.map CapabilityAdmissionResult.effectiveMutationRoots).getD
        (requestedRoots fs options snapshot) =
        rollbackRoots fs options snapshot k₂.domain.store := hroots
    refine ⟨fun result hresult => ?_, ?_⟩
    · rw [hadmission] at hresult
      subst hresult
      exact htargets
    · rw [← htargets]
      exact hintended

/-- The restore of a rollback stays inside what the rollback holds and was admitted for if and only
    if the roots of the snapshot are covered by those that the options and the capability name. -/
theorem rollback_staysInside_iff (hgit : git.Lawful)
    (hsnapshot : k.domain.store.getSnapshot options.snapshotId = some snapshot)
    (hrun : (rollback fs options configSnapshot clock).run k = (k', .ok u))
    (hrestores : k'.nextTicket ≠ k.nextTicket) :
    StaysInside fs git options snapshot
        (rollbackAdmission fs options snapshot clock.now k.domain) k'.domain ↔
      RootsCovered fs git snapshot (rollbackRoots fs options snapshot k.domain.store) := by
  obtain ⟨hadmitted, hintended⟩ := rollback_prepared hsnapshot hrun hrestores
  obtain ⟨⟨row, hrow, hresources⟩, hlock, hlease⟩ := hintended
  rw [← mayRestore_inside_iff hgit]
  constructor
  · intro hstays p hp
    obtain ⟨⟨held, hinside, hholds⟩, -⟩ := hstays p hp
    -- what the operation holds is named in its record, and the record names the roots
    obtain ⟨op, hop, hnamed⟩ := hholds.record
    have hsame : op = row := Option.some.inj (hop.symm.trans hrow)
    rw [hsame, hresources] at hnamed
    obtain ⟨target, htarget, heq⟩ := List.mem_map.1 hnamed
    exact ⟨target, htarget, writeResource_injective heq ▸ hinside⟩
  · intro hwithin p hp
    obtain ⟨target, htarget, hp'⟩ := hwithin p hp
    have hmem : writeResource target ∈ (rollbackOperation options
        (rollbackRoots fs options snapshot k.domain.store) configSnapshot).requiredResources :=
      List.mem_map_of_mem htarget
    refine ⟨⟨target, hp', hlock _ hmem, ⟨row, hrow, ?_⟩, hlease _ hmem⟩, fun result hresult => ?_⟩
    · rw [hresources]
      exact hmem
    · rw [hadmitted result hresult]
      exact ⟨target, htarget, hp'⟩

end Supervisor

/-! ## A narrower rollback -/

/-- A hash that every configuration can carry. -/
abbrev zeroCrypto : Crypto := ⟨fun _ => String.ofList (List.replicate 64 '0')⟩

namespace Supervisor

def sampleConfig : RequestConfigSnapshot where
  schemaVersion := configSchemaVersion
  driverName := "node-posix"
  driverVersion := "1"
  driverCapabilities := []
  retentionVersion := "1"
  redactionVersion := "1"
  config := []
  digest := String.ofList (List.replicate 64 '0')
  createdAt := 1

def sampleClock : Clock := ⟨5, fun _ => 0⟩

/-- A snapshot of two roots. -/
def twoRoots : SnapshotRef where
  id := "s"
  domainId := "d"
  opId := "S"
  driver := "git-shadow"
  roots := ["/a", "/b"]
  coverage := .worktreeNonIgnored
  treeFingerprint := "t"
  createdAt := 5

def captureTwoRoots : List Step :=
  [.captureSnapshot { runId := "r", opId := "S", roots := some ["/a", "/b"] } true sampleConfig
      sampleClock,
    .repositoryKnown 0 (some "/.git") sampleClock,
    .captured 0 (.ok (twoRoots, .undefined)) sampleClock]

def plainRoot : FileSystem := plainFiles []

def afterCapture : Kernel :=
  let _ := zeroCrypto
  afterAll (Step.after plainRoot) { domain := openedDomain } captureTwoRoots

/-- The rollback asks for one of the two roots. -/
def rollbackOfOne : RollbackOptions where
  runId := "r"
  opId := "R"
  snapshotId := "s"
  roots := some ["/a"]

/-- The rollback asks for what was captured. -/
def rollbackOfBoth : RollbackOptions where
  runId := "r"
  opId := "R"
  snapshotId := "s"

def afterRollback (options : RollbackOptions) : Kernel × Except KernelError Unit :=
  let _ := zeroCrypto
  (rollback plainRoot options sampleConfig sampleClock).run afterCapture

/-- The snapshot as it is stored. -/
def capturedRoots : SnapshotRef := { twoRoots with journalSeq := some 4 }

theorem afterRollback_runs :
    afterCapture.domain.store.getSnapshot "s" = some capturedRoots ∧
      (afterRollback rollbackOfOne).2 = .ok () ∧
      (afterRollback rollbackOfOne).1.nextTicket ≠ afterCapture.nextTicket ∧
      ((afterRollback rollbackOfOne).1.domain.store.getOperation "R").map
        (fun op => op.requiredResources) = some [writeResource "/a"] ∧
      (afterRollback rollbackOfBoth).2 = .ok () ∧
      (afterRollback rollbackOfBoth).1.nextTicket ≠ afterCapture.nextTicket := by
  decide +kernel

/-- A repository at the root of the file system, whose pathspecs are paths. -/
def literalGit : GitRepository where
  repoRoot := []
  selects spec file := plainRoot.resolve spec <+: file

theorem literalGit_lawful : literalGit.Lawful := by
  intro names file hliteral
  have hproper : ∀ name ∈ names, ProperName name := fun name hname => (hliteral.1 name hname).1
  have hread : plainRoot.resolve (pathspecOf names) = names := by
    cases names with
    | nil => decide
    | cons name names =>
      have htext := toList_renderPath (List.cons_ne_nil name names)
      rw [List.flatMap_cons, List.cons_append] at htext
      have hsplit := splitAtChar_flatMap hproper
      rw [List.flatMap_cons, List.cons_append, splitAtChar, if_pos rfl, List.cons.injEq] at hsplit
      unfold FileSystem.resolve pathspecOf
      rw [if_neg (List.cons_ne_nil _ _), String.toList_ofList, htext, List.tail_cons, hsplit.2,
        show plainRoot.cwd = [] from rfl, ite_self, resolveSegments_names hproper]
      rfl
  show plainRoot.resolve _ <+: file ↔ _
  rw [hread]

/-- A name of one letter is read as it is. -/
theorem literal_of_letter {name : String} {c : Char} (htext : name.toList = [c])
    (hc : c ∉ ['/', '.', '*', '?', '[', '\\', ':']) : Literal [name] := by
  simp only [List.mem_cons, List.not_mem_nil, or_false, not_or] at hc
  refine ⟨fun other hother => ?_, fun other hother => ?_⟩
  · rw [List.mem_singleton.1 hother, ProperName, htext]
    simp [hc, Ne.symm hc.1]
  · obtain rfl : name = other := Option.some.inj hother
    rw [htext]
    simp [hc]

/-- With the roots of the snapshot the restore stays inside them. -/
theorem rollbackOfBoth_staysInside :
    StaysInside plainRoot literalGit rollbackOfBoth capturedRoots
      (rollbackAdmission plainRoot rollbackOfBoth capturedRoots 5 afterCapture.domain)
      (afterRollback rollbackOfBoth).1.domain := by
  obtain ⟨hsnapshot, -, -, -, hok, hticket⟩ := afterRollback_runs
  let _ := zeroCrypto
  have hrun : (rollback plainRoot rollbackOfBoth sampleConfig sampleClock).run afterCapture =
      ((afterRollback rollbackOfBoth).1, .ok ()) := Prod.ext rfl hok
  refine (rollback_staysInside_iff literalGit_lawful hsnapshot hrun hticket).2 ?_
  have hcover : ∀ root ∈ capturedRoots.roots,
      ∃ target ∈ rollbackRoots plainRoot rollbackOfBoth capturedRoots afterCapture.domain.store,
        Inside plainRoot target (driverRealPath plainRoot root) :=
    rollbackRoots_cover (fun name hname => by cases hname) rfl (fun root hroot => hroot) _
  intro _ root hroot names hnames
  refine ⟨fun _ => hcover root hroot, fun hnot => absurd ?_ hnot⟩
  have hreal : driverRealPath plainRoot "/a" = ["a"] ∧ driverRealPath plainRoot "/b" = ["b"] := by
    decide
  have hroot' : root ∈ ["/a", "/b"] := hroot
  rw [List.mem_cons, List.mem_singleton] at hroot'
  rcases hroot' with rfl | rfl
  · obtain rfl : ["a"] = names := hreal.1.symm.trans hnames
    exact @literal_of_letter "a" 'a' (by decide) (by decide)
  · obtain rfl : ["b"] = names := hreal.2.symm.trans hnames
    exact @literal_of_letter "b" 'b' (by decide) (by decide)

/-- The rollback locks one root and restores both. -/
theorem narrow_rollback_escapes :
    afterCapture.domain.store.getSnapshot rollbackOfOne.snapshotId = some capturedRoots ∧
      (afterRollback rollbackOfOne).2 = .ok () ∧
      ¬ StaysInside plainRoot literalGit rollbackOfOne capturedRoots
        (rollbackAdmission plainRoot rollbackOfOne capturedRoots 5 afterCapture.domain)
        (afterRollback rollbackOfOne).1.domain := by
  obtain ⟨hsnapshot, hok, -, hrecord, -, -⟩ := afterRollback_runs
  refine ⟨hsnapshot, hok, fun hstays => ?_⟩
  obtain ⟨⟨root, hinside, hholds⟩, -⟩ :=
    hstays (driverRealPath plainRoot "/b") ⟨fun _ _ => List.nil_prefix, "/b", by decide, ["b"],
      ["b"], by decide, show plainRoot.resolve (pathspecOf ["b"]) <+: ["b"] by decide, by decide⟩
  obtain ⟨op, hop, hnamed⟩ := hholds.record
  have hresources : op.requiredResources = [writeResource "/a"] := by
    have hop' : (afterRollback rollbackOfOne).1.domain.store.getOperation "R" = some op := hop
    rw [hop'] at hrecord
    exact Option.some.inj hrecord
  rw [hresources, List.mem_singleton] at hnamed
  have hroot : root = "/a" := writeResource_injective hnamed
  subst hroot
  have hapart : ¬ driverRealPath plainRoot "/a" <+: driverRealPath plainRoot "/b" := by decide
  exact hapart hinside

end Supervisor
end XioFlow
