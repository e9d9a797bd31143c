/-
  XioFlow.Store.Fencing

  Writes of stale stores, at the granularity of SQL statements.

  Several stores share one database.  A writing method runs block by block,
  and between two blocks of one store the others do what they like: run blocks
  of their own methods, take the lease over, crash.  Methods that check and
  write in one transaction never write stale; the methods that check in one
  statement and write in the next do, when the lease changes hands in between.
-/

import XioFlow.Store.Terminal

namespace XioFlow

open Lib Lib.Prog

namespace SqliteStore

/-! ## The writing methods -/

/-- Every writing method of the store, with its arguments. -/
inductive Mutator where
  | call (c : StoreCall)
  | saveTask (task : Task)
  | bindRunConfigSnapshot (runId : String) (snapshot : RequestConfigSnapshot)
  | recordEventAndTransitionState (e : EventInput)
  | recordEventEnvelope (input : EventEnvelopeInput) (now : Timestamp)
  | recordReplay (domainId opId : String) (mode : ReplayMode) (callingRunId : String)
      (now : Timestamp)
  | releaseResourceLease (operationId : String) (resourceId : Option String)
  | recordArtifact (record : ArtifactRecord)
  | finalizeArtifact (domainId : String) (identity : FileIdentity) (sha256 : String)
      (sizeBytes : Nat)
  | markArtifactDeleted (domainId : String) (identity : FileIdentity) (reason : String)
      (now : Timestamp)
  | recordSnapshot (snapshot : SnapshotRef)
  | deleteSnapshot (id : String)
  | recordCapability (capability : Capability)
  | revokeCapability (id domainId : String) (revokedAt : Timestamp)

/-- The sequence number `recordEventEnvelope` answers is not used here. -/
def Mutator.prog [Crypto] : Mutator → StoreM Unit
  | call c => c.prog
  | saveTask task => SqliteStore.saveTask task
  | bindRunConfigSnapshot runId snapshot => SqliteStore.bindRunConfigSnapshot runId snapshot
  | recordEventAndTransitionState e => recordEvent e
  | recordEventEnvelope input now => do
    let _ ← SqliteStore.recordEventEnvelope input now
    pure ()
  | recordReplay domainId opId mode callingRunId now =>
    SqliteStore.recordReplay domainId opId mode callingRunId now
  | releaseResourceLease operationId resourceId =>
    SqliteStore.releaseResourceLease operationId resourceId
  | recordArtifact record => SqliteStore.recordArtifact record
  | finalizeArtifact domainId identity sha256 sizeBytes =>
    SqliteStore.finalizeArtifact domainId identity sha256 sizeBytes
  | markArtifactDeleted domainId identity reason now =>
    SqliteStore.markArtifactDeleted domainId identity reason now
  | recordSnapshot snapshot => SqliteStore.recordSnapshot snapshot
  | deleteSnapshot id => SqliteStore.deleteSnapshot id
  | recordCapability capability => SqliteStore.recordCapability capability
  | revokeCapability id domainId revokedAt => SqliteStore.revokeCapability id domainId revokedAt

/-- The domains of the rows that a call may write. -/
def StoreCall.Concerns (db : Database) (domainId : String) : StoreCall → Prop
  | registerOperationIntent _ d _ | recordPreIntentCancelledOperation _ d _ => domainId = d
  | updateOperationStatus opId .. | recordOperationResult opId .. | updateOperationResult opId _
  | updateRecoveryEvidence opId _ =>
    ∃ op, db.operations.get? opId = some op ∧ domainId = op.domainId
  | saveRun run =>
    domainId = run.domainId ∨ ∃ old, db.runs.get? run.id = some old ∧ domainId = old.domainId
  | updateRunStatus runId .. | reportRunSucceeded runId _ | reportRunFailed runId ..
  | reportRunCancelled runId .. =>
    ∃ run, db.runs.get? runId = some run ∧ domainId = run.domainId

def Mutator.Concerns (db : Database) (domainId : String) : Mutator → Prop
  | call c => c.Concerns db domainId
  | saveTask task =>
    domainId = task.domainId ∨ ∃ old, db.tasks.get? task.id = some old ∧ domainId = old.domainId
  | bindRunConfigSnapshot runId _ =>
    ∃ run, db.runs.get? runId = some run ∧ domainId = run.domainId
  | recordEventAndTransitionState e => domainId = e.domainId
  | recordEventEnvelope input _ => domainId = input.domainId
  | recordReplay d .. => domainId = d
  | releaseResourceLease operationId _ =>
    ∃ lease ∈ db.resourceLeases.rows, lease.operationId = operationId ∧ domainId = lease.domainId
  | recordArtifact record => domainId = record.domainId
  | finalizeArtifact d .. | markArtifactDeleted d .. => domainId = d
  | recordSnapshot snapshot =>
    domainId = snapshot.domainId ∨
      ∃ old, db.snapshots.get? snapshot.id = some old ∧ domainId = old.domainId
  | deleteSnapshot id => ∃ old, db.snapshots.get? id = some old ∧ domainId = old.domainId
  | recordCapability capability =>
    domainId = capability.domainId ∨
      ∃ old, db.capabilities.get? capability.id = some old ∧ domainId = old.domainId
  | revokeCapability _ d _ => domainId = d

/-- The methods that check in one statement and write in a later one, with the domain they check. -/
def Mutator.checksFirst : Mutator → Option String
  | call (.saveRun run) => some run.domainId
  | saveTask task => some task.domainId
  | recordEventAndTransitionState e => some e.domainId
  | recordEventEnvelope input _ => some input.domainId
  | recordReplay domainId .. => some domainId
  | recordSnapshot snapshot => some snapshot.domainId
  | recordCapability capability => some capability.domainId
  | revokeCapability _ domainId _ => some domainId
  | _ => none

/-- The methods that do not check at all. -/
def Mutator.unchecked : Mutator → Bool
  | releaseResourceLease .. | deleteSnapshot _ => true
  | _ => false

/-! ## The system -/

/-- A call in flight: how many of its blocks ran, and what is left of it. -/
structure Pending where
  mutator : Mutator
  blocks : Nat
  rest : StoreM Unit

/-- A store: the epoch it was handed, and the call it is in. -/
structure Client where
  currentEpoch : Option Int
  pending : Option Pending

structure System (ι : Type) where
  db : Database
  clients : ι → Client

inductive SystemStep (ι : Type) where
  /-- A store that is in no call begins one. -/
  | begin (i : ι) (m : Mutator)
  /-- The next statement or transaction of a call. -/
  | advance (i : ι)
  /-- The process of a store dies in a call. -/
  | crash (i : ι)
  | acquireOwnerLease (i : ι) (domainId ownerId hostname : String) (ttlMs : Nat) (force : Bool)
      (now : Timestamp) (kill : Nat → KillOutcome)
  | releaseOwnerLease (i : ι) (domainId ownerId : String)
  | fence (i : ι)

variable {ι : Type} [DecidableEq ι]

/-- The database as one store sees it. -/
def System.store (s : System ι) (i : ι) : SqliteStore := ⟨s.db, (s.clients i).currentEpoch⟩

/-- A store after something it ran. -/
def System.put (s : System ι) (i : ι) (store : SqliteStore) (pending : Option Pending) :
    System ι where
  db := store.db
  clients := Function.update s.clients i ⟨store.currentEpoch, pending⟩

/-- The next block of a call in flight. -/
def advancePending (i : ι) (p : Pending) (s : System ι) : System ι :=
  match p.rest with
  | .ret _ | .throw _ => s.put i (s.store i) none
  | .step block k =>
    match block (s.store i) with
    | .ok (store, x) => s.put i store (some ⟨p.mutator, p.blocks + 1, k x⟩)
    | .error _ => s.put i (s.store i) none

/-- A store's own methods are synchronous, so it begins nothing while it is in a call. -/
def afterStep [Crypto] (step : SystemStep ι) (s : System ι) : System ι :=
  match step with
  | .begin i m =>
    match (s.clients i).pending with
    | none => s.put i (s.store i) (some ⟨m, 0, m.prog⟩)
    | some _ => s
  | .advance i =>
    match (s.clients i).pending with
    | none => s
    | some p => advancePending i p s
  | .crash i => s.put i (s.store i) none
  | .acquireOwnerLease i domainId ownerId hostname ttlMs force now kill =>
    match (s.clients i).pending with
    | none => s.put i ((SqliteStore.acquireOwnerLease domainId ownerId hostname ttlMs force now
        kill).run (s.store i)).1 none
    | some _ => s
  | .releaseOwnerLease i domainId ownerId =>
    match (s.clients i).pending with
    | none => s.put i ((SqliteStore.releaseOwnerLease domainId ownerId).run (s.store i)).1 none
    | some _ => s
  | .fence i =>
    match (s.clients i).pending with
    | none => s.put i (SqliteStore.fence (s.store i)) none
    | some _ => s

/-! ## What is said about a run -/

/-- The store holds an epoch, and the domain has another one. -/
def Stale (domainId : String) (store : SqliteStore) : Prop :=
  ∃ epoch row, store.currentEpoch = some epoch ∧ store.getOwner domainId = some row ∧
    row.epoch ≠ epoch

/-- A statement of a writing method that changes the database is not of a stale store. -/
def NoStaleWrite [Crypto] (s : System ι) (step : SystemStep ι) : Prop :=
  ∀ i p, step = .advance i → (s.clients i).pending = some p →
    (afterStep step s).db ≠ s.db → ∀ domainId, p.mutator.Concerns s.db domainId →
      ¬ Stale domainId (s.store i)

/-- The stored epoch of a domain. -/
def System.epoch? (s : System ι) (domainId : String) : Option Int :=
  (s.db.owners.get? domainId).map OwnerRecord.epoch

/-- The lease changes hands only while no call of the domain is between its check and its write;
    a method that writes rows it did not check is used on rows of the domain it names, and one
    that does not check at all only by a store that is not stale. -/
def Orderly [Crypto] (s : System ι) (step : SystemStep ι) : Prop :=
  match step with
  | .acquireOwnerLease _ domainId .. =>
    (afterStep step s).epoch? domainId = s.epoch? domainId ∨
      ∀ j p, (s.clients j).pending = some p → p.mutator.checksFirst = some domainId → p.blocks = 0
  | .advance i => ∀ p, (s.clients i).pending = some p → ∀ domainId,
      p.mutator.Concerns s.db domainId →
      (p.mutator.unchecked = true → ¬ Stale domainId (s.store i)) ∧
        ∀ checked, p.mutator.checksFirst = some checked → domainId = checked
  | _ => True

/-! ## No writing method touches the owners or a row of the journal -/

/-- The owners and the store's own epoch stay. -/
def SameOwners (s s' : SqliteStore) : Prop :=
  s'.db.owners = s.db.owners ∧ s'.currentEpoch = s.currentEpoch

theorem SameOwners.refl (s : SqliteStore) : SameOwners s s := ⟨rfl, rfl⟩

theorem SameOwners.trans (a b c : SqliteStore) (hab : SameOwners a b) (hbc : SameOwners b c) :
    SameOwners a c := ⟨hbc.1.trans hab.1, hbc.2.trans hab.2⟩

/-- The owners stay, and the journal only grows. -/
def Framed (s s' : SqliteStore) : Prop := SameOwners s s' ∧ Later s s'

theorem Framed.same {s s' : SqliteStore} (howners : s'.db.owners = s.db.owners)
    (hepoch : s'.currentEpoch = s.currentEpoch)
    (hjournal : s'.db.journalEvents = s.db.journalEvents) : Framed s s' :=
  ⟨⟨howners, hepoch⟩, [], by rw [hjournal, List.append_nil]⟩

theorem Framed.refl (s : SqliteStore) : Framed s s := .same rfl rfl rfl

theorem Framed.trans (a b c : SqliteStore) (hab : Framed a b) (hbc : Framed b c) :
    Framed a c := ⟨hab.1.trans _ _ _ hbc.1, hab.2.trans hbc.2⟩

variable {α : Type} {domainId : String}

theorem frame_transaction {p : StoreM α} (h : Blocks Framed p) :
    Blocks Framed (transaction p) := h.transaction Framed.refl Framed.trans

theorem frame_check (f : SqliteStore → Except KernelError Unit) : Blocks Framed (check f) :=
  blocks_check Framed.refl f

theorem frame_read (f : SqliteStore → α) :
    Blocks Framed (read f : StoreM α) := blocks_read Framed.refl f

/-- A method that begins with a row. -/
theorem frame_row {ρ : Type} {get : SqliteStore → Option ρ} {rest : Option ρ → StoreM Unit}
    (hnone : Blocks Framed (rest none)) (hsome : ∀ x, Blocks Framed (rest (some x))) :
    Blocks Framed (transaction (read get >>= rest)) := by
  refine frame_transaction ((frame_read _).bind fun x => ?_)
  cases x with
  | none => exact hnone
  | some x => exact hsome x

theorem frame_require (r : Except KernelError Unit) : Blocks Framed (require r) := by
  unfold require
  cases r with
  | error e => exact blocks_throw e
  | ok => exact blocks_pure ()

theorem frame_recordEventAndTransitionState (e : EventInput) :
    Blocks Framed (SqliteStore.recordEventAndTransitionState e) :=
  blocks_recordEventAndTransitionState Framed.refl fun _ _ _ =>
    ⟨⟨rfl, rfl⟩, [_], Journal.append_rows _ _⟩

theorem frame_recordEvent (e : EventInput) : Blocks Framed (recordEvent e) :=
  (frame_recordEventAndTransitionState e).bind fun _ => blocks_pure ()

theorem frame_insertOperation (row : StoredOperation) :
    Blocks Framed (exec (insertOperation row)) := by
  refine blocks_exec fun s s' h => ?_
  obtain ⟨operations, -, rfl⟩ := insertOperation_ok h
  exact .same rfl rfl rfl

theorem frame_insertLeases (op : Operation) (domainId : String) (now : Timestamp)
    (resources : List String) : Blocks Framed (insertLeases op domainId now resources) := by
  induction resources with
  | nil => exact blocks_pure ()
  | cons resource resources ih =>
    refine Blocks.bind (blocks_exec fun s s' h => ?_) fun _ => ih
    unfold insertLease at h
    split at h
    · cases h
    · cases h
      exact .same rfl rfl rfl

theorem frame_updateRunStatus (runId : String) (status : KernelRunStatus)
    (reason : Option TerminationReason) (endedAt : Option Timestamp) (now : Timestamp) :
    Blocks Framed (SqliteStore.updateRunStatus runId status reason endedAt now) := by
  refine frame_row (blocks_pure ()) fun run => (frame_check _).bind fun _ => ?_
  split
  · exact blocks_throwIf _ _
  · exact (blocks_modify fun _ => .same rfl rfl rfl).bind fun _ => frame_recordEvent _

theorem StoreCall.frame [Crypto] (c : StoreCall) : Blocks Framed c.prog := by
  cases c with
  | registerOperationIntent =>
    refine (frame_require _).bind fun _ => (frame_check _).bind fun _ => frame_transaction ?_
    refine (frame_check _).bind fun _ => (frame_insertOperation _).bind fun _ => ?_
    exact (frame_insertLeases _ _ _ _).bind fun _ => frame_recordEvent _
  | recordPreIntentCancelledOperation =>
    refine (frame_require _).bind fun _ => (frame_check _).bind fun _ => frame_transaction ?_
    refine (frame_check _).bind fun _ => (frame_read _).bind fun _ => ?_
    refine (blocks_throwIf _ _).bind fun _ => (frame_insertOperation _).bind fun _ => ?_
    exact frame_recordEvent _
  | updateOperationStatus =>
    refine frame_row (blocks_pure ()) fun op => (frame_check _).bind fun _ => ?_
    exact (blocks_modify fun _ => .same rfl rfl rfl).bind fun _ => frame_recordEvent _
  | recordOperationResult =>
    refine frame_row (blocks_throw _) fun op => (frame_check _).bind fun _ => ?_
    refine (frame_check _).bind fun _ => (blocks_modify fun _ => .same rfl rfl rfl).bind fun _ => ?_
    refine Blocks.bind (blocks_modify fun s => ?_) fun _ => frame_recordEvent _
    unfold settleLeases
    split
    · exact .same rfl rfl rfl
    · exact Framed.refl s
  | updateOperationResult =>
    refine frame_row (blocks_throw _) fun op => (frame_check _).bind fun _ => ?_
    exact blocks_modify fun _ => .same rfl rfl rfl
  | updateRecoveryEvidence =>
    refine frame_row (blocks_throw _) fun op => (frame_check _).bind fun _ => ?_
    split
    · exact blocks_pure ()
    · exact blocks_modify fun _ => .same rfl rfl rfl
  | saveRun =>
    refine (frame_check _).bind fun _ => (frame_read _).bind fun _ => ?_
    refine (frame_require _).bind fun _ => (frame_require _).bind fun _ => ?_
    refine blocks_exec fun s s' h => ?_
    unfold upsertRun at h
    split at h
    · split at h
      · cases h
      · cases h
        exact .same rfl rfl rfl
    · cases h
      exact .same rfl rfl rfl
  | updateRunStatus => exact frame_updateRunStatus ..
  | reportRunSucceeded =>
    refine frame_row (blocks_throw _) fun run => (frame_check _).bind fun _ => ?_
    split
    · exact blocks_pure ()
    split
    · exact blocks_throw _
    refine (frame_read _).bind fun _ => (frame_read _).bind fun _ => ?_
    refine (frame_require _).bind fun _ => ?_
    split
    · exact frame_updateRunStatus ..
    · exact frame_updateRunStatus ..
  | reportRunFailed =>
    refine frame_row (blocks_throw _) fun run => (frame_check _).bind fun _ => ?_
    split
    · exact blocks_pure ()
    split
    · exact blocks_throw _
    · exact frame_updateRunStatus ..
  | reportRunCancelled =>
    refine frame_row (blocks_throw _) fun run => (frame_check _).bind fun _ => ?_
    split
    · exact blocks_throw _
    · exact frame_updateRunStatus ..

theorem Mutator.frame [Crypto] (m : Mutator) : Blocks Framed m.prog := by
  cases m with
  | call c => exact c.frame
  | saveTask =>
    refine (frame_check _).bind fun _ => blocks_modify fun s => ?_
    exact .same rfl rfl rfl
  | bindRunConfigSnapshot =>
    refine (frame_require _).bind fun _ => frame_row (blocks_throw _) fun run => ?_
    simp only
    split
    · exact frame_require _
    · exact (frame_check _).bind fun _ => blocks_modify fun _ => .same rfl rfl rfl
  | recordEventAndTransitionState e => exact frame_recordEvent e
  | recordEventEnvelope =>
    refine Blocks.bind ?_ fun _ => blocks_pure ()
    unfold SqliteStore.recordEventEnvelope
    split
    · exact blocks_throw _
    · exact frame_recordEventAndTransitionState _
  | recordReplay =>
    exact (frame_check _).bind fun _ => (frame_read _).bind fun _ => frame_recordEvent _
  | releaseResourceLease => exact blocks_modify fun _ => .same rfl rfl rfl
  | recordArtifact =>
    refine frame_transaction ((frame_check _).bind fun _ => blocks_exec fun s s' h => ?_)
    unfold insertArtifact at h
    split at h
    · cases h
    split at h
    · cases h
    split at h
    · cases h
    · cases h
      exact .same rfl rfl rfl
  | finalizeArtifact | markArtifactDeleted =>
    exact frame_transaction ((frame_check _).bind fun _ => blocks_modify fun _ => .same rfl rfl rfl)
  | deleteSnapshot => exact blocks_modify fun _ => .same rfl rfl rfl
  | recordSnapshot | recordCapability | revokeCapability =>
    exact (frame_check _).bind fun _ => blocks_modify fun _ => .same rfl rfl rfl

/-! ## Methods that check and write in one transaction -/

/-- A block that changes the database passed the check of every domain the method concerns. -/
def ChecksItself (m : Mutator) (s s' : SqliteStore) : Prop :=
  s'.db ≠ s.db → ∀ domainId, m.Concerns s.db domainId → epochFencing domainId s = .ok ()

theorem ChecksItself.refl (m : Mutator) (s : SqliteStore) : ChecksItself m s s :=
  fun hne => absurd rfl hne

theorem checksItself_require (m : Mutator) (r : Except KernelError Unit) :
    Blocks (ChecksItself m) (require r) := by
  unfold require
  cases r with
  | error e => exact blocks_throw e
  | ok u => exact blocks_pure ()

variable {s : SqliteStore} {m : Mutator}

/-- The domain of a run or an operation that was found is the one the method concerns. -/
theorem fenced_of_found {found : Option α} {domainOf : α → String} {a : α}
    (hfound : found = some a) (hfenced : epochFencing (domainOf a) s = .ok ())
    (hconcerns : ∃ b, found = some b ∧ domainId = domainOf b) :
    epochFencing domainId s = .ok () := by
  obtain ⟨b, hb, rfl⟩ := hconcerns
  rw [hfound] at hb
  cases hb
  exact hfenced

theorem checksItself_updateRunStatus {runId : String} {status : KernelRunStatus}
    {reason : Option TerminationReason} {endedAt : Option Timestamp} {now : Timestamp}
    {s' : SqliteStore} {u : Unit}
    (h : (SqliteStore.updateRunStatus runId status reason endedAt now).run s = (s', .ok u))
    (hne : s'.db ≠ s.db)
    (hconcerns : ∃ run, s.db.runs.get? runId = some run ∧ domainId = run.domainId) :
    epochFencing domainId s = .ok () := by
  rcases updateRunStatus_ok h with ⟨-, rfl⟩ | ⟨run, hrun, hfenced, -⟩
  · exact absurd rfl hne
  · exact fenced_of_found hrun hfenced hconcerns

theorem checksItself_reported {runId : String} {s' : SqliteStore} (h : Reported runId s s')
    (hne : s'.db ≠ s.db)
    (hconcerns : ∃ run, s.db.runs.get? runId = some run ∧ domainId = run.domainId) :
    epochFencing domainId s = .ok () := by
  rcases h with rfl | ⟨status, reason, now, -, -, hupdate⟩
  · exact absurd rfl hne
  · exact checksItself_updateRunStatus hupdate hne hconcerns

theorem StoreCall.checksItself [Crypto] {c : StoreCall}
    (h : (Mutator.call c).checksFirst = none) : Blocks (ChecksItself (.call c)) c.prog := by
  have hrefl := ChecksItself.refl (.call c)
  cases c with
  | registerOperationIntent _ domainId _ | recordPreIntentCancelledOperation _ domainId _ =>
    refine (checksItself_require _ _).bind fun _ => (blocks_check hrefl _).bind fun _ => ?_
    refine blocks_transaction fun s s' u hrun hne d hconcerns => ?_
    obtain ⟨_, s₁, hfence, -⟩ := bind_ok (transaction_ok hrun)
    rw [show d = domainId from hconcerns]
    exact (check_ok hfence).2
  | updateOperationStatus opId status identity outputRef now =>
    refine blocks_transaction fun s s' u hrun hne d hconcerns => ?_
    rcases updateOperationStatus_ok hrun with ⟨-, rfl⟩ | ⟨op, hop, hfenced, -⟩
    · exact absurd rfl hne
    · exact fenced_of_found hop hfenced hconcerns
  | recordOperationResult opId result releaseResources =>
    refine blocks_transaction fun s s' u hrun hne d hconcerns => ?_
    obtain ⟨op, hop, hfenced, -⟩ := (recordOperationResult_ok hrun).found
    exact fenced_of_found hop hfenced hconcerns
  | updateOperationResult opId result =>
    refine blocks_transaction fun s s' u hrun hne d hconcerns => ?_
    obtain ⟨op, hop, hfenced, -⟩ := updateOperationResult_ok hrun
    exact fenced_of_found hop hfenced hconcerns
  | updateRecoveryEvidence opId patch =>
    refine blocks_transaction fun s s' u hrun hne d hconcerns => ?_
    obtain ⟨op, hop, hfenced, -⟩ := updateRecoveryEvidence_ok hrun
    exact fenced_of_found hop hfenced hconcerns
  | saveRun run => cases h
  | updateRunStatus runId status reason endedAt now =>
    refine blocks_transaction fun s s' u hrun hne d hconcerns => ?_
    exact checksItself_updateRunStatus hrun hne hconcerns
  | reportRunSucceeded runId now =>
    refine blocks_transaction fun s s' u hrun hne d hconcerns => ?_
    exact checksItself_reported (reportRunSucceeded_ok hrun).2 hne hconcerns
  | reportRunFailed runId reason now =>
    refine blocks_transaction fun s s' u hrun hne d hconcerns => ?_
    exact checksItself_reported (reportRunFailed_ok hrun).2 hne hconcerns
  | reportRunCancelled runId reason now =>
    refine blocks_transaction fun s s' u hrun hne d hconcerns => ?_
    exact checksItself_reported (reportRunCancelled_ok hrun).2 hne hconcerns

/-- Every method that is neither unchecked nor checked in a statement of its own checks itself. -/
theorem Mutator.checksItself [Crypto] (hfirst : m.checksFirst = none)
    (hchecked : m.unchecked = false) : Blocks (ChecksItself m) m.prog := by
  cases m with
  | call c => exact c.checksItself hfirst
  | bindRunConfigSnapshot runId snapshot =>
    refine (checksItself_require _ _).bind fun _ => ?_
    refine blocks_transaction fun s s' u hrun hne d hconcerns => ?_
    obtain ⟨run, s₁, hread, h1⟩ := bind_ok (transaction_ok hrun)
    obtain ⟨rfl, rfl⟩ := read_ok hread
    cases hfound : s₁.getRun runId with
    | none =>
      rw [hfound] at h1
      exact (throw_ok h1).elim
    | some run =>
      rw [hfound] at h1
      simp only at h1
      split at h1
      · exact absurd (congrArg SqliteStore.db (require_ok h1).1) hne
      · obtain ⟨_, s₂, hfence, -⟩ := bind_ok h1
        exact fenced_of_found hfound (check_ok hfence).2 hconcerns
  | recordArtifact record =>
    refine blocks_transaction fun s s' u hrun hne d hconcerns => ?_
    obtain ⟨_, s₁, hfence, -⟩ := bind_ok (transaction_ok hrun)
    rw [show d = record.domainId from hconcerns]
    exact (check_ok hfence).2
  | finalizeArtifact domainId | markArtifactDeleted domainId =>
    refine blocks_transaction fun s s' u hrun hne d hconcerns => ?_
    obtain ⟨_, s₁, hfence, -⟩ := bind_ok (transaction_ok hrun)
    rw [show d = domainId from hconcerns]
    exact (check_ok hfence).2
  | releaseResourceLease | deleteSnapshot => cases hchecked
  | _ => cases hfirst

/-! ## Methods that check in a statement of their own -/

/-- The first block of such a method is its check, unless it throws before any statement. -/
theorem Mutator.prog_checksFirst [Crypto] (h : m.checksFirst = some domainId) :
    (∃ e, m.prog = .throw e) ∨ ∃ k, m.prog = .step (checkBlock (epochFencing domainId)) k := by
  cases m with
  | call c =>
    cases c with
    | saveRun =>
      cases h
      exact .inr ⟨_, rfl⟩
    | _ => cases h
  | recordEventEnvelope input now =>
    cases h
    cases henv : createEventEnvelope input now with
    | error e =>
      refine .inl ⟨e, ?_⟩
      show (SqliteStore.recordEventEnvelope input now >>= fun _ => pure ()) = _
      unfold SqliteStore.recordEventEnvelope
      rw [henv]
      rfl
    | ok =>
      refine .inr ?_
      rw [← createEventEnvelope_names henv]
      show ∃ k, (SqliteStore.recordEventEnvelope input now >>= fun _ => pure ()) = _
      unfold SqliteStore.recordEventEnvelope
      rw [henv]
      exact ⟨_, rfl⟩
  | saveTask | recordEventAndTransitionState | recordReplay | recordSnapshot | recordCapability
  | revokeCapability =>
    cases h
    exact .inr ⟨_, rfl⟩
  | _ => cases h

/-! ## The invariant -/

theorem not_stale_iff {store : SqliteStore} :
    ¬ Stale domainId store ↔ epochFencing domainId store = .ok () := by
  unfold Stale epochFencing
  cases store.currentEpoch with
  | none => simp
  | some epoch =>
    cases store.getOwner domainId with
    | none => simp
    | some row =>
      by_cases heq : row.epoch = epoch
      · simp [heq]
      · simp [heq]

/-- A call in flight, seen from its store: what is left of it touches no owner; a method that
    checks itself still does; one that checks first did so and is not stale, or did not begin. -/
structure InOrder [Crypto] (store : SqliteStore) (p : Pending) : Prop where
  frame : Blocks SameOwners p.rest
  itself : p.mutator.checksFirst = none → p.mutator.unchecked = false →
    Blocks (ChecksItself p.mutator) p.rest
  first : ∀ domainId, p.mutator.checksFirst = some domainId →
    (p.blocks = 0 ∧ p.rest = p.mutator.prog) ∨ (p.blocks ≠ 0 ∧ ¬ Stale domainId store)

/-- Every call in flight is in order. -/
def Calm [Crypto] (s : System ι) : Prop :=
  ∀ i p, (s.clients i).pending = some p → InOrder (s.store i) p

theorem stale_congr {store store' : SqliteStore}
    (hepoch : (store'.getOwner domainId).map OwnerRecord.epoch =
      (store.getOwner domainId).map OwnerRecord.epoch)
    (hcurrent : store'.currentEpoch = store.currentEpoch) :
    Stale domainId store' ↔ Stale domainId store := by
  have hside : ∀ a : SqliteStore, Stale domainId a ↔
      ∃ epoch stored, a.currentEpoch = some epoch ∧
        (a.getOwner domainId).map OwnerRecord.epoch = some stored ∧ stored ≠ epoch := by
    intro a
    constructor
    · rintro ⟨epoch, row, hcur, hrow, hne⟩
      exact ⟨epoch, row.epoch, hcur, by rw [hrow]; rfl, hne⟩
    · rintro ⟨epoch, stored, hcur, hmap, hne⟩
      obtain ⟨row, hrow, rfl⟩ := Option.map_eq_some_iff.1 hmap
      exact ⟨epoch, row, hcur, hrow, hne⟩
  rw [hside, hside, hepoch, hcurrent]

section Steps

variable [Crypto] {s : System ι} {i : ι} {p : Pending} {store store' : SqliteStore}
  {pending : Option Pending}

omit [DecidableEq ι] in
theorem InOrder.congr (h : InOrder store p)
    (hepoch : ∀ domainId, p.mutator.checksFirst = some domainId → p.blocks ≠ 0 →
      (store'.getOwner domainId).map OwnerRecord.epoch =
        (store.getOwner domainId).map OwnerRecord.epoch)
    (hcurrent : store'.currentEpoch = store.currentEpoch) : InOrder store' p := by
  refine ⟨h.frame, h.itself, fun domainId hfirst => ?_⟩
  rcases h.first domainId hfirst with hstart | ⟨hblocks, hfresh⟩
  · exact .inl hstart
  · refine .inr ⟨hblocks, ?_⟩
    rw [stale_congr (hepoch domainId hfirst hblocks) hcurrent]
    exact hfresh

/-- The epochs that calls in flight rely on stay, and the store's own call is in order. -/
theorem calm_put (hcalm : Calm s)
    (hothers : ∀ j p domainId, j ≠ i → (s.clients j).pending = some p →
      p.mutator.checksFirst = some domainId → p.blocks ≠ 0 →
      (store.db.owners.get? domainId).map OwnerRecord.epoch = s.epoch? domainId)
    (hself : ∀ p, pending = some p → InOrder store p) : Calm (s.put i store pending) := by
  intro j p hp
  by_cases hj : j = i
  · subst hj
    simp only [System.put, Function.update_self] at hp
    have hstore : (s.put j store pending).store j = store := by
      simp [System.put, System.store]
    rw [hstore]
    exact hself p hp
  · simp only [System.put, Function.update_of_ne hj] at hp
    refine (hcalm j p hp).congr (fun domainId hfirst hblocks => ?_) ?_
    · exact hothers j p domainId hj hp hfirst hblocks
    · simp [System.put, System.store, Function.update_of_ne hj]

theorem calm_put_same (hcalm : Calm s) (howners : store.db.owners = s.db.owners)
    (hself : ∀ p, pending = some p → InOrder store p) : Calm (s.put i store pending) := by
  refine calm_put hcalm (fun j p domainId _ _ _ _ => ?_) hself
  rw [howners]
  rfl

omit [DecidableEq ι] in
theorem inOrder_begin (store : SqliteStore) (m : Mutator) :
    InOrder store ⟨m, 0, m.prog⟩ :=
  ⟨m.frame.mono fun _ _ h => h.1, fun hfirst hchecked => m.checksItself hfirst hchecked,
    fun _ _ => .inl ⟨rfl, rfl⟩⟩

/-- What is left of a call in order, after one more block. -/
theorem InOrder.step {β : Type} {block : SqliteStore → Except KernelError (SqliteStore × β)}
    {k : β → StoreM Unit} {x : β} (h : InOrder store p) (hrest : p.rest = .step block k)
    (hblock : block store = .ok (store', x)) :
    SameOwners store store' ∧ InOrder store' ⟨p.mutator, p.blocks + 1, k x⟩ := by
  have hframe := h.frame
  rw [hrest] at hframe
  have hsame := hframe.1 store store' x hblock
  refine ⟨hsame, hframe.2 x, ?_, ?_⟩
  · intro hfirst hchecked
    have hitself := h.itself hfirst hchecked
    rw [hrest] at hitself
    exact hitself.2 x
  · intro domainId hfirst
    have hkeep : Stale domainId store' ↔ Stale domainId store :=
      stale_congr (by unfold getOwner; rw [hsame.1]) hsame.2
    refine .inr ⟨Nat.succ_ne_zero _, ?_⟩
    rw [hkeep]
    rcases h.first domainId hfirst with ⟨-, hprog⟩ | ⟨-, hfresh⟩
    · rcases Mutator.prog_checksFirst hfirst with ⟨e, hthrow⟩ | ⟨k', hcheck⟩
      · rw [hprog, hthrow] at hrest
        cases hrest
      · rw [hprog, hcheck] at hrest
        cases hrest
        exact not_stale_iff.2 (checkBlock_ok hblock).2
    · exact hfresh

/-- One step: it writes nothing stale, and every call in flight stays in order. -/
theorem calm_advance (hcalm : Calm s) (hp : (s.clients i).pending = some p) :
    Calm (advancePending i p s) := by
  unfold advancePending
  split
  · exact calm_put_same hcalm rfl (by simp)
  · exact calm_put_same hcalm rfl (by simp)
  · rename_i block k hrest
    split
    · rename_i store x hblock
      obtain ⟨hsame, horder⟩ := (hcalm i p hp).step hrest hblock
      refine calm_put_same hcalm hsame.1 ?_
      rintro _ ⟨⟩
      exact horder
    · exact calm_put_same hcalm rfl (by simp)

theorem noStaleWrite_advance (hcalm : Calm s) (hp : (s.clients i).pending = some p)
    (horderly : Orderly s (.advance i)) (hne : (advancePending i p s).db ≠ s.db)
    (hconcerns : p.mutator.Concerns s.db domainId) : ¬ Stale domainId (s.store i) := by
  obtain ⟨hunchecked, hnamed⟩ := horderly p hp domainId hconcerns
  have horder := hcalm i p hp
  unfold advancePending at hne
  split at hne
  · exact absurd rfl hne
  · exact absurd rfl hne
  rename_i block k hrest
  split at hne
  · rename_i store x hblock
    cases hfirst : p.mutator.checksFirst with
    | some checked =>
      rw [hnamed checked hfirst]
      rcases horder.first checked hfirst with ⟨-, hprog⟩ | ⟨-, hfresh⟩
      · -- The first block is the check, which writes nothing.
        rcases Mutator.prog_checksFirst hfirst with ⟨e, hthrow⟩ | ⟨k', hcheck⟩
        · rw [hprog, hthrow] at hrest
          cases hrest
        · rw [hprog, hcheck] at hrest
          cases hrest
          exact absurd (congrArg SqliteStore.db (checkBlock_ok hblock).1) hne
      · exact hfresh
    | none =>
      cases hchecked : p.mutator.unchecked with
      | true => exact hunchecked hchecked
      | false =>
        have hitself := horder.itself hfirst hchecked
        rw [hrest] at hitself
        exact not_stale_iff.2 (hitself.1 _ _ _ hblock hne domainId hconcerns)
  · exact absurd rfl hne

/-- A takeover while no call of the domain is past its check. -/
theorem calm_acquireOwnerLease {ownerId hostname : String} {ttlMs : Nat} {force : Bool}
    {now : Timestamp} {kill : Nat → KillOutcome} (hcalm : Calm s)
    (hidle : (s.clients i).pending = none) (horderly : Orderly s
      (.acquireOwnerLease i domainId ownerId hostname ttlMs force now kill)) :
    Calm (s.put i ((SqliteStore.acquireOwnerLease domainId ownerId hostname ttlMs force now
      kill).run (s.store i)).1 none) := by
  refine calm_put hcalm (fun j p d _ hp hfirst hblocks => ?_) (by simp)
  by_cases hd : d = domainId
  · subst hd
    rcases horderly with hkept | hquiet
    · simp only [afterStep, hidle] at hkept
      exact hkept
    · exact absurd (hquiet j p hp hfirst) hblocks
  · rw [row_acquire_other hd]
    rfl

theorem calm_afterStep {step : SystemStep ι} (hcalm : Calm s) (horderly : Orderly s step) :
    Calm (afterStep step s) := by
  cases step with
  | begin i m =>
    simp only [afterStep]
    split
    · refine calm_put_same hcalm rfl ?_
      rintro _ ⟨⟩
      exact inOrder_begin _ m
    · exact hcalm
  | advance i =>
    simp only [afterStep]
    split
    · exact hcalm
    · rename_i p hp
      exact calm_advance hcalm hp
  | crash i => exact calm_put_same hcalm rfl (by simp)
  | acquireOwnerLease i domainId ownerId hostname ttlMs force now kill =>
    cases hidle : (s.clients i).pending with
    | some p =>
      simp only [afterStep, hidle]
      exact hcalm
    | none =>
      have hcalm' := calm_acquireOwnerLease hcalm hidle horderly
      simp only [afterStep, hidle]
      exact hcalm'
  | releaseOwnerLease i domainId ownerId =>
    simp only [afterStep]
    split
    · refine calm_put hcalm (fun j p d _ _ _ _ => ?_) (by simp)
      exact row_release domainId ownerId d (s.store i)
    · exact hcalm
  | fence i =>
    simp only [afterStep]
    split
    · exact calm_put_same hcalm rfl (by simp)
    · exact hcalm

theorem noStaleWrite_of_orderly {step : SystemStep ι} (hcalm : Calm s)
    (horderly : Orderly s step) : NoStaleWrite s step := by
  rintro i p rfl hp hne domainId hconcerns
  simp only [afterStep, hp] at hne
  exact noStaleWrite_advance hcalm hp horderly hne hconcerns

/-- No store is in a call. -/
def Idle (s : System ι) : Prop := ∀ i, (s.clients i).pending = none

/-- Along every run of orderly steps, whatever the interleaving of the stores' statements, no store
    writes a row of a domain for which it is stale. -/
theorem noStaleWrite_along {s : System ι} (hidle : Idle s) {steps : List (SystemStep ι)}
    (horderly : Along afterStep Orderly s steps) : Along afterStep NoStaleWrite s steps := by
  have hcalm : Calm s := by
    intro i p hp
    rw [hidle i] at hp
    cases hp
  have hstep : ∀ (t : System ι) (step : SystemStep ι), Calm t → Orderly t step →
      NoStaleWrite t step ∧ Calm (afterStep step t) := fun t step ht hstep =>
    ⟨noStaleWrite_of_orderly ht hstep, calm_afterStep ht hstep⟩
  exact horderly.imp hstep hcalm

/-! ## The journal -/

/-- What is left of every call in flight keeps the journal. -/
def Appending (s : System ι) : Prop :=
  ∀ i p, (s.clients i).pending = some p → Blocks Framed p.rest

omit [Crypto] in
theorem Appending.put (h : Appending s)
    (hself : ∀ p, pending = some p → Blocks Framed p.rest) :
    Appending (s.put i store pending) := by
  intro j p hp
  by_cases hj : j = i
  · subst hj
    simp only [System.put, Function.update_self] at hp
    exact hself p hp
  · simp only [System.put, Function.update_of_ne hj] at hp
    exact h j p hp

omit [Crypto] in
theorem later_advance (h : Appending s) (hp : (s.clients i).pending = some p) :
    Appending (advancePending i p s) ∧ Later (s.store i) ((advancePending i p s).store i) := by
  have hframe := h i p hp
  unfold advancePending
  split
  · exact ⟨h.put (by simp), .refl _⟩
  · exact ⟨h.put (by simp), .refl _⟩
  · rename_i block k hrest
    rw [hrest] at hframe
    split
    · rename_i store x hblock
      refine ⟨h.put ?_, (hframe.1 _ store x hblock).2⟩
      rintro _ ⟨⟩
      exact hframe.2 x
    · exact ⟨h.put (by simp), .refl _⟩

/-- Outside the calls, a store changes its epoch and the owners only. -/
theorem later_afterStep (h : Appending s) (step : SystemStep ι) (i : ι) :
    Appending (afterStep step s) ∧ Later (s.store i) ((afterStep step s).store i) := by
  cases step with
  | begin j m =>
    simp only [afterStep]
    split
    · refine ⟨h.put ?_, .refl _⟩
      rintro _ ⟨⟩
      exact m.frame
    · exact ⟨h, .refl _⟩
  | advance j =>
    simp only [afterStep]
    split
    · exact ⟨h, .refl _⟩
    · exact later_advance h ‹_›
  | crash j => exact ⟨h.put (by simp), .refl _⟩
  | acquireOwnerLease =>
    simp only [afterStep]
    split
    · refine ⟨h.put (by simp), ?_⟩
      rw [acquireOwnerLease_run]
      split
      · exact .refl _
      · exact .refl _
    · exact ⟨h, .refl _⟩
  | releaseOwnerLease | fence =>
    simp only [afterStep]
    split
    · exact ⟨h.put (by simp), .refl _⟩
    · exact ⟨h, .refl _⟩

/-- Whatever the interleaving of the stores' statements, a row of the journal stays as it is. -/
theorem later_along (hidle : Idle s) (steps : List (SystemStep ι)) (i : ι) :
    Later (s.store i) ((afterAll afterStep s steps).store i) := by
  have hstart : Appending s := by
    intro j p hp
    rw [hidle j] at hp
    cases hp
  refine (afterAll_invariant
    (I := fun t => Appending t ∧ Later (s.store i) (System.store t i)) ?_
    ⟨hstart, .refl _⟩ steps).2
  intro t step ht
  obtain ⟨happending, hlater⟩ := later_afterStep ht.1 step i
  exact ⟨happending, ht.2.trans hlater⟩

end Steps

/-! ### A task saved by a store that was superseded in between -/

/-- The sample domain with two stores, the first of which owns it. -/
def twoStores : System Bool where
  db := Database.sample
  clients := fun i => if i then ⟨none, none⟩ else ⟨some 1, none⟩

def lateTask : Task := { id := "t2", domainId := "d", name := "late", createdAt := 2 }

/-- The task that a call saves. -/
def savedTask? : Mutator → Option Task
  | .saveTask task => some task
  | _ => none

theorem savedTask?_eq {task : Task} (h : savedTask? m = some task) : m = .saveTask task := by
  cases m with
  | saveTask t =>
    cases h
    rfl
  | _ => cases h

/-- The first store checks its epoch, the second takes the expired lease over, the first writes. -/
def staleSave : List (SystemStep Bool) := [
  .begin false (.saveTask lateTask),
  .advance false,
  .acquireOwnerLease true "d" "owner-9-60001" "h" 60000 false 60001 fun _ => .delivered,
  .advance false]

theorem staleSave_later :
    let _ := plainCrypto
    Later (twoStores.store false) ((afterAll afterStep twoStores staleSave).store false) := by
  intro _
  exact later_along (fun i => by cases i <;> rfl) staleSave false

/-- A task is saved in the domain it names and, where there was one, it named. -/
theorem orderly_saves [Crypto] {s : System Bool} {i : Bool} {task : Task}
    (hsaves : (s.clients i).pending.bind (fun p => savedTask? p.mutator) = some task)
    (hsame : ∀ old, s.db.tasks.get? task.id = some old → old.domainId = task.domainId) :
    Orderly s (.advance i) := by
  intro p hp domainId hconcerns
  rw [hp, Option.bind_some] at hsaves
  rw [savedTask?_eq hsaves] at hconcerns ⊢
  refine ⟨fun hunchecked => (by cases hunchecked), ?_⟩
  rintro checked ⟨⟩
  rcases hconcerns with hnamed | ⟨old, hold, rfl⟩
  · exact hnamed
  · exact hsame old hold

/-- The second store takes the expired lease over and saves the task; the first one then tries to
    save it under another name. -/
def savedByNewOwner : List (SystemStep Bool) := [
  .acquireOwnerLease true "d" "owner-9-60001" "h" 60000 false 60001 fun _ => .delivered,
  .begin true (.saveTask lateTask),
  .advance true,
  .advance true,
  .begin false (.saveTask { lateTask with name := "later" }),
  .advance false]

/-- Across a takeover the task of the new owner is saved, and the old one is refused. -/
theorem task_saved_in_order :
    let _ := plainCrypto
    Along afterStep NoStaleWrite twoStores savedByNewOwner ∧
      ((afterAll afterStep twoStores savedByNewOwner).db.tasks.get? "t2").map Task.name =
        some "late" ∧
      ((afterAll afterStep twoStores savedByNewOwner).clients false).pending.isNone = true := by
  intro _
  have hsame : ∀ old, Database.sample.tasks.get? "t2" = some old → old.domainId = "d" := by
    intro old hold
    cases hold
  refine ⟨noStaleWrite_along (fun i => by cases i <;> rfl) ?_, by decide +kernel, by decide +kernel⟩
  refine ⟨.inr fun j p hp => ?_, trivial, ?_, ?_, trivial, ?_, trivial⟩
  · cases j <;> cases hp
  · exact @orderly_saves _ _ true lateTask (by decide +kernel) hsame
  · exact @orderly_saves _ _ true lateTask (by decide +kernel) hsame
  · refine @orderly_saves _ _ false { lateTask with name := "later" } (by decide +kernel) ?_
    intro old hold
    cases hold
    rfl

theorem stale_task_saved :
    let _ := plainCrypto
    Idle twoStores ∧ ¬ Along afterStep NoStaleWrite twoStores staleSave := by
  intro _
  have hidle : Idle twoStores := by
    intro i
    cases i <;> rfl
  refine ⟨hidle, fun h => ?_⟩
  have hrun := along_iff.1 h (staleSave.take 3) (.advance false) [] rfl
  have hpending : ((afterAll afterStep twoStores (staleSave.take 3)).clients false).pending.bind
      (fun p => savedTask? p.mutator) = some lateTask := by decide +kernel
  have hwrites : (afterStep (.advance false)
      (afterAll afterStep twoStores (staleSave.take 3))).db ≠
      (afterAll afterStep twoStores (staleSave.take 3)).db := by decide +kernel
  have hrefused : (epochFencing "d"
      ((afterAll afterStep twoStores (staleSave.take 3)).store false)).toOption = none := by
    decide +kernel
  obtain ⟨p, hp, hsaved⟩ := Option.bind_eq_some_iff.1 hpending
  have hfresh := hrun false p rfl hp hwrites "d" (by rw [savedTask?_eq hsaved]; exact .inl rfl)
  rw [not_stale_iff.1 hfresh] at hrefused
  cases hrefused

end SqliteStore
end XioFlow
