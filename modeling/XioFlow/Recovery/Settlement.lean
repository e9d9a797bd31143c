/-
  XioFlow.Recovery.Settlement

  What settling the unfinished operations does: one lemma for each write of the
  engine, one for an operation, and the induction over the list.

  Recovery hands nothing out.  So what is said of a holder is only what it may
  lose (`Yields`), and it is said for all holders at once.
-/

import XioFlow.Recovery.Engine
import XioFlow.Domain.Queueing

namespace XioFlow

open Lib
open Lib.Prog (read onlyIf run_bind run_read run_pure run_block run_check)
open ExecutionDomain
open SqliteStore

namespace Recovery

/-! ## Relations between the states of a domain -/

/-- Nothing stops the domain from writing, nobody waits, and leases agree with locks. -/
structure Quiescent (d : ExecutionDomain) : Prop where
  unfenced : Unfenced d
  idle : d.waitQueue = []
  agree : LeasesAgree d

/-- Nothing was handed out, and only holders that satisfy `takes` have lost anything. -/
structure Yields (takes : String → Prop) (d d' : ExecutionDomain) : Prop where
  domainId : d'.domainId = d.domainId
  snapshots : d'.store.db.snapshots = d.store.db.snapshots
  leases : ∀ lease ∈ d'.store.db.resourceLeases.rows, lease ∈ d.store.db.resourceLeases.rows
  locks : ∀ r x, d'.getResourceOwner r = some x → d.getResourceOwner r = some x
  keptLeases : ∀ lease ∈ d.store.db.resourceLeases.rows, ¬ takes lease.operationId →
    lease ∈ d'.store.db.resourceLeases.rows
  keptLocks : ∀ r x, ¬ takes x → d.getResourceOwner r = some x → d'.getResourceOwner r = some x

theorem Yields.refl (takes : String → Prop) (d : ExecutionDomain) : Yields takes d d :=
  ⟨rfl, rfl, fun _ h => h, fun _ _ h => h, fun _ h _ => h, fun _ _ _ h => h⟩

variable {d d₁ d' : ExecutionDomain}

variable {takes : String → Prop}

theorem Yields.trans (h : Yields takes d d₁) (h' : Yields takes d₁ d') : Yields takes d d' where
  domainId := h'.domainId.trans h.domainId
  snapshots := h'.snapshots.trans h.snapshots
  leases := fun lease hlease => h.leases lease (h'.leases lease hlease)
  locks := fun r x howner => h.locks r x (h'.locks r x howner)
  keptLeases := fun lease hlease hkept =>
    h'.keptLeases lease (h.keptLeases lease hlease hkept) hkept
  keptLocks := fun r x hkept howner => h'.keptLocks r x hkept (h.keptLocks r x hkept howner)

theorem Yields.mono {takes' : String → Prop} (h : Yields takes d d')
    (himp : ∀ x, takes x → takes' x) : Yields takes' d d' :=
  { h with
    keptLeases := fun lease hlease hkept =>
      h.keptLeases lease hlease fun htakes => hkept (himp _ htakes)
    keptLocks := fun r x hkept howner =>
      h.keptLocks r x (fun htakes => hkept (himp _ htakes)) howner }

/-- Intents and results stand in the journal as before. -/
def SameEvents (d d' : ExecutionDomain) : Prop :=
  ∀ opId type, type = "OPERATION_INTENT_REGISTERED" ∨ type = "OPERATION_RESULT_RECORDED" →
    d'.store.db.journalEvents.hasEvent opId type = d.store.db.journalEvents.hasEvent opId type

/-- Operations and runs are as before. -/
structure SameHistory (d d' : ExecutionDomain) : Prop where
  operations : d'.store.db.operations = d.store.db.operations
  runs : d'.store.db.runs = d.store.db.runs
  events : SameEvents d d'

theorem SameHistory.refl (d : ExecutionDomain) : SameHistory d d := ⟨rfl, rfl, fun _ _ _ => rfl⟩

theorem SameHistory.trans (h : SameHistory d d₁) (h' : SameHistory d₁ d') : SameHistory d d' :=
  ⟨h'.operations.trans h.operations, h'.runs.trans h.runs,
    fun opId type htype => (h'.events opId type htype).trans (h.events opId type htype)⟩

theorem SameHistory.getOperation (h : SameHistory d d') (id : String) :
    d'.store.getOperation id = d.store.getOperation id := by
  unfold SqliteStore.getOperation
  rw [h.operations]

/-- The operation holds nothing, in the store or in memory. -/
structure HoldsNothing (opId : String) (d : ExecutionDomain) : Prop where
  leases : ∀ lease ∈ d.store.db.resourceLeases.rows, lease.operationId ≠ opId
  locks : ∀ r, d.getResourceOwner r ≠ some opId

theorem HoldsNothing.yields {opId : String} (h : HoldsNothing opId d)
    (hyields : Yields takes d d') : HoldsNothing opId d' :=
  ⟨fun lease hlease => h.leases lease (hyields.leases lease hlease),
    fun r howner => h.locks r (hyields.locks r opId howner)⟩

/-! ## One release -/

/-- With nobody in the queue its scan does nothing. -/
theorem processWaitQueue_idle (hidle : d.waitQueue = []) (isCancelled : Waiter → Bool)
    (elapsed : Waiter → Nat) : processWaitQueue isCancelled elapsed d = (d, []) := by
  have hsame : ({ d with waitQueue := [] } : ExecutionDomain) = d := by
    cases d
    simp only at hidle
    rw [hidle]
  unfold processWaitQueue
  rw [hidle, scanQueue, hsame]
  split
  · rfl
  · rfl

/-- The resources that a release by name is about; no names stand for all. -/
def Named (resources : List String) (r : String) : Prop := resources = [] ∨ r ∈ resources

theorem drops_iff (h : LeasesAgree d) {operationId r : String} {resources : List String} :
    d.Drops operationId resources r ↔
      d.getResourceOwner r = some operationId ∧ Named resources r := by
  constructor
  · exact fun hdrops => h.owner_of_drops hdrops
  · rintro ⟨howner, hnamed⟩
    unfold Drops
    split
    · exact howner
    · rename_i hsome
      exact ⟨hnamed.resolve_left hsome, .inl howner⟩

theorem hasEvent_append_other {row : JournalRow}
    (hintent : row.type ≠ "OPERATION_INTENT_REGISTERED")
    (hresult : row.type ≠ "OPERATION_RESULT_RECORDED") : SameEvents d (appendEvent row d) := by
  intro opId type htype
  have hother : row.type ≠ type := by
    rcases htype with rfl | rfl
    · exact hintent
    · exact hresult
  show (d.store.db.journalEvents.append row).hasEvent opId type = _
  rw [Journal.hasEvent_append, decide_eq_false hother, Bool.and_false, Bool.or_false]

/-- What a release by a holder does on a quiescent domain. -/
structure ReleasedBy (holder : String) (resources : List String) (d d' : ExecutionDomain) :
    Prop where
  quiescent : Quiescent d'
  yields : Yields (· = holder) d d'
  history : SameHistory d d'
  locks : ∀ r, Named resources r → d'.getResourceOwner r ≠ some holder
  leases : ∀ lease ∈ d'.store.getPersistedResourceLeases d'.domainId,
    lease.operationId = holder → ¬ Named resources lease.resourceId

theorem release_quiescent (h : Quiescent d) (engine : RecoveryEngine) (holder : String)
    (resources : List String) :
    ∃ d', (release engine holder resources).run d = (d', .ok ()) ∧
      ReleasedBy holder resources d d' := by
  obtain ⟨row, htype, hrun⟩ := internalReleaseResources_run h.unfenced holder resources
    engine.around.isCancelled engine.around.elapsed engine.around.now
  let d' := afterRelease holder resources row d
  have hidle : d'.waitQueue = [] := (afterRelease_waitQueue holder resources row d).trans h.idle
  have hreturns : (release engine holder resources).run d = (d', .ok ()) := by
    unfold release
    rw [run_bind, hrun, processWaitQueue_idle hidle]
    rfl
  obtain ⟨hreleased, -, hlocks, hleases⟩ := releaseLocks_effect holder resources d
  have hrel : Released holder d (forgetIdle holder (releaseLocks holder resources d).1) :=
    hreleased.trans (released_forgetIdle holder _)
  have howner : ∀ r, d'.getResourceOwner r =
      (releaseLocks holder resources d).1.getResourceOwner r :=
    fun r => afterRelease_owner holder resources row d r
  have hforget : (forgetIdle holder (releaseLocks holder resources d).1).store =
      (releaseLocks holder resources d).1.store := by
    unfold forgetIdle
    split
    · rfl
    · rfl
  have hrows : d'.store.db.resourceLeases =
      (releaseLocks holder resources d).1.store.db.resourceLeases := by
    show (forgetIdle holder (releaseLocks holder resources d).1).store.db.resourceLeases = _
    rw [hforget]
  obtain ⟨leases, hdb, hsub, hkeep⟩ := hrel.db
  have hrows' : d'.store.db.resourceLeases = leases := congrArg Database.resourceLeases hdb
  -- Of the store nothing but leases and journal has changed.
  have hstore : (forgetIdle holder (releaseLocks holder resources d).1).store.db.operations =
        d.store.db.operations ∧
      (forgetIdle holder (releaseLocks holder resources d).1).store.db.runs = d.store.db.runs ∧
      (forgetIdle holder (releaseLocks holder resources d).1).store.db.snapshots =
        d.store.db.snapshots ∧
      (forgetIdle holder (releaseLocks holder resources d).1).store.db.journalEvents =
        d.store.db.journalEvents := by
    rw [hdb]
    exact ⟨rfl, rfl, rfl, rfl⟩
  have hdomain : d'.domainId = d.domainId := hrel.domainId
  have hagree : LeasesAgree d' := by
    have hafter := h.agree.releaseLocks holder resources
    intro lease hlease
    obtain ⟨hmem, hthis⟩ := Table.mem_select.1 hlease
    rw [howner]
    apply hafter lease
    apply Table.mem_select.2
    rw [hrows] at hmem
    rw [hdomain] at hthis
    rw [hreleased.domainId]
    exact ⟨hmem, hthis⟩
  refine ⟨d', hreturns, ⟨h.unfenced.afterRelease holder resources row, hidle, hagree⟩, ?_, ?_, ?_,
    ?_⟩
  · refine ⟨hdomain, hstore.2.2.1, ?_, ?_, ?_, ?_⟩
    · rw [hrows']
      exact hsub
    · intro r x hx
      rw [howner] at hx
      by_cases hdrops : d.Drops holder resources r
      · rw [(hlocks r).1 hdrops] at hx
        cases hx
      · rw [(hlocks r).2 hdrops] at hx
        exact hx
    · rw [hrows']
      exact hkeep
    · intro r x hother hx
      rw [howner, (hlocks r).2]
      · exact hx
      · intro hdrops
        have hholder := ((drops_iff h.agree).1 hdrops).1
        rw [hx, Option.some.injEq] at hholder
        exact hother hholder
  · refine ⟨hstore.1, hstore.2.1, ?_⟩
    have hevents : SameEvents (forgetIdle holder (releaseLocks holder resources d).1) d' :=
      hasEvent_append_other (by rw [htype]; decide) (by rw [htype]; decide)
    intro opId type hkind
    have hsame := hevents opId type hkind
    rw [hstore.2.2.2] at hsame
    exact hsame
  · intro r hnamed hx
    rw [howner] at hx
    by_cases hdrops : d.Drops holder resources r
    · rw [(hlocks r).1 hdrops] at hx
      cases hx
    · rw [(hlocks r).2 hdrops] at hx
      exact hdrops ((drops_iff h.agree).2 ⟨hx, hnamed⟩)
  · intro lease hlease hop hnamed
    obtain ⟨hmem, hthis⟩ := Table.mem_select.1 hlease
    have hkept := hmem
    rw [hrows] at hkept
    apply hleases lease hkept hop
    apply (drops_iff h.agree).2
    refine ⟨?_, hnamed⟩
    rw [hrows'] at hmem
    have hold : lease ∈ d.store.getPersistedResourceLeases d.domainId := by
      apply Table.mem_select.2
      rw [hdomain] at hthis
      exact ⟨hsub lease hmem, hthis⟩
    rw [(h.agree lease hold).2, hop]

/-! ## One event -/

/-- An event about neither an intent nor a result, recorded on a quiescent domain. -/
theorem event_quiescent (h : Quiescent d) {e : EventInput} (hdomain : e.domainId = d.domainId)
    (htype : e.eventName ≠ "OPERATION_INTENT_REGISTERED" ∧
      e.eventName ≠ "OPERATION_RESULT_RECORDED") (hintent : ∀ opId, e.subject = some opId →
      d.store.db.journalEvents.hasEvent opId "OPERATION_INTENT_REGISTERED" = true)
    (henv : ∃ envelope, e.envelope = .ok envelope) :
    ∃ d', (onStore (recordEvent e)).run d = (d', .ok ()) ∧ Quiescent d' ∧
      Yields (fun _ => False) d d' ∧ SameHistory d d' := by
  obtain ⟨envelope, henv⟩ := henv
  have hfenced : epochFencing e.domainId d.store = .ok () := by
    rw [hdomain]
    exact h.unfenced.currentEpoch
  have hrun := recordEvent_run hfenced (fun opId hsubject _ => hintent opId hsubject)
    (by
      intro opId _ hresult
      rw [decide_eq_false htype.2, Bool.false_and] at hresult
      cases hresult)
    henv
  have hname : (eventRow e envelope).type = e.eventName :=
    (createEventEnvelope_ok henv).2.1
  refine ⟨appendEvent (eventRow e envelope) d, ?_, ?_, ?_, ?_⟩
  · rw [run_onStore, hrun]
    rfl
  · refine ⟨⟨h.unfenced.notFenced, ?_, h.unfenced.named⟩, h.idle, h.agree⟩
    exact (epochFencing_congr _ rfl rfl).trans h.unfenced.currentEpoch
  · exact ⟨rfl, rfl, fun _ hlease => hlease, fun _ _ howner => howner, fun _ hlease _ => hlease,
      fun _ _ _ howner => howner⟩
  · refine ⟨rfl, rfl, hasEvent_append_other ?_ ?_⟩
    · rw [hname]
      exact htype.1
    · rw [hname]
      exact htype.2

/-! ## One result -/

/-- The result of an operation was written, and that is all that happened to the operations. -/
structure Recorded (op : StoredOperation) (result : OperationResult) (d d' : ExecutionDomain) :
    Prop where
  operations : ∀ id, d'.store.getOperation id =
    if id = op.id then some (finishedRow result op) else d.store.getOperation id
  runs : d'.store.db.runs = d.store.db.runs
  intents : ∀ id, d'.store.db.journalEvents.hasEvent id "OPERATION_INTENT_REGISTERED" =
    d.store.db.journalEvents.hasEvent id "OPERATION_INTENT_REGISTERED"
  results : ∀ id, id ≠ op.id →
    d'.store.db.journalEvents.hasEvent id "OPERATION_RESULT_RECORDED" =
      d.store.db.journalEvents.hasEvent id "OPERATION_RESULT_RECORDED"

theorem Recorded.trans {op : StoredOperation} {result : OperationResult}
    (h : Recorded op result d d₁) (h' : SameHistory d₁ d') : Recorded op result d d' where
  operations := fun id => (h'.getOperation id).trans (h.operations id)
  runs := h'.runs.trans h.runs
  intents := fun id => (h'.events id _ (.inl rfl)).trans (h.intents id)
  results := fun id hid => (h'.events id _ (.inr rfl)).trans (h.results id hid)

theorem mem_settleLeases {opId : String} {result : OperationResult} {releaseResources : Bool}
    {s : SqliteStore} {lease : ResourceLease} :
    lease ∈ (settleLeases opId result releaseResources s).db.resourceLeases.rows ↔
      lease ∈ s.db.resourceLeases.rows ∧
        ¬ (releaseResources = true ∧ result.status ≠ .indeterminate ∧
          lease.operationId = opId) := by
  unfold settleLeases
  split
  · rename_i hsettles
    rw [Bool.and_eq_true, decide_eq_true_eq] at hsettles
    unfold deleteLeases
    simp only [withDb_db]
    rw [Table.mem_deleteWhere, decide_eq_false_iff_not]
    constructor
    · rintro ⟨hmem, hother⟩
      exact ⟨hmem, fun hgone => hother hgone.2.2⟩
    · rintro ⟨hmem, hkept⟩
      exact ⟨hmem, fun hop => hkept ⟨hsettles.1, hsettles.2, hop⟩⟩
  · rename_i hkeeps
    constructor
    · intro hmem
      refine ⟨hmem, fun hgone => hkeeps ?_⟩
      rw [Bool.and_eq_true, decide_eq_true_eq]
      exact ⟨hgone.1, hgone.2.1⟩
    · exact fun hmem => hmem.1

theorem record_quiescent (h : Quiescent d) {op : StoredOperation}
    (hrec : Recordable op.id d.store op) (result : OperationResult) (releaseResources : Bool) :
    ∃ d', (onStore (recordOperationResult op.id result releaseResources)).run d =
        (d', .ok ()) ∧ Quiescent d' ∧
      Yields (fun x => releaseResources = true ∧ x = op.id) d d' ∧ Recorded op result d d' ∧
      (∀ r, d'.getResourceOwner r = d.getResourceOwner r) ∧
      (releaseResources = true → result.status ≠ .indeterminate →
        ∀ lease ∈ d'.store.db.resourceLeases.rows, lease.operationId ≠ op.id) := by
  obtain ⟨row, hrun⟩ := hrec.run result releaseResources
  let s := settleLeases op.id result releaseResources
    (finishOperation op.id result d.store)
  let d' : ExecutionDomain := { d with store := appendEvent row s }
  have hreturns : (onStore (recordOperationResult op.id result releaseResources)).run
      d = (d', .ok ()) := by
    rw [run_onStore, hrun]
  -- The row that was added is the one of the result event.
  obtain ⟨op', hfound, -, -, -, -, hevent⟩ :=
    (recordOperationResult_ok hrun).found
  obtain ⟨envelope, henv, hsame⟩ := hevent.appended
  have hrow : s.db.journalEvents.append row =
      s.db.journalEvents.append (eventRow
        (resultEvent op' result releaseResources) envelope) :=
    congrArg (fun s => s.db.journalEvents) hsame
  have hjournal : s.db.journalEvents = d.store.db.journalEvents :=
    settleLeases_journalEvents ..
  have hevents : ∀ id type, d'.store.db.journalEvents.hasEvent id type =
      (d.store.db.journalEvents.hasEvent id type ||
        (decide (nonEmpty (some op'.id) = some id) &&
          decide ("OPERATION_RESULT_RECORDED" = type))) := by
    intro id type
    show (s.db.journalEvents.append row).hasEvent id type = _
    have htype : (eventRow (resultEvent op' result releaseResources)
        envelope).type = "OPERATION_RESULT_RECORDED" := (createEventEnvelope_ok henv).2.1
    rw [hrow, Journal.hasEvent_append, hjournal, htype]
    rfl
  have hid : op'.id = op.id := getOperation_id hfound
  have hleases : ∀ lease, lease ∈ d'.store.db.resourceLeases.rows ↔
      lease ∈ d.store.db.resourceLeases.rows ∧ ¬ (releaseResources = true ∧
        result.status ≠ .indeterminate ∧ lease.operationId = op.id) :=
    fun lease => mem_settleLeases
  refine ⟨d', hreturns, ⟨⟨h.unfenced.notFenced, ?_, h.unfenced.named⟩, h.idle, ?_⟩, ?_, ?_,
    fun _ => rfl, ?_⟩
  · refine (epochFencing_congr _ ?_ ?_).trans h.unfenced.currentEpoch
    · exact settleLeases_owners ..
    · exact settleLeases_currentEpoch ..
  · intro lease hlease
    obtain ⟨hmem, hdomain⟩ := Table.mem_select.1 hlease
    exact h.agree lease (Table.mem_select.2 ⟨((hleases lease).1 hmem).1, hdomain⟩)
  · refine ⟨rfl, ?_, fun lease hlease => ((hleases lease).1 hlease).1, fun _ _ howner => howner,
      ?_, fun _ _ _ howner => howner⟩
    · show s.db.snapshots = _
      show (settleLeases ..).db.snapshots = _
      unfold settleLeases
      split
      · rfl
      · rfl
    · intro lease hlease hkept
      exact (hleases lease).2 ⟨hlease, fun hgone => hkept ⟨hgone.1, hgone.2.2⟩⟩
  · refine ⟨fun id => ?_, settleLeases_runs .., fun id => ?_, fun id hother => ?_⟩
    · show s.getOperation id = _
      rw [getOperation_settleLeases, getOperation_finishOperation]
      by_cases heq : id = op.id
      · rw [if_pos heq, if_pos heq, heq, hrec.found]
        rfl
      · rw [if_neg heq, if_neg heq]
    · have hkind : "OPERATION_RESULT_RECORDED" ≠ "OPERATION_INTENT_REGISTERED" := by decide
      rw [hevents, decide_eq_false hkind, Bool.and_false, Bool.or_false]
    · have hnot : nonEmpty (some op'.id) ≠ some id := by
        intro hsome
        exact hother (((nonEmpty_some_eq hsome).2).trans hid)
      rw [hevents, decide_eq_false hnot, Bool.false_and, Bool.or_false]
  · intro hrelease hconfirmed lease hlease hop
    exact ((hleases lease).1 hlease).2 ⟨hrelease, hconfirmed, hop⟩

/-! ## One operation -/

/-- The id of a holder that counts as a service. -/
def ServiceNamed (holder : String) : Prop := hasPrefix "service:" holder = true

theorem serviceNamed_serviceHolder (serviceId : String) :
    ServiceNamed (serviceHolder serviceId) := by
  have happend : (serviceHolder serviceId).toList = "service:".toList ++ serviceId.toList :=
    String.toList_append ..
  show "service:".toList.isPrefixOf (serviceHolder serviceId).toList = true
  rw [happend, List.isPrefixOf_iff_prefix]
  exact List.prefix_append ..

/-- Those who may lose something when an operation is settled. -/
def Settling (op : StoredOperation) (released : Bool) (x : String) : Prop :=
  (released = true ∧ x = op.id) ∨ ServiceNamed x

theorem serviceStoppedEvent_envelope {domainId : String} (hnamed : domainId ≠ "")
    (op : StoredOperation) (action : RecoveryAction) (now : Timestamp) :
    ∃ envelope, (serviceStoppedEvent domainId op action now).envelope = .ok envelope := by
  have hplain : JsValue.plainEntries [("serviceId", .str (serviceIdOf op)),
      ("runId", .str op.runId), ("instanceOpId", .str op.id),
      ("reason", .str "recovered_after_crash"), ("action", .str action.text)] = true := rfl
  have hschema : validSchemaVersion "xio/event/1.0" = true := by decide
  have hname : validEventName "SERVICE_STOPPED" = true := by decide
  exact createEventEnvelope_of_plain hnamed hschema hname rfl hplain

section Settle

variable {d : ExecutionDomain} (engine : RecoveryEngine) (all : List StoredOperation)
  (op : StoredOperation)

/-- The operation and, if it was the last instance, its service give everything back. -/
theorem releaseOp_quiescent (h : Quiescent d)
    (hheld : ∀ r, d.getResourceOwner r = some op.id → Named op.requiredResources r) :
    ∃ d', (releaseOpAndServiceResources engine all op).run d = (d', .ok ()) ∧ Quiescent d' ∧
      Yields (Settling op true) d d' ∧ SameHistory d d' ∧
      ∀ r, d'.getResourceOwner r ≠ some op.id := by
  obtain ⟨d₁, hrun₁, hrel₁⟩ := release_quiescent h engine op.id op.requiredResources
  have hyields₁ : Yields (Settling op true) d d₁ :=
    hrel₁.yields.mono fun x hx => .inl ⟨rfl, hx⟩
  have hgone₁ : ∀ r, d₁.getResourceOwner r ≠ some op.id := by
    intro r howner
    exact hrel₁.locks r (hheld r (hrel₁.yields.locks r _ howner)) howner
  unfold releaseOpAndServiceResources
  rw [run_bind, hrun₁]
  cases hservice : decide (op.kind = .service) with
  | false =>
    exact ⟨d₁, rfl, hrel₁.quiescent, hyields₁, hrel₁.history, hgone₁⟩
  | true =>
    show ∃ d', (onlyIf true (releaseServiceResources engine all op)).run d₁ = (d', .ok ()) ∧ _
    unfold onlyIf releaseServiceResources
    rw [if_pos rfl, run_bind, run_read]
    cases hlast : (unsettledInstances all d₁.store (serviceIdOf op)).isEmpty with
    | false =>
      refine ⟨d₁, ?_, hrel₁.quiescent, hyields₁, hrel₁.history, hgone₁⟩
      show (onlyIf (unsettledInstances all d₁.store (serviceIdOf op)).isEmpty _).run d₁ = _
      unfold onlyIf
      rw [hlast, if_neg Bool.false_ne_true]
      rfl
    | true =>
      obtain ⟨d₂, hrun₂, hrel₂⟩ := release_quiescent hrel₁.quiescent engine
        (serviceHolder (serviceIdOf op)) op.requiredResources
      refine ⟨d₂, ?_, hrel₂.quiescent, ?_, hrel₁.history.trans hrel₂.history, ?_⟩
      · show (onlyIf (unsettledInstances all d₁.store (serviceIdOf op)).isEmpty _).run d₁ = _
        unfold onlyIf
        rw [hlast, if_pos rfl]
        exact hrun₂
      · apply hyields₁.trans
        apply hrel₂.yields.mono
        intro x hx
        rw [hx]
        exact .inr (serviceNamed_serviceHolder _)
      · exact fun r howner => hgone₁ r (hrel₂.yields.locks r _ howner)

theorem announce_quiescent (h : Quiescent d) (action : RecoveryAction)
    (hintent : d.store.db.journalEvents.hasEvent op.id "OPERATION_INTENT_REGISTERED" = true) :
    ∃ d', (recordServiceStoppedIfNeeded engine op action).run d = (d', .ok ()) ∧ Quiescent d' ∧
      Yields (fun _ => False) d d' ∧ SameHistory d d' := by
  unfold recordServiceStoppedIfNeeded
  rw [run_bind, run_read]
  cases hservice : decide (op.kind = .service) with
  | false =>
    exact ⟨d, rfl, h, Yields.refl _ d, SameHistory.refl d⟩
  | true =>
    let e := serviceStoppedEvent d.domainId op action (engine.clock op.id)
    have htype : e.eventName ≠ "OPERATION_INTENT_REGISTERED" ∧
        e.eventName ≠ "OPERATION_RESULT_RECORDED" := by
      show "SERVICE_STOPPED" ≠ _ ∧ "SERVICE_STOPPED" ≠ _
      decide
    obtain ⟨d', hrun, hafter⟩ := event_quiescent h (e := e) rfl htype
      (by
        intro opId hsubject
        have hsame : opId = op.id := (nonEmpty_some_eq hsubject).2
        rw [hsame]
        exact hintent)
      (serviceStoppedEvent_envelope h.unfenced.named op action _)
    exact ⟨d', hrun, hafter⟩

/-- What settling an operation does. -/
structure SettledBy (verdict : OperationVerdict) (d d' : ExecutionDomain) : Prop where
  quiescent : Quiescent d'
  yields : Yields (Settling op verdict.released) d d'
  recorded : Recorded op (verdict.result (engine.clock op.id)) d d'
  nothing : verdict.released = true → HoldsNothing op.id d'

theorem settle_quiescent (h : Quiescent d) (hrec : Recordable op.id d.store op)
    (hheld : ∀ r, d.getResourceOwner r = some op.id → Named op.requiredResources r)
    (verdict : OperationVerdict) :
    ∃ d', (settle engine all op verdict).run d =
        (d', .ok ⟨op.id, verdict.action, verdict.released⟩) ∧
      SettledBy engine op verdict d d' := by
  obtain ⟨d₁, hrun₁, hquiet₁, hyields₁, hrecorded₁, howner₁, hleases₁⟩ :=
    record_quiescent h hrec (verdict.result (engine.clock op.id)) verdict.released
  have hyields₁' : Yields (Settling op verdict.released) d d₁ :=
    hyields₁.mono fun x hx => .inl hx
  -- The release, if there is one.
  obtain ⟨d₂, hrun₂, hquiet₂, hyields₂, hhistory₂, hnothing₂⟩ :
      ∃ d₂, (onlyIf verdict.released (releaseOpAndServiceResources engine all op)).run d₁ =
          (d₂, .ok ()) ∧ Quiescent d₂ ∧ Yields (Settling op verdict.released) d d₂ ∧
        SameHistory d₁ d₂ ∧ (verdict.released = true → HoldsNothing op.id d₂) := by
    unfold onlyIf
    cases hreleased : verdict.released with
    | false =>
      rw [if_neg Bool.false_ne_true]
      rw [hreleased] at hyields₁'
      exact ⟨d₁, rfl, hquiet₁, hyields₁', SameHistory.refl d₁, fun hcontra => (by cases hcontra)⟩
    | true =>
      rw [if_pos rfl]
      obtain ⟨d₂, hrun₂, hquiet₂, hyields₂, hhistory₂, hlocks₂⟩ :=
        releaseOp_quiescent engine all op hquiet₁ fun r howner =>
          hheld r ((howner₁ r).symm.trans howner)
      have hconfirmed : (verdict.result (engine.clock op.id)).status ≠ .indeterminate := by
        intro hstatus
        rw [(verdict.status_eq_indeterminate_iff _).1 hstatus] at hreleased
        cases hreleased
      rw [hreleased] at hyields₁'
      refine ⟨d₂, hrun₂, hquiet₂, hyields₁'.trans hyields₂, hhistory₂, fun _ => ⟨?_, hlocks₂⟩⟩
      intro lease hlease
      exact hleases₁ hreleased hconfirmed lease (hyields₂.leases lease hlease)
  have hrecorded₂ := hrecorded₁.trans hhistory₂
  -- The announcement, if there is one.
  obtain ⟨d₃, hrun₃, hquiet₃, hyields₃, hhistory₃⟩ :
      ∃ d₃, (onlyIf verdict.announced
          (recordServiceStoppedIfNeeded engine op verdict.action)).run d₂ = (d₃, .ok ()) ∧
        Quiescent d₃ ∧ Yields (fun _ => False) d₂ d₃ ∧ SameHistory d₂ d₃ := by
    unfold onlyIf
    cases verdict.announced with
    | false =>
      rw [if_neg Bool.false_ne_true]
      exact ⟨d₂, rfl, hquiet₂, Yields.refl _ d₂, SameHistory.refl d₂⟩
    | true =>
      rw [if_pos rfl]
      apply announce_quiescent engine op hquiet₂
      rw [hrecorded₂.intents]
      exact hrec.intent
  refine ⟨d₃, ?_, hquiet₃, ?_, hrecorded₂.trans hhistory₃, fun hreleased => ?_⟩
  · unfold settle
    simp only [run_bind, hrun₁, hrun₂, hrun₃]
    rfl
  · exact hyields₂.trans (hyields₃.mono fun x hx => hx.elim)
  · exact (hnothing₂ hreleased).yields hyields₃

end Settle

/-! ## All of them -/

/-- The journal holds the intent of the operation and no result of it. -/
structure Settleable (op : StoredOperation) (s : SqliteStore) : Prop where
  intent : s.db.journalEvents.hasEvent op.id "OPERATION_INTENT_REGISTERED" = true
  fresh : s.db.journalEvents.hasEvent op.id "OPERATION_RESULT_RECORDED" = false

section Loop

variable (engine : RecoveryEngine)

/-- What the loop needs of an operation that it has yet to settle. -/
structure Unfinished (op : StoredOperation) (d : ExecutionDomain) : Prop where
  found : d.store.getOperation op.id = some op
  domain : op.domainId = d.domainId
  undone : op.status ≠ .done
  held : ∀ r, d.getResourceOwner r = some op.id → Named op.requiredResources r
  ordinary : ¬ ServiceNamed op.id

variable {d d' : ExecutionDomain} {ops : List StoredOperation}

variable {op : StoredOperation} {verdict : OperationVerdict}

theorem Unfinished.recordable (h : Unfinished op d) (hd : Quiescent d)
    (hsettleable : Settleable op d.store) : Recordable op.id d.store op where
  found := h.found
  fenced := by
    rw [h.domain]
    exact hd.unfenced.currentEpoch
  undone := h.undone
  intent := hsettleable.intent
  fresh := hsettleable.fresh
  named := by
    rw [h.domain]
    exact hd.unfenced.named

/-- Settling an operation leaves the others as they were. -/
theorem SettledBy.unfinished {other : StoredOperation} (h : SettledBy engine op verdict d d')
    (hne : other.id ≠ op.id) (hother : Unfinished other d) : Unfinished other d' where
  found := by
    rw [h.recorded.operations, if_neg hne]
    exact hother.found
  domain := hother.domain.trans h.yields.domainId.symm
  undone := hother.undone
  held := fun r howner => hother.held r (h.yields.locks r _ howner)
  ordinary := hother.ordinary

theorem SettledBy.settleable_iff {other : StoredOperation} (h : SettledBy engine op verdict d d')
    (hne : other.id ≠ op.id) : Settleable other d'.store ↔ Settleable other d.store := by
  constructor
  · rintro ⟨hintent, hfresh⟩
    rw [h.recorded.intents] at hintent
    rw [h.recorded.results _ hne] at hfresh
    exact ⟨hintent, hfresh⟩
  · rintro ⟨hintent, hfresh⟩
    refine ⟨?_, ?_⟩
    · rw [h.recorded.intents]
      exact hintent
    · rw [h.recorded.results _ hne]
      exact hfresh

variable [Crypto] (all : List StoredOperation)

/-- The calls that the verdict on an operation comes to make. -/
def callsFor (op : StoredOperation) (s : SqliteStore) : List DriverCall :=
  (decisionOf engine.driver s.getSnapshot (engine.context op) op).asked engine.driver.answer

/-- Every call that the verdict on an operation comes to make returns. -/
def CallsReturn (op : StoredOperation) (s : SqliteStore) : Prop :=
  ∀ call ∈ callsFor engine op s, Inquiry.Answers engine.driver.answer call

theorem judge_ok_iff (op : StoredOperation) (s : SqliteStore) :
    (∃ verdict, judge engine op s = .ok verdict) ↔ CallsReturn engine op s :=
  Inquiry.run_isOk_iff _ _

theorem judge_congr (op : StoredOperation) {s s' : SqliteStore}
    (h : s'.db.snapshots = s.db.snapshots) : judge engine op s' = judge engine op s := by
  have hsnapshot : s'.getSnapshot = s.getSnapshot := by
    funext id
    unfold getSnapshot
    rw [h]
  unfold judge
  rw [hsnapshot]

/-- The operation is recovered exactly when its calls return and the journal takes its result. -/
theorem recoverOperation_ok_iff (hd : Quiescent d) (hop : Unfinished op d) :
    (∃ d' recovered, (recoverOperation engine all op).run d = (d', .ok recovered)) ↔
      CallsReturn engine op d.store ∧ Settleable op d.store := by
  constructor
  · rintro ⟨d', recovered, hrun⟩
    unfold recoverOperation at hrun
    rw [run_bind, run_read] at hrun
    cases hjudge : judge engine op d.store with
    | error e =>
      simp only [hjudge] at hrun
      cases hrun
    | ok verdict =>
      simp only [hjudge] at hrun
      refine ⟨(judge_ok_iff engine op d.store).1 ⟨verdict, hjudge⟩, ?_⟩
      unfold settle at hrun
      obtain ⟨u, d₁, hrecord, -⟩ := Prog.bind_ok hrun
      by_contra hnot
      have hrefused : ∀ op', ¬ Recordable op.id d.store op' :=
        fun op' hrec => hnot ⟨hrec.intent, hrec.fresh⟩
      obtain ⟨e, herror⟩ := recordOperationResult_error hrefused
        (verdict.result (engine.clock op.id)) verdict.released
      rw [run_onStore, herror] at hrecord
      cases hrecord
  · rintro ⟨hcalls, hsettleable⟩
    obtain ⟨verdict, hjudge⟩ := (judge_ok_iff engine op d.store).2 hcalls
    obtain ⟨d', hrun, -⟩ := settle_quiescent engine all op hd (hop.recordable hd hsettleable)
      hop.held verdict
    refine ⟨d', ⟨op.id, verdict.action, verdict.released⟩, ?_⟩
    unfold recoverOperation
    rw [run_bind, run_read]
    simp only [hjudge]
    exact hrun

theorem recoverOperation_settles {recovered : RecoveredOperation} (hd : Quiescent d)
    (hop : Unfinished op d) (hrun : (recoverOperation engine all op).run d = (d', .ok recovered)) :
    ∃ verdict, judge engine op d.store = .ok verdict ∧ SettledBy engine op verdict d d' ∧
      recovered = ⟨op.id, verdict.action, verdict.released⟩ := by
  have hready := (recoverOperation_ok_iff engine all hd hop).1 ⟨d', recovered, hrun⟩
  obtain ⟨verdict, hjudge⟩ := (judge_ok_iff engine op d.store).2 hready.1
  obtain ⟨d₁, hsettle, hsettled⟩ := settle_quiescent engine all op hd
    (hop.recordable hd hready.2) hop.held verdict
  have hthis : (recoverOperation engine all op).run d =
      (d₁, .ok ⟨op.id, verdict.action, verdict.released⟩) := by
    unfold recoverOperation
    rw [run_bind, run_read]
    simp only [hjudge]
    exact hsettle
  rw [hthis] at hrun
  cases hrun
  exact ⟨verdict, hjudge, hsettled, rfl⟩

/-- The verdict on the operation lets its leases go. -/
def Releases (op : StoredOperation) (s : SqliteStore) : Prop :=
  ∃ verdict, judge engine op s = .ok verdict ∧ verdict.released = true

/-- Those who may lose something when a list of operations is settled. -/
def SettlingAll (ops : List StoredOperation) (s : SqliteStore) (x : String) : Prop :=
  ServiceNamed x ∨ ∃ op ∈ ops, x = op.id ∧ Releases engine op s

/-- What settling a list of operations does. -/
structure SettledAll (ops : List StoredOperation) (recovered : List RecoveredOperation)
    (d d' : ExecutionDomain) : Prop where
  quiescent : Quiescent d'
  yields : Yields (SettlingAll engine ops d.store) d d'
  settled : ∀ op ∈ ops, ∃ verdict, judge engine op d.store = .ok verdict ∧
    d'.store.getOperation op.id =
      some (finishedRow (verdict.result (engine.clock op.id)) op) ∧
    (verdict.released = true → HoldsNothing op.id d')
  others : ∀ id, (∀ op ∈ ops, op.id ≠ id) → d'.store.getOperation id = d.store.getOperation id
  runs : d'.store.db.runs = d.store.db.runs
  report : ∀ entry ∈ recovered, entry.resourcesReleased = false → ∃ op ∈ ops,
    op.id = entry.opId ∧ ∃ verdict, judge engine op d.store = .ok verdict ∧
      verdict.released = false

theorem settledAll_nil (hd : Quiescent d) : SettledAll engine [] [] d d where
  quiescent := hd
  yields := Yields.refl _ d
  settled := fun _ hop => absurd hop List.not_mem_nil
  others := fun _ _ => rfl
  runs := rfl
  report := fun _ hentry => absurd hentry List.not_mem_nil

theorem SettledAll.cons {rest : List RecoveredOperation} {d₁ : ExecutionDomain}
    (hnew : ∀ other ∈ ops, other.id ≠ op.id) (hjudge : judge engine op d.store = .ok verdict)
    (hfirst : SettledBy engine op verdict d d₁) (hrest : SettledAll engine ops rest d₁ d') :
    SettledAll engine (op :: ops) (⟨op.id, verdict.action, verdict.released⟩ :: rest) d d' := by
  have hjudges : ∀ other, judge engine other d₁.store = judge engine other d.store :=
    fun other => judge_congr engine other hfirst.yields.snapshots
  refine ⟨hrest.quiescent, ?_, ?_, ?_, hrest.runs.trans hfirst.recorded.runs, ?_⟩
  · have hhead : Yields (SettlingAll engine (op :: ops) d.store) d d₁ := by
      apply hfirst.yields.mono
      rintro x (⟨hreleased, hx⟩ | hservice)
      · exact .inr ⟨op, List.mem_cons_self, hx, verdict, hjudge, hreleased⟩
      · exact .inl hservice
    apply hhead.trans
    apply hrest.yields.mono
    rintro x (hservice | ⟨other, hmem, hx, verdict', hjudge', hreleased⟩)
    · exact .inl hservice
    · rw [hjudges] at hjudge'
      exact .inr ⟨other, List.mem_cons_of_mem _ hmem, hx, verdict', hjudge', hreleased⟩
  · rw [List.forall_mem_cons]
    refine ⟨⟨verdict, hjudge, ?_, fun hreleased => ?_⟩, fun other hmem => ?_⟩
    · rw [hrest.others op.id hnew, hfirst.recorded.operations, if_pos rfl]
    · exact (hfirst.nothing hreleased).yields hrest.yields
    · obtain ⟨verdict', hjudge', hthis⟩ := hrest.settled other hmem
      rw [hjudges] at hjudge'
      exact ⟨verdict', hjudge', hthis⟩
  · intro id hid
    rw [List.forall_mem_cons] at hid
    rw [hrest.others id hid.2, hfirst.recorded.operations, if_neg fun h => hid.1 h.symm]
  · rw [List.forall_mem_cons]
    refine ⟨fun hkept => ⟨op, List.mem_cons_self, rfl, verdict, hjudge, hkept⟩, ?_⟩
    intro entry hentry hkept
    obtain ⟨other, hmem, hid, verdict', hjudge', hreleased⟩ := hrest.report entry hentry hkept
    rw [hjudges] at hjudge'
    exact ⟨other, List.mem_cons_of_mem _ hmem, hid, verdict', hjudge', hreleased⟩

omit [Crypto] in
theorem others_differ {op : StoredOperation} (h : ((op :: ops).map fun op => op.id).Nodup) :
    (∀ other ∈ ops, other.id ≠ op.id) ∧ (ops.map fun op => op.id).Nodup := by
  rw [List.map_cons, List.nodup_cons] at h
  exact ⟨fun other hmem heq => h.1 (heq ▸ List.mem_map_of_mem hmem), h.2⟩

/-- The loop completes exactly when every call returns and every result can be recorded. -/
theorem recoverOperations_ok_iff (hd : Quiescent d) (hdistinct : (ops.map fun op => op.id).Nodup)
    (hops : ∀ op ∈ ops, Unfinished op d) :
    (∃ d' recovered, (recoverOperations engine all ops).run d = (d', .ok recovered)) ↔
      ∀ op ∈ ops, CallsReturn engine op d.store ∧ Settleable op d.store := by
  induction ops generalizing d with
  | nil => exact ⟨fun _ op hop => absurd hop List.not_mem_nil, fun _ => ⟨d, [], rfl⟩⟩
  | cons op ops ih =>
    obtain ⟨hnew, hdistinct⟩ := others_differ hdistinct
    rw [List.forall_mem_cons] at hops
    rw [List.forall_mem_cons, ← recoverOperation_ok_iff engine all hd hops.1]
    -- Once the first is settled, the others are as they were.
    have htail : ∀ {d₁ recovered},
        (recoverOperation engine all op).run d = (d₁, .ok recovered) →
        ((∃ d' rest, (recoverOperations engine all ops).run d₁ = (d', .ok rest)) ↔
          ∀ other ∈ ops, CallsReturn engine other d.store ∧ Settleable other d.store) := by
      intro d₁ recovered hrun
      obtain ⟨verdict, -, hsettled, -⟩ := recoverOperation_settles engine all hd hops.1 hrun
      rw [ih hsettled.quiescent hdistinct
        fun other hmem => hsettled.unfinished engine (hnew other hmem) (hops.2 other hmem)]
      refine forall_congr' fun other => forall_congr' fun hmem => ?_
      rw [← judge_ok_iff, ← judge_ok_iff, judge_congr engine other hsettled.yields.snapshots,
        hsettled.settleable_iff engine (hnew other hmem)]
    constructor
    · rintro ⟨d', recovered, hrun⟩
      rw [recoverOperations] at hrun
      obtain ⟨first, d₁, hfirst, hrest⟩ := Prog.bind_ok hrun
      obtain ⟨rest, d₂, hrest, -⟩ := Prog.bind_ok hrest
      exact ⟨⟨d₁, first, hfirst⟩, (htail hfirst).1 ⟨d₂, rest, hrest⟩⟩
    · rintro ⟨⟨d₁, first, hfirst⟩, hothers⟩
      obtain ⟨d', rest, hrest⟩ := (htail hfirst).2 hothers
      refine ⟨d', first :: rest, ?_⟩
      rw [recoverOperations]
      simp only [run_bind, hfirst, hrest]
      rfl

theorem recoverOperations_settles {recovered : List RecoveredOperation} (hd : Quiescent d)
    (hdistinct : (ops.map fun op => op.id).Nodup) (hops : ∀ op ∈ ops, Unfinished op d)
    (hrun : (recoverOperations engine all ops).run d = (d', .ok recovered)) :
    SettledAll engine ops recovered d d' := by
  induction ops generalizing d recovered with
  | nil =>
    cases hrun
    exact settledAll_nil engine hd
  | cons op ops ih =>
    obtain ⟨hnew, hdistinct⟩ := others_differ hdistinct
    rw [List.forall_mem_cons] at hops
    rw [recoverOperations] at hrun
    obtain ⟨first, d₁, hfirst, hrest⟩ := Prog.bind_ok hrun
    obtain ⟨rest, d₂, hloop, hpure⟩ := Prog.bind_ok hrest
    cases hpure
    obtain ⟨verdict, hjudge, hsettled, rfl⟩ :=
      recoverOperation_settles engine all hd hops.1 hfirst
    have hothers := ih hsettled.quiescent hdistinct
      (fun other hmem => hsettled.unfinished engine (hnew other hmem) (hops.2 other hmem)) hloop
    exact SettledAll.cons engine hnew hjudge hsettled hothers

end Loop

end Recovery
end XioFlow
