/-
  XioFlow.Supervisor.SingleExit

  An adjudication is one exit for its operation while no second call gets to
  its writes and nothing comes between the three of one call.
-/

import XioFlow.Supervisor.Adjudications
import XioFlow.Domain.Queueing

namespace XioFlow

open Lib Lib.Prog
open ExecutionDomain (Unfenced afterRelease processWaitQueue releaseLocks forgetIdle
  internalReleaseResources_run releaseLocks_effect afterRelease_owner)
open SqliteStore

namespace Supervisor

variable {k : Kernel} {call : AdjudicateCall} {answer : ScanAnswer} {clock : Clock}

/-! ## The event -/

theorem adjudicatedEvent_envelope {domainId : String} (hnamed : domainId ≠ "")
    (op : StoredOperation) (record : AdjudicationRecord) :
    ∃ envelope, (adjudicatedEvent domainId op record).envelope = .ok envelope := by
  have hrecord := AdjudicationRecord.toJs_plain record
  have hidentity : JsValue.plainEntries [("processIdentity",
      JsValue.ofOption ProcessIdentity.toJs op.processIdentity)] = true :=
    JsValue.plainEntries_cons (JsValue.ofOption_plain ProcessIdentity.toJs_plain _) rfl
  have hschema : validSchemaVersion "xio/event/1.0" = true := by decide
  have hname : validEventName "OPERATION_ADJUDICATED" = true := by decide
  exact createEventEnvelope_of_plain hnamed hschema hname rfl
    (JsValue.plainEntries_append hrecord hidentity)

variable {s : SqliteStore} {members : Except KernelError (List Nat)} {isCancelled : Waiter → Bool}

/-- The store takes the event of an adjudication; the row names the operation. -/
theorem recordEvent_adjudicated {domainId : String} (hnamed : domainId ≠ "")
    (hepoch : epochFencing domainId s = .ok ()) (op : StoredOperation)
    (record : AdjudicationRecord) :
    ∃ row, row.type = "OPERATION_ADJUDICATED" ∧ row.operationId = nonEmpty (some op.id) ∧
      (recordEvent (adjudicatedEvent domainId op record)).run s =
        (appendEvent row s, .ok ()) := by
  obtain ⟨envelope, henv⟩ := adjudicatedEvent_envelope hnamed op record
  -- it is neither an event that needs an intent nor the one of a result
  have hother : requiresIntent "OPERATION_ADJUDICATED" = false := by decide
  have hrun : (recordEvent (adjudicatedEvent domainId op record)).run s =
      (appendEvent (eventRow (adjudicatedEvent domainId op record) envelope)
        s, .ok ()) := by
    refine recordEvent_run hepoch (fun _ _ hneeds => ?_) (fun _ _ hneeds => ?_) henv
    · change (requiresIntent "OPERATION_ADJUDICATED" && _) = true at hneeds
      rw [hother] at hneeds
      cases hneeds
    · cases hneeds
  exact ⟨_, (createEventEnvelope_ok henv).2.1, rfl, hrun⟩

/-! ## The result -/

theorem getOperation_setOperationResult {opId : String} {op : StoredOperation}
    (hop : s.getOperation opId = some op) (result : OperationResult) :
    (setOperationResult opId result s).getOperation opId =
      some { op with result := some result } := by
  change (s.db.operations.update opId (resultRow result)
    (resultRow_id result)).get? opId = _
  rw [Table.get?_update, if_pos rfl]
  change (s.getOperation opId).map (resultRow result) = _
  rw [hop]
  rfl

/-! ## The writes of one call -/

/-- The domain of a call between its second write and its third. -/
def written (call : AdjudicateCall) (result : OperationResult) (row : JournalRow)
    (d : ExecutionDomain) : ExecutionDomain :=
  { d with
    store := setOperationResult call.op.id result
      (appendEvent row d.store) }

theorem written_unfenced {d : ExecutionDomain} (h : Unfenced d) (result : OperationResult)
    (row : JournalRow) : Unfenced (written call result row d) := by
  refine ⟨h.notFenced, ?_, h.named⟩
  have hsame : epochFencing d.domainId (written call result row d).store =
      epochFencing d.domainId d.store := epochFencing_congr _ rfl rfl
  exact hsame.trans h.currentEpoch

/-- What a call stores as the result of its operation. -/
def storedResult (call : AdjudicateCall) (members : Except KernelError (List Nat))
    (clock : Clock) (r : IndeterminateResult) : IndeterminateResult :=
  { r with
    adjudication := some (adjudicationRecord call (residualScan call members) clock.now) }

/-- A call that is not contradicted makes all its writes on a domain that takes them. -/
theorem scanAnswered_run {r : IndeterminateResult} (hopen : Unfenced k.domain)
    (hwritable : Writable k call) (hresult : call.op.result = some (.indeterminate r))
    (hclear : contradicted call members = none) (clock : Clock) :
    ∃ row released isCancelled elapsed, row.type = "OPERATION_ADJUDICATED" ∧
      row.operationId = nonEmpty (some call.op.id) ∧
      (scanAnswered call members clock).run k = ({ k with
        domain := (processWaitQueue isCancelled elapsed
          (afterRelease call.op.id call.op.requiredResources released
            (written call (.indeterminate (storedResult call members clock r)) row
              k.domain))).1 }, .ok ()) := by
  obtain ⟨op, hop, hdomain⟩ := hwritable.recorded
  obtain ⟨row, htype, hid, hevent⟩ := recordEvent_adjudicated hopen.named hopen.currentEpoch
    call.op (adjudicationRecord call (residualScan call members) clock.now)
  have hsame : epochFencing k.domain.domainId
      (appendEvent row k.domain.store) =
        epochFencing k.domain.domainId k.domain.store :=
    epochFencing_congr _ rfl rfl
  have hepoch : epochFencing op.domainId
      (appendEvent row k.domain.store) = .ok () := by
    rw [hdomain, hsame]
    exact hopen.currentEpoch
  let k₂ : Kernel :=
    { k with domain := written call (.indeterminate (storedResult call members clock r)) row k.domain }
  let around := k₂.around clock
  have hunfenced : Unfenced k₂.domain := written_unfenced hopen _ row
  obtain ⟨released, -, hrelease⟩ := internalReleaseResources_run hunfenced call.op.id
    call.op.requiredResources around.isCancelled around.elapsed around.now
  refine ⟨row, released, around.isCancelled, around.elapsed, htype, hid, ?_⟩
  have hfirst : (callStore (recordEvent (adjudicatedEvent k.domain.domainId call.op
      (adjudicationRecord call (residualScan call members) clock.now)))).run k =
      ({ k with domain := { k.domain with
        store := appendEvent row k.domain.store } }, .ok ()) := by
    rw [run_callStore, hevent]
  have hsecond : (callStore (updateOperationResult call.op.id
      (.indeterminate (storedResult call members clock r)))).run { k with domain := { k.domain with
        store := appendEvent row k.domain.store } } = (k₂, .ok ()) := by
    rw [run_callStore, updateOperationResult_run (s := appendEvent row k.domain.store) hop hepoch]
    rfl
  have hthird : (release call.op.id call.op.requiredResources clock).run k₂ =
      ({ k₂ with
        domain := (processWaitQueue around.isCancelled around.elapsed
          (afterRelease call.op.id call.op.requiredResources released k₂.domain)).1 }, .ok ()) := by
    have hdomainRun : (onDomain (ExecutionDomain.internalReleaseResources call.op.id
        call.op.requiredResources around.isCancelled around.elapsed around.now)).run k₂ = _ :=
      run_onDomain _ k₂
    rw [hrelease] at hdomainRun
    unfold release
    rw [run_bind_of_ok (run_read _ k₂), run_bind_of_ok hdomainRun]
    rfl
  have hpass : (refuse none).run k = (k, .ok ()) := rfl
  unfold scanAnswered
  rw [hclear, hresult]
  refine (run_bind_of_ok hpass).trans ?_
  refine (run_bind_of_ok (run_read id k)).trans ?_
  refine (run_bind_of_ok hfirst).trans ?_
  exact (run_bind_of_ok hsecond).trans hthird

/-! ## What the writes leave behind -/

variable {elapsed : Waiter → Nat} {w : AdjudicationRun} {ticket : Nat}

/-- With its three writes behind it a call has taken effect as a whole. -/
theorem complete_of_written {r : IndeterminateResult} {row released : JournalRow}
    (hwritable : Writable k call) (htype : row.type = "OPERATION_ADJUDICATED")
    (hid : row.operationId = nonEmpty (some call.op.id)) :
    Complete call answer k.domain.store (processWaitQueue isCancelled elapsed
      (afterRelease call.op.id call.op.requiredResources released
        (written call (.indeterminate (storedResult call answer.members answer.clock r)) row
          k.domain))).1.store := by
  obtain ⟨op, hop, hdomain⟩ := hwritable.recorded
  let d := written call (.indeterminate (storedResult call answer.members answer.clock r)) row k.domain
  rw [ExecutionDomain.processWaitQueue_store]
  obtain ⟨hreleased, -, -, hleases⟩ :=
    releaseLocks_effect call.op.id call.op.requiredResources d
  have hboth := hreleased.trans (ExecutionDomain.released_forgetIdle call.op.id
    (releaseLocks call.op.id call.op.requiredResources d).1)
  obtain ⟨leases, hdb, -, -⟩ := hboth.db
  have hforget : (forgetIdle call.op.id
      (releaseLocks call.op.id call.op.requiredResources d).1).store =
        (releaseLocks call.op.id call.op.requiredResources d).1.store := by
    unfold forgetIdle
    split <;> rfl
  constructor
  · refine ⟨row, htype, hid, ?_⟩
    change _ <+: ((forgetIdle call.op.id
      (releaseLocks call.op.id call.op.requiredResources d).1).store.db.journalEvents.append
        released).rows
    rw [hdb]
    exact List.prefix_append _ _
  · have hstored := getOperation_setOperationResult
      (s := appendEvent row k.domain.store) hop
      (.indeterminate (storedResult call answer.members answer.clock r))
    refine ⟨{ op with
      result := some (.indeterminate (storedResult call answer.members answer.clock r)) },
      storedResult call answer.members answer.clock r, ?_, rfl, rfl⟩
    change (forgetIdle call.op.id
      (releaseLocks call.op.id call.op.requiredResources d).1).store.db.operations.get? _ = _
    rw [hdb]
    exact hstored
  · intro lease hlease hop' hrequired
    change lease ∈ (forgetIdle call.op.id
      (releaseLocks call.op.id call.op.requiredResources d).1).store.db.resourceLeases.rows at hlease
    -- the lease was there before, so the release has seen it
    have hbefore : lease ∈ k.domain.store.db.resourceLeases.rows := by
      obtain ⟨leases', hdb', hsub, -⟩ := hreleased.db
      rw [hforget, hdb'] at hlease
      exact hsub lease hlease
    rw [hforget] at hlease
    refine hleases lease hlease hop' ?_
    unfold ExecutionDomain.Drops
    rw [if_neg (List.ne_nil_of_mem hrequired)]
    refine ⟨hrequired, .inr ?_⟩
    refine List.mem_map.2 ⟨lease, List.mem_filter.2 ⟨?_, by simpa using hop'⟩, rfl⟩
    refine Table.mem_select.2 ⟨hbefore, ?_⟩
    exact decide_eq_true (hwritable.leases lease hbefore hop')

/-- A resource that a release takes away is locked afterwards for a request from the queue only. -/
theorem owner_processWaitQueue {d : ExecutionDomain} {r holder : String}
    (h : (processWaitQueue isCancelled elapsed d).1.getResourceOwner r = some holder) :
    d.getResourceOwner r = some holder ∨
      ∃ item ∈ d.waitQueue, item.operationId = holder ∧ r ∈ item.resources := by
  unfold processWaitQueue at h
  split at h
  · exact .inl h
  · have hscan := ExecutionDomain.scan_scanQueue isCancelled elapsed [] d.waitQueue false d
    rcases (hscan.owner r).2 holder h with hbefore | ⟨g, hg, hgranted, hop, hmem⟩
    · exact .inl hbefore
    · obtain ⟨ahead, behind, hsplit, -, hsub⟩ := hscan.granted_behind g hg hgranted
      refine .inr ⟨g.waiter, hsub.subset ?_, hop, hmem⟩
      rw [hsplit]
      exact List.mem_append_right _ List.mem_cons_self

/-- No holder that the operation stands for keeps a lock of it. -/
theorem not_staysLocked {result : OperationResult} {row released : JournalRow}
    (hservice : ∀ serviceId, HoldsFor w.kernel call.op (serviceLeaseHolder serviceId) →
      ∀ r ∈ call.op.requiredResources,
        w.kernel.domain.getResourceOwner r = some (serviceLeaseHolder serviceId) →
          r ∈ w.kernel.domain.persistedLeases call.op.id) {k' : Kernel}
    (hk' : k'.domain = (processWaitQueue isCancelled elapsed
      (afterRelease call.op.id call.op.requiredResources released
        (written call result row w.kernel.domain))).1) {r : String}
    (hr : r ∈ call.op.requiredResources) {holder : String}
    (hholds : HoldsFor w.kernel call.op holder) : ¬ StaysLocked w.kernel k' r holder := by
  rintro ⟨howner, hqueue⟩
  rw [hk'] at howner
  rcases owner_processWaitQueue howner with hbefore | ⟨item, hitem, hop, hmem⟩
  · rw [afterRelease_owner] at hbefore
    have hlocks := (releaseLocks_effect call.op.id call.op.requiredResources
      (written call result row w.kernel.domain)).2.2.1 r
    by_cases hdrops : ExecutionDomain.Drops (written call result row w.kernel.domain) call.op.id
        call.op.requiredResources r
    · rw [hlocks.1 hdrops] at hbefore
      cases hbefore
    · rw [hlocks.2 hdrops] at hbefore
      apply hdrops
      unfold ExecutionDomain.Drops
      rw [if_neg (List.ne_nil_of_mem hr)]
      refine ⟨hr, ?_⟩
      cases hholds with
      | itself => exact .inl hbefore
      | service serviceId hkind hinstance hlast =>
        exact .inr (hservice serviceId (.service serviceId hkind hinstance hlast) r hr hbefore)
  · rw [ExecutionDomain.afterRelease_waitQueue] at hitem
    exact hqueue ⟨item, hitem, hop, hmem⟩

/-! ## The end of a call -/

theorem ending_returns {last : Kernel → Kernel} {p : KernelM Unit} {k₁ : Kernel}
    (h : p.run k = (k₁, .ok ())) : (ending last p).run k = (last k₁, .ok ()) := by
  unfold ending
  rw [run_tryCatch, run_bind_of_ok h]
  rfl

/-- A call in flight goes on with what it has read. -/
theorem adjudicated_run {k₁ : Kernel} (hcall : k.adjudicateCalls.get? ticket = some call)
    (h : (scanAnswered call members clock).run k = (k₁, .ok ())) :
    (adjudicated ticket members clock).run k = (k₁.endAdjudicateCall ticket, .ok ()) := by
  unfold adjudicated
  refine (run_bind_of_ok (run_read id k)).trans ?_
  simp only [id, hcall]
  exact ending_returns h

/-! ## A refused call -/

section Refused

variable {s : SqliteStore} {e : EventInput} {D : SqliteStore → Prop}
  {Q : Unit → SqliteStore → Prop} {E : KernelError → SqliteStore → Prop}

theorem during_journalChecks (hD : D s) (hQ : Q () s) (hE : ∀ err, E err s) :
    during D (journalChecks e) Q E s := by
  have hchecked : ∀ (b : Bool) (f : SqliteStore → Except KernelError Unit)
      {Q' : Unit → SqliteStore → Prop}, Q' () s → during D (onlyIf b (check f)) Q' E s := by
    intro b f Q' hQ'
    apply during_onlyIf hD
    · intro _
      exact during_check hD (fun _ => hQ') fun err _ => hE err
    · exact fun _ => hQ'
  unfold journalChecks
  cases e.subject with
  | none => exact during_pure hD hQ
  | some => exact during_bind (hchecked _ _ (hchecked _ _ hQ))

/-- The event is refused by the epoch check, or for a domain without a name. -/
theorem during_recordEvent_refused
    (href : (∃ err, epochFencing e.domainId s = .error err) ∨ e.domainId = "")
    (hD : D s) (hE : ∀ err, E err s) : during D (recordEvent e) Q E s := by
  unfold recordEvent recordEventAndTransitionState
  refine during_bind (during_bind (during_check hD (fun hok => ?_) fun err _ => hE err))
  have hunnamed : e.domainId = "" := by
    rcases href with ⟨err, herr⟩ | hunnamed
    · rw [hok] at herr
      cases herr
    · exact hunnamed
  refine during_bind (during_journalChecks hD ?_ hE)
  unfold insertEvent
  cases henv : e.envelope with
  | error err => exact during_throw hD (hE err)
  | ok => exact absurd hunnamed (createEventEnvelope_domainId henv)

end Refused

/-- A refused call leaves the domain alone at every point, and throws. -/
theorem during_refused (hcall : k.adjudicateCalls.get? ticket = some call)
    (href : Refused k call answer) :
    during (fun k' => k'.domain = k.domain) (adjudicated ticket answer.members answer.clock)
      (fun _ _ => False) (fun _ k' => k'.domain = k.domain) k := by
  have hscan : ∀ E : KernelError → Kernel → Prop, (∀ e, E e k) →
      during (fun k' => k'.domain = k.domain) (scanAnswered call answer.members answer.clock)
        (fun _ _ => False) E k := by
    intro E hE
    unfold scanAnswered
    cases hcontra : contradicted call answer.members with
    | some e => exact during_bind (during_throw rfl (hE e))
    | none =>
      refine during_bind (during_pure rfl ?_)
      refine during_bind (during_read rfl ?_)
      refine during_bind (during_within (during_within ?_))
      apply during_recordEvent_refused
      · rcases href with hcontra' | hstore
        · exact absurd hcontra hcontra'
        · exact hstore
      · rfl
      · exact hE
  unfold adjudicated
  refine during_bind (during_read rfl ?_)
  simp only [id, hcall]
  apply during_tryCatch
  apply during_bind
  refine (hscan _ fun e => ?_).mono (fun _ _ _ h => h.elim) fun _ _ _ h => h
  exact during_bind (during_modify rfl rfl (during_throw rfl rfl))

/-! ## A call that is cut off -/

/-- Before the event nothing has changed. -/
theorem cut_before_event {n : Nat} (hcall : k.adjudicateCalls.get? ticket = some call)
    (hclear : contradicted call members = none) (hn : n ≤ blocksBeforeEvent) :
    (cut n (adjudicated ticket members clock) k).domain = k.domain := by
  have hfound : ∀ n, cut (n + 1) (adjudicated ticket members clock) k =
      cut n (ending (Kernel.endAdjudicateCall ticket) (scanAnswered call members clock)) k := by
    intro n
    unfold adjudicated
    change cut (n + 1) (.step (fun s => .ok (s, id s)) _) k = _
    rw [cut]
    simp only [id, Prog.bind, hcall]
  -- the read of the domain, then the check of the epoch
  obtain ⟨rest, hread, β, b, after, hcheck, hb⟩ : ∃ rest : Kernel → KernelM Unit,
      (do scanAnswered call members clock; Prog.modify (Kernel.endAdjudicateCall ticket)) =
        .step (fun s => .ok (s, id s)) rest ∧
      ∃ (β : Type) (b : Kernel → Except KernelError (Kernel × β)) (after : β → KernelM Unit),
        rest k = .step b after ∧ ∀ k' x, b k = .ok (k', x) → k' = k := by
    unfold scanAnswered
    rw [hclear]
    refine ⟨_, rfl, _, _, _, rfl, fun k' x h => ?_⟩
    simp only [Prog.checkBlock] at h
    cases hepoch : epochFencing (adjudicatedEvent k.domain.domainId call.op
        (adjudicationRecord call (residualScan call members) clock.now)).domainId
          (storePart.get (domainPart.get k)) with
    | error =>
      rw [hepoch] at h
      cases h
    | ok =>
      rw [hepoch] at h
      cases h
      rfl
  have hnext : ∀ n, cut (n + 2) (adjudicated ticket members clock) k =
      cut n (MonadExcept.tryCatch (.step b after) fun e => do
        Prog.modify (Kernel.endAdjudicateCall ticket)
        MonadExcept.throw e) k := by
    intro n
    rw [hfound, ending, hread, cut_tryCatch_step rfl]
    change cut n (MonadExcept.tryCatch (rest k) _) k = _
    rw [hcheck]
  have hpoints : n = 0 ∨ n = 1 ∨ n = 2 ∨ n = 3 := by
    unfold blocksBeforeEvent at hn
    omega
  rcases hpoints with rfl | rfl | rfl | rfl
  · rw [cut_zero]
  · rw [hfound, cut_zero]
  · rw [hnext, cut_zero]
  · rw [hnext]
    cases hblock : b k with
    | ok r =>
      obtain ⟨k', x⟩ := r
      rw [cut_tryCatch_step hblock, cut_zero, hb k' x hblock]
    | error => rw [cut_tryCatch_error hblock, cut_zero]

/-! ## One step -/

/-- What the calls in flight have read. -/
def CallsRead (k : Kernel) : Prop :=
  ∀ ticket call, k.adjudicateCalls.get? ticket = some call →
    ∃ r, call.op.result = some (.indeterminate r)

theorem afterScan_dies {n : Nat} (h : answer.dies = some n) :
    k.afterScan ticket answer =
      ((cut n (adjudicated ticket answer.members answer.clock) k).died, false) := by
  rw [Kernel.afterScan, h]

theorem afterScan_runs (h : answer.dies = none) :
    k.afterScan ticket answer = (((adjudicated ticket answer.members answer.clock).run k).1,
      ((adjudicated ticket answer.members answer.clock).run k).2.toBool) := by
  rw [Kernel.afterScan, h]

/-- A confirmed stop that is not contradicted was found stopped, as far as anybody looked. -/
theorem stopped_of_clear (hclear : contradicted call members = none)
    (hverdict : call.options.verdict = .confirmedStopped) :
    call.residualPids = [] ∧ members = .ok [] := by
  unfold contradicted at hclear
  rw [if_neg (not_not.2 hverdict)] at hclear
  cases members with
  | error => cases hclear
  | ok pids =>
    simp only at hclear
    have hnone : residualScan call (.ok pids) = [] := by
      cases hscan : residualScan call (.ok pids) with
      | nil => rfl
      | cons =>
        rw [hscan] at hclear
        cases hclear
    have hempty : call.residualPids ++ pids = [] := by
      rw [List.eq_nil_iff_forall_not_mem]
      intro pid hpid
      have hmem : pid ∈ residualScan call (.ok pids) := List.mem_eraseDups.2 hpid
      rw [hnone] at hmem
      cases hmem
    obtain ⟨hpid, rfl⟩ := List.append_eq_nil_iff.1 hempty
    exact ⟨hpid, rfl⟩

/-- A refused call is an exit that was not taken. -/
theorem exit_of_refused (hcall : w.kernel.adjudicateCalls.get? ticket = some call)
    (href : Refused w.kernel call answer) :
    Exit w call answer (w.kernel.afterScan ticket answer).1
      (w.kernel.afterScan ticket answer).2 := by
  have hduring := during_refused hcall href
  have hafter : (w.kernel.afterScan ticket answer).2 = false ∧
      (w.kernel.afterScan ticket answer).1.domain = w.kernel.domain := by
    cases hdies : answer.dies with
    | some n =>
      rw [afterScan_dies hdies]
      exact ⟨rfl, cut_of_during hduring n⟩
    | none =>
      rw [afterScan_runs hdies]
      have hwp := wp_of_during hduring
      unfold Prog.wp at hwp
      rcases hrun : (adjudicated ticket answer.members answer.clock).run w.kernel with ⟨k', e | u⟩
      · rw [hrun] at hwp
        exact ⟨rfl, hwp⟩
      · rw [hrun] at hwp
        exact hwp.elim
  obtain ⟨hreturned, hdomain⟩ := hafter
  rw [hreturned]
  exact ⟨fun _ => ⟨rfl, hdomain⟩, .inl (by rw [hdomain]), nofun, nofun⟩

/-- An orderly call that is not refused takes effect as a whole, unless it dies before. -/
theorem exit_of_orderly (hread : CallsRead w.kernel)
    (hcall : w.kernel.adjudicateCalls.get? ticket = some call)
    (horderly : Orderly w ticket call answer) (hpasses : ¬ Refused w.kernel call answer) :
    Exit w call answer (w.kernel.afterScan ticket answer).1
      (w.kernel.afterScan ticket answer).2 := by
  obtain ⟨hcontra, hstore⟩ := not_or.1 hpasses
  obtain ⟨hepoch, hnamed⟩ := not_or.1 hstore
  have hclear : contradicted call answer.members = none := not_not.1 hcontra
  have hopen : Unfenced w.kernel.domain := by
    refine ⟨horderly.writable.notFenced, ?_, hnamed⟩
    cases h : epochFencing w.kernel.domain.domainId w.kernel.domain.store with
    | ok => rfl
    | error e => exact absurd ⟨e, h⟩ hepoch
  obtain ⟨r₀, hresult⟩ := hread ticket call hcall
  obtain ⟨row, released, isCancelled, elapsed, htype, hid, hscan⟩ :=
    scanAnswered_run hopen horderly.writable hresult hclear answer.clock
  have hrun := adjudicated_run hcall hscan
  have hcomplete : Complete call answer w.kernel.domain.store
      ((adjudicated ticket answer.members answer.clock).run w.kernel).1.domain.store := by
    rw [hrun]
    exact complete_of_written horderly.writable htype hid
  cases hdies : answer.dies with
  | some n =>
    rw [afterScan_dies hdies]
    refine ⟨fun halready => absurd halready horderly.fresh, ?_, nofun, nofun⟩
    rcases horderly.whole n hdies with hearly | hlate
    · left
      change (cut n (adjudicated ticket answer.members answer.clock) w.kernel).domain.store = _
      rw [cut_before_event hcall hclear hearly]
    · right
      change Complete call answer _
        (cut n (adjudicated ticket answer.members answer.clock) w.kernel).domain.store
      rw [cut_of_length_le hlate]
      exact hcomplete
  | none =>
    rw [afterScan_runs hdies]
    refine ⟨fun halready => absurd halready horderly.fresh, .inr hcomplete, ?_, ?_⟩
    · intro _ hverdict
      obtain ⟨hpid, hmembers⟩ := stopped_of_clear hclear hverdict
      rintro (hpid' | hmembers' | ⟨hpath, hcgroup⟩)
      · exact hpid' hpid
      · exact hmembers' hmembers
      · exact hcgroup (horderly.cgroup hverdict hpath)
    · intro _ r hr holder hholds
      have hdomain : ((adjudicated ticket answer.members answer.clock).run w.kernel).1.domain =
          (processWaitQueue isCancelled elapsed
            (afterRelease call.op.id call.op.requiredResources released
              (written call (.indeterminate (storedResult call answer.members answer.clock r₀)) row
                w.kernel.domain))).1 := by
        rw [hrun]
        rfl
      exact not_staysLocked horderly.service hdomain hr hholds

/-! ## Runs -/

theorem keeps_onDomain_callsRead {α : Type} (p : DomainM α) : Keeps CallsRead (onDomain p) :=
  keeps_within fun _ ht _ _ => wp_state.2 ht

theorem keeps_refuse (o : Option KernelError) : Keeps CallsRead (refuse o) := by
  cases o with
  | none => exact keeps_pure ()
  | some e => exact keeps_throw e

theorem keeps_adjudicate (opId : String) (options : AdjudicateOptions) (alive : Bool) :
    Keeps CallsRead (adjudicate opId options alive) := by
  unfold adjudicate
  refine (keeps_onDomain_callsRead _).bind fun _ => (keeps_read id).bind fun k => ?_
  refine (keeps_onDomain_callsRead _).bind fun _ => ?_
  cases k.domain.store.getOperation opId with
  | none => exact keeps_throw _
  | some op =>
    intro k' hk'
    rw [wp_bind, wp_throwIf]
    refine ⟨fun _ => hk', fun hpasses => ?_⟩
    -- only an operation recorded as indeterminate gets this far
    obtain ⟨-, hindeterminate⟩ := Bool.or_eq_false_iff.1 hpasses
    have hany : (op.result.any fun result => decide (result.status = .indeterminate)) = true := by
      simpa using hindeterminate
    cases hresult : op.result with
    | none =>
      rw [hresult] at hany
      cases hany
    | some result =>
      rw [hresult] at hany
      obtain ⟨r, rfl⟩ := result.status_indeterminate_iff.1 (of_decide_eq_true hany)
      rw [wp_modify]
      intro ticket call hcall
      change (k'.adjudicateCalls.replace _).get? ticket = some call at hcall
      rw [Table.get?_replace] at hcall
      by_cases hticket : k'.nextTicket = ticket
      · rw [if_pos hticket] at hcall
        cases hcall
        exact ⟨r, hresult⟩
      · rw [if_neg hticket] at hcall
        exact hk' ticket call hcall

theorem keeps_resolve (args : ControlResolveArgs) (actor : String) (alive : Bool) :
    Keeps CallsRead (resolve args actor alive) := by
  unfold resolve
  cases operationIdFromLease args.lease with
  | error e => exact keeps_throw e
  | ok opId =>
    refine (keeps_read id).bind fun k => ?_
    cases k.domain.store.getOperation opId with
    | none => exact keeps_throw _
    | some => exact keeps_adjudicate opId _ alive

theorem keeps_adjudicated (ticket : Nat) (members : Except KernelError (List Nat))
    (clock : Clock) : Keeps CallsRead (adjudicated ticket members clock) := by
  have hlast : Keeps CallsRead (modify (Kernel.endAdjudicateCall ticket) : KernelM Unit) :=
    keeps_modify fun k hk ticket' call hcall => by
      change (k.adjudicateCalls.deleteWhere _).get? ticket' = some call at hcall
      rw [Table.get?_deleteWhere] at hcall
      exact hk ticket' call (Option.filter_eq_some_iff.1 hcall).1
  have hscan : ∀ call, Keeps CallsRead (scanAnswered call members clock) := by
    intro call
    have hrelease : ∀ resources, Keeps CallsRead (release call.op.id resources clock) := by
      intro resources
      exact (keeps_read _).bind fun _ => (keeps_onDomain_callsRead _).bind fun _ => keeps_pure ()
    refine (keeps_refuse _).bind fun _ => (keeps_read id).bind fun k => ?_
    refine (keeps_onDomain_callsRead _).bind fun _ => ?_
    cases call.op.result with
    | none => exact (keeps_pure ()).bind fun _ => hrelease _
    | some => exact (keeps_onDomain_callsRead _).bind fun _ => hrelease _
  refine (keeps_read id).bind fun k => ?_
  cases k.adjudicateCalls.get? ticket with
  | none => exact keeps_pure ()
  | some call =>
    refine Keeps.tryCatch ((hscan call).bind fun _ => hlast) fun e => ?_
    exact hlast.bind fun _ => keeps_throw e

theorem callsRead_died (k : Kernel) : CallsRead k.died := fun _ _ hcall => (nomatch hcall)

theorem callsRead_after (hread : CallsRead w.kernel) (e : AdjudicationEvent) :
    CallsRead (w.after e).kernel := by
  cases e with
  | elsewhere => exact hread
  | restart k => exact callsRead_died k
  | adjudicate opId options alive => exact (keeps_adjudicate opId options alive).state hread
  | resolve args actor alive => exact (keeps_resolve args actor alive).state hread
  | adjudicated ticket answer =>
    unfold AdjudicationRun.after
    simp only
    cases w.kernel.adjudicateCalls.get? ticket with
    | none => exact hread
    | some =>
      change CallsRead (w.kernel.afterScan ticket answer).1
      cases hdies : answer.dies with
      | some =>
        rw [afterScan_dies hdies]
        exact callsRead_died _
      | none =>
        rw [afterScan_runs hdies]
        exact (keeps_adjudicated ticket answer.members answer.clock).state hread

theorem stepExit (hread : CallsRead w.kernel) {e : AdjudicationEvent} (h : StepOrderly w e) :
    StepExit w e := by
  cases e with
  | adjudicated ticket answer =>
    intro call hcall
    by_cases href : Refused w.kernel call answer
    · exact exit_of_refused hcall href
    · exact exit_of_orderly hread hcall ((h call hcall).resolve_left href) href
  | elsewhere | restart | adjudicate | resolve => trivial

theorem nodup_after {e : AdjudicationEvent} (h : StepExit w e) (hw : w.succeeded.Nodup) :
    (w.after e).succeeded.Nodup := by
  cases e with
  | adjudicated ticket =>
    unfold AdjudicationRun.after
    simp only
    cases hcall : w.kernel.adjudicateCalls.get? ticket with
    | none => exact hw
    | some call =>
      simp only
      split
      · rename_i hreturned
        have hnew : call.op.id ∉ w.succeeded := by
          intro hmem
          obtain ⟨hfalse, -⟩ := (h call hcall).once (.inl hmem)
          rw [hreturned] at hfalse
          cases hfalse
        rw [List.nodup_append]
        refine ⟨hw, List.nodup_singleton _, ?_⟩
        rintro id hid _ hlast rfl
        exact hnew ((List.mem_singleton.1 hlast) ▸ hid)
      · exact hw
  | elsewhere | restart | adjudicate | resolve => exact hw

/-- Where every call is refused or orderly, every call is the exit that it is claimed to be, and
    no operation has two. -/
theorem adjudications_exit (k : Kernel) (events : List AdjudicationEvent)
    (h : Along AdjudicationRun.after StepOrderly (AdjudicationRun.start k) events) :
    Along AdjudicationRun.after StepExit (AdjudicationRun.start k) events ∧
      (afterAll AdjudicationRun.after (AdjudicationRun.start k) events).succeeded.Nodup := by
  constructor
  · apply Along.imp (I := fun w => CallsRead w.kernel) _ (callsRead_died k) h
    exact fun w e hread horderly => ⟨stepExit hread horderly, callsRead_after hread e⟩
  · have hinvariant : CallsRead _ ∧ List.Nodup _ := Along.invariant
      (I := fun w : AdjudicationRun => CallsRead w.kernel ∧ w.succeeded.Nodup)
      (fun w e hw horderly => ⟨callsRead_after hw.1 e, nodup_after (stepExit hw.1 horderly) hw.2⟩)
      ⟨callsRead_died k, List.nodup_nil⟩ h
    exact hinvariant.2

/-! ## One call on a small domain -/

/-- An operation of which nobody knows how it ended, with the adjudication that was stored. -/
def lostOperation (adjudication : Option AdjudicationRecord) : StoredOperation where
  toOperation := { Operation.sample "op" ["port:1"] with
    status := .done
    result := some (.indeterminate {
      durationMs := 1, completedAt := 2, reason := "r", recoveryGuidance := "g", adjudication }) }
  domainId := "d"

def lostKernel (adjudication : Option AdjudicationRecord) : Kernel where
  domain := {
    domainId := "d"
    store := {
      db := { Database.empty with operations := ⟨[lostOperation adjudication], by simp⟩ }
      currentEpoch := none }
    epoch := 1 }

def abandoning : AdjudicateOptions where
  verdict := .abandonWithResiduals
  actor := "a"

def lostCall (adjudication : Option AdjudicationRecord) : AdjudicateCall where
  ticket := 0
  options := abandoning
  op := lostOperation adjudication
  residualPids := []

def nobodyLeft : ScanAnswer where
  members := .ok []
  clock := ⟨3, fun _ => 0⟩

section Small

variable (adjudication : Option AdjudicationRecord)

theorem lostKernel_unfenced : Unfenced (lostKernel adjudication).domain := by
  have hnamed : "d" ≠ "" := by decide
  exact ⟨rfl, rfl, hnamed⟩

/-- The kernel with the call in flight. -/
def lostCallKernel : Kernel :=
  { (lostKernel adjudication).tick with
    adjudicateCalls := (lostKernel adjudication).adjudicateCalls.replace (lostCall adjudication) }

theorem lostCallKernel_get? :
    (lostCallKernel adjudication).adjudicateCalls.get? 0 = some (lostCall adjudication) := rfl

theorem lostCallKernel_writable :
    Writable (lostCallKernel adjudication) (lostCall adjudication) :=
  ⟨rfl, ⟨lostOperation adjudication, rfl, rfl⟩, fun _ hlease => (nomatch hlease)⟩

/-- The call returns, whatever was stored before. -/
theorem lostCall_returns :
    ((lostCallKernel adjudication).afterScan 0 nobodyLeft).2 = true := by
  obtain ⟨row, released, isCancelled, elapsed, -, -, hscan⟩ :=
    scanAnswered_run (k := lostCallKernel adjudication) (lostKernel_unfenced adjudication)
      (lostCallKernel_writable adjudication) rfl (rfl : contradicted _ nobodyLeft.members = none)
      nobodyLeft.clock
  rw [afterScan_runs rfl, adjudicated_run (lostCallKernel_get? adjudication) hscan]
  rfl

end Small

/-- The first adjudication of an operation, and what it is held to. -/
theorem firstAdjudication_exit :
    Along AdjudicationRun.after StepExit (AdjudicationRun.start (lostKernel none))
        [.adjudicate "op" abandoning false, .adjudicated 0 nobodyLeft] ∧
      (afterAll AdjudicationRun.after (AdjudicationRun.start (lostKernel none))
        [.adjudicate "op" abandoning false, .adjudicated 0 nobodyLeft]).succeeded.Nodup := by
  refine adjudications_exit (lostKernel none) _ ⟨trivial, ?_, trivial⟩
  intro call hcall
  cases hcall
  right
  constructor
  · rintro (hmem | ⟨op, r, record, hop, hresult, hrecord⟩)
    · cases hmem
    · cases hop
      cases hresult
      cases hrecord
  · exact lostCallKernel_writable none
  · exact nofun
  · exact nofun
  · intro serviceId _ r _ howner
    cases howner

/-- A second adjudication of the same operation goes through like the first. -/
theorem secondAdjudication_returns :
    let record : AdjudicationRecord :=
      { operationId := "op", verdict := .abandonWithResiduals, actor := "a", decidedAt := 2 }
    ¬ Along AdjudicationRun.after StepExit (AdjudicationRun.start (lostKernel (some record)))
      [.adjudicate "op" abandoning false, .adjudicated 0 nobodyLeft] := by
  intro record hall
  have hsecond := hall.2.1
  have hexit := hsecond (lostCall (some record)) (lostCallKernel_get? (some record))
  have hreturned : ((lostCallKernel (some record)).afterScan 0 nobodyLeft).2 = false :=
    (hexit.once (.inr ⟨lostOperation (some record), _, record, rfl, rfl, rfl⟩)).1
  rw [lostCall_returns] at hreturned
  cases hreturned

end Supervisor
end XioFlow
