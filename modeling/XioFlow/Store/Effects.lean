/-
  XioFlow.Store.Effects

  What each writing method of the store can do, said once: a call that
  returns had all its checks pass and made exactly one change, and a call
  that throws changed nothing.  Proofs about the store go through these
  lemmas and never unfold a method.
-/

import XioFlow.Store.Sqlite

namespace XioFlow

open Lib Lib.Prog
open JsValue (ofOption)

namespace SqliteStore

theorem nonEmpty_some_eq {value value' : String} (h : nonEmpty (some value) = some value') :
    value ≠ "" ∧ value' = value := by
  unfold nonEmpty at h
  rw [Option.filter_eq_some_iff] at h
  obtain ⟨heq, hne⟩ := h
  cases heq
  exact ⟨by simpa using hne, rfl⟩

/-! ## The fields of a store after a change of one table -/

@[simp] theorem withDb_db (s : SqliteStore) (db : Database) : (s.withDb db).db = db := rfl

section AppendEvent

variable (row : JournalRow) (s : SqliteStore)

@[simp] theorem appendEvent_journalEvents :
    (appendEvent row s).db.journalEvents = s.db.journalEvents.append row := rfl

end AppendEvent

variable {s' : SqliteStore} {domainId : String} {now : Timestamp}

variable {s : SqliteStore} {u : Unit} {opId : String} {e : EventInput} {runId : String}
  {result : OperationResult} {op : StoredOperation}

theorem epochFencing_congr (domainId : String) (howners : s'.db.owners = s.db.owners)
    (hepoch : s'.currentEpoch = s.currentEpoch) :
    epochFencing domainId s' = epochFencing domainId s := by
  unfold epochFencing getOwner
  rw [howners, hepoch]

theorem require_ok {r : Except KernelError Unit} (h : (require r).run s = (s', .ok u)) :
    s' = s ∧ r = .ok () := by
  unfold require at h
  cases r with
  | error => exact (throw_ok h).elim
  | ok => exact ⟨(pure_ok h).1, rfl⟩

theorem readOnly_require (r : Except KernelError Unit) : ReadOnly (require r) := by
  unfold require
  cases r with
  | error e => exact readOnly_throw e
  | ok => exact readOnly_pure ()

theorem readOnly_verifyEpochFencing (domainId : String) :
    ReadOnly (verifyEpochFencing domainId) := readOnly_check _

/-! ## Recording an event -/

/-- What a successful `recordEventAndTransitionState` found and did. -/
structure EventRecorded (e : EventInput) (s s' : SqliteStore) : Prop where
  fenced : epochFencing e.domainId s = .ok ()
  intent : ∀ opId, e.subject = some opId →
    (requiresIntent e.eventName && !e.preIntentCancelled) = true →
    s.db.journalEvents.hasEvent opId "OPERATION_INTENT_REGISTERED" = true
  fresh : ∀ opId, e.subject = some opId →
    (decide (e.eventName = "OPERATION_RESULT_RECORDED") && !e.preIntentCancelled) = true →
    s.db.journalEvents.hasEvent opId "OPERATION_RESULT_RECORDED" = false
  appended : ∃ envelope, e.envelope = .ok envelope ∧ s' = appendEvent (eventRow e envelope) s

theorem intentRecorded_ok_iff {eventName : String} :
    intentRecorded eventName opId s = .ok () ↔
      s.db.journalEvents.hasEvent opId "OPERATION_INTENT_REGISTERED" = true := by
  unfold intentRecorded
  split <;> simp_all

theorem noPriorResultEvent_ok_iff :
    noPriorResultEvent opId s = .ok () ↔
      s.db.journalEvents.hasEvent opId "OPERATION_RESULT_RECORDED" = false := by
  unfold noPriorResultEvent
  split <;> simp_all

theorem readOnly_journalChecks (e : EventInput) : ReadOnly (journalChecks e) := by
  unfold journalChecks
  cases e.subject with
  | none => exact readOnly_pure ()
  | some =>
    refine ReadOnly.bind (readOnly_onlyIf (readOnly_check _)) fun _ => ?_
    exact readOnly_onlyIf (readOnly_check _)

theorem atomic_insertEvent (e : EventInput) : Atomic (insertEvent e) := by
  unfold insertEvent
  cases e.envelope with
  | error err => exact (readOnly_throw err).atomic
  | ok => exact atomic_block _

theorem atomic_recordEventAndTransitionState (e : EventInput) :
    Atomic (recordEventAndTransitionState e) := by
  unfold recordEventAndTransitionState
  refine (readOnly_verifyEpochFencing _).atomic_bind fun _ => ?_
  exact (readOnly_journalChecks e).atomic_bind fun _ => atomic_insertEvent e

theorem atomic_recordEvent (e : EventInput) : Atomic (recordEvent e) :=
  (atomic_recordEventAndTransitionState e).bind_pure fun _ => ()

theorem onlyIf_check_ok {b : Bool} {f : SqliteStore → Except KernelError Unit}
    (h : (onlyIf b (check f)).run s = (s', .ok u)) : s' = s ∧ (b = true → f s = .ok ()) := by
  rcases onlyIf_ok h with ⟨hb, hs⟩ | ⟨_, hrun⟩
  · exact ⟨hs, fun hb' => absurd (hb.symm.trans hb') (by simp)⟩
  · obtain ⟨hs, hf⟩ := check_ok hrun
    exact ⟨hs, fun _ => hf⟩

theorem journalChecks_ok (h : (journalChecks e).run s = (s', .ok u)) :
    s' = s ∧ ∀ opId, e.subject = some opId →
      ((requiresIntent e.eventName && !e.preIntentCancelled) = true →
        s.db.journalEvents.hasEvent opId "OPERATION_INTENT_REGISTERED" = true) ∧
      ((decide (e.eventName = "OPERATION_RESULT_RECORDED") && !e.preIntentCancelled) = true →
        s.db.journalEvents.hasEvent opId "OPERATION_RESULT_RECORDED" = false) := by
  unfold journalChecks at h
  cases hsub : e.subject with
  | none =>
    rw [hsub] at h
    exact ⟨(pure_ok h).1, by simp⟩
  | some =>
    rw [hsub] at h
    obtain ⟨_, s₁, h1, h2⟩ := bind_ok h
    obtain ⟨hs₁, hintent⟩ := onlyIf_check_ok h1
    subst hs₁
    obtain ⟨hs', hfresh⟩ := onlyIf_check_ok h2
    refine ⟨hs', ?_⟩
    intro opId' hsome
    cases hsome
    exact ⟨fun hb => intentRecorded_ok_iff.1 (hintent hb),
      fun hb => noPriorResultEvent_ok_iff.1 (hfresh hb)⟩

theorem recordEventAndTransitionState_ok {n : Nat}
    (h : (recordEventAndTransitionState e).run s = (s', .ok n)) :
    EventRecorded e s s' ∧ n = s'.db.journalEvents.lastSeq := by
  unfold recordEventAndTransitionState at h
  obtain ⟨_, s₁, hfence, hrest⟩ := bind_ok h
  obtain ⟨rfl, hfenced⟩ := check_ok hfence
  obtain ⟨_, s₂, hchecks, hinsert⟩ := bind_ok hrest
  obtain ⟨rfl, hjournal⟩ := journalChecks_ok hchecks
  unfold insertEvent at hinsert
  cases henv : e.envelope with
  | error =>
    rw [henv] at hinsert
    exact (throw_ok hinsert).elim
  | ok envelope =>
    rw [henv] at hinsert
    cases block_ok hinsert
    exact ⟨⟨hfenced, fun opId hsub => (hjournal opId hsub).1,
      fun opId hsub => (hjournal opId hsub).2, envelope, henv, rfl⟩, rfl⟩

theorem recordEvent_ok (h : (recordEvent e).run s = (s', .ok u)) : EventRecorded e s s' := by
  unfold recordEvent at h
  obtain ⟨n, s₁, hrec, hpure⟩ := bind_ok h
  obtain ⟨hs, _⟩ := pure_ok hpure
  subst hs
  exact (recordEventAndTransitionState_ok hrec).1

/-- The event is recorded when every check passes. -/
theorem recordEvent_run {envelope : EventEnvelope} (hfenced : epochFencing e.domainId s = .ok ())
    (hintent : ∀ opId, e.subject = some opId →
      (requiresIntent e.eventName && !e.preIntentCancelled) = true →
      s.db.journalEvents.hasEvent opId "OPERATION_INTENT_REGISTERED" = true)
    (hfresh : ∀ opId, e.subject = some opId →
      (decide (e.eventName = "OPERATION_RESULT_RECORDED") && !e.preIntentCancelled) = true →
      s.db.journalEvents.hasEvent opId "OPERATION_RESULT_RECORDED" = false)
    (henv : e.envelope = .ok envelope) :
    (recordEvent e).run s = (appendEvent (eventRow e envelope) s, .ok ()) := by
  have hpass : ∀ (b : Bool) (f : SqliteStore → Except KernelError Unit),
      (b = true → f s = .ok ()) → (onlyIf b (check f)).run s = (s, .ok ()) := by
    intro b f hf
    cases b with
    | false => rfl
    | true =>
      unfold onlyIf
      rw [if_pos rfl, run_check, hf rfl]
  have hchecks : (journalChecks e).run s = (s, .ok ()) := by
    unfold journalChecks
    cases hsub : e.subject with
    | none => rfl
    | some opId =>
      simp only
      rw [run_bind, hpass _ _ fun hb => intentRecorded_ok_iff.2 (hintent opId hsub hb)]
      exact hpass _ _ fun hb => noPriorResultEvent_ok_iff.2 (hfresh opId hsub hb)
  have hinsert : (insertEvent e).run s =
      (appendEvent (eventRow e envelope) s, .ok (s.db.journalEvents.lastSeq + 1)) := by
    unfold insertEvent
    rw [henv]
    rfl
  unfold recordEvent recordEventAndTransitionState verifyEpochFencing
  simp only [run_bind, run_check, hfenced, hchecks, hinsert, run_pure]

/-- What appending the event does, recording it does: the checks before it only read. -/
theorem blocks_recordEventAndTransitionState {R : SqliteStore → SqliteStore → Prop}
    (hrefl : ∀ s, R s s)
    (happend : ∀ s envelope, e.envelope = .ok envelope → R s (appendEvent (eventRow e envelope) s)) :
    Blocks R (recordEventAndTransitionState e) := by
  unfold recordEventAndTransitionState
  refine (blocks_check hrefl _).bind fun _ => Blocks.bind ?_ fun _ => ?_
  · unfold journalChecks
    cases e.subject with
    | none => exact blocks_pure ()
    | some =>
      exact (blocks_onlyIf (blocks_check hrefl _)).bind fun _ =>
        blocks_onlyIf (blocks_check hrefl _)
  · unfold insertEvent
    cases henv : e.envelope with
    | error err => exact blocks_throw err
    | ok envelope =>
      refine blocks_block fun s s' n heq => ?_
      cases heq
      exact happend s envelope henv

/-- A recorded event touches no table but the journal. -/
theorem EventRecorded.frame (h : EventRecorded e s s') : ∃ row, s' = appendEvent row s := by
  obtain ⟨envelope, _, rfl⟩ := h.appended
  exact ⟨_, rfl⟩

theorem EventRecorded.getOperation_eq (h : EventRecorded e s s') (opId : String) :
    s'.getOperation opId = s.getOperation opId := by
  obtain ⟨row, rfl⟩ := h.frame
  rfl

theorem EventRecorded.getRun_eq (h : EventRecorded e s s') (runId : String) :
    s'.getRun runId = s.getRun runId := by
  obtain ⟨row, rfl⟩ := h.frame
  rfl

theorem getRun_congr (hruns : s'.db.runs = s.db.runs) (runId : String) :
    s'.getRun runId = s.getRun runId := by
  unfold getRun
  rw [hruns]

/-! ## Acquiring and releasing the lease -/

/-- The store after a granted lease. -/
def granted (row : OwnerRecord) (s : SqliteStore) : SqliteStore :=
  { s.withDb { s.db with owners := s.db.owners.replace row } with currentEpoch := some row.epoch }

theorem acquireOwnerLease_run (domainId ownerId hostname : String) (ttlMs : Nat) (force : Bool)
    (now : Timestamp) (kill : Nat → KillOutcome) (s : SqliteStore) :
    (acquireOwnerLease domainId ownerId hostname ttlMs force now kill).run s =
      match nextOwner (s.getOwner domainId) domainId ownerId hostname ttlMs force now kill with
      | .ok row => (granted row s, .ok row)
      | .error e => (s, .error e) := by
  unfold acquireOwnerLease
  rw [run_transaction, run_bind, run_read]
  simp only
  cases nextOwner (s.getOwner domainId) domainId ownerId hostname ttlMs force now kill with
  | error => rfl
  | ok => rfl

/-- A granted row is the owner's own and its epoch is at least the old one. -/
theorem nextOwner_ok {existing : Option OwnerRecord} {ownerId hostname : String} {ttlMs : Nat}
    {force : Bool} {kill : Nat → KillOutcome} {row : OwnerRecord}
    (h : nextOwner existing domainId ownerId hostname ttlMs force now kill = .ok row) :
    row.domainId = domainId ∧ (existing = none → row.epoch = 1) ∧
      ∀ old, existing = some old → old.epoch ≤ row.epoch := by
  unfold nextOwner at h
  cases existing with
  | none =>
    cases h
    exact ⟨rfl, fun _ => rfl, by simp⟩
  | some old =>
    simp only at h
    split at h
    · cases h
      refine ⟨rfl, by simp, ?_⟩
      rintro _ ⟨⟩
      exact Int.le_refl _
    split at h
    · cases h
      refine ⟨rfl, by simp, ?_⟩
      rintro _ ⟨⟩
      show old.epoch ≤ old.epoch + 1
      omega
    · cases h

theorem row_granted {row : OwnerRecord} (hdomain : row.domainId = domainId) (s : SqliteStore) :
    (granted row s).db.owners.get? domainId = some row := by
  show (s.db.owners.replace row).get? domainId = some row
  rw [Table.get?_replace, if_pos hdomain]

/-- A release changes no epoch. -/
theorem row_release (domainId ownerId domainId' : String) (s : SqliteStore) :
    (((releaseOwnerLease domainId ownerId).run s).1.db.owners.get? domainId').map
        OwnerRecord.epoch =
      (s.db.owners.get? domainId').map OwnerRecord.epoch := by
  show ((s.db.owners.updateWhere
    (fun row => row.domainId = domainId && row.ownerId = ownerId) expiredRow
    expiredRow_domainId).get? domainId').map OwnerRecord.epoch = _
  rw [Table.get?_updateWhere, Option.map_map]
  congr 1
  funext row
  simp only [Function.comp]
  split <;> rfl

/-- Acquiring one domain leaves the rows of the others alone. -/
theorem row_acquire_other {ownerId hostname : String} {ttlMs : Nat} {force : Bool}
    {kill : Nat → KillOutcome} {domainId' : String} (hne : domainId' ≠ domainId) (s : SqliteStore) :
    ((acquireOwnerLease domainId ownerId hostname ttlMs force now kill).run s).1.db.owners.get?
        domainId' = s.db.owners.get? domainId' := by
  rw [acquireOwnerLease_run]
  cases hnext : nextOwner (s.getOwner domainId) domainId ownerId hostname ttlMs force now kill with
  | error => rfl
  | ok row =>
    show (s.db.owners.replace row).get? domainId' = _
    rw [Table.get?_replace, if_neg]
    intro heq
    exact hne (heq.symm.trans (nextOwner_ok hnext).1)

/-! ## Later states of the journal -/

/-- Journal rows are only ever appended. -/
def Later (s later : SqliteStore) : Prop :=
  ∃ rows, later.db.journalEvents.rows = s.db.journalEvents.rows ++ rows

theorem Later.refl (s : SqliteStore) : Later s s := ⟨[], (List.append_nil _).symm⟩

theorem Later.trans {a b c : SqliteStore} (hab : Later a b) (hbc : Later b c) : Later a c := by
  obtain ⟨rows, hrows⟩ := hab
  obtain ⟨rows', hrows'⟩ := hbc
  exact ⟨rows ++ rows', by rw [hrows', hrows, List.append_assoc]⟩

/-- The row of an appended event is the only one with its number. -/
theorem eq_of_seq_eq {row other : JournalRow}
    (hmem : other ∈ (appendEvent row s).db.journalEvents.rows)
    (hseq : other.seq = s.db.journalEvents.lastSeq + 1) :
    other = { row with seq := s.db.journalEvents.lastSeq + 1 } := by
  rw [appendEvent_journalEvents, Journal.append_rows, List.mem_append] at hmem
  rcases hmem with hold | hnew
  · have hle := s.db.journalEvents.bounded other hold
    omega
  · exact List.mem_singleton.1 hnew

/-! ## What the statements do to one operation -/

theorem getOperation_setOperationStatus (opId : String) (status : OperationStatus)
    (identity : Option ProcessIdentity) (outputRef : Option String) (now : Timestamp)
    (s : SqliteStore) (opId' : String) :
    (setOperationStatus opId status identity outputRef now s).getOperation opId' =
      if opId' = opId then (s.getOperation opId').map (statusRow status identity outputRef now)
      else s.getOperation opId' :=
  Table.get?_update _ _ _ (statusRow_id _ _ _ _) _

theorem getOperation_finishOperation (opId : String) (result : OperationResult)
    (s : SqliteStore) (opId' : String) :
    (finishOperation opId result s).getOperation opId' =
      if opId' = opId then (s.getOperation opId').map (finishedRow result)
      else s.getOperation opId' :=
  Table.get?_update _ _ _ (finishedRow_id _) _

theorem getOperation_settleLeases (opId : String) (result : OperationResult)
    (releaseResources : Bool) (s : SqliteStore) (opId' : String) :
    (settleLeases opId result releaseResources s).getOperation opId' = s.getOperation opId' := by
  unfold settleLeases
  split <;> rfl

section SettleLeases

variable (opId : String) (result : OperationResult) (releaseResources : Bool) (s : SqliteStore)

theorem settleLeases_owners :
    (settleLeases opId result releaseResources s).db.owners = s.db.owners := by
  unfold settleLeases
  split <;> rfl

theorem settleLeases_runs :
    (settleLeases opId result releaseResources s).db.runs = s.db.runs := by
  unfold settleLeases
  split <;> rfl

theorem settleLeases_journalEvents :
    (settleLeases opId result releaseResources s).db.journalEvents = s.db.journalEvents := by
  unfold settleLeases
  split <;> rfl

theorem settleLeases_currentEpoch :
    (settleLeases opId result releaseResources s).currentEpoch = s.currentEpoch := by
  unfold settleLeases
  split <;> rfl

end SettleLeases

theorem getRun_setRunStatus (runId : String) (status : KernelRunStatus)
    (reason : Option TerminationReason) (endedAt : Option Timestamp) (s : SqliteStore)
    (runId' : String) :
    (setRunStatus runId status reason endedAt s).getRun runId' =
      if runId' = runId then (s.getRun runId').map (runStatusRow status reason endedAt)
      else s.getRun runId' :=
  Table.get?_update _ _ _ (runStatusRow_id _ _ _) _

/-! ## Runs -/

theorem saveRun_ok [Crypto] {run : Run} (h : (saveRun run).run s = (s', .ok u)) :
    epochFencing run.domainId s = .ok () ∧ keepsTerminal run (s.getRun run.id) = .ok () ∧
      upsertRun run s = .ok s' := by
  unfold saveRun at h
  obtain ⟨_, s₁, hfence, h1⟩ := bind_ok h
  obtain ⟨rfl, hfenced⟩ := check_ok hfence
  obtain ⟨existing, s₂, hread, h2⟩ := bind_ok h1
  obtain ⟨rfl, rfl⟩ := read_ok hread
  obtain ⟨_, s₃, hkeep, h3⟩ := bind_ok h2
  obtain ⟨rfl, hkeeps⟩ := require_ok hkeep
  obtain ⟨_, s₄, hsnap, hexec⟩ := bind_ok h3
  obtain ⟨rfl, _⟩ := require_ok hsnap
  exact ⟨hfenced, hkeeps, exec_ok hexec⟩

theorem atomic_saveRun [Crypto] (run : Run) : Atomic (saveRun run) := by
  unfold saveRun
  refine (readOnly_verifyEpochFencing _).atomic_bind fun _ => ?_
  refine (readOnly_read _).atomic_bind fun _ => ?_
  refine (readOnly_require _).atomic_bind fun _ => ?_
  exact (readOnly_require _).atomic_bind fun _ => atomic_exec _

/-- An unknown run and a finalized one are left alone; any other gets the status and an event. -/
theorem updateRunStatus_ok {status : KernelRunStatus} {reason : Option TerminationReason}
    {endedAt : Option Timestamp}
    (h : (updateRunStatus runId status reason endedAt now).run s = (s', .ok u)) :
    (s.getRun runId = none ∧ s' = s) ∨
      ∃ run, s.getRun runId = some run ∧ epochFencing run.domainId s = .ok () ∧
        ((run.status.terminal = true ∧ run.status = status ∧ s' = s) ∨
          (run.status.terminal = false ∧
            EventRecorded (runStatusEvent run status reason endedAt now)
              (setRunStatus runId status reason endedAt s) s')) := by
  unfold updateRunStatus at h
  obtain ⟨run, s₁, hread, h1⟩ := bind_ok (transaction_ok h)
  obtain ⟨rfl, rfl⟩ := read_ok hread
  cases hrun : s₁.getRun runId with
  | none =>
    rw [hrun] at h1
    exact .inl ⟨rfl, (pure_ok h1).1⟩
  | some run =>
    rw [hrun] at h1
    obtain ⟨_, s₂, hfence, h2⟩ := bind_ok h1
    obtain ⟨rfl, hfenced⟩ := check_ok hfence
    refine .inr ⟨run, rfl, hfenced, ?_⟩
    cases hterm : run.status.terminal with
    | true =>
      simp only [hterm, if_true] at h2
      obtain ⟨hs, heq⟩ := throwIf_ok h2
      exact .inl ⟨rfl, by simpa using heq, hs⟩
    | false =>
      simp only [hterm, Bool.false_eq_true, if_false] at h2
      obtain ⟨_, s₃, hset, hevent⟩ := bind_ok h2
      have hs₃ := modify_ok hset
      subst hs₃
      exact .inr ⟨rfl, recordEvent_ok hevent⟩

theorem runStatusEvent_envelope {run : Run} (hnamed : run.domainId ≠ "")
    (status : KernelRunStatus) (reason : Option TerminationReason) (endedAt : Option Timestamp)
    (now : Timestamp) :
    ∃ envelope, (runStatusEvent run status reason endedAt now).envelope = .ok envelope := by
  have hplain : JsValue.plainEntries [("status", .str status.text),
      ("terminationReason", JsValue.ofOption (fun r => .str r.text) reason),
      ("endedAt", JsValue.ofOption JsValue.ofTime endedAt)] = true := by
    refine JsValue.plainEntries_cons (.inr rfl) ?_
    refine JsValue.plainEntries_cons (JsValue.ofOption_plain (fun _ => rfl) _) ?_
    exact JsValue.plainEntries_cons (JsValue.ofOption_plain (fun _ => rfl) _) rfl
  have hschema : validSchemaVersion "xio/event/1.0" = true := by decide
  have hname : validEventName "RUN_STATUS_TRANSITION" = true := by decide
  exact createEventEnvelope_of_plain hnamed hschema hname rfl hplain

/-- An open run takes any status. -/
theorem updateRunStatus_of_open {run : Run} (hrun : s.getRun runId = some run)
    (hopen : run.status.terminal = false) (hfenced : epochFencing run.domainId s = .ok ())
    (hnamed : run.domainId ≠ "") (status : KernelRunStatus) (reason : Option TerminationReason)
    (endedAt : Option Timestamp) (now : Timestamp) :
    ∃ row, row.type = "RUN_STATUS_TRANSITION" ∧
      (updateRunStatus runId status reason endedAt now).run s =
        (appendEvent row (setRunStatus runId status reason endedAt s), .ok ()) := by
  obtain ⟨envelope, henv⟩ := runStatusEvent_envelope hnamed status reason endedAt now
  have hrecord := recordEvent_run (e := runStatusEvent run status reason endedAt now)
    (s := setRunStatus runId status reason endedAt s) hfenced
    (by
      intro opId hsubject _
      cases hsubject)
    (by
      intro opId hsubject _
      cases hsubject)
    henv
  refine ⟨eventRow (runStatusEvent run status reason endedAt now) envelope,
    (createEventEnvelope_ok henv).2.1, ?_⟩
  unfold updateRunStatus verifyEpochFencing
  simp only [run_transaction, run_bind, run_read, hrun, run_check, hfenced, hopen,
    Bool.false_eq_true, if_false, run_modify, hrecord]

/-- A method that begins with a row it has to find, of a domain the store may write to. -/
theorem fencedRow_ok {α ρ : Type} {get : SqliteStore → Option ρ} {domain : ρ → String}
    {rest : Option ρ → StoreM α} {body : ρ → StoreM α} {e : KernelError} {a : α}
    (h : (transaction (read get >>= rest)).run s = (s', .ok a))
    (hnone : rest none = MonadExcept.throw e)
    (hsome : ∀ x, rest (some x) = (verifyEpochFencing (domain x) >>= fun _ => body x)) :
    ∃ x, get s = some x ∧ epochFencing (domain x) s = .ok () ∧ (body x).run s = (s', .ok a) := by
  obtain ⟨found, s₁, hread, h1⟩ := bind_ok (transaction_ok h)
  obtain ⟨rfl, rfl⟩ := read_ok hread
  cases hfound : get s₁ with
  | none =>
    rw [hfound, hnone] at h1
    exact (throw_ok h1).elim
  | some x =>
    rw [hfound, hsome] at h1
    obtain ⟨_, s₂, hfence, h2⟩ := bind_ok h1
    obtain ⟨rfl, hfenced⟩ := check_ok hfence
    exact ⟨x, rfl, hfenced, h2⟩

/-- What the three reports have in common: nothing, or one status update of an open run. -/
def Reported (runId : String) (s s' : SqliteStore) : Prop :=
  s' = s ∨ ∃ status reason now, status.terminal = true ∧
    (∃ run, s.getRun runId = some run ∧ run.status.terminal = false) ∧
    (updateRunStatus runId status reason (some now) now).run s = (s', .ok ())

theorem unlessThrow_ok {b : Bool} {e : KernelError} {p : StoreM Unit}
    (h : (if b = true then throw e else p).run s = (s', .ok u)) :
    b = false ∧ p.run s = (s', .ok u) := by
  cases b with
  | true => exact (throw_ok h).elim
  | false => exact ⟨rfl, h⟩

theorem reportRunSucceeded_ok (h : (reportRunSucceeded runId now).run s = (s', .ok u)) :
    (∃ run, s.getRun runId = some run ∧ (run.status.terminal = true → run.status = .succeeded)) ∧
      Reported runId s s' := by
  unfold reportRunSucceeded at h
  obtain ⟨run, hrun, -, h2⟩ := fencedRow_ok h rfl fun _ => rfl
  by_cases hsucc : run.status = .succeeded
  · rw [if_pos hsucc] at h2
    exact ⟨⟨run, hrun, fun _ => hsucc⟩, .inl (pure_ok h2).1⟩
  rw [if_neg hsucc] at h2
  obtain ⟨hterm, h2⟩ := unlessThrow_ok h2
  refine ⟨⟨run, hrun, fun ht => absurd (hterm.symm.trans ht) (by simp)⟩, .inr ?_⟩
  obtain ⟨ops, s₃, hread, h3⟩ := bind_ok h2
  obtain ⟨rfl, rfl⟩ := read_ok hread
  obtain ⟨events, s₄, hread, h4⟩ := bind_ok h3
  obtain ⟨rfl, rfl⟩ := read_ok hread
  obtain ⟨_, s₅, hcheck, h5⟩ := bind_ok h4
  obtain ⟨rfl, _⟩ := require_ok hcheck
  split at h5
  · exact ⟨_, _, _, rfl, ⟨run, hrun, hterm⟩, h5⟩
  · exact ⟨_, _, _, rfl, ⟨run, hrun, hterm⟩, h5⟩

theorem reportRunFailed_ok {reason : TerminationReason}
    (h : (reportRunFailed runId reason now).run s = (s', .ok u)) :
    (∃ run, s.getRun runId = some run ∧ (run.status.terminal = true → run.status = .failed)) ∧
      Reported runId s s' := by
  unfold reportRunFailed at h
  obtain ⟨run, hrun, -, h2⟩ := fencedRow_ok h rfl fun _ => rfl
  by_cases hfail : run.status = .failed
  · rw [if_pos hfail] at h2
    exact ⟨⟨run, hrun, fun _ => hfail⟩, .inl (pure_ok h2).1⟩
  rw [if_neg hfail] at h2
  obtain ⟨hterm, h2⟩ := unlessThrow_ok h2
  exact ⟨⟨run, hrun, fun ht => absurd (hterm.symm.trans ht) (by simp)⟩,
    .inr ⟨_, _, _, rfl, ⟨run, hrun, hterm⟩, h2⟩⟩

theorem reportRunCancelled_ok {reason : TerminationReason}
    (h : (reportRunCancelled runId reason now).run s = (s', .ok u)) :
    (∃ run, s.getRun runId = some run ∧ run.status.terminal = false) ∧ Reported runId s s' := by
  unfold reportRunCancelled at h
  obtain ⟨run, hrun, -, h2⟩ := fencedRow_ok h rfl fun _ => rfl
  obtain ⟨hterm, h2⟩ := unlessThrow_ok h2
  exact ⟨⟨run, hrun, hterm⟩, .inr ⟨_, _, _, rfl, ⟨run, hrun, hterm⟩, h2⟩⟩

/-! ## Operations -/

theorem insertOperation_ok {row : StoredOperation} (h : insertOperation row s = .ok s') :
    ∃ operations, s.db.operations.insert? row = some operations ∧
      s' = s.withDb { s.db with operations } := by
  unfold insertOperation at h
  split at h
  · cases h
  · rename_i operations hins
    split at h
    · cases h
    · cases h
      exact ⟨operations, hins, rfl⟩

theorem openRun_ok {op : Operation} (h : openRun op domainId s = .ok ()) :
    ∃ run, s.getRun op.runId = some run ∧ run.status.terminal = false := by
  unfold openRun at h
  split at h
  · cases h
  · rename_i run hrun
    split at h
    · cases h
    · rename_i hterm
      exact ⟨run, hrun, by simpa using hterm⟩

/-- The lease that an intent writes for one resource. -/
def intentLease (op : Operation) (domainId : String) (now : Timestamp) (resourceId : String) :
    ResourceLease :=
  { resourceId, operationId := op.id, domainId, acquiredAt := now, budget := op.resourceBudget }

/-- The lease statements add exactly the leases of the listed resources. -/
theorem insertLeases_ok {op : Operation} {resources : List String}
    (h : (insertLeases op domainId now resources).run s = (s', .ok u)) :
    ∃ leases, s' = s.withDb { s.db with resourceLeases := leases } ∧
      ∀ lease, lease ∈ leases.rows ↔ lease ∈ s.db.resourceLeases.rows ∨
        ∃ r ∈ resources, lease = intentLease op domainId now r := by
  induction resources generalizing s with
  | nil =>
    obtain ⟨rfl, _⟩ := pure_ok h
    exact ⟨s'.db.resourceLeases, rfl, by simp⟩
  | cons r resources ih =>
    unfold insertLeases at h
    obtain ⟨_, s₁, hexec, h1⟩ := bind_ok h
    have hins := exec_ok hexec
    unfold insertLease at hins
    split at hins
    · cases hins
    · rename_i leases hleases
      cases hins
      obtain ⟨leases', rfl, hmem⟩ := ih h1
      refine ⟨leases', rfl, ?_⟩
      intro lease
      obtain ⟨hnone, rfl⟩ := Table.insert?_eq_some hleases
      rw [hmem]
      simp only [withDb_db, Table.mem_append_rows, List.mem_cons]
      constructor
      · rintro ((hold | rfl) | ⟨r', hr', rfl⟩)
        · exact .inl hold
        · exact .inr ⟨r, .inl rfl, rfl⟩
        · exact .inr ⟨r', .inr hr', rfl⟩
      · rintro (hold | ⟨r', rfl | hr', rfl⟩)
        · exact .inl (.inl hold)
        · exact .inl (.inr rfl)
        · exact .inr ⟨r', hr', rfl⟩

/-- A registered intent: the row, the leases, the event, in a run that is open. -/
structure IntentRegistered (op : Operation) (domainId : String) (now : Timestamp)
    (s s' : SqliteStore) : Prop where
  fenced : epochFencing domainId s = .ok ()
  openRun : ∃ run, s.getRun op.runId = some run ∧ run.status.terminal = false
  effect : ∃ operations leases,
    s.db.operations.insert? (intentRow op domainId) = some operations ∧
    (∀ lease, lease ∈ leases.rows ↔ lease ∈ s.db.resourceLeases.rows ∨
      ∃ r ∈ op.requiredResources, lease = intentLease op domainId now r) ∧
    EventRecorded (intentEvent op domainId now)
      (s.withDb { s.db with operations, resourceLeases := leases }) s'

theorem registerOperationIntent_ok [Crypto] {op : Operation}
    (h : (registerOperationIntent op domainId now).run s = (s', .ok u)) :
    IntentRegistered op domainId now s s' := by
  unfold registerOperationIntent at h
  obtain ⟨_, s₁, hsnap, h1⟩ := bind_ok h
  obtain ⟨rfl, _⟩ := require_ok hsnap
  obtain ⟨_, s₂, hopen, h2⟩ := bind_ok h1
  obtain ⟨rfl, hrunOk⟩ := check_ok hopen
  obtain ⟨_, s₃, hfence, h3⟩ := bind_ok (transaction_ok h2)
  obtain ⟨rfl, hfenced⟩ := check_ok hfence
  obtain ⟨_, s₄, hinsert, h4⟩ := bind_ok h3
  obtain ⟨operations, hops, rfl⟩ := insertOperation_ok (exec_ok hinsert)
  obtain ⟨_, s₅, hleases, hevent⟩ := bind_ok h4
  obtain ⟨leases, rfl, hmem⟩ := insertLeases_ok hleases
  exact ⟨hfenced, openRun_ok hrunOk, operations, leases, hops, hmem, recordEvent_ok hevent⟩

theorem atomic_registerOperationIntent [Crypto] (op : Operation) (domainId : String)
    (now : Timestamp) : Atomic (registerOperationIntent op domainId now) := by
  unfold registerOperationIntent
  refine (readOnly_require _).atomic_bind fun _ => ?_
  exact (readOnly_check _).atomic_bind fun _ => atomic_transaction _

theorem recordPreIntentCancelledOperation_ok [Crypto] {op : Operation}
    (h : (recordPreIntentCancelledOperation op domainId result).run s = (s', .ok u)) :
    epochFencing domainId s = .ok () ∧
      (∃ run, s.getRun op.runId = some run ∧ run.status.terminal = false) ∧
      ∃ operations,
        s.db.operations.insert? (cancelledRow op domainId result) = some operations ∧
        EventRecorded (preIntentCancelledEvent op domainId result)
          (s.withDb { s.db with operations }) s' := by
  unfold recordPreIntentCancelledOperation at h
  obtain ⟨_, s₁, hsnap, h1⟩ := bind_ok h
  obtain ⟨rfl, _⟩ := require_ok hsnap
  obtain ⟨_, s₂, hopen, h2⟩ := bind_ok h1
  obtain ⟨rfl, hrunOk⟩ := check_ok hopen
  obtain ⟨_, s₃, hfence, h3⟩ := bind_ok (transaction_ok h2)
  obtain ⟨rfl, hfenced⟩ := check_ok hfence
  obtain ⟨existing, s₄, hread, h4⟩ := bind_ok h3
  obtain ⟨rfl, rfl⟩ := read_ok hread
  obtain ⟨_, s₅, hexists, h5⟩ := bind_ok h4
  obtain ⟨rfl, _⟩ := throwIf_ok hexists
  obtain ⟨_, s₆, hinsert, hevent⟩ := bind_ok h5
  obtain ⟨operations, hops, rfl⟩ := insertOperation_ok (exec_ok hinsert)
  exact ⟨hfenced, openRun_ok hrunOk, operations, hops, recordEvent_ok hevent⟩

theorem atomic_recordPreIntentCancelledOperation [Crypto] (op : Operation) (domainId : String)
    (result : OperationResult) :
    Atomic (recordPreIntentCancelledOperation op domainId result) := by
  unfold recordPreIntentCancelledOperation
  refine (readOnly_require _).atomic_bind fun _ => ?_
  exact (readOnly_check _).atomic_bind fun _ => atomic_transaction _

theorem updateOperationStatus_ok {status : OperationStatus} {identity : Option ProcessIdentity}
    {outputRef : Option String}
    (h : (updateOperationStatus opId status identity outputRef now).run s = (s', .ok u)) :
    (s.getOperation opId = none ∧ s' = s) ∨
      ∃ op, s.getOperation opId = some op ∧ epochFencing op.domainId s = .ok () ∧
        EventRecorded (statusTransitionEvent op status identity outputRef now)
          (setOperationStatus opId status identity outputRef now s) s' := by
  unfold updateOperationStatus at h
  obtain ⟨op, s₁, hread, h1⟩ := bind_ok (transaction_ok h)
  obtain ⟨rfl, rfl⟩ := read_ok hread
  cases hop : s₁.getOperation opId with
  | none =>
    rw [hop] at h1
    exact .inl ⟨rfl, (pure_ok h1).1⟩
  | some op =>
    rw [hop] at h1
    obtain ⟨_, s₂, hfence, h2⟩ := bind_ok h1
    obtain ⟨rfl, hfenced⟩ := check_ok hfence
    obtain ⟨_, s₃, hset, hevent⟩ := bind_ok h2
    have hs₃ := modify_ok hset
    subst hs₃
    exact .inr ⟨op, rfl, hfenced, recordEvent_ok hevent⟩

/-- The status is written whenever the journal accepts the event. -/
theorem updateOperationStatus_run {status : OperationStatus} {identity : Option ProcessIdentity}
    {outputRef : Option String} (hop : s.getOperation opId = some op)
    (hfenced : epochFencing op.domainId s = .ok ()) (hdomain : op.domainId ≠ "")
    (hintent : op.id = "" ∨
      s.db.journalEvents.hasEvent op.id "OPERATION_INTENT_REGISTERED" = true) :
    ∃ s', (updateOperationStatus opId status identity outputRef now).run s = (s', .ok ()) := by
  have hplain : JsValue.plainEntries [("status", .str status.text),
      ("processIdentity", ofOption ProcessIdentity.toJs identity),
      ("outputRef", ofOption .str outputRef)] = true := by
    refine JsValue.plainEntries_cons (.inr rfl) ?_
    refine JsValue.plainEntries_cons (JsValue.ofOption_plain ProcessIdentity.toJs_plain _) ?_
    exact JsValue.plainEntries_cons (JsValue.ofOption_plain (fun _ => rfl) _) rfl
  have hschema : validSchemaVersion "xio/event/1.0" = true := by decide
  have hname : validEventName "OPERATION_STATUS_TRANSITION" = true := by decide
  obtain ⟨envelope, henv⟩ : ∃ envelope,
      (statusTransitionEvent op status identity outputRef now).envelope = .ok envelope :=
    createEventEnvelope_of_plain hdomain hschema hname rfl hplain
  have hset : epochFencing op.domainId (setOperationStatus opId status identity outputRef now s) =
      .ok () := hfenced
  have hrecord : (recordEvent (statusTransitionEvent op status identity outputRef now)).run
      (setOperationStatus opId status identity outputRef now s) =
      (appendEvent (eventRow (statusTransitionEvent op status identity outputRef now) envelope)
        (setOperationStatus opId status identity outputRef now s), .ok ()) := by
    refine recordEvent_run hset ?_ ?_ henv
    · intro opId' hsubject _
      obtain ⟨hne, rfl⟩ : op.id ≠ "" ∧ opId' = op.id := nonEmpty_some_eq hsubject
      exact hintent.resolve_left hne
    · intro opId' _ hresult
      exact absurd hresult (by simp [statusTransitionEvent, EventInput.eventName])
  refine ⟨appendEvent (eventRow (statusTransitionEvent op status identity outputRef now) envelope)
    (setOperationStatus opId status identity outputRef now s), ?_⟩
  unfold updateOperationStatus verifyEpochFencing
  simp only [run_transaction, run_bind, run_read, hop, run_check, hfenced, run_modify]
  rw [hrecord]

theorem updateOperationResult_run (hop : s.getOperation opId = some op)
    (hfenced : epochFencing op.domainId s = .ok ()) :
    (updateOperationResult opId result).run s = (setOperationResult opId result s, .ok ()) := by
  unfold updateOperationResult verifyEpochFencing
  simp only [run_transaction, run_bind, run_read, hop, run_check, hfenced, run_modify]

theorem updateRecoveryEvidence_ok {patch : RecoveryPatch}
    (h : (updateRecoveryEvidence opId patch).run s = (s', .ok u)) :
    ∃ op, s.getOperation opId = some op ∧ epochFencing op.domainId s = .ok () ∧
      (s' = s ∨ ∃ evidence, s' = s.withDb { s.db with
        operations := s.db.operations.update opId (evidenceRow evidence) (evidenceRow_id _) }) := by
  unfold updateRecoveryEvidence at h
  obtain ⟨op, hop, hfenced, h2⟩ := fencedRow_ok h rfl fun _ => rfl
  refine ⟨op, hop, hfenced, ?_⟩
  cases hev : op.recoveryEvidence with
  | none =>
    rw [hev] at h2
    exact .inl (pure_ok h2).1
  | some evidence =>
    rw [hev] at h2
    exact .inr ⟨some (patch.mergeInto evidence), modify_ok h2⟩

theorem updateOperationResult_ok (h : (updateOperationResult opId result).run s = (s', .ok u)) :
    ∃ op, s.getOperation opId = some op ∧ epochFencing op.domainId s = .ok () ∧
      s' = setOperationResult opId result s := by
  unfold updateOperationResult at h
  obtain ⟨op, hop, hfenced, hset⟩ := fencedRow_ok h rfl fun _ => rfl
  exact ⟨op, hop, hfenced, modify_ok hset⟩

/-- A recorded result: the operation was not done, had its intent and no result event. -/
structure ResultRecorded (opId : String) (result : OperationResult) (releaseResources : Bool)
    (s s' : SqliteStore) : Prop where
  found : ∃ op, s.getOperation opId = some op ∧ epochFencing op.domainId s = .ok () ∧
    op.status ≠ .done ∧
    s.db.journalEvents.hasEvent opId "OPERATION_INTENT_REGISTERED" = true ∧
    s.db.journalEvents.hasEvent opId "OPERATION_RESULT_RECORDED" = false ∧
    EventRecorded (resultEvent op result releaseResources)
      (settleLeases opId result releaseResources (finishOperation opId result s)) s'

theorem resultRecordable_ok (h : resultRecordable op s = .ok ()) :
    op.status ≠ .done ∧ s.db.journalEvents.hasEvent op.id "OPERATION_INTENT_REGISTERED" = true ∧
      s.db.journalEvents.hasEvent op.id "OPERATION_RESULT_RECORDED" = false := by
  unfold resultRecordable at h
  split at h
  · cases h
  · rename_i hdone
    split at h
    · cases h
    · rename_i hintent
      split at h
      · cases h
      · rename_i hprior
        exact ⟨hdone, by simpa using hintent, by simpa using hprior⟩

theorem getOperation_id (h : s.getOperation opId = some op) : op.id = opId := by
  have hkey := Table.key_of_get? (t := s.db.operations) (k := opId) h
  exact hkey

theorem recordOperationResult_ok {releaseResources : Bool}
    (h : (recordOperationResult opId result releaseResources).run s = (s', .ok u)) :
    ResultRecorded opId result releaseResources s s' := by
  unfold recordOperationResult at h
  obtain ⟨op, hop, hfenced, h2⟩ := fencedRow_ok h rfl fun _ => rfl
  obtain ⟨_, s₃, hcheck, h3⟩ := bind_ok h2
  obtain ⟨rfl, hok⟩ := check_ok hcheck
  obtain ⟨hdone, hintent, hprior⟩ := resultRecordable_ok hok
  obtain ⟨_, s₄, hfinish, h4⟩ := bind_ok h3
  have hs₄ := modify_ok hfinish
  subst hs₄
  obtain ⟨_, s₅, hsettle, hevent⟩ := bind_ok h4
  have hs₅ := modify_ok hsettle
  subst hs₅
  have hid := getOperation_id hop
  rw [hid] at hintent hprior
  exact ⟨op, hop, hfenced, hdone, hintent, hprior, recordEvent_ok hevent⟩

theorem atomic_recordOperationResult (opId : String) (result : OperationResult)
    (releaseResources : Bool) : Atomic (recordOperationResult opId result releaseResources) :=
  atomic_transaction _

/-- The store is ready to take the result of an operation. -/
structure Recordable (opId : String) (s : SqliteStore) (op : StoredOperation) : Prop where
  found : s.getOperation opId = some op
  fenced : epochFencing op.domainId s = .ok ()
  undone : op.status ≠ .done
  intent : s.db.journalEvents.hasEvent opId "OPERATION_INTENT_REGISTERED" = true
  fresh : s.db.journalEvents.hasEvent opId "OPERATION_RESULT_RECORDED" = false
  named : op.domainId ≠ ""

theorem resultEvent_envelope (hnamed : op.domainId ≠ "") (result : OperationResult)
    (releaseResources : Bool) :
    ∃ envelope, (resultEvent op result releaseResources).envelope = .ok envelope := by
  have hplain : JsValue.plainEntries [("result", result.toJs),
      ("releaseResources", .bool releaseResources)] = true := by
    refine JsValue.plainEntries_cons (.inr result.toJs_plain) ?_
    exact JsValue.plainEntries_cons (.inr rfl) rfl
  have hschema : validSchemaVersion "xio/event/1.0" = true := by decide
  have hname : validEventName "OPERATION_RESULT_RECORDED" = true := by decide
  exact createEventEnvelope_of_plain hnamed hschema hname rfl hplain

/-- What a store that is ready to take a result does with it. -/
theorem Recordable.run (h : Recordable opId s op) (result : OperationResult)
    (releaseResources : Bool) :
    ∃ row, (recordOperationResult opId result releaseResources).run s =
      (appendEvent row (settleLeases opId result releaseResources
        (finishOperation opId result s)), .ok ()) := by
  obtain ⟨envelope, henv⟩ := resultEvent_envelope h.named result releaseResources
  have hid := getOperation_id h.found
  have hrecordable : resultRecordable op s = .ok () := by
    unfold resultRecordable
    rw [hid, if_neg h.undone, h.intent, h.fresh]
    rfl
  let s₁ := settleLeases opId result releaseResources (finishOperation opId result s)
  have hfenced : epochFencing op.domainId s₁ = .ok () := by
    rw [epochFencing_congr _ (settleLeases_owners ..) (settleLeases_currentEpoch ..)]
    exact h.fenced
  have hrecord := recordEvent_run (e := resultEvent op result releaseResources) (s := s₁) hfenced
    (by
      intro opId' hsubject _
      obtain ⟨-, rfl⟩ : op.id ≠ "" ∧ opId' = op.id := nonEmpty_some_eq hsubject
      rw [hid]
      exact (settleLeases_journalEvents ..).symm ▸ h.intent)
    (by
      intro opId' hsubject _
      obtain ⟨-, rfl⟩ : op.id ≠ "" ∧ opId' = op.id := nonEmpty_some_eq hsubject
      rw [hid]
      exact (settleLeases_journalEvents ..).symm ▸ h.fresh)
    henv
  refine ⟨eventRow (resultEvent op result releaseResources) envelope, ?_⟩
  unfold recordOperationResult verifyEpochFencing
  simp only [run_transaction, run_bind, run_read, h.found, run_check, h.fenced, hrecordable,
    run_modify]
  rw [hrecord]

/-- A store that is not ready to take a result is left as it is. -/
theorem recordOperationResult_error (h : ∀ op, ¬ Recordable opId s op) (result : OperationResult)
    (releaseResources : Bool) :
    ∃ e, (recordOperationResult opId result releaseResources).run s = (s, .error e) := by
  rcases hrun : (recordOperationResult opId result releaseResources).run s with ⟨s', e | u⟩
  · rw [atomic_recordOperationResult opId result releaseResources s s' e hrun]
    exact ⟨e, rfl⟩
  · obtain ⟨op, hfound, hfenced, hundone, hintent, hfresh, hevent⟩ :=
      (recordOperationResult_ok hrun).found
    obtain ⟨envelope, henv, -⟩ := hevent.appended
    exact absurd ⟨hfound, hfenced, hundone, hintent, hfresh, createEventEnvelope_domainId henv⟩
      (h op)

theorem atomic_recordReplay (domainId opId : String) (mode : ReplayMode) (callingRunId : String)
    (now : Timestamp) : Atomic (recordReplay domainId opId mode callingRunId now) := by
  unfold recordReplay
  refine (readOnly_verifyEpochFencing _).atomic_bind fun _ => ?_
  exact (readOnly_read _).atomic_bind fun _ => atomic_recordEvent _

theorem recordReplay_ok {mode : ReplayMode} {callingRunId : String}
    (h : (recordReplay domainId opId mode callingRunId now).run s = (s', .ok u)) :
    EventRecorded (replayEvent domainId opId mode callingRunId (s.getOperation opId) now) s s' := by
  unfold recordReplay at h
  obtain ⟨_, s₁, hfence, h1⟩ := bind_ok h
  obtain ⟨rfl, _⟩ := check_ok hfence
  obtain ⟨op, s₂, hread, hevent⟩ := bind_ok h1
  obtain ⟨rfl, rfl⟩ := read_ok hread
  exact recordEvent_ok hevent

end SqliteStore
end XioFlow
