/-
  XioFlow.Store.Terminal

  Terminal states over runs of store calls: which calls leave a finished
  operation and a finalized run as they are, and which two do not.

  `updateOperationStatus` and `updateOperationResult` do not look at the status
  the operation already has.  Every other writer guards it, so a run of calls
  keeps its terminal states exactly when these two are never used against a
  finished operation.
-/

import XioFlow.Store.Effects
import XioFlow.Lib.Transition

namespace XioFlow

open Lib Lib.Prog

namespace SqliteStore

/-! ## The calls -/

/-- The public calls that write tasks' runs and operations, with their arguments. -/
inductive StoreCall where
  | registerOperationIntent (op : Operation) (domainId : String) (now : Timestamp)
  | recordPreIntentCancelledOperation (op : Operation) (domainId : String)
      (result : OperationResult)
  | updateOperationStatus (opId : String) (status : OperationStatus)
      (identity : Option ProcessIdentity) (outputRef : Option String) (now : Timestamp)
  | recordOperationResult (opId : String) (result : OperationResult) (releaseResources : Bool)
  | updateOperationResult (opId : String) (result : OperationResult)
  | updateRecoveryEvidence (opId : String) (patch : RecoveryPatch)
  | saveRun (run : Run)
  | updateRunStatus (runId : String) (status : KernelRunStatus)
      (reason : Option TerminationReason) (endedAt : Option Timestamp) (now : Timestamp)
  | reportRunSucceeded (runId : String) (now : Timestamp)
  | reportRunFailed (runId : String) (reason : TerminationReason) (now : Timestamp)
  | reportRunCancelled (runId : String) (reason : TerminationReason) (now : Timestamp)

def StoreCall.prog [Crypto] : StoreCall → StoreM Unit
  | registerOperationIntent op domainId now => SqliteStore.registerOperationIntent op domainId now
  | recordPreIntentCancelledOperation op domainId result =>
    SqliteStore.recordPreIntentCancelledOperation op domainId result
  | updateOperationStatus opId status identity outputRef now =>
    SqliteStore.updateOperationStatus opId status identity outputRef now
  | recordOperationResult opId result releaseResources =>
    SqliteStore.recordOperationResult opId result releaseResources
  | updateOperationResult opId result => SqliteStore.updateOperationResult opId result
  | updateRecoveryEvidence opId patch => SqliteStore.updateRecoveryEvidence opId patch
  | saveRun run => SqliteStore.saveRun run
  | updateRunStatus runId status reason endedAt now =>
    SqliteStore.updateRunStatus runId status reason endedAt now
  | reportRunSucceeded runId now => SqliteStore.reportRunSucceeded runId now
  | reportRunFailed runId reason now => SqliteStore.reportRunFailed runId reason now
  | reportRunCancelled runId reason now => SqliteStore.reportRunCancelled runId reason now

/-- The store after a call, whether it returned or threw. -/
def StoreCall.after [Crypto] (c : StoreCall) (s : SqliteStore) : SqliteStore := (c.prog.run s).1

/-- The call threw. -/
def StoreCall.throws [Crypto] (c : StoreCall) (s : SqliteStore) : Prop :=
  ∃ e, (c.prog.run s).2 = .error e

/-! ## Terminal states -/

/-- Finished operations and finalized runs of the first store are so in the second. -/
structure TerminalKept (s s' : SqliteStore) : Prop where
  done : ∀ opId op, s.getOperation opId = some op → op.status = .done →
    ∃ op', s'.getOperation opId = some op' ∧ op'.status = .done ∧
      ∀ r, op.result = some r → ∃ r', op'.result = some r' ∧ r'.status = r.status
  finalized : ∀ runId run, s.getRun runId = some run → run.status.terminal = true →
    ∃ run', s'.getRun runId = some run' ∧ run'.status = run.status
  closed : ∀ runId run, s.getRun runId = some run → run.status.terminal = true →
    ∀ opId op', s'.getOperation opId = some op' → op'.runId = runId →
      ∃ op, s.getOperation opId = some op ∧ op.runId = runId

theorem TerminalKept.refl (s : SqliteStore) : TerminalKept s s where
  done := fun _ op hop hdone => ⟨op, hop, hdone, fun r hr => ⟨r, hr, rfl⟩⟩
  finalized := fun _ run hrun _ => ⟨run, hrun, rfl⟩
  closed := fun _ _ _ _ _ op' hop' hrunId => ⟨op', hop', hrunId⟩

theorem TerminalKept.trans {a b c : SqliteStore} (hab : TerminalKept a b)
    (hbc : TerminalKept b c) : TerminalKept a c where
  done := by
    intro opId op hop hdone
    obtain ⟨op₁, hop₁, hdone₁, hres₁⟩ := hab.done opId op hop hdone
    obtain ⟨op₂, hop₂, hdone₂, hres₂⟩ := hbc.done opId op₁ hop₁ hdone₁
    refine ⟨op₂, hop₂, hdone₂, ?_⟩
    intro r hr
    obtain ⟨r₁, hr₁, hst₁⟩ := hres₁ r hr
    obtain ⟨r₂, hr₂, hst₂⟩ := hres₂ r₁ hr₁
    exact ⟨r₂, hr₂, hst₂.trans hst₁⟩
  finalized := by
    intro runId run hrun hterm
    obtain ⟨run₁, hrun₁, hst₁⟩ := hab.finalized runId run hrun hterm
    obtain ⟨run₂, hrun₂, hst₂⟩ := hbc.finalized runId run₁ hrun₁ (by rw [hst₁]; exact hterm)
    exact ⟨run₂, hrun₂, hst₂.trans hst₁⟩
  closed := by
    intro runId run hrun hterm opId op' hop' hrunId
    obtain ⟨run₁, hrun₁, hst₁⟩ := hab.finalized runId run hrun hterm
    obtain ⟨op₁, hop₁, hrunId₁⟩ :=
      hbc.closed runId run₁ hrun₁ (by rw [hst₁]; exact hterm) opId op' hop' hrunId
    exact hab.closed runId run hrun hterm opId op₁ hop₁ hrunId₁

/-! ### One change of one table -/

variable {s' : SqliteStore}

variable {s : SqliteStore} {opId : String} {u : Unit}

/-- An update of one operation that keeps its run and, if it is finished, its outcome. -/
theorem kept_updateOperation (f : StoredOperation → StoredOperation) (hkey : ∀ a, (f a).id = a.id)
    (hops : s'.db.operations = s.db.operations.update opId f hkey)
    (hruns : s'.db.runs = s.db.runs) (hrunId : ∀ op, (f op).runId = op.runId)
    (hdone : ∀ op, s.getOperation opId = some op → op.status = .done → (f op).status = .done ∧
      ∀ r, op.result = some r → ∃ r', (f op).result = some r' ∧ r'.status = r.status) :
    TerminalKept s s' where
  done := by
    intro opId' op hop hst
    unfold getOperation at hop ⊢
    rw [hops, Table.get?_update, hop]
    by_cases hid : opId' = opId
    · subst hid
      rw [if_pos rfl]
      obtain ⟨hst', hres⟩ := hdone op hop hst
      exact ⟨f op, rfl, hst', hres⟩
    · rw [if_neg hid]
      exact ⟨op, rfl, hst, fun r hr => ⟨r, hr, rfl⟩⟩
  finalized := by
    intro runId run hrun _
    exact ⟨run, (getRun_congr hruns runId).trans hrun, rfl⟩
  closed := by
    intro runId run hrun _ opId' op' hop' hrid
    unfold getOperation at hop' ⊢
    rw [hops, Table.get?_update] at hop'
    by_cases hid : opId' = opId
    · rw [if_pos hid] at hop'
      obtain ⟨op, hop, rfl⟩ := Option.map_eq_some_iff.1 hop'
      exact ⟨op, hop, (hrunId op).symm.trans hrid⟩
    · rw [if_neg hid] at hop'
      exact ⟨op', hop', hrid⟩

/-- A new operation in a run that is open. -/
theorem kept_insertOperation {row : StoredOperation}
    {operations : Table StoredOperation fun row => row.id}
    (hins : s.db.operations.insert? row = some operations) (hops : s'.db.operations = operations)
    (hruns : s'.db.runs = s.db.runs)
    (hopen : ∃ run, s.getRun row.runId = some run ∧ run.status.terminal = false) :
    TerminalKept s s' where
  done := by
    intro opId op hop hst
    refine ⟨op, ?_, hst, fun r hr => ⟨r, hr, rfl⟩⟩
    unfold getOperation at hop ⊢
    rw [hops, Table.get?_insert? hins]
    obtain ⟨hnone, _⟩ := Table.insert?_eq_some hins
    rw [if_neg, hop]
    intro hid
    rw [hid, hop] at hnone
    cases hnone
  finalized := by
    intro runId run hrun _
    exact ⟨run, (getRun_congr hruns runId).trans hrun, rfl⟩
  closed := by
    intro runId run hrun hterm opId op' hop' hrid
    unfold getOperation at hop' ⊢
    rw [hops, Table.get?_insert? hins] at hop'
    split at hop'
    · -- The new row itself: its run is open, the run asked about is not.
      cases hop'
      obtain ⟨run', hrun', hterm'⟩ := hopen
      rw [hrid, hrun] at hrun'
      cases hrun'
      rw [hterm] at hterm'
      cases hterm'
    · exact ⟨op', hop', hrid⟩

/-- A change of the runs that keeps the status of every finalized one. -/
theorem kept_runs (hops : s'.db.operations = s.db.operations)
    (hfinal : ∀ runId run, s.getRun runId = some run → run.status.terminal = true →
      ∃ run', s'.getRun runId = some run' ∧ run'.status = run.status) : TerminalKept s s' where
  done := by
    intro opId op hop hst
    unfold getOperation at hop ⊢
    rw [hops]
    exact ⟨op, hop, hst, fun r hr => ⟨r, hr, rfl⟩⟩
  finalized := hfinal
  closed := by
    intro runId run _ _ opId op' hop' hrid
    unfold getOperation at hop' ⊢
    rw [hops] at hop'
    exact ⟨op', hop', hrid⟩

/-! ## The two writers without a guard -/

/-- A status transition event of this operation would be accepted by the journal. -/
def statusWritable (op : StoredOperation) (s : SqliteStore) : Prop :=
  epochFencing op.domainId s = .ok () ∧ op.domainId ≠ "" ∧
    (op.id = "" ∨ s.db.journalEvents.hasEvent op.id "OPERATION_INTENT_REGISTERED" = true)

/-- The call moves a finished operation to another status. -/
def StoreCall.reopens (s : SqliteStore) : StoreCall → Prop
  | updateOperationStatus opId status _ _ _ => ∃ op, s.getOperation opId = some op ∧
      op.status = .done ∧ status ≠ .done ∧ statusWritable op s
  | _ => False

/-- The call gives a finished operation a result of another status. -/
def StoreCall.rewrites (s : SqliteStore) : StoreCall → Prop
  | updateOperationResult opId result => ∃ op r, s.getOperation opId = some op ∧
      op.status = .done ∧ op.result = some r ∧ result.status ≠ r.status ∧
      epochFencing op.domainId s = .ok ()
  | _ => False

/-- The condition on a call: it is neither of the two. -/
def StoreCall.respectsTerminal (s : SqliteStore) (c : StoreCall) : Prop :=
  ¬ c.reopens s ∧ ¬ c.rewrites s

/-- The run is stored and finalized with a status other than the allowed one. -/
def finalizedOtherwise (s : SqliteStore) (runId : String) (allowed : Option KernelRunStatus) :
    Prop :=
  ∃ run, s.getRun runId = some run ∧ run.status.terminal = true ∧ some run.status ≠ allowed

/-- The call asks for a change of something terminal. -/
def StoreCall.attempts (s : SqliteStore) : StoreCall → Prop
  | registerOperationIntent op _ _ => finalizedOtherwise s op.runId none
  | recordPreIntentCancelledOperation op _ _ => finalizedOtherwise s op.runId none
  | updateOperationStatus opId status _ _ _ => ∃ op, s.getOperation opId = some op ∧
      op.status = .done ∧ status ≠ .done
  | recordOperationResult opId _ _ => ∃ op, s.getOperation opId = some op ∧ op.status = .done
  | updateOperationResult opId result => ∃ op r, s.getOperation opId = some op ∧
      op.status = .done ∧ op.result = some r ∧ result.status ≠ r.status
  | updateRecoveryEvidence _ _ => False
  | saveRun run => finalizedOtherwise s run.id (some run.status)
  | updateRunStatus runId status _ _ _ => finalizedOtherwise s runId (some status)
  | reportRunSucceeded runId _ => finalizedOtherwise s runId (some .succeeded)
  | reportRunFailed runId _ _ => finalizedOtherwise s runId (some .failed)
  | reportRunCancelled runId _ _ => finalizedOtherwise s runId (some .cancelled)

/-! ## One call -/

section Step

variable [Crypto]

/-- A call that throws leaves the store as it was. -/
theorem StoreCall.atomic (c : StoreCall) : Atomic c.prog := by
  cases c with
  | registerOperationIntent op domainId now => exact atomic_registerOperationIntent op domainId now
  | recordPreIntentCancelledOperation op domainId result =>
    exact atomic_recordPreIntentCancelledOperation op domainId result
  | saveRun run => exact atomic_saveRun run
  | updateOperationStatus | recordOperationResult | updateOperationResult | updateRecoveryEvidence
  | updateRunStatus | reportRunSucceeded | reportRunFailed | reportRunCancelled =>
    exact atomic_transaction _

theorem StoreCall.after_of_throws {c : StoreCall} {s : SqliteStore} (h : c.throws s) :
    c.after s = s := by
  obtain ⟨e, he⟩ := h
  exact c.atomic s _ e (Prod.ext rfl he)

theorem StoreCall.throws_or_returns (c : StoreCall) (s : SqliteStore) :
    c.throws s ∨ c.prog.run s = (c.after s, .ok ()) := by
  cases hr : (c.prog.run s).2 with
  | error e => exact Or.inl ⟨e, hr⟩
  | ok u => exact Or.inr (Prod.ext rfl hr)

end Step

theorem terminalKept_updateRunStatus {runId : String} {status : KernelRunStatus}
    {reason : Option TerminationReason} {endedAt : Option Timestamp} {now : Timestamp}
    (h : (updateRunStatus runId status reason endedAt now).run s = (s', .ok u)) :
    TerminalKept s s' := by
  rcases updateRunStatus_ok h with ⟨_, rfl⟩ | ⟨run, hrun, _, ⟨_, _, rfl⟩ | ⟨hopen, hrec⟩⟩
  · exact TerminalKept.refl _
  · exact TerminalKept.refl _
  · refine kept_runs (by obtain ⟨_, rfl⟩ := hrec.frame; rfl) ?_
    intro runId' run' hrun' hterm
    refine ⟨run', ?_, rfl⟩
    rw [hrec.getRun_eq, getRun_setRunStatus, if_neg, hrun']
    rintro rfl
    rw [hrun] at hrun'
    cases hrun'
    rw [hopen] at hterm
    cases hterm

theorem terminalKept_reported {runId : String} (h : Reported runId s s') : TerminalKept s s' := by
  rcases h with rfl | ⟨_, _, _, _, _, hrun⟩
  · exact TerminalKept.refl _
  · exact terminalKept_updateRunStatus hrun

theorem terminalKept_saveRun [Crypto] {run : Run} (h : (saveRun run).run s = (s', .ok u)) :
    TerminalKept s s' := by
  obtain ⟨_, hkeeps, hupsert⟩ := saveRun_ok h
  unfold upsertRun at hupsert
  split at hupsert
  · rename_i runs hins
    split at hupsert
    · cases hupsert
    · cases hupsert
      refine kept_runs rfl ?_
      intro runId run' hrun' _
      refine ⟨run', ?_, rfl⟩
      unfold getRun at hrun' ⊢
      simp only [withDb_db]
      rw [Table.get?_insert? hins, if_neg, hrun']
      intro hid
      obtain ⟨hnone, _⟩ := Table.insert?_eq_some hins
      rw [hid, hrun'] at hnone
      cases hnone
  · cases hupsert
    refine kept_runs rfl ?_
    intro runId run' hrun' hterm
    unfold getRun at hrun' ⊢
    simp only [withDb_db]
    rw [Table.get?_update, hrun']
    by_cases hid : runId = run.id
    · subst hid
      rw [if_pos rfl]
      refine ⟨mergedRun run run', rfl, ?_⟩
      unfold keepsTerminal getRun at hkeeps
      rw [hrun'] at hkeeps
      simp only [hterm, Bool.true_and] at hkeeps
      split at hkeeps
      · cases hkeeps
      · rename_i hsame
        exact (not_not.1 (by simpa using hsame) : run'.status = run.status).symm
    · rw [if_neg hid]
      exact ⟨run', rfl, rfl⟩

/-- A status update that returns either respects a finished operation or reopens it. -/
theorem terminalKept_updateOperationStatus {status : OperationStatus}
    {identity : Option ProcessIdentity} {outputRef : Option String} {now : Timestamp}
    (h : (updateOperationStatus opId status identity outputRef now).run s = (s', .ok u))
    (hresp : ¬ StoreCall.reopens s (.updateOperationStatus opId status identity outputRef now)) :
    TerminalKept s s' := by
  rcases updateOperationStatus_ok h with ⟨_, rfl⟩ | ⟨op, hop, hfenced, hrec⟩
  · exact TerminalKept.refl _
  · obtain ⟨_, hframe⟩ := hrec.frame
    subst hframe
    refine kept_updateOperation (statusRow status identity outputRef now) (statusRow_id _ _ _ _)
      rfl rfl (fun _ => rfl) ?_
    intro op' hop' hdone
    rw [hop] at hop'
    cases hop'
    refine ⟨?_, fun r hr => ⟨r, hr, rfl⟩⟩
    by_contra hstatus
    refine hresp ⟨op, hop, hdone, hstatus, hfenced, ?_, ?_⟩
    · obtain ⟨envelope, henv, _⟩ := hrec.appended
      exact createEventEnvelope_domainId henv
    · by_cases hid : op.id = ""
      · exact Or.inl hid
      · refine Or.inr ?_
        have hsubject : (statusTransitionEvent op status identity outputRef now).subject =
            some op.id := by
          simp [statusTransitionEvent, EventInput.subject, nonEmpty, hid]
        exact hrec.intent op.id hsubject rfl

theorem terminalKept_updateOperationResult {result : OperationResult}
    (h : (updateOperationResult opId result).run s = (s', .ok u))
    (hresp : ¬ StoreCall.rewrites s (.updateOperationResult opId result)) : TerminalKept s s' := by
  obtain ⟨op, hop, hfenced, rfl⟩ := updateOperationResult_ok h
  refine kept_updateOperation (resultRow result) (resultRow_id _) rfl rfl (fun _ => rfl) ?_
  intro op' hop' hdone
  rw [hop] at hop'
  cases hop'
  refine ⟨hdone, fun r hr => ⟨result, rfl, ?_⟩⟩
  by_contra hstatus
  exact hresp ⟨op, r, hop, hdone, hr, hstatus, hfenced⟩

/-- A call that returns without reopening or rewriting keeps every terminal state. -/
theorem StoreCall.terminalKept [Crypto] {c : StoreCall} (h : c.prog.run s = (s', .ok ()))
    (hresp : c.respectsTerminal s) : TerminalKept s s' := by
  cases c with
  | registerOperationIntent op domainId now =>
    obtain ⟨operations, leases, hins, _, hrec⟩ := (registerOperationIntent_ok h).effect
    obtain ⟨_, rfl⟩ := hrec.frame
    exact kept_insertOperation hins rfl rfl (registerOperationIntent_ok h).openRun
  | recordPreIntentCancelledOperation op domainId result =>
    obtain ⟨_, hopen, operations, hins, hrec⟩ := recordPreIntentCancelledOperation_ok h
    obtain ⟨_, rfl⟩ := hrec.frame
    exact kept_insertOperation hins rfl rfl hopen
  | updateOperationStatus => exact terminalKept_updateOperationStatus h hresp.1
  | recordOperationResult opId result releaseResources =>
    obtain ⟨op, hop, _, hnotDone, _, _, hrec⟩ := (recordOperationResult_ok h).found
    obtain ⟨_, rfl⟩ := hrec.frame
    have hsettle : (settleLeases opId result releaseResources
        (finishOperation opId result s)).db.operations =
          s.db.operations.update opId (finishedRow result) (finishedRow_id result) ∧
        (settleLeases opId result releaseResources
          (finishOperation opId result s)).db.runs = s.db.runs := by
      unfold settleLeases
      split <;> exact ⟨rfl, rfl⟩
    refine kept_updateOperation (finishedRow result) (finishedRow_id result) hsettle.1 hsettle.2
      (fun _ => rfl) ?_
    intro op' hop' hdone
    rw [hop] at hop'
    cases hop'
    exact absurd hdone hnotDone
  | updateOperationResult => exact terminalKept_updateOperationResult h hresp.2
  | updateRecoveryEvidence opId patch =>
    obtain ⟨op, _, _, rfl | ⟨evidence, rfl⟩⟩ := updateRecoveryEvidence_ok h
    · exact TerminalKept.refl _
    · exact kept_updateOperation (evidenceRow evidence) (evidenceRow_id _) rfl rfl (fun _ => rfl)
        fun _ _ hdone => ⟨hdone, fun r hr => ⟨r, hr, rfl⟩⟩
  | saveRun run => exact terminalKept_saveRun h
  | updateRunStatus => exact terminalKept_updateRunStatus h
  | reportRunSucceeded => exact terminalKept_reported (reportRunSucceeded_ok h).2
  | reportRunFailed => exact terminalKept_reported (reportRunFailed_ok h).2
  | reportRunCancelled => exact terminalKept_reported (reportRunCancelled_ok h).2

/-- A call that returns asked for no change of something terminal, unless it is one of the two. -/
theorem StoreCall.not_attempts [Crypto] {c : StoreCall} (h : c.prog.run s = (s', .ok ()))
    (hresp : c.respectsTerminal s) : ¬ c.attempts s := by
  have hkept := StoreCall.terminalKept h hresp
  cases c with
  | registerOperationIntent op domainId now =>
    rintro ⟨run, hrun, hterm, _⟩
    obtain ⟨run', hrun', hterm'⟩ := (registerOperationIntent_ok h).openRun
    rw [hrun] at hrun'
    cases hrun'
    rw [hterm] at hterm'
    cases hterm'
  | recordPreIntentCancelledOperation op domainId result =>
    rintro ⟨run, hrun, hterm, _⟩
    obtain ⟨_, ⟨run', hrun', hterm'⟩, _⟩ := recordPreIntentCancelledOperation_ok h
    rw [hrun] at hrun'
    cases hrun'
    rw [hterm] at hterm'
    cases hterm'
  | updateOperationStatus opId status identity outputRef now =>
    rintro ⟨op, hop, hdone, hstatus⟩
    -- The finished operation keeps its status, and the call has just set another one.
    obtain ⟨op', hop', hdone', _⟩ := hkept.done opId op hop hdone
    rcases updateOperationStatus_ok h with ⟨hnone, _⟩ | ⟨op₁, _, _, hrec⟩
    · rw [hop] at hnone
      cases hnone
    · rw [hrec.getOperation_eq, getOperation_setOperationStatus, if_pos rfl, hop] at hop'
      cases hop'
      exact hstatus hdone'
  | recordOperationResult opId result releaseResources =>
    rintro ⟨op, hop, hdone⟩
    obtain ⟨op', hop', _, hnotDone, _⟩ := (recordOperationResult_ok h).found
    rw [hop] at hop'
    cases hop'
    exact hnotDone hdone
  | updateOperationResult opId result =>
    rintro ⟨op, r, hop, hdone, hr, hstatus⟩
    obtain ⟨op', hop', hfenced, _⟩ := updateOperationResult_ok h
    rw [hop] at hop'
    cases hop'
    exact hresp.2 ⟨op, r, hop, hdone, hr, hstatus, hfenced⟩
  | updateRecoveryEvidence opId patch => exact id
  | saveRun run =>
    rintro ⟨run', hrun', hterm, hstatus⟩
    obtain ⟨_, hkeeps, _⟩ := saveRun_ok h
    unfold keepsTerminal at hkeeps
    rw [hrun'] at hkeeps
    have hne : run'.status ≠ run.status := fun heq => hstatus (congrArg some heq)
    simp [hterm, hne] at hkeeps
  | updateRunStatus runId status reason endedAt now =>
    rintro ⟨run, hrun, hterm, hstatus⟩
    rcases updateRunStatus_ok h with ⟨hnone, _⟩ |
      ⟨run', hrun', _, ⟨_, heq, _⟩ | ⟨hopen, _⟩⟩
    · rw [hrun] at hnone
      cases hnone
    · rw [hrun] at hrun'
      cases hrun'
      exact hstatus (congrArg some heq)
    · rw [hrun] at hrun'
      cases hrun'
      rw [hterm] at hopen
      cases hopen
  | reportRunSucceeded runId now =>
    rintro ⟨run, hrun, hterm, hstatus⟩
    obtain ⟨⟨run', hrun', himp⟩, _⟩ := reportRunSucceeded_ok h
    rw [hrun] at hrun'
    cases hrun'
    exact hstatus (congrArg some (himp hterm))
  | reportRunFailed runId reason now =>
    rintro ⟨run, hrun, hterm, hstatus⟩
    obtain ⟨⟨run', hrun', himp⟩, _⟩ := reportRunFailed_ok h
    rw [hrun] at hrun'
    cases hrun'
    exact hstatus (congrArg some (himp hterm))
  | reportRunCancelled runId reason now =>
    rintro ⟨run, hrun, hterm, _⟩
    obtain ⟨⟨run', hrun', hopen⟩, _⟩ := reportRunCancelled_ok h
    rw [hrun] at hrun'
    cases hrun'
    rw [hterm] at hopen
    cases hopen

/-! ## Runs of calls -/

section Runs

variable [Crypto]

/-- What terminal states ask of one call: it keeps them, it throws if it asked for anything else,
    and if it throws the store is as before. -/
def StoreCall.absorbs (s : SqliteStore) (c : StoreCall) : Prop :=
  TerminalKept s (c.after s) ∧ (c.attempts s → c.throws s) ∧ (c.throws s → c.after s = s)

theorem StoreCall.absorbs_of_respectsTerminal {s : SqliteStore} {c : StoreCall}
    (h : c.respectsTerminal s) : c.absorbs s := by
  rcases c.throws_or_returns s with hthrows | hreturns
  · rw [StoreCall.absorbs, StoreCall.after_of_throws hthrows]
    exact ⟨TerminalKept.refl s, fun _ => hthrows, fun _ => rfl⟩
  · exact ⟨StoreCall.terminalKept hreturns h,
      fun hattempt => absurd hattempt (StoreCall.not_attempts hreturns h),
      StoreCall.after_of_throws⟩

/-- The two writers are accepted against a finished operation, so they break the law there. -/
theorem StoreCall.respectsTerminal_of_absorbs {s : SqliteStore} {c : StoreCall}
    (h : c.absorbs s) : c.respectsTerminal s := by
  obtain ⟨_, hthrows, _⟩ := h
  constructor
  · intro hreopens
    cases c with
    | updateOperationStatus opId status identity outputRef now =>
      obtain ⟨op, hop, hdone, hstatus, hfenced, hdomain, hintent⟩ := hreopens
      obtain ⟨e, he⟩ := hthrows ⟨op, hop, hdone, hstatus⟩
      obtain ⟨s', hrun⟩ := updateOperationStatus_run hop hfenced hdomain hintent
      unfold StoreCall.prog at he
      rw [hrun] at he
      cases he
    | _ => exact hreopens
  · intro hrewrites
    cases c with
    | updateOperationResult opId result =>
      obtain ⟨op, r, hop, hdone, hr, hstatus, hfenced⟩ := hrewrites
      obtain ⟨e, he⟩ := hthrows ⟨op, r, hop, hdone, hr, hstatus⟩
      unfold StoreCall.prog at he
      rw [updateOperationResult_run hop hfenced] at he
      cases he
    | _ => exact hrewrites

theorem StoreCall.absorbs_iff (s : SqliteStore) (c : StoreCall) :
    c.absorbs s ↔ c.respectsTerminal s :=
  ⟨StoreCall.respectsTerminal_of_absorbs, StoreCall.absorbs_of_respectsTerminal⟩

/-- Terminal states are absorbing along a run: every call absorbs, and from every point of the run
    to every later one the terminal states are kept. -/
def TerminalAbsorbing (s : SqliteStore) (cs : List StoreCall) : Prop :=
  Along StoreCall.after StoreCall.absorbs s cs ∧
    ∀ pre mid post, cs = pre ++ mid ++ post →
      TerminalKept (afterAll StoreCall.after s pre) (afterAll StoreCall.after s (pre ++ mid))

theorem terminalAbsorbing_iff_along (s : SqliteStore) (cs : List StoreCall) :
    TerminalAbsorbing s cs ↔ Along StoreCall.after StoreCall.absorbs s cs := by
  refine ⟨And.left, fun h => ⟨h, ?_⟩⟩
  rintro pre mid post rfl
  rw [along_append, along_append] at h
  rw [afterAll_append]
  exact h.1.2.relates TerminalKept.refl (fun _ _ _ => TerminalKept.trans) fun _ _ hc => hc.1

/-- A run of store calls keeps its terminal states exactly when no call of it reopens a finished
    operation or gives it a result of another status. -/
theorem terminalAbsorbing_iff (s : SqliteStore) (cs : List StoreCall) :
    TerminalAbsorbing s cs ↔
      Along StoreCall.after (fun s c => c.respectsTerminal s) s cs := by
  rw [terminalAbsorbing_iff_along]
  exact along_congr StoreCall.absorbs_iff

end Runs

/-! ### A finished operation that becomes active again -/

/-- Register, start and finish an operation, then report it active once more. -/
def reopeningCalls : List StoreCall := [
  .registerOperationIntent (Operation.sample "o" ["workspace:write:root"]) "d" 2,
  .updateOperationStatus "o" .active none none 3,
  .recordOperationResult "o"
    (.process { durationMs := 1, completedAt := 4, status := .succeeded }) true,
  .updateOperationStatus "o" .active none none 5]

/-- The operation is done before the last call and active after it. -/
theorem done_operation_reopened :
    let _ := plainCrypto
    ¬ TerminalAbsorbing ⟨Database.sample, some 1⟩ reopeningCalls := by
  intro _ habsorbing
  have hkept := habsorbing.2 (reopeningCalls.take 3) (reopeningCalls.drop 3) [] (by rfl)
  have hbefore : ((afterAll StoreCall.after ⟨Database.sample, some 1⟩
      (reopeningCalls.take 3)).getOperation "o").map (fun op => op.status) = some .done := by
    decide +kernel
  have hafter : ((afterAll StoreCall.after ⟨Database.sample, some 1⟩
      (reopeningCalls.take 3 ++ reopeningCalls.drop 3)).getOperation "o").map
        (fun op => op.status) = some .active := by
    decide +kernel
  obtain ⟨op, hop, hdone⟩ := Option.map_eq_some_iff.1 hbefore
  obtain ⟨op', hop', hdone', _⟩ := hkept.done "o" op hop hdone
  obtain ⟨op'', hop'', hactive⟩ := Option.map_eq_some_iff.1 hafter
  rw [hop'] at hop''
  cases hop''
  rw [hdone'] at hactive
  cases hactive

end SqliteStore
end XioFlow
