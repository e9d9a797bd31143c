/-
  XioFlow.Supervisor.Finalize

  `finalizeOperation`, the one place where a result is written.

  Recording the result, moving the run and giving the resources back are three
  transactions of their own.  When the second or the third is refused, the
  function throws with the first already committed.
-/

import XioFlow.Domain.WaitQueue

namespace XioFlow

open Lib Lib.Prog
open ExecutionDomain (run_onStore internalReleaseResources)
open SqliteStore

/-! ## The function -/

structure FinalizeOptions where
  requiredResources : List String := []
  releaseResourceLock : Bool := true

/-- What the clock and the callbacks of the queue answer while the function runs. -/
structure Surroundings where
  isCancelled : Waiter → Bool
  elapsed : Waiter → Nat
  now : Timestamp

def cannotFinalize (opId : String) (status : OperationStatus) : KernelError :=
  .error ("Cannot finalize operation \"" ++ opId ++
    "\": operation is already finalized with status \"" ++ status.text ++ "\"")

/-- The result with the run of the operation, and with its capability if it names none. -/
def boundResult (existing : Option StoredOperation) (result : OperationResult) :
    OperationResult :=
  match existing with
  | none => result
  | some existing => result.withBase
      { result.base with
        runId := some existing.runId
        capabilityId := match nonEmpty existing.capabilityId, nonEmpty result.base.capabilityId with
          | some capabilityId, none => some capabilityId
          | _, _ => result.base.capabilityId }

/-- `Run` of an operation that became indeterminate, if the operation is known. -/
def markRunIndeterminate (opId : String) (reason : Option TerminationReason) (now : Timestamp) :
    StoreM Unit := do
  let op ← read (·.getOperation opId)
  match op with
  | none => pure ()
  | some op => updateRunStatus op.runId .indeterminate reason none now

/-- An indeterminate result keeps the leases and takes the run along. -/
def settleIndeterminate (opId : String) (result : OperationResult) (around : Surroundings) :
    DomainM Unit := do
  onStore (recordOperationResult opId result false)
  onStore (markRunIndeterminate opId result.terminationReason around.now)

/-- Any other result gives the leases back. -/
def settleConfirmed (opId : String) (result : OperationResult) (options : FinalizeOptions)
    (around : Surroundings) : DomainM Unit := do
  onStore (recordOperationResult opId result true)
  onlyIf options.releaseResourceLock do
    let _ ← internalReleaseResources opId options.requiredResources around.isCancelled
      around.elapsed around.now
    pure ()

def finalizeOperation (opId : String) (result : OperationResult) (options : FinalizeOptions)
    (around : Surroundings) : DomainM OperationResult := do
  let existing ← read fun d => d.store.getOperation opId
  throwIf (existing.any fun existing => existing.status = .done) (cannotFinalize opId .done)
  let result := boundResult existing result
  if result.status = .indeterminate then settleIndeterminate opId result around
  else settleConfirmed opId result options around
  return result

/-- `holdLeases`: how the supervisor ends an execution it could not confirm stopped. -/
def holdLeases (opId : String) (requiredResources : List String) (indet : IndeterminateResult)
    (around : Surroundings) : DomainM OperationResult :=
  finalizeOperation opId (.indeterminate indet)
    { requiredResources, releaseResourceLock := false } around

/-! ## All or nothing -/

/-- Operations, leases, journal and runs are as they were. -/
structure SameRecords (d d' : ExecutionDomain) : Prop where
  operations : d'.store.db.operations = d.store.db.operations
  resourceLeases : d'.store.db.resourceLeases = d.store.db.resourceLeases
  journalEvents : d'.store.db.journalEvents = d.store.db.journalEvents
  runs : d'.store.db.runs = d.store.db.runs

theorem SameRecords.refl (d : ExecutionDomain) : SameRecords d d := ⟨rfl, rfl, rfl, rfl⟩

/-- It throws and has changed nothing, or it returns the result it has recorded. -/
def FinalizesAtomically (opId : String) (result : OperationResult) (options : FinalizeOptions)
    (around : Surroundings) (d : ExecutionDomain) : Prop :=
  match (finalizeOperation opId result options around).run d with
  | (d', .error _) => SameRecords d d'
  | (d', .ok recorded) => ∃ op, d'.store.getOperation opId = some op ∧ op.status = .done ∧
      op.result = some recorded ∧ recorded.status = result.status

/-- The run can become indeterminate, or is so already. -/
structure RunYields (s : SqliteStore) (run : Run) : Prop where
  fenced : epochFencing run.domainId s = .ok ()
  settled : run.status.terminal = true → run.status = .indeterminate
  named : run.status.terminal = false → run.domainId ≠ ""

/-- What follows the recording will not be refused. -/
structure Completes (opId : String) (result : OperationResult) (options : FinalizeOptions)
    (d : ExecutionDomain) : Prop where
  run : result.status = .indeterminate → ∀ op run, d.store.getOperation opId = some op →
    d.store.getRun op.runId = some run → RunYields d.store run
  release : result.status ≠ .indeterminate → options.releaseResourceLock = true →
    ExecutionDomain.Unfenced d

/-! ## What each part does -/

theorem boundResult_status (existing : Option StoredOperation) (result : OperationResult) :
    (boundResult existing result).status = result.status := by
  cases existing with
  | none => rfl
  | some => cases result <;> rfl

namespace SqliteStore

/-- A run that yields becomes indeterminate; operations are not touched. -/
theorem updateRunStatus_of_yields {runId : String} {run : Run} {s : SqliteStore}
    (hrun : s.getRun runId = some run) (h : RunYields s run)
    (reason : Option TerminationReason) (now : Timestamp) :
    ∃ s', (updateRunStatus runId .indeterminate reason none now).run s = (s', .ok ()) ∧
      s'.db.operations = s.db.operations := by
  unfold updateRunStatus verifyEpochFencing
  simp only [run_transaction, run_bind, run_read, hrun, run_check, h.fenced]
  cases hterminal : run.status.terminal with
  | true =>
    have hsettled := h.settled hterminal
    simp only [if_true, throwIf, onlyIf, hsettled, ne_eq, not_true, decide_false,
      Bool.false_eq_true, if_false, run_pure]
    exact ⟨s, rfl, rfl⟩
  | false =>
    obtain ⟨row, -, hupdate⟩ := updateRunStatus_of_open hrun hterminal h.fenced
      (h.named hterminal) .indeterminate reason none now
    unfold updateRunStatus verifyEpochFencing at hupdate
    simp only [run_transaction, run_bind, run_read, hrun, run_check, h.fenced, hterminal] at hupdate
    exact ⟨_, hupdate, rfl⟩

/-- A run that does not yield makes the update throw. -/
theorem updateRunStatus_of_not_yields {runId : String} {run : Run} {s : SqliteStore}
    (hrun : s.getRun runId = some run) (h : ¬ RunYields s run)
    (reason : Option TerminationReason) (now : Timestamp) :
    ∃ e, (updateRunStatus runId .indeterminate reason none now).run s = (s, .error e) := by
  rcases hupdate : (updateRunStatus runId .indeterminate reason none now).run s with ⟨s', e | u⟩
  · have hsame : s' = s := atomic_transaction _ _ _ _ hupdate
    rw [hsame]
    exact ⟨e, rfl⟩
  · refine absurd ?_ h
    rcases updateRunStatus_ok hupdate with ⟨hnone, -⟩ | ⟨run', hrun', hfenced, hcases⟩
    · rw [hrun] at hnone
      cases hnone
    · cases hrun.symm.trans hrun'
      rcases hcases with ⟨hterminal, hstatus, -⟩ | ⟨hopen, hevent⟩
      · exact ⟨hfenced, fun _ => hstatus, fun hopen => by rw [hterminal] at hopen; cases hopen⟩
      · obtain ⟨envelope, henv, -⟩ := hevent.appended
        refine ⟨hfenced, fun hterminal => ?_, fun _ => createEventEnvelope_domainId henv⟩
        rw [hopen] at hterminal
        cases hterminal

end SqliteStore

/-! ## When it is all or nothing -/

section Finalize

variable {opId : String} {result : OperationResult} {options : FinalizeOptions}
  {around : Surroundings} {d : ExecutionDomain}

/-- A result the store does not take leaves no trace. -/
theorem finalizeOperation_refused (h : ∀ op, ¬ Recordable opId d.store op) :
    ∃ e, (finalizeOperation opId result options around).run d = (d, .error e) := by
  have hthrows : ∀ result' releaseResources, ∃ e,
      (onStore (recordOperationResult opId result' releaseResources)).run d =
        (d, .error e) := by
    intro result' releaseResources
    obtain ⟨e, hrun⟩ := recordOperationResult_error h result' releaseResources
    exact ⟨e, by rw [run_onStore, hrun]⟩
  unfold finalizeOperation settleIndeterminate settleConfirmed
  simp only [run_bind, run_read]
  cases hdone : (d.store.getOperation opId).any fun existing => existing.status = .done with
  | true => exact ⟨cannotFinalize opId .done, by simp [throwIf, onlyIf]⟩
  | false =>
    simp only [throwIf, onlyIf, Bool.false_eq_true, if_false, run_pure]
    split
    · obtain ⟨e, hrun⟩ := hthrows (boundResult (d.store.getOperation opId) result) false
      exact ⟨e, by simp only [run_bind, hrun]⟩
    · obtain ⟨e, hrun⟩ := hthrows (boundResult (d.store.getOperation opId) result) true
      exact ⟨e, by simp only [run_bind, hrun]⟩

variable {op : StoredOperation}

/-- The store right after a result was recorded. -/
theorem recorded_store (h : Recordable opId d.store op) (recorded : OperationResult)
    (releaseResources : Bool) :
    ∃ s, (onStore (recordOperationResult opId recorded releaseResources)).run d =
        ({ d with store := s }, .ok ()) ∧
      s.getOperation opId = some (finishedRow recorded op) ∧
      s.db.runs = d.store.db.runs ∧ s.db.owners = d.store.db.owners ∧
      s.currentEpoch = d.store.currentEpoch := by
  obtain ⟨row, hrun⟩ := h.run recorded releaseResources
  refine ⟨_, by rw [run_onStore, hrun], ?_, ?_, ?_, ?_⟩
  · show (settleLeases opId recorded releaseResources
      (finishOperation opId recorded d.store)).getOperation opId = _
    rw [getOperation_settleLeases, getOperation_finishOperation,
      if_pos rfl, h.found]
    rfl
  · exact settleLeases_runs ..
  · exact settleLeases_owners ..
  · exact settleLeases_currentEpoch ..

/-- The changed operation shows that records have changed. -/
theorem not_sameRecords (h : Recordable opId d.store op) {d' : ExecutionDomain}
    {recorded : OperationResult}
    (hop : d'.store.getOperation opId = some (finishedRow recorded op)) : ¬ SameRecords d d' := by
  intro hsame
  have hold : d'.store.getOperation opId = d.store.getOperation opId := by
    unfold getOperation
    rw [hsame.operations]
  rw [hop, h.found] at hold
  have hstatus := congrArg (Option.map fun op => op.status) hold
  exact h.undone (Option.some.inj hstatus).symm

/-- Once the store takes the result, the function is one of its two parts. -/
theorem finalizeOperation_run (h : Recordable opId d.store op) :
    let recorded := boundResult (some op) result
    (finalizeOperation opId result options around).run d =
      match (if recorded.status = .indeterminate then settleIndeterminate opId recorded around
        else settleConfirmed opId recorded options around).run d with
      | (d', .ok _) => (d', .ok recorded)
      | (d', .error e) => (d', .error e) := by
  intro recorded
  have hundone : ((some op).any fun existing => decide (existing.status = .done)) = false := by
    simpa using h.undone
  unfold finalizeOperation
  simp only [run_bind, run_read, h.found, throwIf, onlyIf, hundone, Bool.false_eq_true, if_false,
    run_pure]
  by_cases hstatus : (boundResult (some op) result).status = .indeterminate
  · rw [if_pos hstatus, if_pos hstatus, run_bind]
    rcases (settleIndeterminate opId (boundResult (some op) result) around).run d with ⟨d', e | u⟩
    · rfl
    · rfl
  · rw [if_neg hstatus, if_neg hstatus, run_bind]
    rcases (settleConfirmed opId (boundResult (some op) result) options around).run d with
      ⟨d', e | u⟩
    · rfl
    · rfl

/-- An indeterminate result goes through exactly when its run yields. -/
theorem finalizes_indeterminate_iff (h : Recordable opId d.store op)
    (hstatus : result.status = .indeterminate) :
    FinalizesAtomically opId result options around d ↔
      ∀ run, d.store.getRun op.runId = some run → RunYields d.store run := by
  obtain ⟨s, hrecord, hop, hruns, howners, hepoch⟩ :=
    recorded_store h (boundResult (some op) result) false
  have hrecorded : (boundResult (some op) result).status = .indeterminate :=
    (boundResult_status _ _).trans hstatus
  have hgetRun : s.getRun op.runId = d.store.getRun op.runId := by
    unfold getRun
    rw [hruns]
  have hyields : ∀ run, RunYields s run ↔ RunYields d.store run := by
    intro run
    have hcongr := epochFencing_congr run.domainId howners hepoch
    constructor
    · exact fun hy => ⟨hcongr.symm.trans hy.fenced, hy.settled, hy.named⟩
    · exact fun hy => ⟨hcongr.trans hy.fenced, hy.settled, hy.named⟩
  have hmark : (markRunIndeterminate opId (boundResult (some op) result).terminationReason
      around.now).run s = (updateRunStatus op.runId .indeterminate
        (boundResult (some op) result).terminationReason none around.now).run s := by
    unfold markRunIndeterminate
    simp only [run_bind, run_read, hop]
    rfl
  have hthis : ∀ s' : SqliteStore, s'.db.operations = s.db.operations →
      s'.getOperation opId = some (finishedRow (boundResult (some op) result) op) := by
    intro s' hoperations
    rw [← hop]
    unfold getOperation
    rw [hoperations]
  unfold FinalizesAtomically
  rw [finalizeOperation_run h, if_pos hrecorded]
  unfold settleIndeterminate
  simp only [run_bind, hrecord, run_onStore, hmark]
  cases hrun : d.store.getRun op.runId with
  | none =>
    have hnothing : (updateRunStatus op.runId .indeterminate
        (boundResult (some op) result).terminationReason none around.now).run s =
        (s, .ok ()) := by
      unfold updateRunStatus
      simp only [run_transaction, run_bind, run_read, hgetRun, hrun, run_pure]
    simp only [hnothing, reduceCtorEq, false_implies, implies_true, iff_true]
    exact ⟨_, hop, rfl, rfl, boundResult_status _ _⟩
  | some run =>
    have hcond : (∀ run', some run = some run' → RunYields d.store run') ↔
        RunYields d.store run := by simp
    rw [hcond, ← hyields run]
    by_cases hy : RunYields s run
    · obtain ⟨s', hupdate, hoperations⟩ := updateRunStatus_of_yields
        (hgetRun.trans hrun) hy (boundResult (some op) result).terminationReason around.now
      simp only [hupdate, hy, iff_true]
      exact ⟨_, hthis s' hoperations, rfl, rfl, boundResult_status _ _⟩
    · obtain ⟨e, hupdate⟩ := updateRunStatus_of_not_yields
        (hgetRun.trans hrun) hy (boundResult (some op) result).terminationReason around.now
      simp only [hupdate, hy, iff_false]
      exact not_sameRecords h (hthis s rfl)

/-- Any other result goes through exactly when its resources can be given back. -/
theorem finalizes_confirmed_iff (h : Recordable opId d.store op)
    (hstatus : result.status ≠ .indeterminate) :
    FinalizesAtomically opId result options around d ↔
      (options.releaseResourceLock = true → ExecutionDomain.Unfenced d) := by
  obtain ⟨s, hrecord, hop, hruns, howners, hepoch⟩ :=
    recorded_store h (boundResult (some op) result) true
  have hrecorded : (boundResult (some op) result).status ≠ .indeterminate := by
    rw [boundResult_status]
    exact hstatus
  have hunfenced : ExecutionDomain.Unfenced { d with store := s } ↔ ExecutionDomain.Unfenced d := by
    have hcongr := epochFencing_congr d.domainId howners hepoch
    constructor
    · exact fun hu => ⟨hu.notFenced, hcongr.symm.trans hu.currentEpoch, hu.named⟩
    · exact fun hu => ⟨hu.notFenced, hcongr.trans hu.currentEpoch, hu.named⟩
  unfold FinalizesAtomically
  rw [finalizeOperation_run h, if_neg hrecorded]
  unfold settleConfirmed
  simp only [run_bind, hrecord]
  cases hrelease : options.releaseResourceLock with
  | false =>
    simp only [onlyIf, Bool.false_eq_true, if_false, run_pure, false_implies, iff_true]
    exact ⟨_, hop, rfl, rfl, boundResult_status _ _⟩
  | true =>
    simp only [onlyIf, if_true, true_implies, run_bind]
    rw [← hunfenced]
    have hoperations := ExecutionDomain.release_operations opId options.requiredResources
      around.isCancelled around.elapsed around.now { d with store := s }
    have hafter : ∀ d' : ExecutionDomain, d'.store.db.operations = s.db.operations →
        d'.store.getOperation opId =
          some (finishedRow (boundResult (some op) result) op) := by
      intro d' hsame
      rw [← hop]
      unfold getOperation
      rw [hsame]
    rcases hrun : (internalReleaseResources opId options.requiredResources around.isCancelled
      around.elapsed around.now).run { d with store := s } with ⟨d', e | settled⟩
    · rw [hrun] at hoperations
      have hfenced : ¬ ExecutionDomain.Unfenced { d with store := s } := by
        intro hu
        obtain ⟨d'', settled, hreturns⟩ := ExecutionDomain.release_returns_iff.2 hu
        cases hreturns.symm.trans hrun
      simp only [hfenced, iff_false]
      exact not_sameRecords h (hafter d' hoperations)
    · rw [hrun] at hoperations
      have hopen := ExecutionDomain.release_returns_iff.1 ⟨d', settled, hrun⟩
      simp only [run_pure, hopen, iff_true]
      exact ⟨_, hafter d' hoperations, rfl, rfl, boundResult_status _ _⟩

/-- For every state and every result: `finalizeOperation` is all or nothing exactly when the store
    refuses the result, or will refuse nothing that follows. -/
theorem finalizesAtomically_iff (opId : String) (result : OperationResult)
    (options : FinalizeOptions) (around : Surroundings) (d : ExecutionDomain) :
    FinalizesAtomically opId result options around d ↔
      ((∃ op, Recordable opId d.store op) → Completes opId result options d) := by
  by_cases hrecordable : ∃ op, Recordable opId d.store op
  · rw [forall_prop_of_true hrecordable]
    obtain ⟨op, h⟩ := hrecordable
    by_cases hstatus : result.status = .indeterminate
    · rw [finalizes_indeterminate_iff h hstatus]
      constructor
      · refine fun hyields => ⟨fun _ op' run hop' hrun => ?_, fun hne => absurd hstatus hne⟩
        cases h.found.symm.trans hop'
        exact hyields run hrun
      · exact fun hc run hrun => hc.run hstatus op run h.found hrun
    · rw [finalizes_confirmed_iff h hstatus]
      exact ⟨fun hrelease => ⟨fun heq => absurd heq hstatus, fun _ => hrelease⟩,
        fun hc => hc.release hstatus⟩
  · refine iff_of_true ?_ fun hex => absurd hex hrecordable
    obtain ⟨e, hrun⟩ := finalizeOperation_refused (not_exists.1 hrecordable)
    unfold FinalizesAtomically
    rw [hrun]
    exact SameRecords.refl d

end Finalize

/-! ### A run that was cancelled while its process was being stopped -/

/-- A journal row of the domain `d` about the run `r`. -/
def sampleEvent (operationId : Option String) (type : String) : JournalRow where
  seq := 0
  domainId := "d"
  runId := some "r"
  operationId := operationId
  type := type
  payload := .obj []
  timestamp := 2
  schemaVersion := "xio/event/1.0"
  requestId := none
  programId := none
  instructionId := none
  opId := operationId
  event := type
  sensitivity := .internal
  createdAt := 2

/-- The process `o` has started, and its run has been reported cancelled. -/
def cancelledMeanwhile : ExecutionDomain where
  domainId := "d"
  epoch := 1
  store :=
    { currentEpoch := some 1
      db := { Database.sample with
        runs := ⟨[{ Run.sample with status := .cancelled }], by simp⟩
        operations := ⟨[{ intentRow (Operation.sample "o" ["res"]) "d" with
          status := .stopping }], by simp⟩
        journalEvents := (Journal.empty.append
          (sampleEvent (some "o") "OPERATION_INTENT_REGISTERED")).append
            (sampleEvent none "RUN_STATUS_TRANSITION") } }

/-- A stop that could not be confirmed. -/
def unconfirmedStop : IndeterminateResult :=
  { durationMs := 2, completedAt := 5, reason := "could not be confirmed stopped",
    recoveryGuidance := "Inspect system processes manually before releasing resources." }

/-- The run does not yield, so `finalizeOperation` throws after it has recorded the result. -/
theorem finalization_splits :
    ¬ FinalizesAtomically "o" (.indeterminate unconfirmedStop) { releaseResourceLock := false }
      ⟨fun _ => false, fun _ => 0, 5⟩ cancelledMeanwhile := by
  intro hatomic
  have hrecordable : Recordable "o" cancelledMeanwhile.store
      { intentRow (Operation.sample "o" ["res"]) "d" with status := .stopping } :=
    ⟨by decide, rfl, by decide, by decide, by decide, by decide⟩
  have hyields := (finalizes_indeterminate_iff hrecordable rfl).1 hatomic
    { Run.sample with status := .cancelled } rfl
  exact absurd (hyields.settled rfl) (by decide)

end XioFlow
