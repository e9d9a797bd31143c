/-
  XioFlow.Supervisor.RequestRuns

  The run that `quickRun` and `withRun` make for one request, until the promise
  of the call settles.

  The wrapper learns two things of its operation: what it returned or threw,
  and, in some branches, what the store says of the run by then.  Between the
  two lie all the calls of the store that the operation itself, its stop
  pipeline and everybody else make meanwhile.
-/

import XioFlow.Store.Terminal
import XioFlow.Supervisor.Finalize

namespace XioFlow

open Lib
open Lib.Prog
open ExecutionDomain (run_onStore)
open SqliteStore
open ExecutionDomain

namespace Supervisor

open SqliteStore (StoreCall EventRecorded)

/-! ## What a call returns -/

/-- What the promise of the wrapped operation resolves with. -/
inductive Returned where
  | result (result : OperationResult)
  /-- The transaction of `begin_transaction`, whose status is none of a result's. -/
  | transaction
  deriving DecidableEq

namespace Returned

def status? : Returned → Option ResultStatus
  | result r => some r.status
  | transaction => none

def terminationReason : Returned → Option TerminationReason
  | result r => r.terminationReason
  | transaction => none

end Returned

/-- What a wrapper throws. -/
inductive RequestError where
  /-- The operation's own error. -/
  | operation (e : KernelError)
  /-- `AggregateError`: the operation's error, and that of ending the run. -/
  | aggregate (e finalizeError : KernelError)
  /-- The operation has returned, and ending the run threw. -/
  | finalization (e : KernelError)
  deriving DecidableEq

/-! ## The two wrappers -/

inductive Wrapper where
  | quickRun | withRun
  deriving DecidableEq

/-- `reportRunSucceeded` and its siblings of the domain. -/
def domainReport (p : StoreM Unit) : DomainM Unit := do
  check assertNotFenced
  onStore p

/-- The reports go through the domain in `quickRun`, and to the store in `withRun`. -/
def Wrapper.report : Wrapper → StoreM Unit → DomainM Unit
  | quickRun, p => domainReport p
  | withRun, p => onStore p

/-- `store.getRun(runId)?.status !== 'indeterminate'` -/
def notIndeterminate (runId : String) (s : SqliteStore) : Bool :=
  (s.getRun runId).map Run.status ≠ some .indeterminate

/-- The `catch` of both wrappers: a run that is not indeterminate has failed. -/
def endRejected (wrapper : Wrapper) (runId : String) (now : Timestamp) : DomainM Unit := do
  let open? ← read fun d => notIndeterminate runId d.store
  onlyIf open? (wrapper.report (reportRunFailed runId .completed now))

/-- The end of `quickRun`, by the status of the result alone. -/
def quickRunEnd (runId : String) (returned : Returned) (now : Timestamp) : DomainM Unit :=
  match returned.status? with
  | some .succeeded => domainReport (reportRunSucceeded runId now)
  | some .failed => domainReport (reportRunFailed runId .completed now)
  | some .cancelled => domainReport (reportRunCancelled runId .userCancelled now)
  | _ => onStore (updateRunStatus runId .indeterminate returned.terminationReason
      (some now) now)

/-- The end of `withRun`, which looks at the run again. -/
def withRunEnd (runId : String) (returned : Returned) (now : Timestamp) : DomainM Unit := do
  let open? ← read fun d => notIndeterminate runId d.store
  if returned.status? = some .indeterminate then
    onlyIf open? (onStore (updateRunStatus runId .indeterminate
      returned.terminationReason none now))
  else onlyIf open? (onStore (reportRunSucceeded runId now))

def Wrapper.endReturned : Wrapper → String → Returned → Timestamp → DomainM Unit
  | quickRun => quickRunEnd
  | withRun => withRunEnd

/-- The rest of a wrapper once its operation has settled, and what it answers. -/
def Wrapper.settle (wrapper : Wrapper) (runId : String) (outcome : Except KernelError Returned)
    (now : Timestamp) (d : ExecutionDomain) : ExecutionDomain × Except RequestError Returned :=
  match outcome with
  | .error e =>
    match (endRejected wrapper runId now).run d with
    | (d', .ok _) => (d', .error (.operation e))
    | (d', .error finalizeError) => (d', .error (.aggregate e finalizeError))
  | .ok returned =>
    match (wrapper.endReturned runId returned now).run d with
    | (d', .ok _) => (d', .ok returned)
    | (d', .error e) => (d', .error (.finalization e))

/-! ## A request and everything that happens meanwhile -/

/-- A call of a wrapper and the domain it works on. -/
structure RequestRun where
  wrapper : Wrapper
  runId : String
  domain : ExecutionDomain
  /-- How the promise of the call has settled. -/
  answer : Option (Except RequestError Returned) := none

inductive RequestStep where
  /-- A call of the store, by the operation or by anybody else. -/
  | store (c : StoreCall)
  /-- `finalizeOperation`, by the execution or by its stop pipeline. -/
  | finalize (opId : String) (result : OperationResult) (options : FinalizeOptions)
      (around : Surroundings)
  /-- An event beside these, such as that of a replay or of an agent. -/
  | event (e : EventInput)
  /-- The promise of the operation settles. -/
  | settle (outcome : Except KernelError Returned) (now : Timestamp)

namespace RequestRun

def store (w : RequestRun) : SqliteStore := w.domain.store

variable [Crypto]

def after (step : RequestStep) (w : RequestRun) : RequestRun :=
  match step with
  | .store c => { w with domain := { w.domain with store := c.after w.store } }
  | .finalize opId result options around =>
    { w with domain := ((finalizeOperation opId result options around).run w.domain).1 }
  | .event e =>
    { w with domain := { w.domain with store := ((recordEvent e).run w.store).1 } }
  | .settle outcome now =>
    match w.answer with
    | some _ => w
    | none =>
      let r := w.wrapper.settle w.runId outcome now w.domain
      { w with domain := r.1, answer := some r.2 }

end RequestRun

/-- The run that a call makes for itself. -/
def Wrapper.newRun (wrapper : Wrapper) (runId taskId domainId : String) (now : Timestamp) : Run where
  id := runId
  taskId
  domainId
  owner := match wrapper with
    | quickRun => "quick-run"
    | withRun => "mcp"
  status := .running
  startedAt := now

/-- A call that has just saved its run, whose id nothing in the store had before. -/
structure RequestRun.Begun [Crypto] (w : RequestRun) (before : SqliteStore) : Prop where
  saved : ∃ taskId now, (saveRun
    (w.wrapper.newRun w.runId taskId w.domain.domainId now)).run before = (w.store, .ok ())
  run : before.getRun w.runId = none
  operations : ∀ opId op, before.getOperation opId = some op → op.runId ≠ w.runId
  agents : ∀ row ∈ before.db.journalEvents.rows, row.type = "AGENT_STATE" →
    row.runId ≠ some w.runId
  unanswered : w.answer = none

/-! ## What can happen -/

/-- The operation belongs to the run. -/
def OfRun (runId : String) (s : SqliteStore) (opId : String) : Prop :=
  ∃ op, s.getOperation opId = some op ∧ op.runId = runId

/-- What the kernel keeps to with the operations of a request, and everybody else with its run,
    whose id only the call knows. -/
def Permitted (runId domainId : String) (s : SqliteStore) : StoreCall → Prop
  | .registerOperationIntent op domainId' _ =>
    op.runId = runId → domainId' = domainId ∧ op.result = none
  | .recordPreIntentCancelledOperation op domainId' result =>
    op.runId = runId → domainId' = domainId ∧ result.status = .cancelled
  | .updateOperationStatus opId status _ _ _ =>
    ∀ op, s.getOperation opId = some op → op.runId = runId → status = .done → op.status = .done
  | .recordOperationResult opId result _ =>
    -- An indeterminate result goes through `finalizeOperation`, which takes the run along.
    OfRun runId s opId → result.status ≠ .indeterminate
  | .updateOperationResult opId result =>
    -- An adjudication adds itself to the result that is there.
    ∀ op, s.getOperation opId = some op → op.runId = runId →
      ∃ old, op.result = some old ∧ old.status = result.status
  | .updateRecoveryEvidence _ _ => True
  | .saveRun run => run.id ≠ runId
  | .updateRunStatus runId' _ _ _ _ => runId' ≠ runId
  | .reportRunSucceeded runId' _ => runId' ≠ runId
  | .reportRunFailed runId' _ _ => runId' ≠ runId
  | .reportRunCancelled runId' _ _ => runId' ≠ runId

/-- What the operation returns is the result of the operation that the run owns; with none of its
    own it is that of an operation of another run. -/
def Answers (runId : String) (s : SqliteStore) (returned : Returned) : Prop :=
  ∀ opId op, s.getOperation opId = some op → op.runId = runId →
    ∃ result, op.result = some result ∧
      match returned with
      | .result r => r.status = result.status
      | .transaction => result.status ≠ .indeterminate

/-- `quickRun` executes processes: it is given a process result or an indeterminate one. -/
def Wrapper.takes : Wrapper → Returned → Prop
  | .quickRun, .result (.process _) => True
  | .quickRun, .result (.indeterminate _) => True
  | .quickRun, _ => False
  | .withRun, _ => True

namespace RequestRun

def Possible (w : RequestRun) : RequestStep → Prop
  | .store c => Permitted w.runId w.domain.domainId w.store c
  | .finalize .. => True
  | .event e => e.eventName = "AGENT_STATE" → e.runId ≠ some w.runId
  | .settle outcome _ =>
    -- The store is still writable.
    ExecutionDomain.Unfenced w.domain ∧ ∀ returned, outcome = .ok returned →
      w.wrapper.takes returned ∧ Answers w.runId w.store returned

/-- No stop begins on a finished operation of the run, whose status it would write over. -/
def Undisturbed (w : RequestRun) : RequestStep → Prop
  | .store c => match c with
    | .updateOperationStatus opId _ _ _ _ => c.reopens w.store → ¬ OfRun w.runId w.store opId
    | _ => True
  | _ => True

/-! ## What is claimed -/

/-- The run owns an operation whose outcome is unknown. -/
def OwnsIndeterminate (runId : String) (s : SqliteStore) : Prop :=
  ∃ opId op result, s.getOperation opId = some op ∧ op.runId = runId ∧ op.result = some result ∧
    result.status = .indeterminate

/-- The result of the operation, or its own error. -/
def passedOn : Except KernelError Returned → Except RequestError Returned
  | .ok returned => .ok returned
  | .error e => .error (.operation e)

/-- The call has settled, and its run with it. -/
structure Settled (w w' : RequestRun) (outcome : Except KernelError Returned) : Prop where
  answer : w'.answer = some (passedOn outcome)
  run : ∃ run, w'.store.getRun w.runId = some run ∧ run.status.terminal = true ∧
    (run.status = .indeterminate ↔
      (∃ returned, outcome = .ok returned ∧ returned.status? = some .indeterminate) ∨
        OwnsIndeterminate w.runId w'.store)

/-- The step is one of the call or about one of its operations. -/
def Concerns (w : RequestRun) : RequestStep → Prop
  | .store c => match c with
    | .registerOperationIntent op _ _ => op.runId = w.runId
    | .recordPreIntentCancelledOperation op _ _ => op.runId = w.runId
    | .updateOperationStatus opId _ _ _ _ => OfRun w.runId w.store opId
    | .recordOperationResult opId _ _ => OfRun w.runId w.store opId
    | .updateOperationResult opId _ => OfRun w.runId w.store opId
    | .updateRecoveryEvidence opId _ => OfRun w.runId w.store opId
    | .saveRun run => run.id = w.runId
    | .updateRunStatus runId _ _ _ _ => runId = w.runId
    | .reportRunSucceeded runId _ => runId = w.runId
    | .reportRunFailed runId _ _ => runId = w.runId
    | .reportRunCancelled runId _ _ => runId = w.runId
  | .finalize opId _ _ _ => OfRun w.runId w.store opId
  | .event _ => False
  | .settle _ _ => w.answer = none

variable [Crypto]

/-- Steps about the request leave the other runs alone, and the last one ends its own. -/
def Settles (w : RequestRun) (step : RequestStep) : Prop :=
  (w.Concerns step → ∀ runId, runId ≠ w.runId →
    (after step w).store.getRun runId = w.store.getRun runId) ∧
  ∀ outcome now, step = .settle outcome now → w.answer = none →
    Settled w (after step w) outcome

end RequestRun

/-! ## What leaves runs and operations alone -/

/-- Runs and operations are as they were, and no new event is one of an agent of the run. -/
structure Beside (runId : String) (s s' : SqliteStore) : Prop where
  operations : s'.db.operations = s.db.operations
  runs : s'.db.runs = s.db.runs
  events : ∀ row ∈ s'.db.journalEvents.rows, row ∈ s.db.journalEvents.rows ∨
    (row.type = "AGENT_STATE" → row.runId ≠ some runId)

section Beside

variable {runId : String}

theorem Beside.refl (s : SqliteStore) : Beside runId s s := ⟨rfl, rfl, fun _ h => .inl h⟩

theorem Beside.trans (a b c : SqliteStore) (hab : Beside runId a b) (hbc : Beside runId b c) :
    Beside runId a c where
  operations := hbc.operations.trans hab.operations
  runs := hbc.runs.trans hab.runs
  events := fun row hrow => (hbc.events row hrow).elim (hab.events row) .inr

variable {s' : SqliteStore}

variable {s : SqliteStore} {e : EventInput}

/-- A table of its own may change beside. -/
theorem beside_of_db (hoperations : s'.db.operations = s.db.operations)
    (hruns : s'.db.runs = s.db.runs) (hjournal : s'.db.journalEvents = s.db.journalEvents) :
    Beside runId s s' :=
  ⟨hoperations, hruns, fun _ h => .inl (hjournal ▸ h)⟩

/-- An event that is not one of an agent of the run. -/
theorem beside_appendEvent {envelope : EventEnvelope}
    (hagent : e.eventName = "AGENT_STATE" → e.runId ≠ some runId)
    (henv : e.envelope = .ok envelope) (s : SqliteStore) :
    Beside runId s (appendEvent (eventRow e envelope) s) := by
  refine ⟨rfl, rfl, fun row hrow => ?_⟩
  rcases List.mem_append.1 hrow with hold | hnew
  · exact .inl hold
  · right
    obtain rfl := List.mem_singleton.1 hnew
    intro htype hrun
    have hname : envelope.event = e.eventName := (createEventEnvelope_ok henv).2.1
    refine hagent (hname.symm.trans htype) ?_
    have hrun : nonEmpty e.runId = some runId := hrun
    cases hgiven : e.runId with
    | none =>
      rw [hgiven] at hrun
      cases hrun
    | some =>
      rw [hgiven] at hrun
      rw [(nonEmpty_some_eq hrun).2]

theorem beside_of_recorded (h : EventRecorded e s s')
    (hagent : e.eventName = "AGENT_STATE" → e.runId ≠ some runId) : Beside runId s s' := by
  obtain ⟨envelope, henv, rfl⟩ := h.appended
  exact beside_appendEvent hagent henv s

/-- Of all events only `AGENT_STATE` is one of an agent. -/
theorem beside_of_named (h : EventRecorded e s s') (name : String) (hname : e.eventName = name)
    (hne : name ≠ "AGENT_STATE") : Beside runId s s' :=
  beside_of_recorded h fun htype => absurd (hname.symm.trans htype) hne

theorem blocks_recordEvent (hagent : e.eventName = "AGENT_STATE" → e.runId ≠ some runId) :
    Blocks (Beside runId) (recordEvent e) :=
  (blocks_recordEventAndTransitionState Beside.refl fun s _ henv =>
    beside_appendEvent hagent henv s).bind fun _ => blocks_pure ()

/-- A release takes locks and leases away and records one event. -/
theorem beside_release (operationId : String) (resources : List String)
    (isCancelled : Waiter → Bool) (elapsed : Waiter → Nat) (now : Timestamp)
    (d : ExecutionDomain) :
    ((internalReleaseResources operationId resources
        isCancelled elapsed now).run d).1.domainId = d.domainId ∧
      Beside runId d.store ((internalReleaseResources operationId resources
        isCancelled elapsed now).run d).1.store := by
  let R (d d' : ExecutionDomain) : Prop :=
    d'.domainId = d.domainId ∧ Beside runId d.store d'.store
  have hrefl : ∀ d, R d d := fun d => ⟨rfl, Beside.refl d.store⟩
  have htrans : ∀ a b c, R a b → R b c → R a c := fun a b c hab hbc =>
    ⟨hbc.1.trans hab.1, Beside.trans a.store b.store c.store hab.2 hbc.2⟩
  have hreleased : ∀ d d' : ExecutionDomain, ExecutionDomain.Released operationId d d' → R d d' := by
    intro d d' hrel
    obtain ⟨leases, hdb, -⟩ := hrel.db
    exact ⟨hrel.domainId, beside_of_db (by rw [hdb]) (by rw [hdb]) (by rw [hdb])⟩
  have hstore : ∀ {α : Type} {p : StoreM α}, Blocks (Beside runId) p → Blocks R (onStore p) :=
    fun hp => hp.within fun d s hs => ⟨rfl, hs⟩
  refine Blocks.run (R := R) hrefl htrans ?_ d
  unfold internalReleaseResources
  refine (blocks_check hrefl _).bind fun _ => (blocks_read hrefl _).bind fun d₀ => ?_
  refine (hstore (blocks_check Beside.refl _)).bind fun _ => ?_
  refine (blocks_block fun d d' released heq => ?_).bind fun released => ?_
  · have hafter := congrArg Prod.fst (Except.ok.inj heq)
    subst hafter
    exact hreleased _ _ (releaseLocks_effect operationId resources d).1
  refine (blocks_modify fun d => hreleased _ _ (released_forgetIdle _ d)).bind
    fun _ => (hstore (blocks_recordEvent fun htype => ?_)).bind fun _ => ?_
  · exact absurd (show "RESOURCES_RELEASED" = "AGENT_STATE" from htype) (by decide)
  · refine blocks_block fun d d' settled heq => ?_
    have hafter := congrArg Prod.fst (Except.ok.inj heq)
    subst hafter
    obtain ⟨hdomain, hsame, -⟩ :=
      processWaitQueue_keeps isCancelled elapsed d
    refine ⟨hdomain, ?_⟩
    show Beside runId d.store (processWaitQueue isCancelled elapsed d).1.store
    rw [hsame]
    exact Beside.refl d.store

end Beside

/-! ## The invariant -/

/-- The outcome of the operation is unknown. -/
def Unknown (op : StoredOperation) : Prop :=
  ∃ result, op.result = some result ∧ result.status = .indeterminate

/-- Until its call settles, the run is open, or indeterminate with an operation of its own whose
    outcome is unknown; and an operation with a result is done. -/
structure Owned (runId domainId : String) (s : SqliteStore) : Prop where
  run : ∃ run, s.getRun runId = some run ∧ run.domainId = domainId ∧
    (run.status.terminal = true → run.status = .indeterminate) ∧
    (run.status = .indeterminate ↔ RequestRun.OwnsIndeterminate runId s)
  operations : ∀ opId op, s.getOperation opId = some op → op.runId = runId →
    op.domainId = domainId ∧ (op.result.isSome = true → op.status = .done)
  agents : ∀ row ∈ s.db.journalEvents.rows, row.type = "AGENT_STATE" → row.runId ≠ some runId

namespace Owned

variable {runId domainId : String} {s s' : SqliteStore}

/-- The row of another run, or of this one with its status, may be written. -/
theorem of_runs (h : Owned runId domainId s)
    (hoperations : s'.db.operations = s.db.operations)
    (hruns : ∀ run, s.getRun runId = some run → ∃ run', s'.getRun runId = some run' ∧
      run'.domainId = run.domainId ∧ run'.status = run.status)
    (hevents : ∀ row ∈ s'.db.journalEvents.rows, row ∈ s.db.journalEvents.rows ∨
      (row.type = "AGENT_STATE" → row.runId ≠ some runId)) : Owned runId domainId s' := by
  have hget : ∀ opId, s'.getOperation opId = s.getOperation opId := by
    intro opId
    unfold getOperation
    rw [hoperations]
  obtain ⟨run, hrun, hdomain, hterminal, hknown⟩ := h.run
  obtain ⟨run', hrun', hdomain', hstatus'⟩ := hruns run hrun
  refine ⟨⟨run', hrun', hdomain'.trans hdomain, ?_, ?_⟩, ?_, ?_⟩
  · rw [hstatus']
    exact hterminal
  · rw [hstatus', hknown]
    unfold RequestRun.OwnsIndeterminate
    simp only [hget]
  · intro opId op hop
    rw [hget] at hop
    exact h.operations opId op hop
  · exact fun row hrow => (hevents row hrow).elim (h.agents row) id

theorem beside (h : Owned runId domainId s) (hbeside : Beside runId s s') :
    Owned runId domainId s' := by
  refine h.of_runs hbeside.operations (fun run hrun => ⟨run, ?_, rfl, rfl⟩) hbeside.events
  exact (getRun_congr hbeside.runs runId).trans hrun

/-- One row of the operations may be written that keeps its run, its domain and whether its
    outcome is unknown. -/
theorem of_operation (h : Owned runId domainId s) {opId : String}
    {f : StoredOperation → StoredOperation} (hkey : ∀ op, (f op).id = op.id)
    (hoperations : s'.db.operations = s.db.operations.update opId f hkey)
    (hruns : s'.db.runs = s.db.runs) (hjournal : s'.db.journalEvents = s.db.journalEvents)
    (hrow : ∀ op, (f op).runId = op.runId ∧ (f op).domainId = op.domainId)
    (hown : ∀ op, s.getOperation opId = some op → op.runId = runId →
      ((f op).result.isSome = true → (f op).status = .done) ∧ (Unknown (f op) ↔ Unknown op)) :
    Owned runId domainId s' := by
  have hget : ∀ opId', s'.getOperation opId' =
      if opId' = opId then (s.getOperation opId').map f else s.getOperation opId' := by
    intro opId'
    unfold getOperation
    rw [hoperations, Table.get?_update]
  obtain ⟨run, hrun, hdomain, hterminal, hknown⟩ := h.run
  have hrun' : s'.getRun runId = some run := (getRun_congr hruns runId).trans hrun
  refine ⟨⟨run, hrun', hdomain, hterminal, hknown.trans ⟨?_, ?_⟩⟩, ?_, ?_⟩
  · rintro ⟨opId', op, result, hop, hrunId, hresult, hstatus⟩
    by_cases hsame : opId' = opId
    · subst hsame
      obtain ⟨result', hresult', hstatus'⟩ := ((hown op hop hrunId).2).2 ⟨result, hresult, hstatus⟩
      refine ⟨opId', f op, result', ?_, (hrow op).1.trans hrunId, hresult', hstatus'⟩
      rw [hget, if_pos rfl, hop, Option.map_some]
    · refine ⟨opId', op, result, ?_, hrunId, hresult, hstatus⟩
      rw [hget, if_neg hsame, hop]
  · rintro ⟨opId', op', result, hop', hrunId, hresult, hstatus⟩
    rw [hget] at hop'
    split at hop'
    · rename_i hsame
      subst hsame
      obtain ⟨op, hop, rfl⟩ := Option.map_eq_some_iff.1 hop'
      have hrunId' := (hrow op).1.symm.trans hrunId
      obtain ⟨old, hold, hstatus'⟩ := ((hown op hop hrunId').2).1 ⟨result, hresult, hstatus⟩
      exact ⟨opId', op, old, hop, hrunId', hold, hstatus'⟩
    · exact ⟨opId', op', result, hop', hrunId, hresult, hstatus⟩
  · intro opId' op' hop' hrunId
    rw [hget] at hop'
    split at hop'
    · rename_i hsame
      subst hsame
      obtain ⟨op, hop, rfl⟩ := Option.map_eq_some_iff.1 hop'
      have hrunId' := (hrow op).1.symm.trans hrunId
      exact ⟨(hrow op).2.trans (h.operations opId' op hop hrunId').1, (hown op hop hrunId').1⟩
    · exact h.operations opId' op' hop' hrunId
  · rw [hjournal]
    exact h.agents

/-- A new row of the run belongs to its domain and has no unknown outcome. -/
theorem of_insert (h : Owned runId domainId s) {row : StoredOperation}
    {operations : Table StoredOperation fun row => row.id}
    (hinsert : s.db.operations.insert? row = some operations)
    (hoperations : s'.db.operations = operations) (hruns : s'.db.runs = s.db.runs)
    (hjournal : s'.db.journalEvents = s.db.journalEvents)
    (hrow : row.runId = runId → row.domainId = domainId ∧
      (row.result.isSome = true → row.status = .done) ∧ ¬ Unknown row) :
    Owned runId domainId s' := by
  have hget : ∀ opId, s'.getOperation opId =
      if row.id = opId then some row else s.getOperation opId := by
    intro opId
    unfold getOperation
    rw [hoperations, Table.get?_insert? hinsert]
  have hnone : s.getOperation row.id = none := (Table.insert?_eq_some hinsert).1
  obtain ⟨run, hrun, hdomain, hterminal, hknown⟩ := h.run
  have hrun' : s'.getRun runId = some run := (getRun_congr hruns runId).trans hrun
  refine ⟨⟨run, hrun', hdomain, hterminal, hknown.trans ⟨?_, ?_⟩⟩, ?_, ?_⟩
  · rintro ⟨opId, op, result, hop, hrunId, hresult⟩
    refine ⟨opId, op, result, ?_, hrunId, hresult⟩
    rw [hget, if_neg, hop]
    rintro rfl
    rw [hnone] at hop
    cases hop
  · rintro ⟨opId, op, result, hop, hrunId, hresult⟩
    rw [hget] at hop
    split at hop
    · obtain rfl := Option.some.inj hop
      exact absurd ⟨result, hresult⟩ (hrow hrunId).2.2
    · exact ⟨opId, op, result, hop, hrunId, hresult⟩
  · intro opId op hop hrunId
    rw [hget] at hop
    split at hop
    · obtain rfl := Option.some.inj hop
      exact ⟨(hrow hrunId).1, (hrow hrunId).2.1⟩
    · exact h.operations opId op hop hrunId
  · rw [hjournal]
    exact h.agents

/-- The run and one of its operations have become indeterminate together. -/
theorem of_unknown (h : Owned runId domainId s) {opId : String} {op : StoredOperation}
    (hop : s.getOperation opId = some op) (hrunId : op.runId = runId)
    {f : StoredOperation → StoredOperation} (hkey : ∀ op, (f op).id = op.id)
    (hoperations : s'.db.operations = s.db.operations.update opId f hkey)
    (hsame : (f op).runId = op.runId ∧ (f op).domainId = op.domainId)
    (hdone : (f op).status = .done) (hunknown : Unknown (f op))
    (hruns : ∃ run, s'.getRun runId = some run ∧ run.domainId = domainId ∧
      run.status = .indeterminate)
    (hevents : ∀ row ∈ s'.db.journalEvents.rows, row ∈ s.db.journalEvents.rows ∨
      (row.type = "AGENT_STATE" → row.runId ≠ some runId)) : Owned runId domainId s' := by
  have hget : ∀ opId', s'.getOperation opId' =
      if opId' = opId then (s.getOperation opId').map f else s.getOperation opId' := by
    intro opId'
    unfold getOperation
    rw [hoperations, Table.get?_update]
  have hown : s'.getOperation opId = some (f op) := by
    rw [hget, if_pos rfl, hop, Option.map_some]
  obtain ⟨run, hrun, hdomain, hstatus⟩ := hruns
  obtain ⟨result, hresult, hindeterminate⟩ := hunknown
  refine ⟨⟨run, hrun, hdomain, fun _ => hstatus, fun _ => ?_, fun _ => hstatus⟩, ?_, ?_⟩
  · exact ⟨opId, f op, result, hown, hsame.1.trans hrunId, hresult, hindeterminate⟩
  · intro opId' op' hop' hrunId'
    by_cases heq : opId' = opId
    · subst heq
      obtain rfl := Option.some.inj (hown.symm.trans hop')
      exact ⟨hsame.2.trans (h.operations opId' op hop hrunId).1, fun _ => hdone⟩
    · rw [hget, if_neg heq] at hop'
      exact h.operations opId' op' hop' hrunId'
  · exact fun row hrow => (hevents row hrow).elim (h.agents row) id

end Owned

/-! ## One call of the store -/

section StoreCalls

variable {runId domainId : String} {s s' : SqliteStore}

/-- The status of another run. -/
theorem owned_updateRunStatus (h : Owned runId domainId s) {runId' : String}
    (hother : runId' ≠ runId) {status : KernelRunStatus} {reason : Option TerminationReason}
    {endedAt : Option Timestamp} {now : Timestamp}
    (hrun : (updateRunStatus runId' status reason endedAt now).run s = (s', .ok ())) :
    Owned runId domainId s' := by
  rcases updateRunStatus_ok hrun with
    ⟨-, rfl⟩ | ⟨run', hrun', -, ⟨-, -, rfl⟩ | ⟨-, hrec⟩⟩
  · exact h
  · exact h
  · have hset : Owned runId domainId
        (setRunStatus runId' status reason endedAt s) := by
      refine h.of_runs rfl (fun run hrun => ⟨run, ?_, rfl, rfl⟩) fun _ => .inl
      rw [getRun_setRunStatus, if_neg (Ne.symm hother), hrun]
    exact hset.beside (beside_of_named hrec "RUN_STATUS_TRANSITION" rfl (by decide))

theorem owned_reported (h : Owned runId domainId s) {runId' : String} (hother : runId' ≠ runId)
    (hreported : Reported runId' s s') : Owned runId domainId s' := by
  rcases hreported with rfl | ⟨status, reason, now, -, -, hrun⟩
  · exact h
  · exact owned_updateRunStatus h hother hrun

theorem owned_saveRun [Crypto] (h : Owned runId domainId s) {run : Run} (hother : run.id ≠ runId)
    (hrun : (saveRun run).run s = (s', .ok ())) : Owned runId domainId s' := by
  obtain ⟨-, -, hupsert⟩ := saveRun_ok hrun
  unfold upsertRun at hupsert
  split at hupsert
  · rename_i runs hins
    split at hupsert
    · cases hupsert
    · obtain rfl := Except.ok.inj hupsert
      refine h.of_runs rfl (fun run' hrun' => ⟨run', ?_, rfl, rfl⟩) fun _ => .inl
      unfold getRun at hrun' ⊢
      simp only [withDb_db]
      rw [Table.get?_insert? hins, if_neg, hrun']
      exact hother
  · obtain rfl := Except.ok.inj hupsert
    refine h.of_runs rfl (fun run' hrun' => ⟨run', ?_, rfl, rfl⟩) fun _ => .inl
    unfold getRun at hrun' ⊢
    simp only [withDb_db]
    rw [Table.get?_update, if_neg (Ne.symm hother), hrun']

variable {opId : String}

/-- A status is written over that of an operation that has no result yet, or stays `done`. -/
theorem owned_updateOperationStatus (h : Owned runId domainId s) {status : OperationStatus}
    {identity : Option ProcessIdentity} {outputRef : Option String} {now : Timestamp}
    (hundisturbed : StoreCall.reopens s (.updateOperationStatus opId status identity outputRef
      now) → ¬ OfRun runId s opId)
    (hrun : (updateOperationStatus opId status identity outputRef now).run s = (s', .ok ())) :
    Owned runId domainId s' := by
  have hkept : ∀ op, s.getOperation opId = some op → op.runId = runId → op.status = .done →
      status = .done := by
    intro op hop hrunId hdone
    have hkeeps := terminalKept_updateOperationStatus hrun fun hreopens =>
      hundisturbed hreopens ⟨op, hop, hrunId⟩
    obtain ⟨op', hop', hdone', -⟩ := hkeeps.done opId op hop hdone
    rcases updateOperationStatus_ok hrun with ⟨hnone, -⟩ | ⟨_, -, -, hrec⟩
    · rw [hop] at hnone
      cases hnone
    · rw [hrec.getOperation_eq, getOperation_setOperationStatus, if_pos rfl, hop] at hop'
      obtain rfl := Option.some.inj hop'
      exact hdone'
  rcases updateOperationStatus_ok hrun with ⟨-, rfl⟩ | ⟨op₀, -, -, hrec⟩
  · exact h
  · have hset : Owned runId domainId
        (setOperationStatus opId status identity outputRef now s) := by
      refine h.of_operation (statusRow_id status identity outputRef now) rfl rfl rfl
        (fun _ => ⟨rfl, rfl⟩) fun op hop hrunId => ⟨fun hsome => ?_, Iff.rfl⟩
      exact hkept op hop hrunId ((h.operations opId op hop hrunId).2 hsome)
    exact hset.beside (beside_of_named hrec "OPERATION_STATUS_TRANSITION" rfl (by decide))

/-- Only a result that is known is recorded by itself. -/
theorem owned_recordOperationResult (h : Owned runId domainId s) {result : OperationResult}
    {releaseResources : Bool} (hknown : OfRun runId s opId → result.status ≠ .indeterminate)
    (hrun : (recordOperationResult opId result releaseResources).run s = (s', .ok ())) :
    Owned runId domainId s' := by
  obtain ⟨op₀, hop₀, -, hundone, -, -, hrec⟩ := (recordOperationResult_ok hrun).found
  have hset : Owned runId domainId (settleLeases opId result releaseResources
      (finishOperation opId result s)) := by
    have hleases : (settleLeases opId result releaseResources
        (finishOperation opId result s)).db.operations =
          (finishOperation opId result s).db.operations := by
      unfold settleLeases
      split <;> rfl
    refine h.of_operation (finishedRow_id result) hleases
      (settleLeases_runs ..) (settleLeases_journalEvents ..)
      (fun _ => ⟨rfl, rfl⟩) fun op hop hrunId => ⟨fun _ => rfl, ?_⟩
    -- The operation was not done, so it had no result before.
    obtain rfl := Option.some.inj (hop₀.symm.trans hop)
    constructor
    · rintro ⟨result', hresult', hstatus⟩
      obtain rfl := Option.some.inj hresult'
      exact absurd hstatus (hknown ⟨op₀, hop, hrunId⟩)
    · rintro ⟨result', hresult', -⟩
      exact absurd ((h.operations opId op₀ hop hrunId).2 (by rw [hresult']; rfl)) hundone
  exact hset.beside (beside_of_named hrec "OPERATION_RESULT_RECORDED" rfl (by decide))

theorem owned_updateOperationResult (h : Owned runId domainId s) {result : OperationResult}
    (hsame : ∀ op, s.getOperation opId = some op → op.runId = runId →
      ∃ old, op.result = some old ∧ old.status = result.status)
    (hrun : (updateOperationResult opId result).run s = (s', .ok ())) :
    Owned runId domainId s' := by
  obtain ⟨op₀, -, -, rfl⟩ := updateOperationResult_ok hrun
  refine h.of_operation (resultRow_id result) rfl rfl rfl (fun _ => ⟨rfl, rfl⟩)
    fun op hop hrunId => ?_
  obtain ⟨old, hold, hstatus⟩ := hsame op hop hrunId
  refine ⟨fun _ => (h.operations opId op hop hrunId).2 (by rw [hold]; rfl), ?_, ?_⟩
  · rintro ⟨result', hresult', hindeterminate⟩
    obtain rfl := Option.some.inj hresult'
    exact ⟨old, hold, hstatus.trans hindeterminate⟩
  · rintro ⟨old', hold', hindeterminate⟩
    obtain rfl := Option.some.inj (hold.symm.trans hold')
    exact ⟨result, rfl, hstatus.symm.trans hindeterminate⟩

/-- Whatever is called meanwhile keeps the invariant, whether it returns or throws. -/
theorem owned_after [Crypto] (h : Owned runId domainId s) {c : StoreCall}
    (hpermitted : Permitted runId domainId s c)
    (hundisturbed : ∀ opId, c.reopens s → (∃ status identity outputRef now,
      c = .updateOperationStatus opId status identity outputRef now) → ¬ OfRun runId s opId) :
    Owned runId domainId (c.after s) := by
  rcases c.throws_or_returns s with hthrows | hrun
  · rw [StoreCall.after_of_throws hthrows]
    exact h
  cases c with
  | registerOperationIntent op domainId' =>
    obtain ⟨operations, leases, hins, -, hrec⟩ :=
      (registerOperationIntent_ok hrun).effect
    refine Owned.beside ?_ (beside_of_named hrec "OPERATION_INTENT_REGISTERED" rfl (by decide))
    refine h.of_insert hins rfl rfl rfl fun hrunId => ?_
    obtain ⟨hdomain, hnone⟩ := hpermitted hrunId
    refine ⟨hdomain, fun hsome => ?_, ?_⟩
    · rw [show (intentRow op domainId').result = none from hnone] at hsome
      cases hsome
    · rintro ⟨result, hresult, -⟩
      cases (show (intentRow op domainId').result = none from hnone).symm.trans hresult
  | recordPreIntentCancelledOperation =>
    obtain ⟨-, -, operations, hins, hrec⟩ :=
      recordPreIntentCancelledOperation_ok hrun
    refine Owned.beside ?_ (beside_of_named hrec "OPERATION_RESULT_RECORDED" rfl (by decide))
    refine h.of_insert hins rfl rfl rfl fun hrunId => ?_
    obtain ⟨hdomain, hcancelled⟩ := hpermitted hrunId
    refine ⟨hdomain, fun _ => rfl, ?_⟩
    rintro ⟨result', hresult', hindeterminate⟩
    obtain rfl := Option.some.inj hresult'
    rw [hcancelled] at hindeterminate
    cases hindeterminate
  | updateOperationStatus opId =>
    exact owned_updateOperationStatus h
      (fun hreopens => hundisturbed opId hreopens ⟨_, _, _, _, rfl⟩) hrun
  | recordOperationResult =>
    exact owned_recordOperationResult h hpermitted hrun
  | updateOperationResult => exact owned_updateOperationResult h hpermitted hrun
  | updateRecoveryEvidence opId =>
    obtain ⟨op₀, -, -, hsame | ⟨evidence, hupdate⟩⟩ := updateRecoveryEvidence_ok hrun
    · rw [hsame]
      exact h
    · rw [hupdate]
      exact h.of_operation (evidenceRow_id evidence) rfl rfl rfl
        (fun _ => ⟨rfl, rfl⟩)
        fun op hop hrunId => ⟨(h.operations opId op hop hrunId).2, Iff.rfl⟩
  | saveRun => exact owned_saveRun h hpermitted hrun
  | updateRunStatus => exact owned_updateRunStatus h hpermitted hrun
  | reportRunSucceeded =>
    exact owned_reported h hpermitted (reportRunSucceeded_ok hrun).2
  | reportRunFailed => exact owned_reported h hpermitted (reportRunFailed_ok hrun).2
  | reportRunCancelled =>
    exact owned_reported h hpermitted (reportRunCancelled_ok hrun).2

end StoreCalls

/-! ## Finalizing an operation -/

section Finalize

variable {runId domainId opId : String} {result : OperationResult} {options : FinalizeOptions}
  {around : Surroundings} {d : ExecutionDomain} {s s₁ : SqliteStore}

theorem of_onStore_ok {p : StoreM Unit}
    (h : (onStore p).run d = ({ d with store := s }, .ok ())) : p.run d.store = (s, .ok ()) := by
  rw [run_onStore] at h
  rcases hp : p.run d.store with ⟨s', e | u⟩
  · rw [hp] at h
    cases h
  · rw [hp] at h
    cases h
    rfl

theorem recordOperationResult_getRun {releaseResources : Bool}
    (h : (recordOperationResult opId result releaseResources).run s = (s₁, .ok ()))
    (runId : String) : s₁.getRun runId = s.getRun runId := by
  obtain ⟨op, -, -, -, -, -, hrecorded⟩ := (recordOperationResult_ok h).found
  rw [hrecorded.getRun_eq]
  unfold getRun
  rw [settleLeases_runs]
  rfl

/-- A transition, whether it returns or throws, is one of the run it names. -/
theorem updateRunStatus_others {runId' : String} (hother : runId' ≠ runId)
    {status : KernelRunStatus} {reason : Option TerminationReason} {endedAt : Option Timestamp}
    {now : Timestamp} :
    ((updateRunStatus runId status reason endedAt now).run s).1.getRun runId' =
      s.getRun runId' := by
  rcases hrun : (updateRunStatus runId status reason endedAt now).run s with
    ⟨s', e | u⟩
  · have hatomic : Atomic (updateRunStatus runId status reason endedAt now) :=
      atomic_transaction _
    rw [hatomic s s' e hrun]
  · rcases updateRunStatus_ok hrun with
      ⟨-, rfl⟩ | ⟨run', hrun', -, ⟨-, -, rfl⟩ | ⟨-, hrec⟩⟩
    · rfl
    · rfl
    · rw [hrec.getRun_eq, getRun_setRunStatus, if_neg hother]

/-- An operation that can be finalized has its result recorded; then its run is marked, or its
    resources are given back. -/
theorem finalize_cases [Crypto] {op : StoredOperation}
    (hrec : Recordable opId d.store op) :
    ((finalizeOperation opId result options around).run d).1.domainId = d.domainId ∧
    ∃ s₁ releaseResources,
      (recordOperationResult opId (boundResult (some op) result)
        releaseResources).run d.store = (s₁, .ok ()) ∧
      (((boundResult (some op) result).status = .indeterminate ∧
          ((finalizeOperation opId result options around).run d).1.store =
            ((updateRunStatus op.runId .indeterminate
              (boundResult (some op) result).terminationReason none around.now).run s₁).1) ∨
        ((boundResult (some op) result).status ≠ .indeterminate ∧
          ∀ runId, Beside runId s₁
            ((finalizeOperation opId result options around).run d).1.store)) := by
  have hstate : ((finalizeOperation opId result options around).run d).1 =
      ((if (boundResult (some op) result).status = .indeterminate then
          settleIndeterminate opId (boundResult (some op) result) around
        else settleConfirmed opId (boundResult (some op) result) options around).run d).1 := by
    rw [finalizeOperation_run hrec]
    split <;> simp_all
  rw [hstate]
  by_cases hunknown : (boundResult (some op) result).status = .indeterminate
  · obtain ⟨s₁, hrecord, hop, -, -, -⟩ :=
      recorded_store hrec (boundResult (some op) result) false
    have hmark : (settleIndeterminate opId (boundResult (some op) result) around).run d =
        (onStore (updateRunStatus op.runId .indeterminate
          (boundResult (some op) result).terminationReason none around.now)).run
            { d with store := s₁ } := by
      unfold settleIndeterminate markRunIndeterminate
      simp only [run_bind, hrecord, run_onStore, run_read, hop]
      rfl
    rw [if_pos hunknown, hmark, run_onStore]
    exact ⟨rfl, s₁, false, of_onStore_ok hrecord, .inl ⟨hunknown, rfl⟩⟩
  · obtain ⟨s₁, hrecord, -, -, -, -⟩ :=
      recorded_store hrec (boundResult (some op) result) true
    have hend : ∀ runId, ((settleConfirmed opId (boundResult (some op) result) options
        around).run d).1.domainId = d.domainId ∧ Beside runId s₁ ((settleConfirmed opId
          (boundResult (some op) result) options around).run d).1.store := by
      intro runId
      unfold settleConfirmed
      simp only [run_bind, hrecord]
      cases options.releaseResourceLock with
      | false =>
        simp only [onlyIf, Bool.false_eq_true, if_false, run_pure]
        exact ⟨trivial, Beside.refl s₁⟩
      | true =>
        simp only [onlyIf, if_true, run_bind]
        have hrelease := @beside_release runId opId options.requiredResources
          around.isCancelled around.elapsed around.now { d with store := s₁ }
        rcases hreleased : (internalReleaseResources opId
          options.requiredResources around.isCancelled around.elapsed around.now).run
            { d with store := s₁ } with ⟨d', e | u⟩
        · rw [hreleased] at hrelease
          exact hrelease
        · rw [hreleased] at hrelease
          exact hrelease
    rw [if_neg hunknown]
    exact ⟨(hend "").1, s₁, true, of_onStore_ok hrecord,
      .inr ⟨hunknown, fun runId => (hend runId).2⟩⟩

/-- The operation of the request and its run become indeterminate together. -/
theorem owned_markIndeterminate (h : Owned runId domainId s) {op : StoredOperation}
    (hrec : Recordable opId s op) (hrunId : op.runId = runId)
    (hunknown : result.status = .indeterminate) {releaseResources : Bool}
    (hrecord : (recordOperationResult opId result releaseResources).run s =
      (s₁, .ok ())) (reason : Option TerminationReason) (now : Timestamp) :
    Owned runId domainId
      ((updateRunStatus runId .indeterminate reason none now).run s₁).1 := by
  obtain ⟨op', hop', -, -, -, -, hrecorded⟩ := (recordOperationResult_ok hrecord).found
  obtain rfl := Option.some.inj (hrec.found.symm.trans hop')
  have hevents := (show Beside runId _ s₁ from beside_of_named hrecorded
    "OPERATION_RESULT_RECORDED" rfl (by decide)).events
  rw [settleLeases_journalEvents] at hevents
  obtain ⟨envelope, -, heq⟩ := hrecorded.appended
  have hoperations : s₁.db.operations = s.db.operations.update opId
      (finishedRow result) (finishedRow_id result) := by
    rw [heq]
    unfold settleLeases
    split <;> rfl
  have hgetRun := recordOperationResult_getRun hrecord
  obtain ⟨run, hrun, hdomain, hterminal, -⟩ := h.run
  have hrun₁ : s₁.getRun runId = some run := (hgetRun runId).trans hrun
  have hboth : ∀ s', (∃ run, s'.getRun runId = some run ∧ run.domainId = domainId ∧
      run.status = .indeterminate) → s'.db.operations = s₁.db.operations →
      (∀ row ∈ s'.db.journalEvents.rows, row ∈ s₁.db.journalEvents.rows ∨
        (row.type = "AGENT_STATE" → row.runId ≠ some runId)) → Owned runId domainId s' := by
    intro s' hruns hops hrows
    refine h.of_unknown hrec.found hrunId (finishedRow_id result)
      (hops.trans hoperations) ⟨rfl, rfl⟩ rfl ⟨result, rfl, hunknown⟩ hruns ?_
    exact fun row' hrow' => (hrows row' hrow').elim (hevents row') .inr
  -- The run is open or indeterminate already, so it yields to the mark.
  have hsameDomain : op.domainId = run.domainId :=
    (h.operations opId op hrec.found hrunId).1.trans hdomain.symm
  have hyields : RunYields s₁ run := by
    refine ⟨?_, hterminal, fun _ => hsameDomain ▸ hrec.named⟩
    have howners : s₁.db.owners = s.db.owners := by
      rw [heq]
      exact settleLeases_owners ..
    have hepoch : s₁.currentEpoch = s.currentEpoch := by
      rw [heq]
      exact settleLeases_currentEpoch ..
    rw [epochFencing_congr _ howners hepoch, ← hsameDomain]
    exact hrec.fenced
  obtain ⟨s', hupdate, hops⟩ := updateRunStatus_of_yields hrun₁ hyields reason now
  rw [hupdate]
  rcases updateRunStatus_ok hupdate with ⟨hnone, -⟩ | ⟨run', hrun', -, hcases⟩
  · rw [hrun₁] at hnone
    cases hnone
  obtain rfl := Option.some.inj (hrun₁.symm.trans hrun')
  rcases hcases with ⟨-, hstatus, rfl⟩ | ⟨-, hevent⟩
  · exact hboth _ ⟨run, hrun₁, hdomain, hstatus⟩ rfl fun _ => .inl
  · refine hboth s' ⟨runStatusRow .indeterminate reason none run,
      ?_, hdomain, rfl⟩ hops
      (beside_of_named hevent "RUN_STATUS_TRANSITION" rfl (by decide)).events
    rw [hevent.getRun_eq, getRun_setRunStatus, if_pos rfl, hrun₁, Option.map_some]

/-- `finalizeOperation` of any operation, with any result, whether it returns or throws. -/
theorem owned_finalize [Crypto] (h : Owned runId domainId d.store) :
    Owned runId domainId ((finalizeOperation opId result options around).run d).1.store := by
  by_cases hrecordable : ∃ op, Recordable opId d.store op
  swap
  · obtain ⟨e, hrun⟩ := @finalizeOperation_refused opId result options around d
      (not_exists.1 hrecordable)
    rw [hrun]
    exact h
  obtain ⟨op, hrec⟩ := hrecordable
  obtain ⟨-, s₁, releaseResources, hrecord, ⟨hunknown, hmark⟩ | ⟨hknown, hbeside⟩⟩ :=
    finalize_cases hrec
  · rw [hmark]
    by_cases hown : op.runId = runId
    · rw [hown]
      exact owned_markIndeterminate h hrec hown hunknown hrecord _ _
    · have howned : Owned runId domainId s₁ := by
        refine owned_recordOperationResult h ?_ hrecord
        rintro ⟨op', hop', hrunId⟩
        obtain rfl := Option.some.inj (hrec.found.symm.trans hop')
        exact absurd hrunId hown
      refine owned_after (c := .updateRunStatus op.runId .indeterminate _ none around.now) howned
        hown ?_
      rintro opId' - ⟨_, _, _, _, heq⟩
      cases heq
  · exact (owned_recordOperationResult h (fun _ => hknown) hrecord).beside (hbeside runId)

theorem finalize_domainId [Crypto] :
    ((finalizeOperation opId result options around).run d).1.domainId = d.domainId := by
  by_cases hrecordable : ∃ op, Recordable opId d.store op
  · obtain ⟨op, hrec⟩ := hrecordable
    exact (finalize_cases hrec).1
  · obtain ⟨e, hrun⟩ := @finalizeOperation_refused opId result options around d
      (not_exists.1 hrecordable)
    rw [hrun]

/-- Finalizing an operation of the run leaves all other runs alone. -/
theorem others_finalize [Crypto] (hown : OfRun runId d.store opId) {runId' : String}
    (hother : runId' ≠ runId) :
    ((finalizeOperation opId result options around).run d).1.store.getRun runId' =
      d.store.getRun runId' := by
  by_cases hrecordable : ∃ op, Recordable opId d.store op
  swap
  · obtain ⟨e, hrun⟩ := @finalizeOperation_refused opId result options around d
      (not_exists.1 hrecordable)
    rw [hrun]
  obtain ⟨op, hrec⟩ := hrecordable
  obtain ⟨op', hop', hrunId⟩ := hown
  obtain rfl := Option.some.inj (hrec.found.symm.trans hop')
  obtain ⟨-, s₁, releaseResources, hrecord, hcases⟩ := finalize_cases hrec
  have hrecorded : s₁.getRun runId' = d.store.getRun runId' :=
    recordOperationResult_getRun hrecord runId'
  rcases hcases with ⟨-, hmark⟩ | ⟨-, hbeside⟩
  · rw [hmark, hrunId, updateRunStatus_others hother, hrecorded]
  · unfold getRun at hrecorded ⊢
    rw [(hbeside runId).runs, hrecorded]

end Finalize

/-! ## Ending the run -/

/-- The run has the status; other runs and all operations are as they were. -/
structure Ended (runId : String) (status : KernelRunStatus) (s s' : SqliteStore) : Prop where
  run : ∃ run, s'.getRun runId = some run ∧ run.status = status
  others : ∀ runId', runId' ≠ runId → s'.getRun runId' = s.getRun runId'
  operations : s'.db.operations = s.db.operations

section Ending

variable {runId : String} {run : Run} {s : SqliteStore}

theorem ended_updateRunStatus (hrun : s.getRun runId = some run)
    (hopen : run.status.terminal = false)
    (hfenced : epochFencing run.domainId s = .ok ()) (hnamed : run.domainId ≠ "")
    (status : KernelRunStatus) (reason : Option TerminationReason) (endedAt : Option Timestamp)
    (now : Timestamp) : ∃ s',
      (updateRunStatus runId status reason endedAt now).run s = (s', .ok ()) ∧
        Ended runId status s s' := by
  obtain ⟨row, -, hupdate⟩ := updateRunStatus_of_open hrun hopen hfenced hnamed status
    reason endedAt now
  refine ⟨_, hupdate, ⟨runStatusRow status reason endedAt run, ?_, rfl⟩, ?_, rfl⟩
  · show (setRunStatus runId status reason endedAt s).getRun runId = _
    rw [getRun_setRunStatus, if_pos rfl, hrun, Option.map_some]
  · intro runId' hne
    show (setRunStatus runId status reason endedAt s).getRun runId' = _
    rw [getRun_setRunStatus, if_neg hne]

/-- A run that has the status already keeps it. -/
theorem ended_stays (hrun : s.getRun runId = some run) : Ended runId run.status s s :=
  ⟨⟨run, hrun, rfl⟩, fun _ _ => rfl, rfl⟩

theorem ended_reportRunFailed (hrun : s.getRun runId = some run)
    (hopen : run.status.terminal = false)
    (hfenced : epochFencing run.domainId s = .ok ()) (hnamed : run.domainId ≠ "")
    (reason : TerminationReason) (now : Timestamp) : ∃ s',
      (reportRunFailed runId reason now).run s = (s', .ok ()) ∧
        Ended runId .failed s s' := by
  obtain ⟨s', hupdate, hended⟩ := ended_updateRunStatus hrun hopen hfenced hnamed .failed
    (some reason) (some now) now
  refine ⟨s', ?_, hended⟩
  have hne : run.status ≠ .failed := by
    rintro heq
    rw [heq] at hopen
    cases hopen
  unfold reportRunFailed verifyEpochFencing
  simp only [run_transaction, run_bind, run_read, hrun, run_check, hfenced, if_neg hne, hopen,
    Bool.false_eq_true, if_false, hupdate]

theorem ended_reportRunCancelled (hrun : s.getRun runId = some run)
    (hopen : run.status.terminal = false)
    (hfenced : epochFencing run.domainId s = .ok ()) (hnamed : run.domainId ≠ "")
    (reason : TerminationReason) (now : Timestamp) : ∃ s',
      (reportRunCancelled runId reason now).run s = (s', .ok ()) ∧
        Ended runId .cancelled s s' := by
  obtain ⟨s', hupdate, hended⟩ := ended_updateRunStatus hrun hopen hfenced hnamed .cancelled
    (some reason) (some now) now
  refine ⟨s', ?_, hended⟩
  unfold reportRunCancelled verifyEpochFencing
  simp only [run_transaction, run_bind, run_read, hrun, run_check, hfenced, hopen,
    Bool.false_eq_true, if_false, hupdate]

/-- Events that are none of an agent of the run tell nothing of its agents. -/
theorem agentStates_of_none {rows : List JournalRow}
    (h : ∀ row ∈ rows, row.type = "AGENT_STATE" → row.runId ≠ some runId) :
    agentStates runId rows [] = .ok [] := by
  induction rows with
  | nil => rfl
  | cons row rows ih =>
    unfold agentStates
    rw [if_neg fun hagent => h row List.mem_cons_self hagent.1 hagent.2]
    exact ih fun row' hrow' => h row' (List.mem_cons_of_mem _ hrow')

theorem ended_reportRunSucceeded {domainId : String} (h : Owned runId domainId s)
    (hrun : s.getRun runId = some run) (hopen : run.status.terminal = false)
    (hfenced : epochFencing run.domainId s = .ok ()) (hnamed : run.domainId ≠ "")
    (hresults : ∀ opId op, s.getOperation opId = some op → op.runId = runId →
      ∃ result, op.result = some result ∧ result.status ≠ .indeterminate) (now : Timestamp) :
    ∃ s', (reportRunSucceeded runId now).run s = (s', .ok ()) ∧
      Ended runId .succeeded s s' := by
  obtain ⟨s', hupdate, hended⟩ := ended_updateRunStatus hrun hopen hfenced hnamed .succeeded
    (some .completed) (some now) now
  refine ⟨s', ?_, hended⟩
  have hne : run.status ≠ .succeeded := by
    rintro heq
    rw [heq] at hopen
    cases hopen
  have hops : ∀ op ∈ s.getOperationsByRun runId, s.getOperation op.id = some op ∧
      op.runId = runId := by
    intro op hop
    obtain ⟨hmem, hrunId⟩ := Table.mem_select.1 hop
    exact ⟨Table.get?_of_mem hmem, of_decide_eq_true hrunId⟩
  have hdone : (s.getOperationsByRun runId).filter (fun op => op.status ≠ .done) = [] := by
    refine List.filter_eq_nil_iff.2 fun op hop => ?_
    obtain ⟨result, hresult, -⟩ := hresults op.id op (hops op hop).1 (hops op hop).2
    have hstatus := (h.operations op.id op (hops op hop).1 (hops op hop).2).2 (by rw [hresult]; rfl)
    simp [hstatus]
  have hcompletable : completable runId (s.getOperationsByRun runId)
      (s.getJournalEvents run.domainId) = .ok () := by
    have hagents : agentStates runId (s.getJournalEvents run.domainId) [] = .ok [] :=
      agentStates_of_none fun row hrow => h.agents row (List.mem_filter.1 hrow).1
    unfold completable
    rw [hagents, hdone]
    rfl
  have hknown : (s.getOperationsByRun runId).filterMap indeterminateResult? = [] := by
    refine List.filterMap_eq_nil_iff.2 fun op hop => ?_
    obtain ⟨result, hresult, hstatus⟩ := hresults op.id op (hops op hop).1 (hops op hop).2
    unfold indeterminateResult?
    rw [hresult]
    simp [hstatus]
  unfold reportRunSucceeded verifyEpochFencing
  simp only [run_transaction, run_bind, run_read, hrun, run_check, hfenced, if_neg hne, hopen,
    Bool.false_eq_true, if_false, hcompletable, require, run_pure, hknown, hupdate]

end Ending

/-! ## The end of a call -/

section Settle

variable {runId domainId : String} {d : ExecutionDomain} {run : Run}

/-- The reports of the domain do what those of the store do, on a domain that is not fenced. -/
theorem run_domainReport (hopen : d.isFenced = false) (p : StoreM Unit) :
    (domainReport p).run d = (onStore p).run d := by
  unfold domainReport
  rw [run_bind, run_check, show d.assertNotFenced = .ok () by
    unfold assertNotFenced
    rw [hopen]
    rfl]

theorem run_report (hopen : d.isFenced = false) (wrapper : Wrapper) (p : StoreM Unit) :
    (wrapper.report p).run d = (onStore p).run d := by
  cases wrapper with
  | quickRun => exact run_domainReport hopen p
  | withRun => rfl

variable {p : StoreM Unit} {status : KernelRunStatus} {returned : Returned}

/-- A call that returns on the store returns on the domain. -/
theorem onStore_ok {s' : SqliteStore} (h : p.run d.store = (s', .ok ())) :
    (onStore p).run d = ({ d with store := s' }, .ok ()) := by
  rw [run_onStore, h]

theorem notIndeterminate_eq (hrun : d.store.getRun runId = some run) :
    notIndeterminate runId d.store = decide (run.status ≠ .indeterminate) := by
  unfold notIndeterminate
  rw [hrun, Option.map_some]
  simp

/-- The part of a wrapper returns, and the run has the status. -/
def EndsAs (p : DomainM Unit) (runId : String) (d : ExecutionDomain) (status : KernelRunStatus) :
    Prop :=
  ∃ s', p.run d = ({ d with store := s' }, .ok ()) ∧ Ended runId status d.store s'

theorem endsAs_stays (hrun : d.store.getRun runId = some run) :
    EndsAs (pure ()) runId d run.status :=
  ⟨d.store, rfl, ended_stays hrun⟩

theorem endsAs_onStore (h : ∃ s', p.run d.store = (s', .ok ()) ∧ Ended runId status d.store s') :
    EndsAs (onStore p) runId d status := by
  obtain ⟨s', hrun, hended⟩ := h
  exact ⟨s', onStore_ok hrun, hended⟩

/-- A report of either wrapper ends the run as that of the store does. -/
theorem endsAs_report (hopen : d.isFenced = false) (wrapper : Wrapper)
    (h : ∃ s', p.run d.store = (s', .ok ()) ∧ Ended runId status d.store s') :
    EndsAs (wrapper.report p) runId d status := by
  obtain ⟨s', hrun, hended⟩ := endsAs_onStore h
  exact ⟨s', (run_report hopen wrapper p).trans hrun, hended⟩

/-- A part that looks at the run first. -/
theorem endsAs_looked (hrun : d.store.getRun runId = some run) {p : Bool → DomainM Unit}
    (h : EndsAs (p (decide (run.status ≠ .indeterminate))) runId d status) :
    EndsAs (do let open? ← read fun d => notIndeterminate runId d.store; p open?) runId d
      status := by
  obtain ⟨s', hp, hended⟩ := h
  refine ⟨s', ?_, hended⟩
  rw [run_bind, run_read]
  show (p (notIndeterminate runId d.store)).run d = _
  rw [notIndeterminate_eq hrun]
  exact hp

/-- What the run is like when the call settles, for a store that is still writable. -/
structure Closing (runId : String) (d : ExecutionDomain) (run : Run) : Prop where
  found : d.store.getRun runId = some run
  fenced : epochFencing run.domainId d.store = .ok ()
  named : run.domainId ≠ ""
  terminal : run.status ≠ .indeterminate → run.status.terminal = false
  known : run.status = .indeterminate ↔ RequestRun.OwnsIndeterminate runId d.store

theorem Owned.closing (h : Owned runId d.domainId d.store) (hunfenced : ExecutionDomain.Unfenced d) :
    ∃ run, Closing runId d run := by
  obtain ⟨run, hrun, hdomain, hterminal, hknown⟩ := h.run
  refine ⟨run, hrun, hdomain ▸ hunfenced.currentEpoch, hdomain ▸ hunfenced.named, ?_, hknown⟩
  intro hne
  cases hterm : run.status.terminal with
  | false => rfl
  | true => exact absurd (hterminal hterm) hne

/-- The end of a call whose operation threw: an open run has failed. -/
theorem ends_rejected (h : Owned runId d.domainId d.store) (hunfenced : ExecutionDomain.Unfenced d)
    (wrapper : Wrapper) (now : Timestamp) : ∃ status,
      EndsAs (endRejected wrapper runId now) runId d status ∧ status.terminal = true ∧
        (status = .indeterminate ↔ RequestRun.OwnsIndeterminate runId d.store) := by
  obtain ⟨run, hclosing⟩ := h.closing hunfenced
  by_cases hstatus : run.status = .indeterminate
  · refine ⟨run.status, endsAs_looked hclosing.found ?_, by rw [hstatus]; rfl, hclosing.known⟩
    rw [decide_eq_false (not_not.2 hstatus)]
    exact endsAs_stays hclosing.found
  · refine ⟨.failed, endsAs_looked hclosing.found ?_, rfl, ?_⟩
    · rw [decide_eq_true hstatus]
      exact endsAs_report hunfenced.notFenced wrapper (ended_reportRunFailed hclosing.found
        (hclosing.terminal hstatus) hclosing.fenced hclosing.named .completed now)
    · rw [← hclosing.known]
      exact iff_of_false (by decide) hstatus

/-- Where the operation returned, the results of the run's own operations are known unless what it
    returned is indeterminate. -/
theorem known_of_answers {s : SqliteStore} (hanswers : Answers runId s returned)
    (hreturned : returned.status? ≠ some .indeterminate) :
    ∀ opId op, s.getOperation opId = some op → op.runId = runId →
      ∃ result, op.result = some result ∧ result.status ≠ .indeterminate := by
  intro opId op hop hrunId
  obtain ⟨result, hresult, hsame⟩ := hanswers opId op hop hrunId
  refine ⟨result, hresult, ?_⟩
  cases returned with
  | result =>
    intro heq
    exact hreturned (congrArg some (hsame.trans heq))
  | transaction => exact hsame

/-- An indeterminate outcome: the run takes it over, or has it already. -/
theorem Closing.indeterminate (h : Closing runId d run) (reason : Option TerminationReason)
    (endedAt : Option Timestamp) (now : Timestamp) : ∃ s',
      (updateRunStatus runId .indeterminate reason endedAt now).run d.store =
        (s', .ok ()) ∧ Ended runId .indeterminate d.store s' := by
  by_cases hstatus : run.status = .indeterminate
  · refine ⟨d.store, ?_, hstatus ▸ ended_stays h.found⟩
    unfold updateRunStatus verifyEpochFencing
    simp only [run_transaction, run_bind, run_read, h.found, run_check, h.fenced, hstatus]
    rfl
  · exact ended_updateRunStatus h.found (h.terminal hstatus) h.fenced h.named .indeterminate _
      endedAt now

/-- A known outcome: no operation of the run is unknown. -/
theorem determined_of_answers {s : SqliteStore} (hanswers : Answers runId s returned)
    (hreturned : returned.status? ≠ some .indeterminate) :
    ¬ RequestRun.OwnsIndeterminate runId s := by
  rintro ⟨opId, op, result, hop, hrunId, hresult, hunknown⟩
  obtain ⟨result', hresult', hne⟩ := known_of_answers hanswers hreturned opId op hop hrunId
  obtain rfl := Option.some.inj (hresult.symm.trans hresult')
  exact hne hunknown

/-- The end of `quickRun`, whose result is one of a process or an indeterminate one. -/
theorem ends_quickRun (h : Owned runId d.domainId d.store)
    (hunfenced : ExecutionDomain.Unfenced d) (hclosing : Closing runId d run)
    (htakes : Wrapper.quickRun.takes returned) (hanswers : Answers runId d.store returned)
    (hopen : returned.status? ≠ some .indeterminate → run.status.terminal = false)
    (now : Timestamp) : ∃ status,
      EndsAs (quickRunEnd runId returned now) runId d status ∧ status.terminal = true ∧
        (status = .indeterminate ↔ returned.status? = some .indeterminate) := by
  have hreport : ∀ {p : StoreM Unit} {status : KernelRunStatus},
      (∃ s', p.run d.store = (s', .ok ()) ∧ Ended runId status d.store s') →
      EndsAs (domainReport p) runId d status :=
    endsAs_report hunfenced.notFenced .quickRun
  cases returned with
  | transaction => exact htakes.elim
  | result r =>
    cases r with
    | indeterminate =>
      exact ⟨.indeterminate, endsAs_onStore (hclosing.indeterminate _ _ now), rfl,
        iff_of_true rfl rfl⟩
    | process r =>
      have hreturned : (Returned.result (.process r)).status? =
          some r.status.toResultStatus := rfl
      have hne : (Returned.result (.process r)).status? ≠ some .indeterminate := by
        rw [hreturned]
        cases r.status <;> decide
      unfold quickRunEnd
      rw [hreturned]
      cases r.status with
      | succeeded =>
        refine ⟨.succeeded, hreport ?_, rfl, iff_of_false (by decide) (by decide)⟩
        exact ended_reportRunSucceeded h hclosing.found (hopen hne) hclosing.fenced
          hclosing.named (known_of_answers hanswers hne) now
      | failed =>
        refine ⟨.failed, hreport ?_, rfl, iff_of_false (by decide) (by decide)⟩
        exact ended_reportRunFailed hclosing.found (hopen hne) hclosing.fenced hclosing.named
          .completed now
      | cancelled =>
        refine ⟨.cancelled, hreport ?_, rfl, iff_of_false (by decide) (by decide)⟩
        exact ended_reportRunCancelled hclosing.found (hopen hne) hclosing.fenced
          hclosing.named .userCancelled now
    | filesystem | generic | snapshot | rollback => exact htakes.elim

/-- The end of `withRun`, which leaves a run alone that is indeterminate already. -/
theorem ends_withRun (h : Owned runId d.domainId d.store) (hclosing : Closing runId d run)
    (hanswers : Answers runId d.store returned)
    (hopen : returned.status? ≠ some .indeterminate → run.status.terminal = false)
    (now : Timestamp) : ∃ status,
      EndsAs (withRunEnd runId returned now) runId d status ∧ status.terminal = true ∧
        (status = .indeterminate ↔ returned.status? = some .indeterminate) := by
  by_cases hreturned : returned.status? = some .indeterminate
  · refine ⟨.indeterminate, endsAs_looked hclosing.found ?_, rfl, iff_of_true rfl hreturned⟩
    rw [if_pos hreturned]
    by_cases hstatus : run.status = .indeterminate
    · rw [decide_eq_false (not_not.2 hstatus), ← hstatus]
      exact endsAs_stays hclosing.found
    · rw [decide_eq_true hstatus]
      exact endsAs_onStore (hclosing.indeterminate _ _ now)
  · have hunended := hopen hreturned
    have hstatus : run.status ≠ .indeterminate := by
      rintro heq
      rw [heq] at hunended
      cases hunended
    refine ⟨.succeeded, endsAs_looked hclosing.found ?_, rfl, iff_of_false (by decide) hreturned⟩
    rw [if_neg hreturned, decide_eq_true hstatus]
    exact endsAs_onStore (ended_reportRunSucceeded h hclosing.found hunended hclosing.fenced
      hclosing.named (known_of_answers hanswers hreturned) now)

/-- The end of a call whose operation returned: the wrapper reports what it has to. -/
theorem ends_returned (h : Owned runId d.domainId d.store)
    (hunfenced : ExecutionDomain.Unfenced d) {wrapper : Wrapper} (htakes : wrapper.takes returned)
    (hanswers : Answers runId d.store returned) (now : Timestamp) : ∃ status,
      EndsAs (wrapper.endReturned runId returned now) runId d status ∧ status.terminal = true ∧
        (status = .indeterminate ↔ returned.status? = some .indeterminate ∨
          RequestRun.OwnsIndeterminate runId d.store) := by
  obtain ⟨run, hclosing⟩ := h.closing hunfenced
  -- With a known outcome no own operation is unknown, so the run is open.
  have hopen : returned.status? ≠ some .indeterminate → run.status.terminal = false :=
    fun hreturned => hclosing.terminal fun hstatus =>
      determined_of_answers hanswers hreturned (hclosing.known.1 hstatus)
  have hends : ∃ status, EndsAs (wrapper.endReturned runId returned now) runId d status ∧
      status.terminal = true ∧
        (status = .indeterminate ↔ returned.status? = some .indeterminate) := by
    cases wrapper with
    | quickRun => exact ends_quickRun h hunfenced hclosing htakes hanswers hopen now
    | withRun => exact ends_withRun h hclosing hanswers hopen now
  obtain ⟨status, hended, hterminal, hiff⟩ := hends
  refine ⟨status, hended, hterminal, hiff.trans ⟨.inl, fun hor => ?_⟩⟩
  rcases hor with hreturned | howns
  · exact hreturned
  · by_contra hreturned
    exact determined_of_answers hanswers hreturned howns

end Settle

/-! ## Runs of requests -/

namespace RequestRun

section Steps

variable [Crypto]

variable {w : RequestRun}

/-- A call about an operation, as the others may make it, touches no run. -/
theorem others_store {c : StoreCall} (hpermitted : Permitted w.runId w.domain.domainId w.store c)
    (hconcerns : w.Concerns (.store c)) (runId : String) :
    (c.after w.store).getRun runId = w.store.getRun runId := by
  rcases c.throws_or_returns w.store with hthrows | hrun
  · rw [StoreCall.after_of_throws hthrows]
  cases c with
  | registerOperationIntent =>
    obtain ⟨operations, leases, -, -, hrec⟩ :=
      (registerOperationIntent_ok hrun).effect
    exact hrec.getRun_eq runId
  | recordPreIntentCancelledOperation =>
    obtain ⟨-, -, operations, -, hrec⟩ := recordPreIntentCancelledOperation_ok hrun
    exact hrec.getRun_eq runId
  | updateOperationStatus =>
    rcases updateOperationStatus_ok hrun with ⟨-, hsame⟩ | ⟨op, -, -, hrec⟩
    · rw [hsame]
    · exact hrec.getRun_eq runId
  | recordOperationResult =>
    exact recordOperationResult_getRun hrun runId
  | updateOperationResult =>
    obtain ⟨op, -, -, hupdate⟩ := updateOperationResult_ok hrun
    rw [hupdate]
    rfl
  | updateRecoveryEvidence =>
    obtain ⟨op, -, -, hsame | ⟨evidence, hupdate⟩⟩ := updateRecoveryEvidence_ok hrun
    · rw [hsame]
    · rw [hupdate]
      rfl
  | saveRun | updateRunStatus | reportRunSucceeded | reportRunFailed | reportRunCancelled =>
    exact absurd hconcerns hpermitted

omit [Crypto] in
theorem ownsIndeterminate_congr {runId : String} {s s' : SqliteStore}
    (h : s'.db.operations = s.db.operations) :
    OwnsIndeterminate runId s' ↔ OwnsIndeterminate runId s := by
  unfold OwnsIndeterminate getOperation
  rw [h]

/-- Until the call has settled the invariant holds. -/
def Alive (w : RequestRun) : Prop :=
  w.answer = none → Owned w.runId w.domain.domainId w.store

theorem alive_after {step : RequestStep} (h : Alive w) (hpossible : w.Possible step)
    (hundisturbed : w.Undisturbed step) : Alive (after step w) := by
  intro hanswer
  cases step with
  | store =>
    refine owned_after (h hanswer) hpossible ?_
    rintro opId hreopens ⟨status, identity, outputRef, now, rfl⟩
    exact hundisturbed hreopens
  | finalize opId result options around =>
    show Owned w.runId ((finalizeOperation opId result options around).run w.domain).1.domainId
      ((finalizeOperation opId result options around).run w.domain).1.store
    rw [finalize_domainId]
    exact owned_finalize (h hanswer)
  | event =>
    have hrun := Blocks.run Beside.refl Beside.trans (blocks_recordEvent hpossible) w.store
    exact (h hanswer).beside hrun
  | settle =>
    unfold after at hanswer
    cases hbefore : w.answer with
    | some answer =>
      rw [hbefore] at hanswer
      exact absurd (hbefore.symm.trans hanswer) (by simp)
    | none =>
      rw [hbefore] at hanswer
      cases hanswer

theorem settled_of_ended {outcome : Except KernelError Returned} {now : Timestamp}
    {s' : SqliteStore} {status : KernelRunStatus} (hanswer : w.answer = none)
    (hsettle : w.wrapper.settle w.runId outcome now w.domain =
      ({ w.domain with store := s' }, passedOn outcome))
    (hended : Ended w.runId status w.store s') (hterminal : status.terminal = true)
    (hiff : status = .indeterminate ↔
      (∃ returned, outcome = .ok returned ∧ returned.status? = some .indeterminate) ∨
        OwnsIndeterminate w.runId w.store) :
    Settled w (after (.settle outcome now) w) outcome ∧ ∀ runId, runId ≠ w.runId →
      (after (.settle outcome now) w).store.getRun runId = w.store.getRun runId := by
  have hafter : after (.settle outcome now) w =
      { w with domain := { w.domain with store := s' }, answer := some (passedOn outcome) } := by
    unfold after
    rw [hanswer]
    simp only
    rw [hsettle]
  rw [hafter]
  obtain ⟨run, hget, hstatus⟩ := hended.run
  refine ⟨⟨rfl, run, hget, hstatus ▸ hterminal, ?_⟩, hended.others⟩
  rw [hstatus, hiff]
  exact or_congr Iff.rfl (ownsIndeterminate_congr hended.operations).symm

/-- The wrapper returns what the operation returned or throws what it threw, with its run ended. -/
theorem settled_after {outcome : Except KernelError Returned} {now : Timestamp} (h : Alive w)
    (hpossible : w.Possible (.settle outcome now)) (hanswer : w.answer = none) :
    Settled w (after (.settle outcome now) w) outcome ∧ ∀ runId, runId ≠ w.runId →
      (after (.settle outcome now) w).store.getRun runId = w.store.getRun runId := by
  obtain ⟨hunfenced, hreturned⟩ := hpossible
  cases outcome with
  | error =>
    obtain ⟨status, ⟨s', hrun, hended⟩, hterminal, hiff⟩ :=
      ends_rejected (h hanswer) hunfenced w.wrapper now
    refine settled_of_ended hanswer ?_ hended hterminal (hiff.trans (by simp [store]))
    unfold Wrapper.settle
    simp only [hrun]
    rfl
  | ok returned =>
    obtain ⟨htakes, hanswers⟩ := hreturned returned rfl
    obtain ⟨status, ⟨s', hrun, hended⟩, hterminal, hiff⟩ :=
      ends_returned (h hanswer) hunfenced htakes hanswers now
    refine settled_of_ended hanswer ?_ hended hterminal (hiff.trans (by simp [store]))
    unfold Wrapper.settle
    simp only [hrun]
    rfl

theorem settles_after {step : RequestStep} (h : Alive w) (hpossible : w.Possible step) :
    w.Settles step := by
  constructor
  · intro hconcerns runId hother
    cases step with
    | store => exact others_store hpossible hconcerns runId
    | finalize => exact others_finalize hconcerns hother
    | event => exact hconcerns.elim
    | settle outcome now => exact (settled_after h hpossible hconcerns).2 runId hother
  · rintro outcome now rfl hanswer
    exact (settled_after h hpossible hanswer).1

theorem alive_of_begun {before : SqliteStore} (h : w.Begun before) : Alive w := by
  intro _
  obtain ⟨taskId, now, hsaved⟩ := h.saved
  obtain ⟨-, -, hupsert⟩ := saveRun_ok hsaved
  unfold upsertRun at hupsert
  split at hupsert
  · rename_i runs hins
    split at hupsert
    · cases hupsert
    · have hstore := Except.ok.inj hupsert
      have hnone : ∀ opId op, w.store.getOperation opId = some op → op.runId ≠ w.runId := by
        rw [← hstore]
        exact h.operations
      have hrun : w.store.getRun w.runId =
          some (sanitizedRun
            (w.wrapper.newRun w.runId taskId w.domain.domainId now)) := by
        rw [← hstore]
        unfold getRun
        simp only [withDb_db]
        rw [Table.get?_insert? hins]
        exact if_pos rfl
      refine ⟨⟨_, hrun, rfl, fun hterminal => ?_, iff_of_false (fun heq => ?_) ?_⟩, ?_, ?_⟩
      · cases hterminal
      · cases heq
      · rintro ⟨opId, op, result, hop, hrunId, -⟩
        exact hnone opId op hop hrunId
      · exact fun opId op hop hrunId => absurd hrunId (hnone opId op hop)
      · rw [← hstore]
        exact h.agents
  · rename_i hins
    have hsome := Table.insert?_eq_none.1 hins
    exact absurd h.run hsome

/-- In every run of a call during which no stop begins on a finished operation of it: when the
    call settles, it passes on what its operation returned or threw, its run has ended, as
    indeterminate exactly where it must, and no other run was touched. -/
theorem requestRun_settles {w : RequestRun} {before : SqliteStore} {steps : List RequestStep}
    (hbegun : w.Begun before) (hpossible : Along after Possible w steps)
    (hundisturbed : Along after Undisturbed w steps) : Along after Settles w steps := by
  have hboth : Along after (fun w step => Possible w step ∧ Undisturbed w step) w steps :=
    along_and.2 ⟨hpossible, hundisturbed⟩
  refine hboth.imp (I := Alive) (fun w step halive hstep => ?_) (alive_of_begun hbegun)
  exact ⟨settles_after halive hstep.1, alive_after halive hstep.1 hstep.2⟩

end Steps

/-! ### A stop that begins after the result was recorded -/

/-- The store before the call. -/
def idleStore : SqliteStore where
  db := { Database.sample with runs := Table.empty }
  currentEpoch := some 1

/-- A call that has just made the run `r`. -/
def justBegun (wrapper : Wrapper) : RequestRun where
  wrapper
  runId := "r"
  domain :=
    { domainId := "d"
      epoch := 1
      store := { idleStore with
        db := { idleStore.db with runs := ⟨[wrapper.newRun "r" "t" "d" 1], by simp⟩ } } }

/-- The process of the call succeeds, and its result is recorded. -/
def finishedResult : OperationResult :=
  .process { durationMs := 1, completedAt := 4, status := .succeeded }

def executed : List RequestStep := [
  .store (.registerOperationIntent (Operation.sample "o" []) "d" 2),
  .store (.updateOperationStatus "o" .active none none 3),
  .finalize "o" finishedResult { releaseResourceLock := false } ⟨fun _ => false, fun _ => 0, 4⟩]

/-- The call goes on at once. -/
def wentOn : List RequestStep := executed ++ [.settle (.ok (.result finishedResult)) 5]

/-- Before it does, a stop begins. -/
def stoppedLate : List RequestStep := executed ++ [
  .store (.updateOperationStatus "o" .stopping none none 5),
  .settle (.ok (.result finishedResult)) 6]

theorem begun_justBegun (wrapper : Wrapper) :
    @Begun plainCrypto (justBegun wrapper) idleStore := by
  let _ := plainCrypto
  refine ⟨⟨"t", 1, ?_⟩, rfl, ?_, ?_, rfl⟩
  · cases wrapper <;> rfl
  · intro opId op hop
    cases hop
  · intro row hrow
    cases hrow

theorem answers_of_rows {runId : String} {s : SqliteStore} {r : OperationResult}
    (h : ∀ op ∈ s.db.operations.rows, op.result.map OperationResult.status = some r.status) :
    Answers runId s (.result r) := by
  intro opId op hop _
  obtain ⟨result, hresult, hstatus⟩ :=
    Option.map_eq_some_iff.1 (h op (Table.mem_of_get? hop))
  exact ⟨result, hresult, hstatus.symm⟩

theorem possible_executed (wrapper : Wrapper) :
    Along (@after plainCrypto) Possible (justBegun wrapper) executed := by
  refine ⟨fun _ => ⟨rfl, rfl⟩, ?_, trivial, trivial⟩
  intro op _ _ hdone
  cases hdone

theorem possible_wentOn (wrapper : Wrapper) :
    Along (@after plainCrypto) Possible (justBegun wrapper) wentOn := by
  let _ := plainCrypto
  refine along_append.2 ⟨possible_executed wrapper, ⟨?_, ?_⟩, trivial⟩
  · cases wrapper <;> exact ⟨by decide +kernel, by decide +kernel, by decide +kernel⟩
  · rintro returned heq
    obtain rfl := Except.ok.inj heq
    refine ⟨?_, answers_of_rows ?_⟩
    · cases wrapper <;> trivial
    · cases wrapper <;> decide +kernel

theorem possible_stoppedLate (wrapper : Wrapper) :
    Along (@after plainCrypto) Possible (justBegun wrapper) stoppedLate := by
  let _ := plainCrypto
  refine along_append.2 ⟨possible_executed wrapper, ?_, ⟨?_, ?_⟩, trivial⟩
  · intro op _ _ hdone
    cases hdone
  · cases wrapper <;> exact ⟨by decide +kernel, by decide +kernel, by decide +kernel⟩
  · rintro returned heq
    obtain rfl := Except.ok.inj heq
    refine ⟨?_, answers_of_rows ?_⟩
    · cases wrapper <;> trivial
    · cases wrapper <;> decide +kernel

theorem requestRun_settles_wentOn :
    @Begun plainCrypto (justBegun .withRun) idleStore ∧
      Along (@after plainCrypto) (@Settles plainCrypto) (justBegun .withRun) wentOn := by
  let _ := plainCrypto
  refine ⟨begun_justBegun _, requestRun_settles (begun_justBegun _) (possible_wentOn _) ?_⟩
  refine ⟨trivial, ?_, trivial, trivial, trivial⟩
  rintro ⟨op, hop, hdone, -⟩
  have hregistered : ((after (executed.head (by simp [executed])) (justBegun .withRun)).store
      |>.getOperation "o").map (fun op => op.status) = some .intentRegistered := by
    decide +kernel
  have hstatus := hregistered.symm.trans (congrArg (Option.map fun op => op.status) hop)
  rw [Option.map_some, hdone] at hstatus
  cases hstatus

/-- The state in which the promise of the operation settles. -/
def aboutToSettle : RequestRun :=
  afterAll (@after plainCrypto) (justBegun .quickRun) (stoppedLate.take 4)

/-- Then the run stays running for ever, and the call throws an error of the store instead of
    returning its result. -/
theorem lateStop_unsettles :
    let _ := plainCrypto
    (justBegun .quickRun).Begun idleStore ∧
      Along after Possible (justBegun .quickRun) stoppedLate ∧
      ¬ Along after Settles (justBegun .quickRun) stoppedLate := by
  intro _
  refine ⟨begun_justBegun _, possible_stoppedLate _, fun hrun => ?_⟩
  have hsettles : aboutToSettle.Settles (.settle (.ok (.result finishedResult)) 6) :=
    along_iff.1 hrun (stoppedLate.take 4) _ [] rfl
  have hanswer : aboutToSettle.answer.isNone = true := by decide +kernel
  have hrunning : ((after (.settle (.ok (.result finishedResult)) 6) aboutToSettle).store.getRun
      aboutToSettle.runId).map (fun run => run.status) = some .running := by
    decide +kernel
  obtain ⟨run, hrun, hterminal, -⟩ :=
    (hsettles.2 _ _ rfl (Option.isNone_iff_eq_none.1 hanswer)).run
  rw [hrun] at hrunning
  have hstatus : run.status = .running := Option.some.inj hrunning
  rw [hstatus] at hterminal
  cases hterminal

/-- It is so with both wrappers. -/
example : [Wrapper.quickRun, .withRun].map (fun wrapper =>
    ((afterAll (@after plainCrypto) (justBegun wrapper) stoppedLate).store.getRun "r").map
      fun run => run.status) = [some .running, some .running] := by decide +kernel

end RequestRun

end Supervisor
end XioFlow
