/-
  XioFlow.Agents.Runtime

  The agent runtime: the calls of the host, the scheduling loop, and the
  quanta that it starts.

  Everything between two awaits is one event of the machine.  A promise that
  settles and the microtask that reacts to it are two events, so a run is any
  interleaving of microtasks.  The answers of the validator, the step adapter
  and the reconstruction are arbitrary.
-/

import XioFlow.Agents.Execution
import XioFlow.Agents.Journal
import Mathlib.Data.List.Sort

namespace XioFlow.Agents

open Lib

/-! ## Promises in flight -/

/-- Where the promise of a quantum stands. -/
inductive AdvancePhase where
  /-- `advance` is a queued microtask -/
  | queued
  /-- the validator is asked about the state -/
  | checking (state : AgentState) (workspaceVersion : Option String)
  /-- the step adapter was called with the state -/
  | stepping (state : AgentState)
  /-- `advance` is over; `finally` is queued -/
  | returned
  deriving DecidableEq

structure AgentQuantum where
  ticket : Nat
  agentId : String
  phase : AdvancePhase := .queued
  aborted : Bool := false
  deriving DecidableEq

/-- Where a reconstruction stands. -/
inductive RecoveryPhase where
  | preparing
  /-- prepared resources are given back, after an interruption or a failure -/
  | discarding (failure : Option String)
  /-- `finally` is queued -/
  | finished (rejected : Bool)
  deriving DecidableEq

structure AgentRecovery where
  agentId : String
  previous : AgentState
  phase : RecoveryPhase := .preparing
  deriving DecidableEq

/-- A barrier of `interrupt` and what it awaits. -/
structure AgentInterruption where
  root : String
  quanta : List Nat
  recoveries : List String
  deriving DecidableEq

inductive DrainPhase where
  | idle
  /-- `schedule` is a queued microtask -/
  | queued
  /-- the loop awaits its quanta; one of them has settled -/
  | looping (woken : Bool)
  /-- the loop awaits cancelled reconstructions; one of them was rejected -/
  | joining (cancelled : List String) (rejected : Bool)
  /-- the loop is over; `finally` is queued -/
  | returned (rejected : Bool)
  deriving DecidableEq

inductive ShutdownPhase where
  | running
  /-- `settleShutdown` is a queued microtask -/
  | requested
  | settling
  deriving DecidableEq

structure AgentRuntime where
  maxConcurrentAgents : Nat
  log : AgentLog
  stopping : Bool := false
  closed : Bool := false
  shutdown : ShutdownPhase := .running
  draining : DrainPhase := .idle
  /-- the map `quanta` from agents to their quanta -/
  quanta : List (String × Nat) := []
  /-- `active`: the quanta that have not settled -/
  active : List AgentQuantum := []
  nextTicket : Nat := 0
  recoveries : List AgentRecovery := []
  interruptions : List AgentInterruption := []
  /-- the calls of `options.step`, the last first -/
  stepCalls : List AgentState := []

namespace AgentRuntime

def record (transition : AgentTransition) (state : AgentState) (s : AgentRuntime) : AgentRuntime :=
  { s with log := s.log.record transition state none }

def hasQuantum (id : String) (s : AgentRuntime) : Bool := s.quanta.any fun entry => entry.1 = id

def hasRecovery (id : String) (s : AgentRuntime) : Bool :=
  s.recoveries.any fun recovery => recovery.agentId = id

def hasInterruption (id : String) (s : AgentRuntime) : Bool :=
  s.interruptions.any fun interruption => interruption.root = id

/-- `signal.aborted` of the quantum that is registered for an agent -/
def registeredAborted (id : String) (s : AgentRuntime) : Bool :=
  s.active.any fun quantum => (id, quantum.ticket) ∈ s.quanta && quantum.aborted

def quantum? (ticket : Nat) (s : AgentRuntime) : Option AgentQuantum :=
  s.active.find? fun quantum => quantum.ticket = ticket

def setPhase (ticket : Nat) (phase : AdvancePhase) (s : AgentRuntime) : AgentRuntime :=
  { s with
    active := s.active.map fun quantum =>
      if quantum.ticket = ticket then { quantum with phase } else quantum }

def setRecovery (id : String) (phase : RecoveryPhase) (s : AgentRuntime) : AgentRuntime :=
  { s with
    recoveries := s.recoveries.map fun recovery =>
      if recovery.agentId = id then { recovery with phase } else recovery }

/-! ## Scopes -/

/-- `assertScopeOpen` -/
def assertScopeOpen (id : String) (restoring : Bool) (s : AgentRuntime) : Except String Unit :=
  let closed := (Forest.ancestry s.log.forest id).find? fun member =>
    s.hasInterruption member ||
      (!(restoring && member = id) && (s.log.get member).any AgentState.closed)
  match closed with
  | some member => .error ("Agent scope \"" ++ member ++ "\" is closed")
  | none =>
    if restoring && (Forest.scope s.log.forest id).any fun member =>
        s.hasQuantum member || s.hasRecovery member then
      .error ("Agent scope \"" ++ id ++ "\" has unsettled work")
    else .ok ()

/-- The work of a member goes on until its quantum or its reconstruction has settled. -/
def isActive (state : AgentState) (s : AgentRuntime) : Bool :=
  ((state.status = .checking || state.status = .running) && s.hasQuantum state.id) ||
    (state.status = .recovering && s.hasRecovery state.id)

/-- What `cancelScope` records for a member. -/
def cancelMember (s : AgentRuntime) (id : String) : AgentRuntime :=
  match s.log.get id with
  | none => s
  | some state =>
    if state.closed then s
    else if s.isActive state then
      s.record .interruptRequested
        { state with pauseRequested := false, reason := interruptRequested }
    else
      s.record .interrupted
        { state with status := .interrupted, pauseRequested := false, reason := interruptRequested }

/-- `quantum.controller.abort(…)` for the members of a scope -/
def abortMembers (members : List String) (s : AgentRuntime) : AgentRuntime :=
  { s with
    active := s.active.map fun quantum =>
      if quantum.agentId ∈ members ∧ (quantum.agentId, quantum.ticket) ∈ s.quanta then
        { quantum with aborted := true }
      else quantum }

/-- `cancelScope`: all members are fenced before a signal is aborted. -/
def cancelScope (id : String) (s : AgentRuntime) : AgentRuntime :=
  let members := Forest.scope s.log.forest id
  (members.foldl cancelMember s).abortMembers members

/-- The join of a member that waits for its children. -/
def completeWaiting (s : AgentRuntime) (id : String) : AgentRuntime :=
  match s.log.get id with
  | none => s
  | some state =>
    if state.status = .waiting ∧ (s.log.children id).all fun child => child.status = .completed then
      s.record .scopeCompleted { state with status := .completed, reason := none }
    else s

/-- One round of the loop of `reconcileScopes`. -/
def reconcileScope (s : AgentRuntime) : AgentRuntime :=
  match s.log.dirtyScopes with
  | [] => s
  | root :: rest =>
    let s := { s with log := { s.log with dirtyScopes := rest } }
    let members := Forest.scope s.log.forest root
    if members.any fun id => (s.log.get id).any AgentState.cancels then s.cancelScope root
    else members.reverse.foldl completeWaiting s

/-- The loop, for as many rounds as it is given. -/
def reconcileRounds : Nat → AgentRuntime → AgentRuntime
  | 0, s => s
  | n + 1, s => if s.log.dirtyScopes = [] then s else reconcileRounds n s.reconcileScope

/-- The members that can still change in `reconcileScopes`. -/
def openMembers (s : AgentRuntime) : List String :=
  s.log.ids.filter fun id => (s.log.get id).any fun state => !state.closed

/-- `reconcileScopes` -/
def reconcileScopes (s : AgentRuntime) : AgentRuntime :=
  s.reconcileRounds (s.log.dirtyScopes.length + s.openMembers.length)

/-! ## Admission -/

def assertOpen (s : AgentRuntime) : Except String Unit :=
  if s.closed then .error "AgentRuntime is closed" else .ok ()

def assertAccepting (s : AgentRuntime) : Except String Unit := do
  s.assertOpen
  if s.stopping then throw "AgentRuntime is shutting down"

/-- `require` -/
def find (id : String) (s : AgentRuntime) : Except String AgentState :=
  match s.log.get id with
  | some state => .ok state
  | none => .error ("Agent \"" ++ id ++ "\" not found")

def refuseIf (refused : Bool) (message : String) : Except String Unit :=
  if refused then .error message else .ok ()

/-- A call of the host, which throws or leaves a new state. -/
def attempt (call : AgentRuntime → Except String AgentRuntime) (s : AgentRuntime) : AgentRuntime :=
  match call s with
  | .ok s' => s'
  | .error _ => s

/-! ## The life of an agent -/

structure CreateInput where
  id : String
  runId : String
  parentId : Option String := none
  input : JsValue
  checkpoint : JsValue
  workspace : Option AgentWorkspace := none
  maxSteps : Nat

def MAX_SAFE_INTEGER : Nat := 9007199254740991

/-- The checks of `create` before the budget of the run. -/
def assertCreatable (input : CreateInput) (s : AgentRuntime) : Except String Unit := do
  s.assertAccepting
  refuseIf (input.id = "" || (s.log.get input.id).isSome)
    ("Agent id is empty or already exists: \"" ++ input.id ++ "\"")
  refuseIf (input.maxSteps < 1 || MAX_SAFE_INTEGER < input.maxSteps)
    "maxSteps must be a positive safe integer"
  s.log.assertRun input.runId
  match input.workspace with
  | some workspace => s.log.assertWorkspace workspace input.runId input.id
  | none => pure ()
  match input.parentId with
  | none => pure ()
  | some parentId => do
    let parent ← s.find parentId
    refuseIf (parent.runId ≠ input.runId) "Parent agent belongs to another Run"
    s.assertScopeOpen parentId false
    refuseIf (parent.status = .waiting) "Parent agent is already joining its children"

/-- The state of a new agent. -/
def createdState (input : CreateInput) (s : AgentRuntime) : Except String AgentState := do
  refuseIf ((s.log.usages.runs input.runId).any fun usage =>
      usage.budget.maxAgents ≤ usage.agentsCreated) "Run agent budget exhausted"
  let given ← data input.input
  let checkpoint ← data input.checkpoint
  return {
    id := input.id
    runId := input.runId
    parentId := input.parentId
    input := given
    checkpoint
    workspace := input.workspace
    status := .ready
    maxSteps := input.maxSteps
    stepsUsed := 0
    pauseRequested := false
    reason := none
    error := none }

def ensureRunBudget (runId : String) (s : AgentRuntime) : AgentRuntime :=
  { s with log := s.log.ensureRunBudget runId }

/-- `create`: the budget of the run is written down even when the agent is refused. -/
def create (input : CreateInput) (s : AgentRuntime) : AgentRuntime :=
  match s.assertCreatable input with
  | .error _ => s
  | .ok _ =>
    let s := s.ensureRunBudget input.runId
    match s.createdState input with
    | .error _ => s
    | .ok state => s.record .created state

def pause (id : String) (s : AgentRuntime) : Except String AgentRuntime := do
  s.assertAccepting
  let state ← s.find id
  refuseIf (state.reason = interruptRequested || s.registeredAborted id)
    "Cannot pause agent with pending interruption"
  refuseIf (! [AgentStatus.ready, .running, .checking, .recovering, .paused].contains state.status)
    ("Cannot pause " ++ state.status.text ++ " agent")
  let active := state.status = .running || state.status = .checking || state.status = .recovering
  return s.record .pauseRequested { state with
    pauseRequested := active
    status := if active then state.status else .paused
    reason := some "requested" }

def resume (id : String) (s : AgentRuntime) : AgentRuntime :=
  let admitted : Except String AgentState := do
    s.assertAccepting
    let state ← s.find id
    refuseIf (state.status ≠ .paused) ("Cannot resume " ++ state.status.text ++
      " agent; restore an interrupted checkpoint explicitly")
    refuseIf (state.maxSteps ≤ state.stepsUsed) "Agent step budget exhausted"
    s.assertScopeOpen id false
    return state
  match admitted with
  | .error _ => s
  | .ok state =>
    let s := s.ensureRunBudget state.runId
    let allowed : Except String Unit := do
      refuseIf (s.log.runExhausted state.runId) "Run step budget exhausted"
      s.log.assertRun state.runId
    match allowed with
    | .error _ => s
    | .ok _ =>
      s.record .resumed
        { state with status := .ready, pauseRequested := false, reason := none, error := none }

/-- `interruptScope`: callers share the barrier of their root. -/
def interrupt (id : String) (s : AgentRuntime) : Except String AgentRuntime := do
  s.assertOpen
  let state ← s.find id
  refuseIf (state.status = .completed || state.status = .failed)
    ("Cannot interrupt " ++ state.status.text ++ " agent")
  let root := Forest.root s.log.forest id
  if s.hasInterruption root then return s
  let members := Forest.scope s.log.forest root
  return ({ s with
    interruptions := {
      root
      quanta := (s.quanta.filter fun (entry : String × Nat) => entry.1 ∈ members).map Prod.snd
      recoveries := (s.recoveries.filter fun (recovery : AgentRecovery) =>
        recovery.agentId ∈ members).map AgentRecovery.agentId } :: s.interruptions }).cancelScope
    root

/-! ## Restoration -/

def isStopped (state : AgentState) : Bool :=
  state.status = .paused || state.status = .interrupted

/-- `commitRestore` -/
def commitRestore (state : AgentState) (seq : Nat) (workspace : Option AgentWorkspace)
    (s : AgentRuntime) : Except String AgentRuntime := do
  match (s.log.checkpoints state.id).find? fun event => event.seq = seq with
  | none =>
    throw ("No checkpoint " ++ toString seq ++ " for agent \"" ++ state.id ++ "\"")
  | some saved => do
    s.log.assertRun state.runId
    match workspace with
    | some workspace => s.log.assertWorkspace workspace state.runId state.id
    | none => pure ()
    return { s with
      log := s.log.record .restored { state with
        checkpoint := saved.state.checkpoint
        workspace := workspace.orElse fun _ => state.workspace
        status := .paused
        pauseRequested := false
        reason := some "restored"
        error := none } (some seq) }

def restoreCheckpoint (id : String) (seq : Nat) (workspace : Option AgentWorkspace)
    (s : AgentRuntime) : Except String AgentRuntime := do
  s.assertAccepting
  let state ← s.find id
  s.assertScopeOpen id true
  refuseIf (!isStopped state) "Restore requires a paused or interrupted agent"
  s.commitRestore state seq workspace

/-- `recoverCheckpoint` up to the call of `prepare` -/
def recoverCheckpoint (id : String) (s : AgentRuntime) : Except String AgentRuntime := do
  s.assertAccepting
  let previous ← s.find id
  refuseIf (!isStopped previous) ("Cannot recover " ++ previous.status.text ++ " agent")
  s.assertScopeOpen id true
  s.log.assertRun previous.runId
  let s := s.record .recoveryStarted
    { previous with status := .recovering, reason := some "reconstruction", pauseRequested := false }
  return { s with recoveries := s.recoveries ++ [{ agentId := id, previous }] }

/-- `String(error)` of a plain error -/
def errorText (message : String) : String := "Error: " ++ message

/-- What `prepare` resolves to; `discard` tells that it can give its resources back. -/
structure Prepared where
  seq : Nat
  workspace : Option AgentWorkspace := none
  discard : Bool := false

/-- The reconstruction ends with the state before it. -/
def recoveryEnds (recovery : AgentRecovery) (transition : AgentTransition) (state : AgentState)
    (rejected : Bool) (s : AgentRuntime) : AgentRuntime :=
  (s.setRecovery recovery.agentId (.finished rejected)).record transition state

def interruptedBefore (recovery : AgentRecovery) : AgentState :=
  { recovery.previous with
    status := .interrupted, pauseRequested := false, reason := interruptRequested }

/-- The reconstruction was interrupted in the meantime. -/
def recoveryCancelled (recovery : AgentRecovery) (s : AgentRuntime) : Bool :=
  (s.log.get recovery.agentId).any fun state => state.reason = interruptRequested

/-- The `catch` of a reconstruction, when nothing is left to be given back. -/
def recoveryFails (recovery : AgentRecovery) (failure : String) (s : AgentRuntime) :
    AgentRuntime :=
  s.recoveryEnds recovery .recoveryFailed
    (if s.recoveryCancelled recovery then
      { interruptedBefore recovery with error := some failure }
    else recovery.previous) true

def recoveryInPhase (id : String) (p : RecoveryPhase → Bool) (s : AgentRuntime) :
    Option AgentRecovery :=
  s.recoveries.find? fun recovery => recovery.agentId = id && p recovery.phase

/-- `prepare` has settled. -/
def prepared (id : String) (answer : Except String (Option Prepared)) (s : AgentRuntime) :
    AgentRuntime :=
  match s.recoveryInPhase id (fun phase => phase = .preparing), s.log.get id with
  | some recovery, some state =>
    match answer with
    | .error failure => s.recoveryFails recovery failure
    | .ok candidate =>
      if s.recoveryCancelled recovery then s.setRecovery id (.discarding none)
      else match candidate with
      | none => s.recoveryEnds recovery .recoveryAbandoned recovery.previous false
      | some candidate =>
        match s.commitRestore state candidate.seq candidate.workspace with
        | .ok s' => s'.setRecovery id (.finished false)
        | .error message =>
          if candidate.discard then s.setRecovery id (.discarding (some (errorText message)))
          else s.recoveryFails recovery (errorText message)
  | _, _ => s

/-- `discard` has settled. -/
def discarded (id : String) (answer : Except String Unit) (s : AgentRuntime) : AgentRuntime :=
  match s.recoveryInPhase id (fun phase => phase ≠ .preparing) with
  | none => s
  | some recovery =>
    match recovery.phase, answer with
    | .discarding none, .ok _ =>
      s.recoveryEnds recovery .recoveryInterrupted (interruptedBefore recovery) false
    | .discarding none, .error failure => s.recoveryFails recovery failure
    | .discarding (some failure), .ok _ => s.recoveryFails recovery failure
    | .discarding (some _), .error _ =>
      s.recoveryFails recovery "AggregateError: Recovery binding and cleanup failed"
    | _, _ => s

/-- `finally` of a reconstruction -/
def recoverySettled (id : String) (s : AgentRuntime) : AgentRuntime :=
  match s.recoveryInPhase id fun phase => phase = .finished true || phase = .finished false with
  | none => s
  | some recovery =>
    { s with
      recoveries := s.recoveries.filter fun r => r.agentId ≠ id
      draining := match s.draining with
        | .joining cancelled rejected =>
          .joining (cancelled.erase id)
            (rejected || (cancelled.contains id && recovery.phase = .finished true))
        | phase => phase }

/-- The barrier of an interruption falls when everything it awaits has settled. -/
def interruptionSettled (root : String) (s : AgentRuntime) : AgentRuntime :=
  { s with
    interruptions := s.interruptions.filter fun interruption =>
      interruption.root ≠ root ||
        (interruption.quanta.any fun ticket => (s.quantum? ticket).isSome) ||
        interruption.recoveries.any fun id => s.hasRecovery id }

end AgentRuntime
end XioFlow.Agents
