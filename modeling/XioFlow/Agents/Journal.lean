/-
  XioFlow.Agents.Journal

  The agent events of the domain journal, and what the runtime keeps in memory
  of them: the current states, the task trees, the usage of the runs, and the
  trees that have changed since they were last reconciled.

  The journal stands last event first.  An event carries the state that
  `append` was given and the state that `sync` projects it to: data bodies pass
  through the redaction of the journal and are stored only with the events
  that bring them.
-/

import XioFlow.Agents.RunBudget
import XioFlow.Agents.State
import XioFlow.Lib.Forest
import XioFlow.Store.EventEnvelope

namespace XioFlow.Agents

open Lib

/-! ## Events -/

inductive AgentTransition where
  | created | pauseRequested | resumed | recoveryStarted | recoveryInterrupted | recoveryAbandoned
  | recoveryFailed | restored | shutdownRequested | budgetExhausted | failed | checking
  | interrupted | paused | stepStarted | stepCompleted | interruptRequested | scopeCompleted
  | recovered
  deriving DecidableEq, Repr

/-- The transitions that end at a checkpoint. -/
def isAgentCheckpoint : AgentTransition → Bool
  | .created | .stepCompleted | .restored => true
  | _ => false

/-- An `AGENT_STATE` event. -/
structure AgentEvent where
  seq : Nat
  transition : AgentTransition
  given : AgentState
  checkpointRef : Option Nat
  state : AgentState
  deriving DecidableEq

/-- A `TX_` event. -/
structure TransactionEvent where
  type : String
  txId : String
  runId : Option String := none
  forkRoot : Option String := none
  deriving DecidableEq

/-- What stays of a JSON value in a journal payload. -/
def stored (value : Json) : Json :=
  match jsonValue value.toJs "payload" with
  | .ok kept => kept
  | .error _ => value

/-- `readAgentCheckpoint`: a restoration leads back to an earlier checkpoint of the agent. -/
def readAgentCheckpoint : List AgentEvent → Nat → String → Option Json
  | [], _, _ => none
  | event :: older, seq, agentId =>
    if event.seq = seq then
      if event.state.id ≠ agentId then none
      else match event.transition, event.checkpointRef with
      | .created, _ | .stepCompleted, _ => some (stored event.given.checkpoint)
      | _, some ref => if 1 ≤ ref ∧ ref < seq then readAgentCheckpoint older ref agentId else none
      | _, none => none
    else readAgentCheckpoint older seq agentId

/-! ## The log -/

/-- The agent part of the journal with its projection, and what the checks read of the domain. -/
structure AgentLog where
  /-- the number of the last event of the domain -/
  seq : Nat := 0
  journal : List AgentEvent := []
  /-- `childrenByParent` -/
  forest : Forest String := []
  usages : RunUsages
  dirtyScopes : List String := []
  /-- the runs of the domain that are queued, starting or running -/
  openRuns : List String := []
  transactions : List TransactionEvent := []

/-- `set.add(value)` -/
def setAdd (value : String) (values : List String) : List String :=
  if values.contains value then values else values ++ [value]

/-- What `sync` adds to the usage of a run. -/
def RunUsages.charge (r : RunUsages) (previous : Option AgentState) (state : AgentState) :
    RunUsages :=
  let usage := (r.runs state.runId).getD { budget := r.defaultRunBudget }
  r.set state.runId { usage with
    stepsUsed := usage.stepsUsed + state.stepsUsed - (previous.map AgentState.stepsUsed).getD 0
    agentsCreated := if previous.isNone then usage.agentsCreated + 1 else usage.agentsCreated }

namespace AgentLog

/-- The last event of an agent. -/
def latest (id : String) (l : AgentLog) : Option AgentEvent :=
  l.journal.find? fun event => event.state.id = id

/-- `states.get(id)?.state` -/
def get (id : String) (l : AgentLog) : Option AgentState := (l.latest id).map AgentEvent.state

/-- The agents in the order of their creation. -/
def ids (l : AgentLog) : List String := (Forest.members l.forest).reverse

/-- `states.values()` -/
def states (l : AgentLog) : List AgentEvent := l.ids.filterMap fun id => l.latest id

/-- `checkpoints` -/
def checkpoints (id : String) (l : AgentLog) : List AgentEvent :=
  l.journal.reverse.filter fun event => event.state.id = id ∧ isAgentCheckpoint event.transition

/-- `projectAgentEvent` -/
def project (transition : AgentTransition) (given : AgentState) (checkpointRef : Option Nat)
    (l : AgentLog) : AgentState :=
  match transition, l.get given.id with
  | .created, _ =>
    { given with input := stored given.input, checkpoint := stored given.checkpoint }
  | .stepCompleted, some previous =>
    { given with input := previous.input, checkpoint := stored given.checkpoint }
  | .restored, some previous =>
    { given with
      input := previous.input
      checkpoint := (checkpointRef.bind fun ref =>
        readAgentCheckpoint l.journal ref given.id).getD previous.checkpoint }
  | _, some previous => { given with input := previous.input, checkpoint := previous.checkpoint }
  | _, none => given

/-- `append` and `sync` -/
def record (transition : AgentTransition) (given : AgentState) (checkpointRef : Option Nat)
    (l : AgentLog) : AgentLog :=
  let previous := l.get given.id
  let state := l.project transition given checkpointRef
  let forest := if previous.isSome then l.forest else (state.id, state.parentId) :: l.forest
  { l with
    seq := l.seq + 1
    journal := ⟨l.seq + 1, transition, given, checkpointRef, state⟩ :: l.journal
    forest
    usages := l.usages.charge previous state
    dirtyScopes := setAdd (Forest.root forest state.id) l.dirtyScopes }

/-- The limits of a run are written down on its first use. -/
def ensureRunBudget (runId : String) (l : AgentLog) : AgentLog :=
  if l.usages.budgetedRuns runId then l
  else { l with seq := l.seq + 1, usages := l.usages.ensureRunBudget runId }

/-- The limit of the run is reached. -/
def runExhausted (runId : String) (l : AgentLog) : Bool :=
  (l.usages.runs runId).any fun usage => usage.budget.maxSteps ≤ usage.stepsUsed

/-- The steps that the agents of a run have used. -/
def runSteps (runId : String) (l : AgentLog) : Nat :=
  total (fun event => if event.state.runId = runId then event.state.stepsUsed else 0) l.states

def children (id : String) (l : AgentLog) : List AgentState :=
  (Forest.children l.forest id).filterMap fun child => l.get child

/-! ## Checks -/

def assertRun (runId : String) (l : AgentLog) : Except String Unit :=
  if l.openRuns.contains runId then .ok ()
  else .error ("Run \"" ++ runId ++ "\" cannot accept agent execution")

/-- The transaction is open, of the run and at the fork root. -/
def openTransaction (workspace : AgentWorkspace) (runId : String) (l : AgentLog) : Bool :=
  let events := l.transactions.filter fun event => event.txId = workspace.txId
  match events.find? fun event => event.type = "TX_BEGUN" with
  | none => false
  | some begun =>
    begun.runId = some runId && begun.forkRoot = some workspace.forkRoot &&
      !events.any fun event =>
        ["TX_COMMITTED", "TX_ABORTED", "TX_CONFLICTED", "TX_COMMITTING"].contains event.type

/-- The agent can still need its workspace. -/
def isLive (state : AgentState) : Bool := state.status ≠ .completed ∧ state.status ≠ .failed

def assertWorkspace (workspace : AgentWorkspace) (runId agentId : String) (l : AgentLog) :
    Except String Unit :=
  if !l.openTransaction workspace runId then
    .error "Agent workspace must be an open transaction of its Run"
  else if l.states.any fun event => event.state.id ≠ agentId &&
      event.state.workspace.any (fun w => w.txId = workspace.txId) && isLive event.state then
    .error "Workspace transaction is already bound to another active agent"
  else .ok ()

end AgentLog

/-! ## Agents -/

def AgentStatus.text : AgentStatus → String
  | ready => "ready"
  | checking => "checking"
  | running => "running"
  | recovering => "recovering"
  | waiting => "waiting"
  | paused => "paused"
  | completed => "completed"
  | failed => "failed"
  | interrupted => "interrupted"

def interruptRequested : Option String := some "interrupt_requested"

/-- A member that takes part in nothing any more. -/
def AgentState.closed (state : AgentState) : Bool :=
  state.status = .completed || state.status = .failed || state.status = .interrupted ||
    state.reason = interruptRequested

/-- A member that cancels its task. -/
def AgentState.cancels (state : AgentState) : Bool :=
  state.status = .interrupted || state.status = .failed || state.reason = interruptRequested

end XioFlow.Agents
