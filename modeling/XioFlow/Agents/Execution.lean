/-
  XioFlow.Agents.Execution

  The commands of a quantum, from the call of `executeProcess` to the
  checkpoint that the quantum records.

  The step adapter is any program of the host: it calls at any time, before
  and after its step has returned, and the promises it gets settle at any
  time.  Every reaction to a settled promise is an event of its own, so that a
  run is an interleaving of the microtasks of all quanta.
-/

import XioFlow.Agents.RunBudget
import XioFlow.Agents.State

namespace XioFlow.Agents

/-! ## Commands -/

/-- What a submitted command comes to: a result, with the reason why it is indeterminate, or an
    error. -/
inductive CommandOutcome where
  | resolved (indeterminate : Option String)
  | rejected (error : String)
  deriving DecidableEq

/-- What the batch adds to its failures for an outcome. -/
def CommandOutcome.failure? (opId : String) : CommandOutcome → Option String
  | resolved none => none
  | resolved (some reason) =>
    some ("Agent operation \"" ++ opId ++ "\" has an indeterminate outcome: " ++ reason)
  | rejected error => some error

/-- How far the promise chain of an accepted call has come. -/
inductive CommandPhase where
  /-- a slot is taken; the submission is a queued microtask -/
  | reserved
  | submitted
  /-- `submit` is settled; `finally(release)` is queued -/
  | settled (outcome : CommandOutcome)
  /-- the slot is given back; the handler of the batch is queued -/
  | released (outcome : CommandOutcome)
  /-- the batch knows the outcome; `pending.delete` is queued -/
  | tracked (outcome : CommandOutcome)
  | dropped (outcome : CommandOutcome)
  deriving DecidableEq

/-- One call of `executeProcess`: how it was turned away, or the command it became. -/
inductive AgentCall where
  | closed
  | afterFailure (error : String)
  | refused (error : String)
  | accepted (opId : String) (phase : CommandPhase)
  deriving DecidableEq

/-- The promise of the call is in the set `pending`. -/
def AgentCall.isPending : AgentCall → Bool
  | closed | afterFailure _ | refused _ | accepted _ (.dropped _) => false
  | accepted _ _ => true

/-- The command takes a slot of its run. -/
def AgentCall.isUnsettled : AgentCall → Bool
  | accepted _ .reserved | accepted _ .submitted | accepted _ (.settled _) => true
  | _ => false

/-- One quantum owns its submitted commands, even if the adapter forgets to await them. -/
structure AgentCommandGroup where
  isOpen : Bool := true
  /-- `signal.aborted` -/
  aborted : Bool := false
  calls : List AgentCall := []
  failures : List String := []
  deriving DecidableEq

/-- The error of an aborted signal. -/
def abortReason : String := "Agent interruption requested"

namespace AgentCommandGroup

/-- `executeProcess`.  Only a call that gets as far as the reservation asks for a slot. -/
def executeProcess (opId : String) (reserve : RunUsages → RunUsages × Except String Unit)
    (usages : RunUsages) (g : AgentCommandGroup) : AgentCommandGroup × RunUsages :=
  if !g.isOpen then ({ g with calls := g.calls ++ [.closed] }, usages)
  else match g.failures with
  | failure :: _ => ({ g with calls := g.calls ++ [.afterFailure failure] }, usages)
  | [] =>
    if g.aborted then
      ({ g with calls := g.calls ++ [.refused abortReason], failures := [abortReason] }, usages)
    else match reserve usages with
    | (usages', .error error) =>
      ({ g with calls := g.calls ++ [.refused error], failures := [error] }, usages')
    | (usages', .ok _) => ({ g with calls := g.calls ++ [.accepted opId .reserved] }, usages')

/-- The microtask of an accepted call: `submit` is called unless the signal is aborted. -/
def submit (g : AgentCommandGroup) : AgentCall → AgentCall
  | .accepted opId .reserved =>
    .accepted opId (if g.aborted then .settled (.rejected abortReason) else .submitted)
  | call => call

/-- The calls that are in the set `pending`, by number. -/
def pending (g : AgentCommandGroup) : List Nat :=
  (List.range g.calls.length).filter fun c => g.calls[c]?.any AgentCall.isPending

end AgentCommandGroup

/-- The promise that `submit` returned is settled. -/
def AgentCall.settle (outcome : CommandOutcome) : AgentCall → AgentCall
  | .accepted opId .submitted => .accepted opId (.settled outcome)
  | call => call

/-- `finally(release)` has run. -/
def AgentCall.release : AgentCall → AgentCall
  | .accepted opId (.settled outcome) => .accepted opId (.released outcome)
  | call => call

/-- `pending.delete(pending)` -/
def AgentCall.drop : AgentCall → AgentCall
  | .accepted opId (.tracked outcome) => .accepted opId (.dropped outcome)
  | call => call

/-! ## Quanta -/

/-- Where the part of `advance` behind `step_started` stands. -/
inductive QuantumPhase where
  | stepping
  /-- the step has settled, and `finish` waits for the commands that were pending -/
  | joining (returned : Except String AgentStepResult) (snapshot : List Nat)
  | checkpointed (status : String) (checkpoint : Json)
  | interrupted (failures : List String)
  /-- the journal refused the event -/
  | unrecorded

structure Quantum where
  agentId : String
  runId : String
  commands : AgentCommandGroup := {}
  phase : QuantumPhase := .stepping

/-- The failures of the quantum after `finish`. -/
def Quantum.allFailures (q : Quantum) (returned : Except String AgentStepResult) : List String :=
  (match returned with
    | .error error => [error]
    | .ok _ => []) ++ q.commands.failures ++ (if q.commands.aborted then [abortReason] else [])

/-- What the quantum records when its commands have settled. -/
def Quantum.conclude (q : Quantum) (returned : Except String AgentStepResult) : QuantumPhase :=
  match q.allFailures returned, returned with
  | [], .ok result =>
    if result.status ≠ "ready" ∧ result.status ≠ "completed" then
      .interrupted ["Invalid agent step status"]
    else match data result.checkpoint with
      | .error error => .interrupted [error]
      | .ok checkpoint => .checkpointed result.status checkpoint
  | failures, _ => .interrupted failures

/-! ## The machine -/

/-- The quanta of a runtime in the order in which they began, and the counters of their runs. -/
structure Commands where
  usages : RunUsages
  quanta : List Quantum

/-- `reserveCommand`; `admits` is what the checks of the runtime and of the task scope say. -/
def reserveCommand (runId : String) (admits : Except String Unit) (usages : RunUsages) :
    RunUsages × Except String Unit :=
  match admits with
  | .error error => (usages, .error error)
  | .ok _ =>
    let usages := usages.ensureRunBudget runId
    match usages.runs runId with
    | none => (usages, .error "No agent budget")
    | some usage =>
      if usage.budget.maxPendingCommands ≤ usage.pendingCommands then
        (usages, .error "Run pending command limit exceeded")
      else
        (usages.set runId { usage with pendingCommands := usage.pendingCommands + 1 }, .ok ())

inductive CommandEvent where
  /-- `step_started` is recorded and the adapter called -/
  | begin (agentId runId : String)
  | call (q : Nat) (opId : String) (admits : Except String Unit)
  | submit (q c : Nat)
  | settle (q c : Nat) (outcome : CommandOutcome)
  | release (q c : Nat)
  | track (q c : Nat)
  | drop (q c : Nat)
  | abort (q : Nat)
  /-- the promise of the step is settled, and `advance` goes on to `finish` -/
  | stepSettled (q : Nat) (returned : Except String AgentStepResult)
  /-- all promises of the snapshot have settled, and `advance` goes on -/
  | joined (q : Nat) (journalAccepts : Bool)
  | readBudget (runId : String) (budget : AgentRunBudget)

namespace Commands

def onQuantum (q : Nat) (f : Quantum → Quantum) (s : Commands) : Commands :=
  { s with quanta := s.quanta.modify q f }

def onCall (q c : Nat) (f : AgentCommandGroup → AgentCall → AgentCall) (s : Commands) : Commands :=
  s.onQuantum q fun quantum =>
    { quantum with
      commands := { quantum.commands with
        calls := quantum.commands.calls.modify c (f quantum.commands) } }

/-- `executeProcess` of the context of a quantum. -/
def call (q : Nat) (opId : String) (admits : Except String Unit) (s : Commands) : Commands :=
  match s.quanta[q]? with
  | none => s
  | some quantum =>
    let (commands, usages) := quantum.commands.executeProcess opId
      (reserveCommand quantum.runId admits) s.usages
    { quanta := s.quanta.set q { quantum with commands }, usages }

/-- The slot of a settled command is given back. -/
def release (q c : Nat) (s : Commands) : Commands :=
  match s.quanta[q]? with
  | none => s
  | some quantum =>
    match quantum.commands.calls[c]?, s.usages.runs quantum.runId with
    | some (.accepted _ (.settled _)), some usage =>
      { s.onCall q c (fun _ => AgentCall.release) with
        usages := s.usages.set quantum.runId
          { usage with pendingCommands := usage.pendingCommands - 1 } }
    | _, _ => s

/-- The batch learns the outcome. -/
def track (q c : Nat) (s : Commands) : Commands :=
  s.onQuantum q fun quantum =>
    match quantum.commands.calls[c]? with
    | some (.accepted opId (.released outcome)) =>
      { quantum with
        commands := { quantum.commands with
          calls := quantum.commands.calls.set c (.accepted opId (.tracked outcome))
          failures := quantum.commands.failures ++ (outcome.failure? opId).toList } }
    | _ => quantum

/-- `finish`: the context closes, and the pending commands are awaited. -/
def stepSettled (q : Nat) (returned : Except String AgentStepResult) (s : Commands) : Commands :=
  s.onQuantum q fun quantum =>
    match quantum.phase with
    | .stepping =>
      { quantum with
        commands := { quantum.commands with isOpen := false }
        phase := .joining returned quantum.commands.pending }
    | _ => quantum

def joined (q : Nat) (journalAccepts : Bool) (s : Commands) : Commands :=
  s.onQuantum q fun quantum =>
    match quantum.phase with
    | .joining returned snapshot =>
      if snapshot.all fun c => c ∉ quantum.commands.pending then
        { quantum with
          phase := if journalAccepts then quantum.conclude returned else .unrecorded }
      else quantum
    | _ => quantum

/-- A limit read from the journal; one that contradicts another is refused. -/
def readBudget (runId : String) (budget : AgentRunBudget) (s : Commands) : Commands :=
  match s.usages.readBudget runId budget with
  | .ok usages => { s with usages }
  | .error _ => s

/-- One event.  An event that is not due changes nothing. -/
def after : CommandEvent → Commands → Commands
  | .begin agentId runId, s => { s with quanta := s.quanta ++ [{ agentId, runId }] }
  | .call q opId admits, s => s.call q opId admits
  | .submit q c, s => s.onCall q c AgentCommandGroup.submit
  | .settle q c outcome, s => s.onCall q c fun _ => AgentCall.settle outcome
  | .release q c, s => s.release q c
  | .track q c, s => s.track q c
  | .drop q c, s => s.onCall q c fun _ => AgentCall.drop
  | .abort q, s => s.onQuantum q fun quantum =>
    { quantum with commands := { quantum.commands with aborted := true } }
  | .stepSettled q returned, s => s.stepSettled q returned
  | .joined q journalAccepts, s => s.joined q journalAccepts
  | .readBudget runId budget, s => s.readBudget runId budget

/-- A runtime that has read these limits from its journal. -/
def opened (defaultRunBudget : AgentRunBudget) (budgets : String → Option AgentRunBudget) :
    Commands where
  usages := {
    defaultRunBudget
    runs := fun runId => (budgets runId).map fun budget => { budget }
    budgetedRuns := fun runId => (budgets runId).isSome }
  quanta := []

end Commands
end XioFlow.Agents
