/-
  XioFlow.Pipeline.Engine

  Any number of pipeline runs on one domain coordinator.

  A step is a stretch of code between two points at which the host may switch
  to another run.  One pass of the scheduling loop is cut into steps for its
  single instructions, so that the runs here interleave in more ways than in
  the host.  Executors and precondition checkers are outside: what they answer
  and when is part of the label.
-/

import XioFlow.Lib.Locks
import XioFlow.Pipeline.Program

namespace XioFlow.Pipeline

open Lib

/-! ## Results -/

/-- What an executor may return: the declared fields and no other, so that none of them takes the
    place of a field of the result it is spread into. -/
structure Outcome where
  status : InstructionStatus
  value : Option Json := none
  error : Option Json := none
  evidence : Option (List String) := none
  deriving DecidableEq

structure InstructionResult where
  id : InstructionId
  op : Opcode
  resources : List Resource
  joined : Bool := false
  outcome : Outcome
  deriving DecidableEq

def errorOf (code message : String) : Json :=
  .obj [("code", .str code), ("message", .str message)]

/-- The result of an instruction that did not come to its executor. -/
def resultOf (instruction : Instruction) (outcome : Outcome) : InstructionResult where
  id := instruction.id
  op := instruction.op
  resources := instruction.op.resourceCost
  outcome := outcome

def failedOutcome (instruction : Instruction) (code message : String) : InstructionResult :=
  resultOf instruction { status := .failed, error := some (errorOf code message) }

def abortOutcome (instruction : Instruction) : InstructionResult :=
  resultOf instruction {
    status := .cancelled
    error := some (errorOf "cancelled" "pipeline execution was cancelled") }

def skippedOutcome (instruction : Instruction) (dependency : String) : InstructionResult :=
  resultOf instruction {
    status := .partialDone
    error := some (errorOf "dependency_failed"
      ("dependency '" ++ dependency ++ "' did not succeed")) }

def InstructionResult.status (result : InstructionResult) : InstructionStatus :=
  result.outcome.status

def dependencySucceeded (result : InstructionResult) : Bool :=
  decide (result.status = .succeeded ∨
    (result.op = .workspaceRollback ∧ result.status = .rolledBack))

inductive PipelineStatus where
  | succeeded | failed | partialDone | rejected | indeterminate
  deriving DecidableEq, Repr

structure PipelineRunResult where
  status : PipelineStatus
  results : List InstructionResult
  deriving DecidableEq

def finalStatus (results : List InstructionResult) : PipelineStatus :=
  if results.any fun r => decide (r.status = .indeterminate) then .indeterminate
  else if results.any fun r => decide (r.status = .failed) then .failed
  else if results.any fun r => decide (r.status = .partialDone ∨ r.status = .cancelled) then
    .partialDone
  else .succeeded

/-! ## Fingerprints and keys -/

/-- What `instructionFingerprint` hashes. -/
structure FingerprintInput where
  isa : String
  programId : String
  capability : Option String
  workspace : Option String
  options : Option Json
  instruction : Instruction
  deriving DecidableEq

/-- The digest of the canonical encoding, and the text of an id that is not a string. -/
structure PipelineHost where
  digest : FingerprintInput → String
  otherIdText : InstructionId → String

def fingerprintInput (program : Program) (instruction : Instruction) : FingerprintInput where
  isa := program.isa
  programId := program.programId
  capability := program.capability
  workspace := program.workspace
  options := program.options
  instruction := instruction

def instructionFingerprint (host : PipelineHost) (program : Program) (instruction : Instruction) :
    String := host.digest (fingerprintInput program instruction)

def idText (host : PipelineHost) : InstructionId → String
  | .text s => s
  | id => host.otherIdText id

/-- ``instruction.opId ?? `${program.programId}:${instruction.id}` `` -/
def joinKey (host : PipelineHost) (program : Program) (instruction : Instruction) : String :=
  instruction.opId.getD (program.programId ++ ":" ++ idText host instruction.id)

/-- `byId.get(id)`: of instructions with one id the last. -/
def byId (program : Program) (id : InstructionId) : Option Instruction :=
  program.instructions.reverse.find? fun instruction => decide (instruction.id = id)

def instructionIds (program : Program) : List InstructionId :=
  program.instructions.map Instruction.id

/-! ## States -/

abbrev RunId := Nat

/-- An instruction of a run. -/
structure TaskId where
  run : RunId
  id : InstructionId
  deriving DecidableEq

inductive PreconditionVerdict where
  | valid | stale | unknown
  deriving DecidableEq, Repr

def PreconditionVerdict.text : PreconditionVerdict → String
  | valid => "valid"
  | stale => "stale"
  | unknown => "unknown"

/-- Where the promise of a started instruction stands. -/
inductive Phase where
  | idle
  /-- The instruction waits for the promise of another one. -/
  | joined (owner : TaskId)
  | waiting
  /-- It has its resources. -/
  | granted
  /-- It waits for its turn in the commit queue. -/
  | queued
  /-- The checker has the precondition at this index. -/
  | checking (index : Nat)
  | executing
  /-- The result is there, the commit queue and the resources not yet given up. -/
  | returned (result : InstructionResult)
  | resolved (result : InstructionResult)
  deriving DecidableEq

inductive Loop where
  /-- At the head of the `while` loop. -/
  | ready
  /-- In the `for` loop over the pending instructions. -/
  | scanning (rest : List InstructionId) (progressed : Bool)
  /-- In `Promise.race`. -/
  | racing
  | settled (result : PipelineRunResult)
  deriving DecidableEq

structure Run where
  program : Program
  requested : Option Nat
  checks : Bool
  aborted : Bool
  pending : List InstructionId
  active : List InstructionId := []
  loop : Loop := .ready
  deriving DecidableEq

def Run.limit (run : Run) : Nat := max 1 (min (run.requested.getD 8) 256)

/-- What happened, in order. -/
inductive Event where
  | called (t : TaskId)
  | answered (t : TaskId) (index : Nat) (verdict : PreconditionVerdict)
  | aborted (r : RunId)
  | finished (t : TaskId) (result : InstructionResult)
  /-- The key of an instruction was taken by another one with different input. -/
  | conflicted (t owner : TaskId)
  | joined (t owner : TaskId)
  /-- An instruction was cancelled, its run being aborted. -/
  | cut (t : TaskId)
  deriving DecidableEq

structure State where
  runs : List Run
  phase : TaskId → Phase
  completed : TaskId → Option InstructionResult
  locks : Locks Resource TaskId
  commitQueue : List TaskId
  inFlight : String → Option (String × TaskId)
  log : List Event

def State.start : State where
  runs := []
  phase := fun _ => .idle
  completed := fun _ => none
  locks := {}
  commitQueue := []
  inFlight := fun _ => none
  log := []

namespace State

variable (s : State)

def task? (t : TaskId) : Option Instruction :=
  (s.runs[t.run]?).bind fun run => byId run.program t.id

def cost (t : TaskId) : List Resource :=
  match s.task? t with
  | some instruction => instruction.op.resourceCost
  | none => []

def setRun (r : RunId) (run : Run) : State := { s with runs := s.runs.set r run }

def setPhase (t : TaskId) (phase : Phase) : State :=
  { s with phase := fun u => if u = t then phase else s.phase u }

/-- `completed.set(id, result)` -/
def finish (t : TaskId) (result : InstructionResult) : State :=
  { s with
    completed := fun u => if u = t then some result else s.completed u
    log := s.log ++ [.finished t result] }

def record (events : List Event) : State := { s with log := s.log ++ events }

/-- `acquire` of the waiters that were let in resolves. -/
def grant (granted : List TaskId) : State :=
  { s with phase := fun u => if u ∈ granted then .granted else s.phase u }

/-- The status under which a run has completed an instruction. -/
def statusOf (r : RunId) (instruction : String) : Option InstructionStatus :=
  (s.completed ⟨r, .text instruction⟩).map InstructionResult.status

end State

/-! ## The body of a started instruction -/

/-- `` `precondition[${index}] '${condition.kind}' is ${verdict}` `` -/
def preconditionFailed (instruction : Instruction) (index : Nat) (kind : String)
    (verdict : PreconditionVerdict) : InstructionResult :=
  failedOutcome instruction "precondition_failed"
    ("precondition[" ++ indexText index ++ "] '" ++ kind ++ "' is " ++ verdict.text)

/-- The preconditions from an index on, up to the first one that the checker is asked about. -/
def checkFrom (s : State) (r : RunId) (run : Run) (instruction : Instruction) :
    Nat → List Precondition → Phase
  | _, [] => if run.aborted then .returned (abortOutcome instruction) else .executing
  | index, .instructionStatus i status :: rest =>
    if s.statusOf r i = some status then checkFrom s r run instruction (index + 1) rest
    else .returned (preconditionFailed instruction index "instruction_status" .stale)
  | index, .external kind _ :: _ =>
    if run.checks then .checking index
    else .returned (preconditionFailed instruction index kind .unknown)

/-- `run()`, up to its first `await`. -/
def runBody (s : State) (r : RunId) (run : Run) (instruction : Instruction) : Phase :=
  if run.aborted then .returned (abortOutcome instruction)
  else checkFrom s r run instruction 0 instruction.precondition

/-- `run()` after the answer of the checker. -/
def afterAnswer (s : State) (r : RunId) (run : Run) (instruction : Instruction) (index : Nat)
    (answer : Except String PreconditionVerdict) : Phase :=
  match answer with
  | .ok .valid =>
    checkFrom s r run instruction (index + 1) (instruction.precondition.drop (index + 1))
  | .ok verdict =>
    let kind := match instruction.precondition[index]? with
      | some (.external kind _) => kind
      | _ => ""
    .returned (preconditionFailed instruction index kind verdict)
  | .error message => .returned (failedOutcome instruction "executor_error" message)

/-- The result of an executor call. -/
def executed (instruction : Instruction) (answer : Except String Outcome) : InstructionResult :=
  match answer with
  | .ok outcome => resultOf instruction outcome
  | .error message => failedOutcome instruction "executor_error" message

/-- The events of a task that moves on: its executor is called, or an abort cuts it off. -/
def phaseEvents (t : TaskId) (run : Run) (phase : Phase) : List Event :=
  match phase with
  | .executing => [.called t]
  | .returned result =>
    if run.aborted = true ∧ result.status = .cancelled then [.cut t] else []
  | _ => []

def answerEvents (t : TaskId) (index : Nat) (answer : Except String PreconditionVerdict) :
    List Event :=
  match answer with
  | .ok verdict => [.answered t index verdict]
  | .error _ => []

/-- A task moves on to a phase. -/
def State.advance (s : State) (t : TaskId) (run : Run) (phase : Phase) : State :=
  (s.setPhase t phase).record (phaseEvents t run phase)

/-! ## Steps -/

inductive Label where
  | launch (program : Program) (requested : Option Nat) (checks aborted : Bool)
  | abort (r : RunId)
  | iterate (r : RunId)
  | scan (r : RunId)
  | scanned (r : RunId)
  | wake (r : RunId)
  | resume (t : TaskId)
  | turn (t : TaskId)
  | answer (t : TaskId) (answer : Except String PreconditionVerdict)
  | settle (t : TaskId) (answer : Except String Outcome)
  | leaveQueue (t : TaskId)
  | release (t : TaskId)
  | forget (t : TaskId)
  | deliver (t : TaskId)

def Run.launch (program : Program) (requested : Option Nat) (checks aborted : Bool) : Run where
  program := program
  requested := requested
  checks := checks
  aborted := aborted
  pending := (instructionIds program).eraseDups

/-- The results in program order. -/
def State.results (s : State) (r : RunId) (program : Program) : List InstructionResult :=
  program.instructions.map fun instruction =>
    (s.completed ⟨r, instruction.id⟩).getD (skippedOutcome instruction "unknown")

/-- The pending instructions of a run with the results that an abort gives them. -/
def cancelledPending (r : RunId) (run : Run) : List (TaskId × InstructionResult) :=
  run.pending.filterMap fun id =>
    (byId run.program id).map fun instruction => (⟨r, id⟩, abortOutcome instruction)

/-- The pending instructions of an aborted run are cancelled. -/
def State.cancelPending (s : State) (r : RunId) (run : Run) : State :=
  let cancelled := cancelledPending r run
  { s with
    completed := fun u => ((cancelled.find? fun e => decide (e.1 = u)).map Prod.snd).or
      (s.completed u)
    log := s.log ++ cancelled.flatMap fun e => [.finished e.1 e.2, .cut e.1] }

/-- The first dependency that did not succeed. -/
def failedDependency (s : State) (r : RunId) (instruction : Instruction) : Option String :=
  instruction.dependsOn.find? fun d =>
    !((s.completed ⟨r, .text d⟩).any dependencySucceeded)

/-- The instruction is no longer pending; the scan goes on. -/
def Run.scanned (run : Run) (id : InstructionId) (rest : List InstructionId) : Run :=
  { run with pending := run.pending.erase id, loop := .scanning rest true }

/-- The instruction is active; the scan goes on. -/
def Run.started (run : Run) (id : InstructionId) (rest : List InstructionId) : Run :=
  { run.scanned id rest with active := run.active ++ [id] }

def opIdConflict (instruction : Instruction) (key : String) : InstructionResult :=
  failedOutcome instruction "op_id_conflict"
    ("Operation id '" ++ key ++ "' is already in flight with different input")

section Steps

variable (host : PipelineHost)

/-- `start` of an instruction that nobody has in flight. -/
def State.startOwn (s : State) (t : TaskId) (run : Run) (instruction : Instruction)
    (rest : List InstructionId) : State :=
  let key := joinKey host run.program instruction
  let fingerprint := instructionFingerprint host run.program instruction
  let entered : State :=
    if run.aborted then
      (s.setPhase t (.resolved (abortOutcome instruction))).record [.cut t]
    else
      let acquired := Locks.acquire s.cost s.locks t
      { (s.setPhase t .waiting).grant acquired.1 with locks := acquired.2 }
  { entered.setRun t.run (run.started t.id rest) with
    inFlight := fun k => if k = key then some (fingerprint, t) else s.inFlight k }

/-- The steps of all runs on one coordinator. -/
inductive Step : State → Label → State → Prop where
  | launch (s : State) (program : Program) (requested : Option Nat) (checks aborted : Bool)
      (haccepted : Accepted program) :
      Step s (.launch program requested checks aborted)
        (({ s with runs := s.runs ++ [Run.launch program requested checks aborted] } : State).record
          (if aborted then [.aborted s.runs.length] else []))
  | abort (s : State) (r : RunId) (run : Run) (hrun : s.runs[r]? = some run)
      (hnot : run.aborted = false) :
      Step s (.abort r) ((s.setRun r { run with aborted := true }).record [.aborted r])
  /-- The head of the loop, some instruction being pending or active. -/
  | iterate (s : State) (r : RunId) (run : Run) (hrun : s.runs[r]? = some run)
      (hloop : run.loop = .ready) (hmore : run.pending ≠ [] ∨ run.active ≠ [])
      (hnot : run.aborted = false) :
      Step s (.iterate r) (s.setRun r { run with loop := .scanning run.pending false })
  | cancel (s : State) (r : RunId) (run : Run) (hrun : s.runs[r]? = some run)
      (hloop : run.loop = .ready) (hmore : run.pending ≠ [] ∨ run.active ≠ [])
      (haborted : run.aborted = true) :
      Step s (.iterate r)
        ((s.cancelPending r run).setRun r { run with pending := [], loop := .scanning [] false })
  | finish (s : State) (r : RunId) (run : Run) (hrun : s.runs[r]? = some run)
      (hloop : run.loop = .ready) (hpending : run.pending = []) (hactive : run.active = []) :
      Step s (.iterate r)
        (s.setRun r { run with
          loop := .settled ⟨finalStatus (s.results r run.program), s.results r run.program⟩ })
  /-- The limit is reached. -/
  | full (s : State) (r : RunId) (run : Run) (id : InstructionId) (rest : List InstructionId)
      (progressed : Bool) (hrun : s.runs[r]? = some run)
      (hloop : run.loop = .scanning (id :: rest) progressed)
      (hfull : run.limit ≤ run.active.length) :
      Step s (.scan r) (s.setRun r { run with loop := .scanning [] progressed })
  /-- Some dependency is not completed. -/
  | blocked (s : State) (r : RunId) (run : Run) (id : InstructionId) (rest : List InstructionId)
      (progressed : Bool) (instruction : Instruction) (hrun : s.runs[r]? = some run)
      (hloop : run.loop = .scanning (id :: rest) progressed)
      (hroom : run.active.length < run.limit) (hby : byId run.program id = some instruction)
      (hblocked : ∃ d ∈ instruction.dependsOn, s.completed ⟨r, .text d⟩ = none) :
      Step s (.scan r) (s.setRun r { run with loop := .scanning rest progressed })
  | skip (s : State) (r : RunId) (run : Run) (id : InstructionId) (rest : List InstructionId)
      (progressed : Bool) (instruction : Instruction) (d : String)
      (hrun : s.runs[r]? = some run) (hloop : run.loop = .scanning (id :: rest) progressed)
      (hroom : run.active.length < run.limit) (hby : byId run.program id = some instruction)
      (hready : ∀ d ∈ instruction.dependsOn, s.completed ⟨r, .text d⟩ ≠ none)
      (hfailed : failedDependency s r instruction = some d) :
      Step s (.scan r)
        ((s.finish ⟨r, id⟩ (skippedOutcome instruction d)).setRun r (run.scanned id rest))
  | conflict (s : State) (r : RunId) (run : Run) (id : InstructionId)
      (rest : List InstructionId) (progressed : Bool) (instruction : Instruction)
      (fingerprint : String) (owner : TaskId)
      (hrun : s.runs[r]? = some run) (hloop : run.loop = .scanning (id :: rest) progressed)
      (hroom : run.active.length < run.limit) (hby : byId run.program id = some instruction)
      (hready : ∀ d ∈ instruction.dependsOn, s.completed ⟨r, .text d⟩ ≠ none)
      (hfailed : failedDependency s r instruction = none)
      (hflight : s.inFlight (joinKey host run.program instruction) = some (fingerprint, owner))
      (hother : fingerprint ≠ instructionFingerprint host run.program instruction) :
      Step s (.scan r)
        (((s.record [.conflicted ⟨r, id⟩ owner]).finish ⟨r, id⟩
          (opIdConflict instruction (joinKey host run.program instruction))).setRun r
            (run.scanned id rest))
  | join (s : State) (r : RunId) (run : Run) (id : InstructionId) (rest : List InstructionId)
      (progressed : Bool) (instruction : Instruction) (owner : TaskId)
      (hrun : s.runs[r]? = some run) (hloop : run.loop = .scanning (id :: rest) progressed)
      (hroom : run.active.length < run.limit) (hby : byId run.program id = some instruction)
      (hready : ∀ d ∈ instruction.dependsOn, s.completed ⟨r, .text d⟩ ≠ none)
      (hfailed : failedDependency s r instruction = none)
      (hflight : s.inFlight (joinKey host run.program instruction) =
        some (instructionFingerprint host run.program instruction, owner)) :
      Step s (.scan r)
        (((s.setPhase ⟨r, id⟩ (.joined owner)).record [.joined ⟨r, id⟩ owner]).setRun r
          (run.started id rest))
  | own (s : State) (r : RunId) (run : Run) (id : InstructionId) (rest : List InstructionId)
      (progressed : Bool) (instruction : Instruction)
      (hrun : s.runs[r]? = some run) (hloop : run.loop = .scanning (id :: rest) progressed)
      (hroom : run.active.length < run.limit) (hby : byId run.program id = some instruction)
      (hready : ∀ d ∈ instruction.dependsOn, s.completed ⟨r, .text d⟩ ≠ none)
      (hfailed : failedDependency s r instruction = none)
      (hflight : s.inFlight (joinKey host run.program instruction) = none) :
      Step s (.scan r) (s.startOwn host ⟨r, id⟩ run instruction rest)
  /-- The scan is over and something is active. -/
  | race (s : State) (r : RunId) (run : Run) (progressed : Bool) (hrun : s.runs[r]? = some run)
      (hloop : run.loop = .scanning [] progressed) (hactive : run.active ≠ []) :
      Step s (.scanned r) (s.setRun r { run with loop := .racing })
  | again (s : State) (r : RunId) (run : Run) (progressed : Bool) (hrun : s.runs[r]? = some run)
      (hloop : run.loop = .scanning [] progressed) (hactive : run.active = [])
      (hprogress : run.pending = [] ∨ progressed = true) :
      Step s (.scanned r) (s.setRun r { run with loop := .ready })
  | stuck (s : State) (r : RunId) (run : Run) (hrun : s.runs[r]? = some run)
      (hloop : run.loop = .scanning [] false) (hactive : run.active = [])
      (hpending : run.pending ≠ []) :
      Step s (.scanned r) (s.setRun r { run with loop := .settled ⟨.rejected, []⟩ })
  /-- `Promise.race` has a winner; everything completed is no longer active. -/
  | wake (s : State) (r : RunId) (run : Run) (id : InstructionId)
      (hrun : s.runs[r]? = some run) (hloop : run.loop = .racing) (hid : id ∈ run.active)
      (hdone : s.completed ⟨r, id⟩ ≠ none) :
      Step s (.wake r)
        (s.setRun r { run with
          active := run.active.filter fun id => decide (s.completed ⟨r, id⟩ = none)
          loop := .ready })
  | enqueue (s : State) (t : TaskId) (instruction : Instruction) (hphase : s.phase t = .granted)
      (htask : s.task? t = some instruction) (hcommits : instruction.op.commits = true) :
      Step s (.resume t) { s.setPhase t .queued with commitQueue := s.commitQueue ++ [t] }
  | resume (s : State) (t : TaskId) (run : Run) (instruction : Instruction)
      (hphase : s.phase t = .granted) (hrun : s.runs[t.run]? = some run)
      (hby : byId run.program t.id = some instruction)
      (hcommits : instruction.op.commits = false) :
      Step s (.resume t) (s.advance t run (runBody s t.run run instruction))
  | turn (s : State) (t : TaskId) (run : Run) (instruction : Instruction)
      (hphase : s.phase t = .queued) (hhead : s.commitQueue.head? = some t)
      (hrun : s.runs[t.run]? = some run) (hby : byId run.program t.id = some instruction) :
      Step s (.turn t) (s.advance t run (runBody s t.run run instruction))
  | answer (s : State) (t : TaskId) (run : Run) (instruction : Instruction) (index : Nat)
      (answer : Except String PreconditionVerdict) (hphase : s.phase t = .checking index)
      (hrun : s.runs[t.run]? = some run) (hby : byId run.program t.id = some instruction) :
      Step s (.answer t answer)
        ((s.record (answerEvents t index answer)).advance t run (afterAnswer s t.run run instruction index answer))
  | settle (s : State) (t : TaskId) (run : Run) (instruction : Instruction)
      (answer : Except String Outcome) (hphase : s.phase t = .executing)
      (hrun : s.runs[t.run]? = some run) (hby : byId run.program t.id = some instruction) :
      Step s (.settle t answer) (s.advance t run (.returned (executed instruction answer)))
  | leaveQueue (s : State) (t : TaskId) (result : InstructionResult) (rest : List TaskId)
      (hphase : s.phase t = .returned result) (hqueue : s.commitQueue = t :: rest) :
      Step s (.leaveQueue t) { s with commitQueue := rest }
  | release (s : State) (t : TaskId) (result : InstructionResult)
      (hphase : s.phase t = .returned result) (hqueue : t ∉ s.commitQueue) :
      Step s (.release t)
        { (s.setPhase t (.resolved result)).grant (Locks.release s.cost s.locks t).1 with
          locks := (Locks.release s.cost s.locks t).2 }
  /-- The promise is settled: its key is free again. -/
  | forget (s : State) (t : TaskId) (result : InstructionResult) (key fingerprint : String)
      (hphase : s.phase t = .resolved result) (hflight : s.inFlight key = some (fingerprint, t)) :
      Step s (.forget t) { s with inFlight := fun k => if k = key then none else s.inFlight k }
  | deliver (s : State) (t : TaskId) (result : InstructionResult)
      (hphase : s.phase t = .resolved result) (hnone : s.completed t = none) :
      Step s (.deliver t) (s.finish t result)
  | deliverJoined (s : State) (t owner : TaskId) (result : InstructionResult)
      (hphase : s.phase t = .joined owner) (howner : s.phase owner = .resolved result)
      (hnone : s.completed t = none) :
      Step s (.deliver t) (s.finish t { result with id := t.id, joined := true })

end Steps
end XioFlow.Pipeline
