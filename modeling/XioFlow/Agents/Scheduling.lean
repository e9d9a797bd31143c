/-
  XioFlow.Agents.Scheduling

  The quanta, the loop that starts them, shutdown, and the machine with every
  event of a runtime and of the domain it lives in.

  A runtime may be built anew on the journal at any time: what was in memory
  is gone, and the agents that were at work are stopped.

  Whatever happens, no more quanta are in flight than `maxConcurrentAgents`.
-/

import XioFlow.Agents.Runtime
import XioFlow.Lib.Transition

namespace XioFlow.Agents

open Lib

namespace AgentRuntime

/-! ## Quanta -/

/-- `readWorkspaceVersion`: what the host says, or an error. -/
abbrev VersionAnswer : Type := Except String (Option String)

/-- A step or an agent budget is used up. -/
def exhaustedReason (state : AgentState) : String :=
  if state.maxSteps ≤ state.stepsUsed then "budget_exhausted" else "run_budget_exhausted"

/-- The check before dispatch has failed. -/
def failValidation (quantum : AgentQuantum) (error : String) (s : AgentRuntime) : AgentRuntime :=
  let s := s.setPhase quantum.ticket .returned
  match s.log.get quantum.agentId with
  | none => s
  | some state =>
    (s.record (if quantum.aborted then .interrupted else .failed) { state with
      status := if quantum.aborted then .interrupted else .failed
      pauseRequested := false
      reason := if quantum.aborted then interruptRequested else some "validation_failed"
      error := some error }).reconcileScopes

/-- `advance` up to the question to the validator. -/
def begin (ticket : Nat) (version : VersionAnswer) (s : AgentRuntime) : AgentRuntime :=
  match (s.quantum? ticket).filter fun quantum => quantum.phase = .queued with
  | none => s
  | some quantum =>
    match s.log.get quantum.agentId with
    | none => s.setPhase ticket .returned
    | some state =>
      if s.stopping ∨ state.status ≠ .ready then s.setPhase ticket .returned
      else
        let s := s.ensureRunBudget state.runId
        if state.maxSteps ≤ state.stepsUsed ∨ s.log.runExhausted state.runId = true then
          (s.setPhase ticket .returned).record .budgetExhausted
            { state with status := .paused, reason := some (exhaustedReason state) }
        else
          let admitted : Except String Unit := do
            s.log.assertRun state.runId
            s.assertScopeOpen state.id false
          match admitted with
          | .error message =>
            ((s.setPhase ticket .returned).record .failed { state with
              status := .failed
              reason := some "run_unavailable"
              error := some (errorText message) }).reconcileScopes
          | .ok _ =>
            let s := s.record .checking { state with status := .checking }
            match version with
            | .error error => s.failValidation quantum error
            | .ok version => s.setPhase ticket (.checking state version)

/-- The verdict on the evidence, once the validator has answered: `answer` is its text. -/
def validity (quantum : AgentQuantum) (state : AgentState) (version : Option String)
    (answer : Except String String) (versionNow : VersionAnswer) (s : AgentRuntime) :
    Except String String := do
  let verdict ← answer
  refuseIf quantum.aborted (errorText abortReason)
  refuseIf (! ["valid", "stale", "unknown"].contains verdict)
    (errorText "Invalid agent evidence verdict")
  (s.log.assertRun state.runId).mapError errorText
  match state.workspace with
  | some workspace =>
    (s.log.assertWorkspace workspace state.runId quantum.agentId).mapError errorText
  | none => pure ()
  let now ← versionNow
  (s.assertScopeOpen quantum.agentId false).mapError errorText
  return if version ≠ now then "stale" else verdict

/-- `advance` from the answer of the validator to the call of the step adapter. -/
def validated (ticket : Nat) (answer : Except String String) (versionNow : VersionAnswer)
    (s : AgentRuntime) : AgentRuntime :=
  match s.quantum? ticket with
  | none => s
  | some quantum =>
    match quantum.phase, s.log.get quantum.agentId with
    | .checking captured version, some state =>
      match s.validity quantum captured version answer versionNow with
      | .error error => s.failValidation quantum error
      | .ok verdict =>
        if verdict ≠ "valid" ∨ state.pauseRequested ∨ s.stopping then
          (s.setPhase ticket .returned).record
            (if s.stopping then .shutdownRequested else .paused) { state with
              status := .paused
              pauseRequested := false
              reason := some (if verdict ≠ "valid" then "evidence_" ++ verdict
                else if s.stopping then "shutdown" else "requested") }
        else if s.log.runExhausted captured.runId then
          (s.setPhase ticket .returned).record .budgetExhausted
            { state with status := .paused, reason := some "run_budget_exhausted" }
        else
          let started := { state with
            status := .running
            stepsUsed := state.stepsUsed + 1
            validatedWorkspaceVersion := some version }
          let s := (s.record .stepStarted started).setPhase ticket (.stepping started)
          { s with stepCalls := started :: s.stepCalls }
    | _, _ => s

/-- What a step comes to with its commands: the result, or the error of the quantum. -/
def stepOutcome (aborted : Bool) (returned : Except String AgentStepResult) :
    Except String (String × Json) := do
  match returned with
  | .error error =>
    throw (if aborted then "AggregateError: Agent step and commands failed: " ++ error ++ "; " ++
      errorText abortReason else error)
  | .ok result => do
    refuseIf aborted (errorText abortReason)
    refuseIf (result.status ≠ "ready" && result.status ≠ "completed")
      (errorText "Invalid agent step status")
    let checkpoint ← (data result.checkpoint).mapError errorText
    return (result.status, checkpoint)

/-- The state after a step that went well. -/
def stepCompleted (state : AgentState) (status : String) (checkpoint : Json) (s : AgentRuntime) :
    AgentState :=
  let pause := status ≠ "completed" ∧ (state.pauseRequested = true ∨
    state.maxSteps ≤ state.stepsUsed)
  { state with
    checkpoint
    status :=
      if pause then .paused
      else if status = "completed" then
        (if 0 < (Forest.children s.log.forest state.id).length then .waiting else .completed)
      else .ready
    pauseRequested := false
    reason :=
      if pause then some (if state.pauseRequested then "requested" else "budget_exhausted")
      else none }

/-- `advance` from the settled step to its end. -/
def stepped (ticket : Nat) (returned : Except String AgentStepResult) (s : AgentRuntime) :
    AgentRuntime :=
  match s.quantum? ticket with
  | none => s
  | some quantum =>
    match quantum.phase, s.log.get quantum.agentId with
    | .stepping _, some state =>
      let s := s.setPhase ticket .returned
      match stepOutcome quantum.aborted returned with
      | .error error =>
        (s.record .interrupted { state with
          status := .interrupted
          pauseRequested := false
          reason := if quantum.aborted then interruptRequested else some "step_failed"
          error := some error }).reconcileScopes
      | .ok (status, checkpoint) => s.record .stepCompleted (s.stepCompleted state status checkpoint)
    | _, _ => s

/-- `finally` of a quantum: whatever is registered for its agent is dropped. -/
def settle (ticket : Nat) (s : AgentRuntime) : AgentRuntime :=
  match (s.quantum? ticket).filter fun quantum => quantum.phase = .returned with
  | none => s
  | some quantum =>
    { s with
      active := s.active.filter fun q => q.ticket ≠ ticket
      quanta := s.quanta.filter fun entry => entry.1 ≠ quantum.agentId
      draining := match s.draining with
        | .looping _ => .looping true
        | phase => phase }

/-! ## The loop -/

/-- The agents that can go on, in the order of the journal. -/
def ready (s : AgentRuntime) : List AgentEvent :=
  (s.log.states.filter fun event => event.state.status = .ready).insertionSort
    fun a b => a.seq ≤ b.seq

/-- Those for which there is room. -/
def startable (s : AgentRuntime) : List AgentEvent :=
  if s.stopping then [] else s.ready.take (s.maxConcurrentAgents - s.active.length)

def start (s : AgentRuntime) (event : AgentEvent) : AgentRuntime :=
  { s with
    nextTicket := s.nextTicket + 1
    quanta := (event.state.id, s.nextTicket) ::
      s.quanta.filter fun entry => entry.1 ≠ event.state.id
    active := s.active ++ [{ ticket := s.nextTicket, agentId := event.state.id }] }

def cancelledRecoveries (s : AgentRuntime) : List String :=
  (s.recoveries.filter fun recovery => s.recoveryCancelled recovery).map AgentRecovery.agentId

/-- Where the loop goes when the round has started what it could. -/
def nextPhase (s : AgentRuntime) : DrainPhase :=
  if s.active.isEmpty then
    if s.cancelledRecoveries.isEmpty then .returned false else .joining s.cancelledRecoveries false
  else .looping false

/-- One round of `schedule`. -/
def round (s : AgentRuntime) : AgentRuntime :=
  let s := s.reconcileScopes
  let s := s.startable.foldl start s
  { s with draining := s.nextPhase }

/-- `schedule` goes on when what it awaits has settled. -/
def pass (s : AgentRuntime) : AgentRuntime :=
  match s.draining with
  | .queued | .looping true | .joining [] false => s.round
  | .joining [] true => { s with draining := .returned true }
  | _ => s

def drain (s : AgentRuntime) : Except String AgentRuntime := do
  s.assertAccepting
  return { s with draining := if s.draining = .idle then .queued else s.draining }

/-- `finally` of `drain` -/
def drainSettled (s : AgentRuntime) : AgentRuntime :=
  match s.draining with
  | .returned _ => { s with draining := .idle }
  | _ => s

/-! ## The end of a runtime -/

def close (s : AgentRuntime) : AgentRuntime :=
  if s.stopping ∨ s.draining ≠ .idle ∨ s.recoveries ≠ [] ∨ s.interruptions ≠ [] then s
  else { s with closed := true }

def requestShutdown (s : AgentRuntime) : AgentRuntime :=
  if s.shutdown ≠ .running ∨ s.closed then s
  else { s with stopping := true, shutdown := .requested }

/-- What `settleShutdown` does with one agent. -/
def stopAgent (s : AgentRuntime) (id : String) : AgentRuntime :=
  match s.log.get id with
  | none => s
  | some state =>
    if state.status = .ready then
      s.record .shutdownRequested
        { state with status := .paused, pauseRequested := false, reason := some "shutdown" }
    else if state.status = .checking ∨ state.status = .running ∨ state.status = .waiting then
      s.attempt (interrupt id)
    else s

def settleShutdown (s : AgentRuntime) : AgentRuntime :=
  if s.shutdown ≠ .requested then s
  else { s.log.ids.foldl stopAgent s with shutdown := .settling }

/-- All that shutdown awaits has settled. -/
def shutdownSettled (s : AgentRuntime) : AgentRuntime :=
  if s.shutdown = .settling ∧ s.active = [] ∧ s.recoveries = [] ∧ s.interruptions = [] ∧
      s.draining = .idle then
    { s with closed := true }
  else s

/-- What the constructor records for an agent. -/
def restartAgent (s : AgentRuntime) (id : String) : AgentRuntime :=
  match s.log.get id with
  | none => s
  | some state =>
    if state.status = .running ∨ state.status = .recovering ∨
        (state.status = .checking ∧ state.reason = interruptRequested) then
      s.record .recovered { state with status := .interrupted, reason := some "host_restarted" }
    else if state.status = .checking ∨ state.status = .ready then
      s.record .recovered { state with status := .paused, reason := some "host_restarted" }
    else s

/-- The usage of a run as the journal tells it. -/
def rereadUsage (defaultRunBudget : AgentRunBudget) (l : AgentLog) (runId : String) :
    Option AgentRunUsage :=
  let members := l.states.filter fun event => event.state.runId = runId
  let budget := if l.usages.budgetedRuns runId then
      ((l.usages.runs runId).map AgentRunUsage.budget).getD defaultRunBudget
    else defaultRunBudget
  if l.usages.budgetedRuns runId || !members.isEmpty then
    some {
      budget
      stepsUsed := l.runSteps runId
      agentsCreated := members.length }
  else none

/-- `sync` of a new runtime: every tree counts as changed. -/
def reread (defaultRunBudget : AgentRunBudget) (l : AgentLog) : AgentLog :=
  { l with
    usages := {
      defaultRunBudget
      runs := rereadUsage defaultRunBudget l
      budgetedRuns := l.usages.budgetedRuns }
    dirtyScopes := l.ids.foldl (fun dirty id => setAdd (Forest.root l.forest id) dirty) [] }

/-- A runtime on the journal, with nothing else in memory. -/
def fresh (maxConcurrentAgents : Nat) (defaultRunBudget : AgentRunBudget) (s : AgentRuntime) :
    AgentRuntime where
  maxConcurrentAgents
  log := reread defaultRunBudget s.log
  nextTicket := s.nextTicket
  stepCalls := s.stepCalls

/-- `new AgentRuntime(domain, options)` -/
def reopen (maxConcurrentAgents : Nat) (defaultRunBudget : AgentRunBudget) (s : AgentRuntime) :
    AgentRuntime :=
  if maxConcurrentAgents < 1 ∨ MAX_SAFE_INTEGER < maxConcurrentAgents then s
  else
    let s := s.fresh maxConcurrentAgents defaultRunBudget
    (s.log.ids.foldl restartAgent s).reconcileScopes

end AgentRuntime

/-! ## The machine -/

inductive RuntimeEvent where
  | create (input : AgentRuntime.CreateInput)
  | pause (id : String)
  | resume (id : String)
  | interrupt (id : String)
  | restoreCheckpoint (id : String) (seq : Nat) (workspace : Option AgentWorkspace)
  | recoverCheckpoint (id : String)
  | prepared (id : String) (answer : Except String (Option AgentRuntime.Prepared))
  | discarded (id : String) (answer : Except String Unit)
  | recoverySettled (id : String)
  | interruptionSettled (root : String)
  | drain
  | pass
  | drainSettled
  | begin (ticket : Nat) (version : AgentRuntime.VersionAnswer)
  | validated (ticket : Nat) (answer : Except String String)
    (versionNow : AgentRuntime.VersionAnswer)
  | stepped (ticket : Nat) (returned : Except String AgentStepResult)
  | settle (ticket : Nat)
  | shutdown
  | settleShutdown
  | shutdownSettled
  | close
  /-- a new runtime, after the old one was closed or its process has died -/
  | reopen (maxConcurrentAgents : Nat) (runBudget : AgentRunBudget)
  /-- a run of the domain takes on agents, or no longer does -/
  | runChanged (runId : String) (accepts : Bool)
  /-- a transaction of the domain has journalled something -/
  | transaction (event : TransactionEvent)

/-- One event.  An event that is not due changes nothing. -/
def RuntimeEvent.after : RuntimeEvent → AgentRuntime → AgentRuntime
  | create input, s => s.create input
  | pause id, s => s.attempt (AgentRuntime.pause id)
  | resume id, s => s.resume id
  | interrupt id, s => s.attempt (AgentRuntime.interrupt id)
  | restoreCheckpoint id seq workspace, s =>
    s.attempt (AgentRuntime.restoreCheckpoint id seq workspace)
  | recoverCheckpoint id, s => s.attempt (AgentRuntime.recoverCheckpoint id)
  | prepared id answer, s => s.prepared id answer
  | discarded id answer, s => s.discarded id answer
  | recoverySettled id, s => s.recoverySettled id
  | interruptionSettled root, s => s.interruptionSettled root
  | drain, s => s.attempt AgentRuntime.drain
  | pass, s => s.pass
  | drainSettled, s => s.drainSettled
  | begin ticket version, s => s.begin ticket version
  | validated ticket answer versionNow, s => s.validated ticket answer versionNow
  | stepped ticket returned, s => s.stepped ticket returned
  | settle ticket, s => s.settle ticket
  | shutdown, s => s.requestShutdown
  | settleShutdown, s => s.settleShutdown
  | shutdownSettled, s => s.shutdownSettled
  | close, s => s.close
  | reopen maxConcurrentAgents runBudget, s => s.reopen maxConcurrentAgents runBudget
  | runChanged runId accepts, s =>
    { s with
      log := { s.log with
        openRuns := if accepts then setAdd runId s.log.openRuns
          else s.log.openRuns.filter fun id => id ≠ runId } }
  | transaction event, s =>
    { s with
      log := { s.log with seq := s.log.seq + 1, transactions := s.log.transactions ++ [event] } }

/-- A runtime on an empty journal. -/
def AgentRuntime.opened (maxConcurrentAgents : Nat) (defaultRunBudget : AgentRunBudget) :
    AgentRuntime where
  maxConcurrentAgents
  log := { usages := { defaultRunBudget, runs := fun _ => none, budgetedRuns := fun _ => false } }

namespace AgentRuntime

/-! ## What is in flight -/

/-- The quanta that have not settled, by agent and ticket. -/
def flight (s : AgentRuntime) : List (String × Nat) :=
  s.active.map fun quantum => (quantum.agentId, quantum.ticket)

/-- No more is in flight than there is room for, and what is registered for an agent is a quantum
    of its own in flight. -/
structure Scheduled (s : AgentRuntime) : Prop where
  bounded : s.flight.length ≤ s.maxConcurrentAgents
  ordered : (s.flight.map Prod.snd ++ [s.nextTicket]).Pairwise (· < ·)
  registered : s.quanta ⊆ s.flight

/-- What `Scheduled` is about. -/
def books (s : AgentRuntime) : Nat × Nat × List (String × Nat) × List (String × Nat) :=
  (s.maxConcurrentAgents, s.nextTicket, s.quanta, s.flight)

variable {s s' : AgentRuntime}

theorem Scheduled.congr (h : Scheduled s) (hbooks : s'.books = s.books) : Scheduled s' := by
  simp only [books, Prod.mk.injEq] at hbooks
  obtain ⟨hmax, hticket, hquanta, hflight⟩ := hbooks
  refine ⟨?_, ?_, ?_⟩ <;> simp only [hmax, hticket, hquanta, hflight]
  exacts [h.bounded, h.ordered, h.registered]

theorem books_map {f : AgentQuantum → AgentQuantum}
    (hf : ∀ q, (f q).agentId = q.agentId ∧ (f q).ticket = q.ticket) :
    { s with active := s.active.map f : AgentRuntime }.books = s.books := by
  simp [books, flight, hf]

@[simp] theorem books_setPhase (ticket : Nat) (phase : AdvancePhase) :
    (s.setPhase ticket phase).books = s.books :=
  books_map fun q => by split <;> exact ⟨rfl, rfl⟩

@[simp] theorem books_record (transition : AgentTransition) (state : AgentState) :
    (s.record transition state).books = s.books := rfl

@[simp] theorem books_ensureRunBudget (runId : String) :
    (s.ensureRunBudget runId).books = s.books := rfl

@[simp] theorem books_stepCalls (stepCalls : List AgentState) :
    { s with stepCalls }.books = s.books := rfl

theorem books_foldl {α : Type} {f : AgentRuntime → α → AgentRuntime}
    (hf : ∀ s a, (f s a).books = s.books) (as : List α) : (as.foldl f s).books = s.books := by
  induction as generalizing s with
  | nil => rfl
  | cons a as ih => exact ih.trans (hf s a)

theorem books_cancelScope (id : String) : (s.cancelScope id).books = s.books := by
  unfold cancelScope
  refine (books_map fun q => by split <;> exact ⟨rfl, rfl⟩).trans (books_foldl (fun s id => ?_) _)
  unfold cancelMember
  split
  · rfl
  · split_ifs <;> rfl

@[simp] theorem books_reconcileScopes : s.reconcileScopes.books = s.books := by
  unfold reconcileScopes
  generalize s.log.dirtyScopes.length + s.openMembers.length = n
  induction n generalizing s with
  | zero => rfl
  | succ n ih =>
    unfold reconcileRounds
    split
    · rfl
    refine ih.trans ?_
    unfold reconcileScope
    split
    · rfl
    dsimp only
    split
    · exact books_cancelScope _
    · refine books_foldl (fun s id => ?_) _
      unfold completeWaiting
      split
      · rfl
      · split <;> rfl

/-- A call of the host that goes through leaves the books as they are. -/
def Leaves (s : AgentRuntime) (call : Except String AgentRuntime) : Prop :=
  ∀ s', call = .ok s' → s'.books = s.books

theorem leaves_ok (h : s'.books = s.books) : Leaves s (.ok s') := by
  rintro _ ⟨⟩
  exact h

theorem leaves_bind {α : Type} {x : Except String α} {f : α → Except String AgentRuntime}
    (h : ∀ a, Leaves s (f a)) : Leaves s (x >>= f) := by
  cases x with
  | error => exact nofun
  | ok a => exact h a

theorem books_attempt {call : AgentRuntime → Except String AgentRuntime} (h : Leaves s (call s)) :
    (s.attempt call).books = s.books := by
  unfold attempt
  split
  · exact h _ ‹_›
  · rfl

theorem leaves_interrupt (id : String) : Leaves s (interrupt id s) := by
  refine leaves_bind fun _ => leaves_bind fun _ => leaves_bind fun _ => ?_
  dsimp only
  split
  · exact leaves_ok rfl
  · exact leaves_ok (books_cancelScope _)

theorem leaves_commitRestore (state : AgentState) (seq : Nat) (workspace : Option AgentWorkspace) :
    Leaves s (s.commitRestore state seq workspace) := by
  unfold commitRestore
  split
  · exact nofun
  refine leaves_bind fun _ => ?_
  split
  · exact leaves_bind fun _ => leaves_ok rfl
  · exact leaves_ok rfl

@[simp] theorem books_failValidation (quantum : AgentQuantum) (error : String) :
    (s.failValidation quantum error).books = s.books := by
  unfold failValidation
  dsimp only
  split <;> simp

theorem Scheduled.start (h : Scheduled s) (hroom : s.flight.length < s.maxConcurrentAgents)
    (event : AgentEvent) : Scheduled (s.start event) := by
  have hflight : (s.start event).flight = s.flight ++ [(event.state.id, s.nextTicket)] :=
    List.map_append
  refine ⟨?_, ?_, fun entry hentry => ?_⟩
  · rw [hflight, List.length_append]
    exact hroom
  · -- the new ticket is above all that are in flight
    rw [hflight, List.map_append]
    refine List.pairwise_append.2 ⟨h.ordered, List.pairwise_singleton _ _, ?_⟩
    intro ticket hticket next hnext
    rw [List.mem_singleton.1 hnext]
    rcases List.mem_append.1 hticket with hold | hnew
    · exact Nat.lt_succ_of_lt
        ((List.pairwise_append.1 h.ordered).2.2 _ hold _ List.mem_cons_self)
    · exact List.mem_singleton.1 hnew ▸ Nat.lt_succ_self _
  · rw [hflight, List.mem_append, List.mem_singleton]
    rcases List.mem_cons.1 hentry with rfl | hold
    · exact .inr rfl
    · exact .inl (h.registered (List.mem_filter.1 hold).1)

theorem Scheduled.starts {events : List AgentEvent} (h : Scheduled s)
    (hroom : events.length + s.flight.length ≤ s.maxConcurrentAgents) :
    Scheduled (events.foldl AgentRuntime.start s) := by
  induction events generalizing s with
  | nil => exact h
  | cons event events ih =>
    rw [List.length_cons] at hroom
    refine ih (h.start (by omega) event) ?_
    simp only [flight, AgentRuntime.start, List.map_append, List.length_append] at hroom ⊢
    simp only [List.map_singleton, List.length_singleton]
    omega

theorem Scheduled.round (h : Scheduled s) : Scheduled s.round := by
  have hs : Scheduled s.reconcileScopes := h.congr books_reconcileScopes
  have hbounded := hs.bounded
  refine (hs.starts ?_).congr rfl
  unfold startable
  split
  · rwa [List.length_nil, Nat.zero_add]
  · -- as many are started as there is room for
    rw [flight, List.length_map] at hbounded ⊢
    rw [List.length_take]
    omega

/-- What settles was in flight under its own name, so no other registration is lost. -/
theorem Scheduled.settle (h : Scheduled s) (ticket : Nat) : Scheduled (s.settle ticket) := by
  unfold AgentRuntime.settle
  split
  · exact h
  rename_i quantum hfound
  have hquantum : s.quantum? ticket = some quantum := (Option.filter_eq_some_iff.1 hfound).1
  have hticket : quantum.ticket = ticket := by simpa using List.find?_some hquantum
  have hmem : (quantum.agentId, ticket) ∈ s.flight :=
    List.mem_map.2 ⟨quantum, List.mem_of_find?_eq_some hquantum, by rw [hticket]⟩
  have hsub : ((s.active.filter fun q => q.ticket ≠ ticket).map
      fun q => (q.agentId, q.ticket)).Sublist s.flight := List.filter_sublist.map _
  refine ⟨hsub.length_le.trans h.bounded, h.ordered.sublist ((hsub.map _).append_right _),
    fun entry hentry => ?_⟩
  obtain ⟨hold, hother⟩ := List.mem_filter.1 hentry
  have hentry := h.registered hold
  obtain ⟨q, hq, rfl⟩ := List.mem_map.1 hentry
  refine List.mem_map.2 ⟨q, List.mem_filter.2 ⟨hq, decide_eq_true fun heq => ?_⟩, rfl⟩
  -- a ticket belongs to one quantum, which is the one that settles
  have hdistinct : (s.flight.map Prod.snd).Nodup :=
    (List.pairwise_append.1 h.ordered).1.imp Nat.ne_of_lt
  have hsame := List.inj_on_of_nodup_map hdistinct hentry hmem heq
  exact of_decide_eq_true hother (congrArg Prod.fst hsame)

end AgentRuntime

open AgentRuntime

theorem scheduled_after {s : AgentRuntime} (h : s.Scheduled) (event : RuntimeEvent) :
    (event.after s).Scheduled := by
  cases event with
  | pass =>
    show s.pass.Scheduled
    unfold AgentRuntime.pass
    split
    any_goals exact h.round
    · exact h.congr rfl
    · exact h
  | settle ticket => exact h.settle ticket
  | reopen maxConcurrentAgents runBudget =>
    show (s.reopen maxConcurrentAgents runBudget).Scheduled
    unfold reopen
    split
    · exact h
    have hfresh : (s.fresh maxConcurrentAgents runBudget).Scheduled :=
      ⟨Nat.zero_le _, List.pairwise_singleton _ _, nofun⟩
    refine hfresh.congr (books_reconcileScopes.trans (books_foldl (fun s id => ?_) _))
    unfold restartAgent
    split
    · rfl
    · split_ifs <;> rfl
  | pause id =>
    exact h.congr (books_attempt (leaves_bind fun _ => leaves_bind fun _ => leaves_bind fun _ =>
      leaves_bind fun _ => leaves_ok rfl))
  | interrupt id => exact h.congr (books_attempt (leaves_interrupt id))
  | restoreCheckpoint id seq workspace =>
    exact h.congr (books_attempt (leaves_bind fun _ => leaves_bind fun state => leaves_bind fun _ =>
      leaves_bind fun _ => leaves_commitRestore state seq workspace))
  | recoverCheckpoint id =>
    exact h.congr (books_attempt (leaves_bind fun _ => leaves_bind fun _ => leaves_bind fun _ =>
      leaves_bind fun _ => leaves_bind fun _ => leaves_ok rfl))
  | drain => exact h.congr (books_attempt (leaves_bind fun _ => leaves_ok rfl))
  | prepared id answer =>
    refine h.congr ?_
    simp only [RuntimeEvent.after, prepared]
    repeat' split
    all_goals first | rfl | refine .trans ?_ (leaves_commitRestore _ _ _ _ ‹_ = Except.ok _›); rfl
  | settleShutdown =>
    refine h.congr ?_
    simp only [RuntimeEvent.after, settleShutdown]
    split
    · rfl
    refine books_foldl (fun s id => ?_) _
    unfold stopAgent
    repeat' split
    all_goals first | rfl | exact books_attempt (leaves_interrupt id)
  | _ =>
    -- the other events move phases and write states
    refine h.congr ?_
    simp only [RuntimeEvent.after, AgentRuntime.begin, validated, stepped, create, resume,
      discarded, recoverySettled, drainSettled, requestShutdown, shutdownSettled, close]
    repeat' split
    all_goals first | rfl | simp

/-- Whatever the host calls, and in whatever order the promises settle. -/
theorem scheduled_along (maxConcurrentAgents : Nat) (defaultRunBudget : AgentRunBudget)
    (events : List RuntimeEvent) :
    (afterAll RuntimeEvent.after (opened maxConcurrentAgents defaultRunBudget) events).Scheduled :=
  have hopened : (opened maxConcurrentAgents defaultRunBudget).Scheduled :=
    ⟨Nat.zero_le _, List.pairwise_singleton _ _, nofun⟩
  afterAll_invariant (I := Scheduled) (fun _ event h => scheduled_after h event) hopened events

end XioFlow.Agents
