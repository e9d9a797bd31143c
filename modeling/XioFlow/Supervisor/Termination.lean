/-
  XioFlow.Supervisor.Termination

  How one operation comes to its status and its termination reason: the
  triggers that stop it, and what the monitor makes of them.

  The call is the one of the kernel's model, without the store; beside it are
  what that model leaves out, the budget sampler and the count of the output.
  Every stop that the driver is asked for is confirmed.  One step is what runs
  between two awaits, and any order of steps is a run.
-/

import XioFlow.Supervisor.Execute

namespace XioFlow

open Lib
open Recovery (StopProcessResult IdentityVerificationResult unreapedFact)

namespace Supervisor
namespace Termination

/-! ## What the driver measures -/

structure ProcessMetrics where
  rssBytes : Nat
  cpuTimeMs : Nat
  pidsCount : Nat

structure LimitEvents where
  memoryOomKills : Nat
  pidsMaxHits : Nat

/-- The optional functions of a driver that it has. -/
structure DriverCalls where
  sampleMetrics : Bool
  readLimitEvents : Bool

/-- The reason that limit events are taken for. -/
def limitHit (hits : LimitEvents) : Option TerminationReason :=
  if 0 < hits.memoryOomKills then some .memoryExceeded
  else if 0 < hits.pidsMaxHits then some .pidsExceeded
  else none

/-- `limit && value > limit` -/
def exceeds (limit : Option Nat) (value : Nat) : Bool :=
  limit.any fun max => max ≠ 0 && max < value

/-- The reason that a sample is taken for under a soft budget. -/
def exceeded? (budget : ResourceBudget) (metrics : ProcessMetrics) : Option TerminationReason :=
  if exceeds budget.maxMemoryBytes metrics.rssBytes then some .memoryExceeded
  else if exceeds budget.maxCpuTimeMs metrics.cpuTimeMs then some .cpuExceeded
  else if exceeds budget.maxPids metrics.pidsCount then some .pidsExceeded
  else none

/-! ## The sampler -/

/-- What a sample in flight awaits. -/
inductive SampleAwait where
  | metrics | limitEvents | stop
  deriving DecidableEq

/-- The variables of `startBudgetSampler`. -/
structure BudgetSampler where
  stopped : Bool := false
  pending : Option SampleAwait := none
  /-- `samplingError !== undefined` -/
  failed : Bool := false
  observed : Bool := false
  peakMemoryBytes : Nat := 0
  peakCpuTimeMs : Nat := 0

def BudgetSampler.observe (metrics : ProcessMetrics) (sampler : BudgetSampler) : BudgetSampler :=
  { sampler with
    observed := true
    peakMemoryBytes := max sampler.peakMemoryBytes metrics.rssBytes
    peakCpuTimeMs := max sampler.peakCpuTimeMs metrics.cpuTimeMs }

/-- A peak as it is reported. -/
def BudgetSampler.reported (sampler : BudgetSampler) (peak : Nat) : Option Nat :=
  if sampler.observed && !sampler.failed then some peak else none

/-! ## The operation -/

/-- What is recorded of the operation, with the measurements that go into the result. -/
structure Report where
  result : OperationResult
  peakMemoryBytes : Option Nat := none
  cpuTimeMs : Option Nat := none
  outputBytes : Nat := 0

structure Supervised where
  driver : DriverCalls
  opState : ActiveOperationState
  sampler : BudgetSampler := {}
  totalOutputBytes : Nat := 0
  /-- The exit of the root, once it is observed. -/
  rootExit : Option ExitFacts := none
  /-- The triggers that have fired, in order. -/
  fired : List TerminationReason
  /-- The result that is built, and then recorded. -/
  report : Option Report := none

/-- `trackOperation`: an aborted request counts as cancelled. -/
def Supervised.start (driver : DriverCalls) (scope : ProcessScope) (facts : RequestFacts)
    (clock : Clock) : Supervised where
  driver
  opState := {
    options := scope.options
    op := processOperation scope facts
    capAdmission := scope.capAdmission
    startTime := clock.now
    cancelRequested := scope.options.aborted
    awaiting := .resources 0 none }
  fired := if scope.options.aborted then [.userCancelled] else []

namespace Supervised

def budget (s : Supervised) : Option ResourceBudget := s.opState.options.resourceBudget

def soft (s : Supervised) : Option ResourceBudget :=
  s.budget.filter fun budget => budget.enforcement = .soft

/-- The sampler does anything at all. -/
def sampling (s : Supervised) : Bool := s.driver.sampleMetrics && s.budget.isSome

def update (f : ActiveOperationState → ActiveOperationState) (s : Supervised) : Supervised :=
  { s with opState := f s.opState }

def awaitAt (awaiting : Awaiting) (s : Supervised) : Supervised :=
  s.update fun a => { a with awaiting }

def fire (reason : TerminationReason) (s : Supervised) : Supervised :=
  { s with fired := s.fired ++ [reason] }

def withSampler (f : BudgetSampler → BudgetSampler) (s : Supervised) : Supervised :=
  { s with sampler := f s.sampler }

/-- The sample in flight is over. -/
def sampleDone (s : Supervised) : Supervised := s.withSampler fun b => { b with pending := none }

end Supervised

open Supervised

/-! ## Where the call waits -/

/-- The race for the outcome of the root, and the wait for the last sample. -/
def racing : Awaiting → Bool
  | .rootOutcome | .samples _ => true
  | _ => false

/-- The output is read. -/
def capturing : Awaiting → Bool
  | .rootOutcome | .samples _ | .timeoutStop | .rootExit _ _ | .drain _ _ => true
  | _ => false

/-- The timeout has won the race, and has not been acted on. -/
def timeoutPending : Awaiting → Bool
  | .samples .timeout => true
  | _ => false

/-- An aborted request has no reason before its resources are granted. -/
def launching : Awaiting → Bool
  | .resources _ _ => true
  | _ => false

/-- There is no process yet. -/
def unstarted : Awaiting → Bool
  | .resources _ _ | .spawn => true
  | _ => false

/-- The result is built or recorded. -/
def ending : Awaiting → Bool
  | .stopResult _ _ | .supervised _ => true
  | _ => false

/-- `runProcess` has come to its end. -/
def ended : Awaiting → Bool
  | .supervised _ => true
  | _ => false

/-- The exit with which a result will be built. -/
def exitFacts? : Awaiting → Option ExitFacts
  | .samples (.exit res) => some res
  | .drain exit _ | .limitHits exit | .identity exit => some exit
  | _ => none

/-! ## Stopping -/

/-- `handleStopPipeline` up to its first await. -/
def handleStopPipeline (reason : TerminationReason) (s : Supervised) : Supervised :=
  if s.opState.phase = .stopping ∧ s.opState.stopPromise.isSome then s
  else s.update (stoppingState reason
    (if s.opState.handle.isNone then .settled (.ok confirmedStop) else .running))

/-- A trigger sets the reason and asks for a stop. -/
def stopWith (reason : TerminationReason) (s : Supervised) : Supervised :=
  handleStopPipeline reason
    ((s.fire reason).update fun a => { a with terminationReason := some reason })

/-- `cancelOperation` up to its first await; it throws once the operation has left the map. -/
def cancelOperation (s : Supervised) : Supervised :=
  if ended s.opState.awaiting then s
  else
    let s := (s.fire .userCancelled).update fun a =>
      { a with cancelRequested := true, terminationReason := some .userCancelled }
    if s.opState.phase = .active ∨ s.opState.phase = .stopping then
      handleStopPipeline .userCancelled s
    else if s.opState.stopPromise.isNone then
      s.update fun a => { a with stopPromise := some .requested }
    else s

/-- `onChunk` of `openOutputCapture`. -/
def onChunk (bytes : Nat) (s : Supervised) : Supervised :=
  if capturing s.opState.awaiting then
    let s := { s with totalOutputBytes := s.totalOutputBytes + bytes }
    if (s.soft.any fun budget => exceeds budget.maxOutputBytes s.totalOutputBytes) &&
        s.opState.terminationReason.isNone then
      stopWith .outputExceeded s
    else s
  else s

/-! ## Sampling -/

/-- The interval of the sampler. -/
def tick (s : Supervised) : Supervised :=
  match s.opState.awaiting with
  | .rootOutcome =>
    if s.sampling && !s.sampler.stopped && s.sampler.pending.isNone then
      s.withSampler fun b => { b with pending := some .metrics }
    else s
  | _ => s

def stopFor (reason : TerminationReason) (s : Supervised) : Supervised :=
  stopWith reason (s.withSampler fun b => { b with stopped := true, pending := some .stop })

/-- `sample`, when `sampleMetrics` has answered. -/
def metricsAnswered (metrics : ProcessMetrics) (s : Supervised) : Supervised :=
  if s.sampler.pending = some .metrics then
    if s.sampler.stopped then s.sampleDone
    else
      let s := s.withSampler (BudgetSampler.observe metrics)
      match s.budget.map ResourceBudget.enforcement with
      | some .hard => s.withSampler fun b => { b with pending := some .limitEvents }
      | some .soft =>
        match s.budget.bind fun budget => exceeded? budget metrics with
        | some reason => stopFor reason s
        | none => s.sampleDone
      | _ => s.sampleDone
  else s

/-- `sample`, when `readLimitEvents` has answered: the system has stopped a process that ran out
    of memory, and only the reason is kept. -/
def limitEventsAnswered (hits : Option LimitEvents) (s : Supervised) : Supervised :=
  if s.sampler.pending = some .limitEvents then
    match hits.bind limitHit with
    | some .memoryExceeded =>
      ((s.fire .memoryExceeded).update fun a =>
        { a with terminationReason := a.terminationReason.or (some .memoryExceeded) }).sampleDone
    | some reason => stopFor reason s
    | none => s.sampleDone
  else s

/-- The soft budget has a limit that only samples can check. -/
def limited (s : Supervised) : Bool :=
  s.soft.any fun budget => [budget.maxMemoryBytes, budget.maxCpuTimeMs, budget.maxPids].any
    fun limit => limit.any fun max => max ≠ 0

/-- `sample`, when a call of it has thrown. -/
def sampleFailed (s : Supervised) : Supervised :=
  if s.sampler.pending = some .metrics ∨ s.sampler.pending = some .limitEvents then
    let s := s.withSampler fun b => { b with failed := true }
    if !s.sampler.stopped && limited s && s.opState.terminationReason.isNone then
      stopFor .observationFailed s
    else s.sampleDone
  else s

/-- `sample`, when the stop that it awaits is settled. -/
def sampleStopped (s : Supervised) : Supervised :=
  match s.sampler.pending, s.opState.stopPromise with
  | some .stop, some (.settled _) => s.sampleDone
  | _, _ => s

/-- The rest of `settle`, when no sample is in flight. -/
def settleSampler (sampling : Bool) (answer : Option ProcessMetrics) (b : BudgetSampler) :
    BudgetSampler :=
  if !b.failed && sampling then
    match answer with
    | some metrics => if 0 < metrics.rssBytes || 0 < metrics.cpuTimeMs then b.observe metrics else b
    | none => { b with failed := !b.observed }
  else b

/-! ## The race -/

/-- The winner of the race is known: the timer is cleared and the sampler stops. -/
def raceWon (outcome : RootOutcome) (s : Supervised) : Supervised :=
  match s.opState.awaiting with
  | .rootOutcome => (s.withSampler fun b => { b with stopped := true }).awaitAt (.samples outcome)
  | _ => s

/-- The root of a process that runs exits once. -/
def rootExited (res : ExitFacts) (s : Supervised) : Supervised :=
  if s.opState.handle.isSome && s.rootExit.isNone then
    raceWon (.exit res) { s with rootExit := some res }
  else s

/-- The timer runs while the race does. -/
def timeout (s : Supervised) : Supervised :=
  match s.opState.awaiting with
  | .rootOutcome =>
    if s.opState.options.timeoutMs.any fun timeoutMs => 0 < timeoutMs then
      raceWon .timeout (s.fire .timedOut)
    else s
  | _ => s

/-- The driver has confirmed the stop. -/
def stopConfirmed (unreapedPids : Option (List Nat)) (s : Supervised) : Supervised :=
  let stopRes : StopProcessResult := { confirmedStop with unreapedPids }
  if s.opState.stopRunning then
    raceWon (.stop stopRes) (s.update fun a => { a with stopPromise := some (.settled (.ok stopRes)) })
  else s

/-! ## The monitor -/

/-- The operation is recorded. -/
def record (report : Report) (s : Supervised) : Supervised :=
  { s with report := some report }.awaitAt (.supervised (.ok report.result))

/-- `allocateResourcesWithWait` has returned. -/
def granted (clock : Clock) (s : Supervised) : Supervised :=
  match s.opState.awaiting with
  | .resources _ _ =>
    if s.opState.cancelRequested then
      record { result := cancelResult s.opState clock } (s.update fun a => { a with phase := .done })
    else s.update fun a => { a with phase := .spawning, awaiting := .spawn }
  | _ => s

/-- `failSpawn` -/
def spawnFailed (message : String) (clock : Clock) (s : Supervised) : Supervised :=
  match s.opState.awaiting with
  | .spawn =>
    record { result := .process {
        status := .failed
        exitCode := some 127
        stderr := message
        capabilityId := s.opState.options.capabilityId
        facts := [("spawnFailure", .str message), ("isTruncated", .bool false),
          ("identityVerification", .str IdentityVerificationResult.notOriginalProcess.text)]
        durationMs := clock.now - s.opState.startTime
        completedAt := clock.now } }
      (s.update fun a => { a with phase := .done })
  | _ => s

/-- The process runs, and `superviseActive` begins. -/
def spawned (identity : ProcessIdentity) (s : Supervised) : Supervised :=
  match s.opState.awaiting with
  | .spawn =>
    let s := s.update fun a => { a with handle := some identity, phase := .active }
    (if s.opState.cancelRequested then handleStopPipeline .userCancelled s else s).awaitAt
      .rootOutcome
  | _ => s

/-- `settleRootOutcome` up to its first await. -/
def settleRootOutcome (outcome : RootOutcome) (s : Supervised) : Supervised :=
  match outcome with
  | .exit res => s.awaitAt (.drain res true)
  | .stop stopRes => s.awaitAt (.rootExit stopRes false)
  | .timeout =>
    (handleStopPipeline .timedOut (s.update fun a =>
      { a with timedOut := true, terminationReason := some .timedOut })).awaitAt .timeoutStop

/-- `sampler.settle()` has come to its end, with the last sample. -/
def samplesSettled (answer : Option ProcessMetrics) (s : Supervised) : Supervised :=
  match s.opState.awaiting with
  | .samples outcome =>
    if s.sampler.pending.isNone then
      settleRootOutcome outcome (s.withSampler (settleSampler s.sampling answer))
    else s
  | _ => s

/-- The stop that the timeout asked for is settled. -/
def timeoutStopped (s : Supervised) : Supervised :=
  match s.opState.awaiting, s.opState.stopPromise with
  | .timeoutStop, some (.settled (.ok stopRes)) => s.awaitAt (.rootExit stopRes true)
  | _, _ => s

/-- `holdLeases`: the result is indeterminate, and has no reason. -/
def recordIndeterminate (reason : String) (clock : Clock) (s : Supervised) : Supervised :=
  record { result := .indeterminate (indeterminateResult s.opState reason clock) } s

/-- After `waitRootExit`: the root has exited, or the wait is over. -/
def rootExitKnown (clock : Clock) (s : Supervised) : Supervised :=
  match s.opState.awaiting with
  | .rootExit stopRes timedOut =>
    if timedOut && s.rootExit.isNone then
      recordIndeterminate (processText s.opState ++
        " timed out and root process could not be confirmed exited within 1000ms bound: " ++
        stopRes.errorDetails.getD "root process still alive") clock s
    else s.awaitAt (.drain (s.rootExit.getD ⟨none, some "SIGKILL"⟩) false)
  | _ => s

/-- `recordHardLimitHits` asks the driver. -/
def asksLimitHits (s : Supervised) : Bool :=
  (s.budget.any fun budget => budget.enforcement = .hard) &&
    s.opState.terminationReason.isNone && s.driver.readLimitEvents

/-- `drainOrReap` has come to its end; the pipes may be held by a process that nobody knows. -/
def drained (held : Option String) (clock : Clock) (s : Supervised) : Supervised :=
  match s.opState.awaiting with
  | .drain exit _ =>
    match held with
    | some reason => recordIndeterminate reason clock s
    | none => s.awaitAt (if asksLimitHits s then .limitHits exit else .identity exit)
  | _ => s

/-- The rest of `recordHardLimitHits`. -/
def limitHitsRead (hits : Option LimitEvents) (s : Supervised) : Supervised :=
  match s.opState.awaiting with
  | .limitHits exit =>
    (match hits.bind limitHit with
      | some reason => (s.fire reason).update fun a => { a with terminationReason := some reason }
      | none => s).awaitAt (.identity exit)
  | _ => s

/-- The result is built; a stop in flight is waited for. -/
def identityAnswered (identityVerification : IdentityVerificationResult) (measured : Measured)
    (clock : Clock) (s : Supervised) : Supervised :=
  match s.opState.awaiting with
  | .identity exit =>
    let result := buildProcessResult s.opState exit identityVerification measured clock
    let report : Report := {
      result := .process result
      peakMemoryBytes := s.sampler.reported s.sampler.peakMemoryBytes
      cpuTimeMs := s.sampler.reported s.sampler.peakCpuTimeMs
      outputBytes := s.totalOutputBytes }
    if s.opState.stopPromise.isSome then
      { s with report := some report }.awaitAt (.stopResult result none)
    else record report s
  | _ => s

/-- The stop in flight is settled, and the result is recorded. -/
def stopResultKnown (s : Supervised) : Supervised :=
  match s.opState.awaiting, s.opState.stopPromise, s.report with
  | .stopResult result _, some (.settled (.ok stopRes)), some report =>
    let result := { result with facts := result.facts ++ unreapedFact stopRes.unreapedPids }
    record { report with result := .process result } s
  | _, _, _ => s

/-! ## Steps -/

inductive Step where
  | cancelOperation
  | onChunk (bytes : Nat)
  | tick
  | metricsAnswered (metrics : ProcessMetrics)
  | limitEventsAnswered (hits : Option LimitEvents)
  | sampleFailed
  | sampleStopped
  | rootExited (res : ExitFacts)
  | timeout
  | stopConfirmed (unreapedPids : Option (List Nat))
  | granted (clock : Clock)
  | spawnFailed (message : String) (clock : Clock)
  | spawned (identity : ProcessIdentity)
  | samplesSettled (answer : Option ProcessMetrics)
  | timeoutStopped
  | rootExitKnown (clock : Clock)
  | drained (held : Option String) (clock : Clock)
  | limitHitsRead (hits : Option LimitEvents)
  | identityAnswered (identityVerification : IdentityVerificationResult) (measured : Measured)
      (clock : Clock)
  | stopResultKnown

def Step.after : Step → Supervised → Supervised
  | cancelOperation => Termination.cancelOperation
  | onChunk bytes => Termination.onChunk bytes
  | tick => Termination.tick
  | metricsAnswered metrics => Termination.metricsAnswered metrics
  | limitEventsAnswered hits => Termination.limitEventsAnswered hits
  | sampleFailed => Termination.sampleFailed
  | sampleStopped => Termination.sampleStopped
  | rootExited res => Termination.rootExited res
  | timeout => Termination.timeout
  | stopConfirmed unreapedPids => Termination.stopConfirmed unreapedPids
  | granted clock => Termination.granted clock
  | spawnFailed message clock => Termination.spawnFailed message clock
  | spawned identity => Termination.spawned identity
  | samplesSettled answer => Termination.samplesSettled answer
  | timeoutStopped => Termination.timeoutStopped
  | rootExitKnown clock => Termination.rootExitKnown clock
  | drained held clock => Termination.drained held clock
  | limitHitsRead hits => Termination.limitHitsRead hits
  | identityAnswered identityVerification measured clock =>
    Termination.identityAnswered identityVerification measured clock
  | stopResultKnown => Termination.stopResultKnown

end Termination
end Supervisor
end XioFlow
