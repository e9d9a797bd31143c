/-
  XioFlow.Supervisor.Steps

  The kernel as a machine: one step is one stretch of one call.

  The host starts calls, cancels them, reports runs and hands out capabilities;
  the driver answers, and timers fire.  Any order of such steps is a run.
-/

import XioFlow.Supervisor.Internal

namespace XioFlow

open Lib
open Lib.Prog (check)

namespace Supervisor

inductive Step where
  | executeProcess (options : ExecuteProcessOptions) (facts : RequestFacts) (clock : Clock)
  | resume (opId : String) (answer : Answer) (clock : Clock)
  | waitTimeout (opId : String) (clock : Clock)
  | cancelOperation (opId : String) (clock : Clock)
  | stopAnswered (opId : String) (answer : Except KernelError Recovery.StopProcessResult)
      (clock : Clock)
  | samplerStop (opId : String) (reason : TerminationReason) (clock : Clock)
  | limitSampled (opId : String) (reason : TerminationReason)
  | captureSnapshot (options : CaptureSnapshotOptions) (gitShadow : Bool)
      (configSnapshot : RequestConfigSnapshot) (clock : Clock)
  | repositoryKnown (ticket : Nat) (commonDir : Option String) (clock : Clock)
  | captured (ticket : Nat) (outcome : Except KernelError (SnapshotRef × JsValue)) (clock : Clock)
  | rollback (options : RollbackOptions) (configSnapshot : RequestConfigSnapshot) (clock : Clock)
  | restored (ticket : Nat) (outcome : Except KernelError RollbackOperationResult) (clock : Clock)
  | adjudicate (opId : String) (options : AdjudicateOptions) (alive : Bool)
  | adjudicated (ticket : Nat) (members : Except KernelError (List Nat)) (clock : Clock)
  | saveTask (task : Task)
  | saveRun (run : Run)
  | reportRunSucceeded (runId : String) (now : Timestamp)
  | reportRunFailed (runId : String) (reason : TerminationReason) (now : Timestamp)
  | reportRunCancelled (runId : String) (reason : TerminationReason) (now : Timestamp)
  | issueCapability (args : IssueArguments) (suffix : String) (now : Timestamp)
  | attenuate (capId : String) (narrowerScope : CapabilityScopeInput) (actor : String)
      (config : AttenuateOptions) (suffix : String) (now : Timestamp)
  | revokeCapability (capId actor : String) (now : Timestamp)

/-- `reportRunSucceeded` and its siblings on a domain. -/
def reporting (p : StoreM Unit) : KernelM Unit := do
  onDomain (check ExecutionDomain.assertNotFenced)
  callStore p

/-- The kernel after a stretch, whether it returned or threw. -/
def Kernel.running {α : Type} (p : KernelM α) (k : Kernel) : Kernel := (p.run k).1

variable [Crypto] (fs : FileSystem)

def Step.after (step : Step) (k : Kernel) : Kernel :=
  match step with
  | executeProcess options facts clock =>
    k.running (Supervisor.executeProcess fs options facts clock)
  | resume opId answer clock => k.running (Supervisor.resume opId answer clock)
  | waitTimeout opId clock => Supervisor.waitTimeout opId clock k
  | cancelOperation opId clock => k.running (Supervisor.cancelOperation opId clock)
  | stopAnswered opId answer clock => k.running (Supervisor.stopAnswered opId answer clock)
  | samplerStop opId reason clock => k.running (Supervisor.samplerStop opId reason clock)
  | limitSampled opId reason => k.running (Supervisor.limitSampled opId reason)
  | captureSnapshot options gitShadow configSnapshot clock =>
    k.running (Supervisor.captureSnapshot fs options gitShadow configSnapshot clock)
  | repositoryKnown ticket commonDir clock =>
    k.running (Supervisor.repositoryKnown ticket commonDir clock)
  | captured ticket outcome clock => k.running (Supervisor.captured ticket outcome clock)
  | rollback options configSnapshot clock =>
    k.running (Supervisor.rollback fs options configSnapshot clock)
  | restored ticket outcome clock => k.running (Supervisor.restored ticket outcome clock)
  | adjudicate opId options alive => k.running (Supervisor.adjudicate opId options alive)
  | adjudicated ticket members clock => k.running (Supervisor.adjudicated ticket members clock)
  | saveTask task => k.running (callStore (SqliteStore.saveTask task))
  | saveRun run => k.running (callStore (SqliteStore.saveRun run))
  | reportRunSucceeded runId now =>
    k.running (reporting (SqliteStore.reportRunSucceeded runId now))
  | reportRunFailed runId reason now =>
    k.running (reporting (SqliteStore.reportRunFailed runId reason now))
  | reportRunCancelled runId reason now =>
    k.running (reporting (SqliteStore.reportRunCancelled runId reason now))
  | issueCapability args suffix now =>
    { k with domain := (CapabilityStep.issueCapability args suffix now).after fs k.domain }
  | attenuate capId narrowerScope actor config suffix now =>
    { k with domain :=
        (CapabilityStep.attenuate capId narrowerScope actor config suffix now).after fs k.domain }
  | revokeCapability capId actor now =>
    { k with domain := (CapabilityStep.revokeCapability capId actor now).after fs k.domain }

end Supervisor
end XioFlow
