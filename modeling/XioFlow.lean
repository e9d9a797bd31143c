import XioFlow.Store.IntentFirst
import XioFlow.Domain.Heartbeat
import XioFlow.Domain.Pruning
import XioFlow.Recovery.GroupSignals
import XioFlow.Supervisor.RollbackRoots
import XioFlow.Supervisor.Vouched
import XioFlow.Isa.Decoded
import XioFlow.Agents.Commands
import XioFlow.Driver.SecretEnv
import XioFlow.Ipc.Framing
import XioFlow.Otel.Incremental
import XioFlow.Pipeline.Joining
import XioFlow.Driver.StopEvidence
import XioFlow.Gateway.InterruptedCall
import XioFlow.Supervisor.WriteExclusion
import XioFlow.Supervisor.SingleExit
import XioFlow.Services.Runs
import XioFlow.Capability.Patterns
import XioFlow.Workspace.ReadEvidence
import XioFlow.Supervisor.TreeCommands
import XioFlow.Workspace.Reapply
import XioFlow.Supervisor.Verdicts
import XioFlow.Supervisor.RemovalRuns
import XioFlow.Workspace.Invalidation
import XioFlow.Agents.RecoveryPolicy
import XioFlow.Workspace.IndexMerge
import XioFlow.Driver.TreeMembers
import XioFlow.Supervisor.CaptureResult
import XioFlow.Isa.Validator
import XioFlow.Supervisor.ReadSoundness
import XioFlow.Isa.Canonical
import XioFlow.Services.Readiness
import XioFlow.Mcp.Cancellation
import XioFlow.Supervisor.RequestRuns
import XioFlow.Confinement.Confines
import XioFlow.Gateway.ContextNotice
import XioFlow.Trace.Reader
import XioFlow.Isa.Result
import XioFlow.Store.Migrations
import XioFlow.Domain.StoredNames
import XioFlow.Driver.PsTable
import XioFlow.Workspace.BatchBlobs
