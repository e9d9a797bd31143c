/-
  XioFlow.Agents.WorkspaceRecovery

  The reconstruction of a stopped agent on a new transaction: its checkpoints
  are tried from the newest on, each on a fork of one shared baseline, until
  the log of one of them replays.

  What the host, the adapter and the supervisor answer is open.  So is what
  else goes on in the runtime while the candidates are tried, and while a
  prepared one is given back.  Aborting a transaction and pruning a snapshot
  succeed.
-/

import XioFlow.Agents.Runtime
import XioFlow.Workspace.ObservationReplay

namespace XioFlow.Agents

open ObservationReplay (LogEntry ObservationValidation Divergence ObservationReplayResult
  replayObservationLog isDeepStrictEqual)

/-! ## The supervisor -/

structure WorkspaceTransaction where
  txId : String
  runId : String
  forkRoot : String
  baseSnapshotId : String
  deriving DecidableEq

/-- The open transactions of a supervisor, and its snapshots with the trees that they hold. -/
@[ext]
structure Supervised (τ : Type) where
  transactions : List WorkspaceTransaction := []
  snapshots : List (String × τ) := []

/-- How a begin goes: it fails before it has a base snapshot, or after, or it does not fail. -/
inductive BeginAnswer where
  | refused (message : String)
  | stranded (message : String)
  | begun (forkRoot : String)

namespace Supervised

variable {τ : Type}

/-- The base snapshot of a transaction: the given one, or one of the tree as it is now. -/
def baseFor (txId : String) (baseSnapshotId : Option String) (now : τ) (w : Supervised τ) :
    Except String (Supervised τ × (String × τ)) :=
  match baseSnapshotId with
  | some id =>
    match w.snapshots.find? fun snapshot => snapshot.1 = id with
    | some base => .ok (w, base)
    | none => .error "Transaction base snapshot must cover the same root in this domain"
  | none =>
    let base := (txId ++ "-base", now)
    if w.snapshots.any fun snapshot => snapshot.1 = base.1 then
      .error ("Operation already exists: " ++ base.1)
    else .ok ({ w with snapshots := w.snapshots ++ [base] }, base)

/-- The transaction comes with the tree that its fork was made from. -/
def beginWorkspaceTransaction (answer : BeginAnswer) (txId runId : String)
    (baseSnapshotId : Option String) (now : τ) (w : Supervised τ) :
    Supervised τ × Except String (WorkspaceTransaction × τ) :=
  if w.transactions.any fun tx => tx.txId = txId then
    (w, .error ("Workspace transaction \"" ++ txId ++ "\" already exists"))
  else match answer with
  | .refused message => (w, .error message)
  | .stranded message =>
    match w.baseFor txId baseSnapshotId now with
    | .error refusal => (w, .error refusal)
    | .ok (w', _) => (w', .error message)
  | .begun forkRoot =>
    match w.baseFor txId baseSnapshotId now with
    | .error refusal => (w, .error refusal)
    | .ok (w', base) =>
      let tx := { txId, runId, forkRoot, baseSnapshotId := base.1 }
      ({ w' with transactions := w'.transactions ++ [tx] }, .ok (tx, base.2))

/-- A base is one that was captured before, or a new one. -/
theorem baseFor_ok {txId : String} {baseSnapshotId : Option String} {now : τ}
    {w w' : Supervised τ} {base : String × τ}
    (h : w.baseFor txId baseSnapshotId now = .ok (w', base)) :
    (baseSnapshotId = some base.1 ∧ w' = w ∧
        (w.snapshots.find? fun snapshot => snapshot.1 = base.1) = some base) ∨
      (baseSnapshotId = none ∧ base.2 = now ∧ (∀ snapshot ∈ w.snapshots, snapshot.1 ≠ base.1) ∧
        w' = { w with snapshots := w.snapshots ++ [base] }) := by
  unfold baseFor at h
  cases baseSnapshotId with
  | some id =>
    simp only at h
    split at h
    · rename_i hfound
      cases h
      have hid : base.1 = id := by simpa using List.find?_some hfound
      subst hid
      exact .inl ⟨rfl, rfl, hfound⟩
    · cases h
  | none =>
    simp only at h
    split at h
    · cases h
    · rename_i hfresh
      cases h
      simp only [List.any_eq_true, decide_eq_true_eq, not_exists, not_and] at hfresh
      exact .inr ⟨rfl, rfl, hfresh, rfl⟩

theorem beginWorkspaceTransaction_ok {answer : BeginAnswer} {txId runId : String}
    {baseSnapshotId : Option String} {now tree : τ} {w w' : Supervised τ}
    {tx : WorkspaceTransaction}
    (h : w.beginWorkspaceTransaction answer txId runId baseSnapshotId now = (w', .ok (tx, tree))) :
    tx.txId = txId ∧ (∀ other ∈ w.transactions, other.txId ≠ txId) ∧
      ∃ based, w.baseFor txId baseSnapshotId now = .ok (based, (tx.baseSnapshotId, tree)) ∧
        w' = { based with transactions := based.transactions ++ [tx] } := by
  unfold beginWorkspaceTransaction at h
  split at h
  · cases h
  rename_i hnew
  simp only [List.any_eq_true, decide_eq_true_eq, not_exists, not_and] at hnew
  split at h
  · cases h
  · split at h <;> cases h
  · split at h
    · cases h
    · rename_i based base hbase
      cases h
      exact ⟨rfl, hnew, based, hbase, rfl⟩

def abortWorkspaceTransaction (txId : String) (w : Supervised τ) : Supervised τ :=
  { w with transactions := w.transactions.filter fun tx => tx.txId ≠ txId }

def pruneSnapshots (id : String) (w : Supervised τ) : Supervised τ :=
  { w with snapshots := w.snapshots.filter fun snapshot => snapshot.1 ≠ id }

end Supervised

/-! ## Candidates -/

structure AgentWorkspaceRecoveryOptions where
  agentId : String
  recoveryId : String
  replayPolicy : Option String := none

/-- What a recovery meets: the host's observations, and how its begins go and find the tree. -/
structure RecoveryWorld (τ α : Type) where
  sameDomain : Bool := true
  observations : AgentEvent → Except String (ObservationValidation τ α)
  begins : Nat → BeginAnswer
  trees : Nat → τ
  /-- the runtime when `prepare` settles, and when `discard` does -/
  whilePreparing : AgentRuntime → AgentRuntime := id
  whileDiscarding : AgentRuntime → AgentRuntime := id

inductive RejectionSource where
  | executed
  | reusedPrefix
  deriving DecidableEq

structure Rejection where
  checkpointSeq : Nat
  source : RejectionSource
  replay : Divergence
  deriving DecidableEq

structure Restored where
  checkpointSeq : Nat
  transaction : WorkspaceTransaction
  cutoffIndices : List Nat
  deriving DecidableEq

/-- `restored` is absent when no checkpoint is valid. -/
structure AgentWorkspaceRecoveryResult where
  attempts : Nat
  replayedSteps : Nat
  skippedCheckpoints : Nat
  rejections : List Rejection
  restored : Option Restored
  deriving DecidableEq

/-- The variables of `prepareCandidates`, and the supervisor it works with. -/
structure CandidateLoop (τ α : Type) where
  attempts : Nat := 0
  replayedSteps : Nat := 0
  skippedCheckpoints : Nat := 0
  baseSnapshotId : Option String := none
  candidatePending : Bool := false
  rejections : List Rejection := []
  knownFailures : List (List (LogEntry α) × Divergence) := []
  supervised : Supervised τ

/-- How the body of the loop is left. -/
inductive CandidateStep where
  | next
  | restored (candidate : Restored)
  | threw (message : String)

section Candidates

variable {τ α : Type} [BEq α]

/-- A log the recovery accepts is closed, and its observations have results. -/
def acceptsLog (v : ObservationValidation τ α) : Bool :=
  v.closedWorld && !v.log.any fun entry => entry.kind = .observe && entry.resultHash.isNone

/-- `knownFailures.find`: a prefix of the log that diverged before -/
def CandidateLoop.known (l : CandidateLoop τ α) (log : List (LogEntry α)) :
    Option (List (LogEntry α) × Divergence) :=
  l.knownFailures.find? fun failure =>
    failure.1.length ≤ log.length && isDeepStrictEqual failure.1 (log.take failure.1.length)

/-- `known`: the failure that a deterministic adapter would repeat -/
def CandidateLoop.ruledOut (o : AgentWorkspaceRecoveryOptions) (l : CandidateLoop τ α)
    (log : List (LogEntry α)) : Option (List (LogEntry α) × Divergence) :=
  if o.replayPolicy = some "deterministic" then l.known log else none

def CandidateLoop.skip (saved : AgentEvent) (replay : Divergence) (l : CandidateLoop τ α) :
    CandidateLoop τ α :=
  { l with
    skippedCheckpoints := l.skippedCheckpoints + 1
    rejections := l.rejections ++ [⟨saved.seq, .reusedPrefix, replay⟩] }

/-- The id of the next transaction. -/
def CandidateLoop.nextTxId (o : AgentWorkspaceRecoveryOptions) (l : CandidateLoop τ α) : String :=
  o.recoveryId ++ "-" ++ toString (l.attempts + 1)

/-- The begin of the next candidate. -/
def CandidateLoop.beginNext (o : AgentWorkspaceRecoveryOptions) (world : RecoveryWorld τ α)
    (runId : String) (l : CandidateLoop τ α) :
    Supervised τ × Except String (WorkspaceTransaction × τ) :=
  l.supervised.beginWorkspaceTransaction (world.begins (l.attempts + 1)) (l.nextTxId o) runId
    l.baseSnapshotId (world.trees (l.attempts + 1))

/-- A candidate that diverged is recorded and aborted. -/
def CandidateLoop.reject (saved : AgentEvent) (v : ObservationValidation τ α)
    (tx : WorkspaceTransaction) (d : Divergence) (l : CandidateLoop τ α) : CandidateLoop τ α :=
  { l with
    rejections := l.rejections ++ [⟨saved.seq, .executed, d⟩]
    knownFailures :=
      if d.error.isNone then l.knownFailures ++ [(v.log.take (d.divergedAt + 1), d)]
      else l.knownFailures
    supervised := l.supervised.abortWorkspaceTransaction tx.txId
    candidatePending := false }

/-- A candidate whose transaction is open. -/
def CandidateLoop.replayCandidate (saved : AgentEvent) (v : ObservationValidation τ α)
    (tx : WorkspaceTransaction) (tree : τ) (l : CandidateLoop τ α) :
    CandidateLoop τ α × CandidateStep :=
  let result := replayObservationLog v tree
  let l := { l with replayedSteps := l.replayedSteps + result.calls }
  match result with
  | .matched _ cutoffIndices =>
    (l, .restored { checkpointSeq := saved.seq, transaction := tx, cutoffIndices })
  | .diverged d => (l.reject saved v tx d, .next)

/-- The variables once a candidate was begun, or could not be. -/
def CandidateLoop.pending (w : Supervised τ) (baseSnapshotId : Option String)
    (l : CandidateLoop τ α) : CandidateLoop τ α :=
  { l with attempts := l.attempts + 1, candidatePending := true, baseSnapshotId, supervised := w }

/-- A candidate that no known failure rules out. -/
def CandidateLoop.attempt (o : AgentWorkspaceRecoveryOptions) (world : RecoveryWorld τ α)
    (runId : String) (saved : AgentEvent) (v : ObservationValidation τ α)
    (l : CandidateLoop τ α) : CandidateLoop τ α × CandidateStep :=
  match l.beginNext o world runId with
  | (w, .error message) => (l.pending w l.baseSnapshotId, .threw message)
  | (w, .ok (tx, tree)) =>
    (l.pending w (some tx.baseSnapshotId)).replayCandidate saved v tx tree

/-- The body of the loop. -/
def CandidateLoop.tryCandidate (o : AgentWorkspaceRecoveryOptions) (world : RecoveryWorld τ α)
    (runId : String) (saved : AgentEvent) (l : CandidateLoop τ α) :
    CandidateLoop τ α × CandidateStep :=
  match world.observations saved with
  | .error message => (l, .threw message)
  | .ok v =>
    if !acceptsLog v then
      (l, .threw "Workspace recovery requires a closed observation log with result hashes")
    else match l.ruledOut o v.log with
    | some failure => (l.skip saved failure.2, .next)
    | none => l.attempt o world runId saved v

/-- The loop, from the newest checkpoint on. -/
def CandidateLoop.tryAll (o : AgentWorkspaceRecoveryOptions) (world : RecoveryWorld τ α)
    (runId : String) : List AgentEvent → CandidateLoop τ α →
      CandidateLoop τ α × Except String (Option Restored)
  | [], l => (l, .ok none)
  | saved :: older, l =>
    match l.tryCandidate o world runId saved with
    | (l', .next) => l'.tryAll o world runId older
    | (l', .restored candidate) => (l', .ok (some candidate))
    | (l', .threw message) => (l', .error message)

/-- The `finally` of `prepareCandidates` -/
def CandidateLoop.settle (l : CandidateLoop τ α) : Supervised τ :=
  match l.baseSnapshotId with
  | some id => if l.candidatePending then l.supervised else l.supervised.pruneSnapshots id
  | none => l.supervised

def CandidateLoop.result (l : CandidateLoop τ α) (restored : Option Restored) :
    AgentWorkspaceRecoveryResult where
  attempts := l.attempts
  replayedSteps := l.replayedSteps
  skippedCheckpoints := l.skippedCheckpoints
  rejections := l.rejections
  restored

/-! ### One candidate -/

variable {o : AgentWorkspaceRecoveryOptions} {world : RecoveryWorld τ α} {l' : CandidateLoop τ α}

variable {runId : String} {l : CandidateLoop τ α} {step : CandidateStep} {saved : AgentEvent}

theorem tryCandidate_cases
    (h : l.tryCandidate o world runId saved = (l', step)) :
    (l' = l ∧ (∃ message, step = .threw message) ∧
        ∀ v, world.observations saved = .ok v → acceptsLog v = false) ∨
      ∃ v, world.observations saved = .ok v ∧ acceptsLog v = true ∧
        ((∃ failure, l.ruledOut o v.log = some failure ∧ step = .next ∧
            l' = l.skip saved failure.2) ∨
          (l.ruledOut o v.log = none ∧ l.attempt o world runId saved v = (l', step))) := by
  unfold CandidateLoop.tryCandidate at h
  cases hv : world.observations saved with
  | error message =>
    rw [hv] at h
    cases h
    exact .inl ⟨rfl, ⟨message, rfl⟩, nofun⟩
  | ok v =>
    simp only [hv] at h
    cases haccepts : acceptsLog v with
    | false =>
      rw [haccepts] at h
      cases h
      refine .inl ⟨rfl, ⟨_, rfl⟩, fun v' hv' => ?_⟩
      cases hv'
      exact haccepts
    | true =>
      rw [haccepts] at h
      refine .inr ⟨v, rfl, haccepts, ?_⟩
      cases hruled : l.ruledOut o v.log with
      | some failure =>
        simp only [hruled] at h
        cases h
        exact .inl ⟨failure, rfl, rfl, rfl⟩
      | none =>
        simp only [hruled] at h
        exact .inr ⟨rfl, h⟩

omit [BEq α] in
theorem attempt_cases {v : ObservationValidation τ α}
    (h : l.attempt o world runId saved v = (l', step)) :
    (∃ w message, l.beginNext o world runId = (w, .error message) ∧ step = .threw message ∧
        l' = l.pending w l.baseSnapshotId) ∨
      ∃ w tx tree, l.beginNext o world runId = (w, .ok (tx, tree)) ∧
        (l.pending w (some tx.baseSnapshotId)).replayCandidate saved v tx tree = (l', step) := by
  unfold CandidateLoop.attempt at h
  split at h
  · rename_i w message hfailed
    cases h
    exact .inl ⟨w, message, hfailed, rfl, rfl⟩
  · rename_i w tx tree hbegun
    exact .inr ⟨w, tx, tree, hbegun, h⟩

omit [BEq α] in
theorem replayCandidate_cases {v : ObservationValidation τ α}
    {tx : WorkspaceTransaction} {tree : τ}
    (h : l.replayCandidate saved v tx tree = (l', step)) :
    l'.replayedSteps = l.replayedSteps + (replayObservationLog v tree).calls ∧
      ((∃ n cutoffIndices, replayObservationLog v tree = .matched n cutoffIndices ∧
          step = .restored ⟨saved.seq, tx, cutoffIndices⟩ ∧
          l' = { l with replayedSteps := l'.replayedSteps }) ∨
        ∃ d, replayObservationLog v tree = .diverged d ∧ step = .next ∧
          l' = { l with replayedSteps := l'.replayedSteps }.reject saved v tx d) := by
  unfold CandidateLoop.replayCandidate at h
  cases hresult : replayObservationLog v tree with
  | matched n cutoffIndices =>
    simp only [hresult] at h
    cases h
    exact ⟨rfl, .inl ⟨n, cutoffIndices, rfl, rfl, rfl⟩⟩
  | diverged d =>
    simp only [hresult] at h
    cases h
    exact ⟨rfl, .inr ⟨d, rfl, rfl, rfl⟩⟩

def prepareCandidates (o : AgentWorkspaceRecoveryOptions) (world : RecoveryWorld τ α)
    (runId : String) (checkpoints : List AgentEvent) (w : Supervised τ) :
    Supervised τ × Except String AgentWorkspaceRecoveryResult :=
  let (l, answer) := CandidateLoop.tryAll o world runId checkpoints.reverse { supervised := w }
  (l.settle, answer.map l.result)

theorem prepareCandidates_eq {checkpoints : List AgentEvent} {w : Supervised τ}
    {answer : Except String (Option Restored)}
    (h : CandidateLoop.tryAll o world runId checkpoints.reverse { supervised := w } = (l, answer)) :
    prepareCandidates o world runId checkpoints w = (l.settle, answer.map l.result) := by
  unfold prepareCandidates
  rw [h]

end Candidates

/-! ## Binding -/

/-- How `recoverCheckpoint` goes on when `prepare` has settled, up to its next await. -/
inductive AfterPrepare where
  | bound (s : AgentRuntime)
  | over (s : AgentRuntime) (failure : Option String)
  /-- `discard` is called, after an interruption or because of a failure -/
  | discards (failure : Option String)

namespace AgentRuntime

/-- The `catch` of `recoverCheckpoint`, when nothing is left to be given back. -/
def failRecovery (recovery : AgentRecovery) (failure : String) (s : AgentRuntime) : AgentRuntime :=
  s.record .recoveryFailed
    (if s.recoveryCancelled recovery then
      { interruptedBefore recovery with error := some failure }
    else recovery.previous)

def afterPrepare (recovery : AgentRecovery) (answer : Except String (Option Prepared))
    (s : AgentRuntime) : AfterPrepare :=
  match answer with
  | .error failure => .over (s.failRecovery recovery failure) (some failure)
  | .ok candidate =>
    match s.find recovery.agentId, candidate with
    | .error failure, none => .over (s.failRecovery recovery failure) (some failure)
    | .error failure, some _ => .discards (some (errorText failure))
    | .ok state, none =>
      if state.reason = interruptRequested then
        .over (s.record .recoveryInterrupted (interruptedBefore recovery)) none
      else .over (s.record .recoveryAbandoned recovery.previous) none
    | .ok state, some candidate =>
      if state.reason = interruptRequested then .discards none
      else match s.commitRestore state candidate.seq candidate.workspace with
      | .error message => .discards (some (errorText message))
      | .ok s' => .bound s'

/-- `discard` has settled. -/
def afterDiscard (recovery : AgentRecovery) (failure : Option String) (s : AgentRuntime) :
    AgentRuntime :=
  match failure with
  | none => s.record .recoveryInterrupted (interruptedBefore recovery)
  | some failure => s.failRecovery recovery failure

end AgentRuntime

/-! ## The whole recovery -/

/-- How a call of `recoverAgentWorkspace` settles.  It is bound when `recoverCheckpoint` resolves
    to the restored state. -/
structure RecoveryEnd (τ : Type) where
  supervised : Supervised τ
  agents : AgentRuntime
  bound : Bool := false
  result : Except String AgentWorkspaceRecoveryResult

/-- What `prepare` resolves to. -/
def AgentWorkspaceRecoveryResult.prepared (result : AgentWorkspaceRecoveryResult) :
    Option AgentRuntime.Prepared :=
  result.restored.map fun candidate => {
    seq := candidate.checkpointSeq
    workspace := some ⟨candidate.transaction.txId, candidate.transaction.forkRoot⟩
    discard := true }

section Recovery

variable {τ α : Type} [BEq α]

/-- The `discard` of a prepared candidate. -/
def discardPrepared (answer : Except String AgentWorkspaceRecoveryResult) (w : Supervised τ) :
    Supervised τ :=
  match answer with
  | .error _ => w
  | .ok result =>
    match result.restored with
    | none => w
    | some candidate =>
      (w.abortWorkspaceTransaction candidate.transaction.txId).pruneSnapshots
        candidate.transaction.baseSnapshotId

/-- The calls before `prepare`: the agent, and the runtime that its recovery has started in. -/
def admitRecovery (o : AgentWorkspaceRecoveryOptions) (world : RecoveryWorld τ α)
    (agents : AgentRuntime) : Except String (AgentState × AgentRuntime) := do
  AgentRuntime.refuseIf (!world.sameDomain) "Agent and workspace supervisor must share a domain"
  AgentRuntime.refuseIf
    (o.replayPolicy.any fun policy => !(["recheck", "deterministic"].contains policy))
    "Invalid recovery replay policy"
  match agents.log.get o.agentId with
  | none => throw "Workspace recovery requires an existing agent"
  | some agent => do
    let started ← agents.recoverCheckpoint agent.id
    return (agent, started)

/-- What follows on `prepare`: the candidate is bound, or given back, or there is none. -/
def settleRecovery (world : RecoveryWorld τ α) (agent : AgentState) (started : AgentRuntime)
    (w : Supervised τ) (answer : Except String AgentWorkspaceRecoveryResult) : RecoveryEnd τ :=
  let recovery : AgentRecovery := { agentId := agent.id, previous := agent }
  let reached := world.whilePreparing started
  match reached.afterPrepare recovery (answer.map (·.prepared)) with
  | .bound agents => { supervised := w, agents, bound := true, result := answer }
  | .over agents none => { supervised := w, agents, result := answer }
  | .over agents (some failure) => { supervised := w, agents, result := .error failure }
  | .discards failure =>
    { supervised := discardPrepared answer w
      agents := (world.whileDiscarding reached).afterDiscard recovery failure
      result := match failure with
        | none => answer
        | some failure => .error failure }

def recoverAgentWorkspace (o : AgentWorkspaceRecoveryOptions) (world : RecoveryWorld τ α)
    (agents : AgentRuntime) (w : Supervised τ) : RecoveryEnd τ :=
  match admitRecovery o world agents with
  | .error message => { supervised := w, agents, result := .error message }
  | .ok (agent, started) =>
    let prepared := prepareCandidates o world agent.runId (agents.log.checkpoints agent.id) w
    settleRecovery world agent started prepared.1 prepared.2

end Recovery

end XioFlow.Agents
