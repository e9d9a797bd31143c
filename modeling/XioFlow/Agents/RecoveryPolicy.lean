/-
  XioFlow.Agents.RecoveryPolicy

  A recovery that skips what known failures rule out chooses the checkpoint
  that a recovery chooses which replays every log.
-/

import XioFlow.Agents.RecoveryCleanup

namespace XioFlow.Agents

open ObservationReplay (LogEntry ObservationValidation Divergence ObservationReplayResult
  replayObservationLog isDeepStrictEqual SameOutcomes replayFrom_diverged replayFrom_again)
open CandidateLoop

variable {τ α : Type}

/-! ## What is chosen -/

/-- The whole log of a checkpoint replays on the tree. -/
def RecoveryWorld.replays (world : RecoveryWorld τ α) (tree : τ) (saved : AgentEvent) : Bool :=
  match world.observations saved with
  | .error _ => false
  | .ok v => (replayObservationLog v tree).isMatched

/-- The steps that are replayed when each checkpoint is tried, up to the first valid one. -/
def RecoveryWorld.replaySteps (world : RecoveryWorld τ α) (tree : τ) : List AgentEvent → Nat
  | [] => 0
  | saved :: older =>
    match world.observations saved with
    | .error _ => 0
    | .ok v =>
      let result := replayObservationLog v tree
      if result.isMatched then result.calls else result.calls + world.replaySteps tree older

/-- The checkpoints up to the first valid one have logs that a recovery accepts. -/
def RecoveryWorld.observed (world : RecoveryWorld τ α) (tree : τ) : List AgentEvent → Bool
  | [] => true
  | saved :: older =>
    match world.observations saved with
    | .error _ => false
    | .ok v =>
      acceptsLog v &&
        ((replayObservationLog v tree).isMatched || world.observed tree older)

variable [BEq α]

/-- The adapters that come with the checkpoints give an entry one outcome, when the tree and the
    entries replayed before it are the same. -/
def RecoveryWorld.Deterministic (world : RecoveryWorld τ α) : Prop :=
  ∀ saved saved' v v', world.observations saved = .ok v → world.observations saved' = .ok v' →
    SameOutcomes v v'

/-! ## The shared baseline -/

/-- The next candidate is forked from the tree, and each known failure shows on it again. -/
structure Steady (world : RecoveryWorld τ α) (tree : τ) (l : CandidateLoop τ α) : Prop where
  first : l.baseSnapshotId = none → world.trees (l.attempts + 1) = tree
  shared : ∀ id, l.baseSnapshotId = some id →
    (l.supervised.snapshots.find? fun snapshot => snapshot.1 = id) = some (id, tree)
  known : ∀ failure ∈ l.knownFailures, ∀ saved v, world.observations saved = .ok v →
    failure.1.length ≤ v.log.length →
      isDeepStrictEqual failure.1 (v.log.take failure.1.length) = true →
        replayObservationLog v tree = .diverged failure.2

variable {world : RecoveryWorld τ α} {w : Supervised τ}

variable {tree : τ} {l : CandidateLoop τ α}

/-- A candidate is forked from the shared tree, which stays where it is. -/
theorem Steady.beginNext (h : Steady world tree l) {o : AgentWorkspaceRecoveryOptions}
    {runId : String} {tx : WorkspaceTransaction} {forked : τ}
    (hbegun : l.beginNext o world runId = (w, .ok (tx, forked))) :
    forked = tree ∧
      (w.snapshots.find? fun snapshot => snapshot.1 = tx.baseSnapshotId) =
        some (tx.baseSnapshotId, tree) := by
  obtain ⟨-, -, based, hbase, rfl⟩ := Supervised.beginWorkspaceTransaction_ok hbegun
  rcases Supervised.baseFor_ok hbase with ⟨hid, rfl, hfound⟩ | ⟨hnone, hnow, hfresh, rfl⟩
  · have hshared := h.shared _ hid
    obtain rfl : forked = tree := by
      rw [hfound] at hshared
      cases hshared
      rfl
    exact ⟨rfl, hshared⟩
  · obtain rfl : forked = tree := hnow.trans (h.first hnone)
    refine ⟨rfl, ?_⟩
    simp only
    rw [List.find?_append, List.find?_eq_none.2]
    · simp
    · intro snapshot hsnapshot
      simpa using hfresh snapshot hsnapshot

variable {saved : AgentEvent}

/-- What ruled a checkpoint out rules out every later one whose log starts with it. -/
theorem diverged_again (hdet : world.Deterministic)
    {v : ObservationValidation τ α} (hv : world.observations saved = .ok v) {d : Divergence}
    (hd : replayObservationLog v tree = .diverged d) {saved' : AgentEvent}
    {v' : ObservationValidation τ α} (hv' : world.observations saved' = .ok v')
    (hstart : isDeepStrictEqual (v.log.take (d.divergedAt + 1))
      (v'.log.take (v.log.take (d.divergedAt + 1)).length) = true) :
    replayObservationLog v' tree = .diverged d := by
  obtain ⟨k, hk, hat⟩ := replayFrom_diverged hd
  rw [List.length_nil, Nat.zero_add] at hat
  have hlength : (v.log.take (d.divergedAt + 1)).length = k + 1 := by
    rw [List.length_take]
    omega
  rw [hlength, hat] at hstart
  refine replayFrom_again (hdet saved saved' v v' hv hv') tree rfl hd ?_ hstart
  rw [List.length_nil, Nat.zero_add]
  exact hat

theorem Steady.of_same {l' : CandidateLoop τ α} (h : Steady world tree l)
    (hattempts : l'.attempts = l.attempts) (hbase : l'.baseSnapshotId = l.baseSnapshotId)
    (hsupervised : l'.supervised = l.supervised) (hknown : l'.knownFailures = l.knownFailures) :
    Steady world tree l' := by
  refine ⟨?_, ?_, ?_⟩
  · rw [hbase, hattempts]
    exact h.first
  · rw [hbase, hsupervised]
    exact h.shared
  · rw [hknown]
    exact h.known

/-- A failure that is known shows in the log that it rules out. -/
theorem Steady.diverged_of_ruledOut (h : Steady world tree l) {o : AgentWorkspaceRecoveryOptions}
    {v : ObservationValidation τ α} (hv : world.observations saved = .ok v)
    {failure : List (LogEntry α) × Divergence} (hruled : l.ruledOut o v.log = some failure) :
    replayObservationLog v tree = .diverged failure.2 := by
  unfold CandidateLoop.ruledOut CandidateLoop.known at hruled
  split at hruled
  · have hmem := List.mem_of_find?_eq_some hruled
    have hfound := List.find?_some hruled
    simp only [Bool.and_eq_true, decide_eq_true_eq] at hfound
    exact h.known failure hmem saved v hv hfound.1 hfound.2
  · cases hruled

variable {world : RecoveryWorld τ α} {tree : τ} {o : AgentWorkspaceRecoveryOptions} {runId : String}
  {l l' : CandidateLoop τ α}

/-! ## One candidate -/

/-- What a candidate adds: it is chosen exactly when its log replays, and the steps are counted. -/
theorem Steady.tryCandidate (hdet : world.Deterministic) (h : Steady world tree l)
    {step : CandidateStep}
    (htry : l.tryCandidate o world runId saved = (l', step)) :
    (∃ message, step = .threw message) ∨
      ∃ v, world.observations saved = .ok v ∧ acceptsLog v = true ∧
        ((∃ candidate, step = .restored candidate ∧ candidate.checkpointSeq = saved.seq ∧
            (replayObservationLog v tree).isMatched = true ∧
            l'.replayedSteps = l.replayedSteps + (replayObservationLog v tree).calls) ∨
          (step = .next ∧ Steady world tree l' ∧
            (replayObservationLog v tree).isMatched = false ∧
            l'.replayedSteps ≤ l.replayedSteps + (replayObservationLog v tree).calls ∧
            (o.replayPolicy ≠ some "deterministic" →
              l'.replayedSteps = l.replayedSteps + (replayObservationLog v tree).calls))) := by
  rcases tryCandidate_cases htry with ⟨-, hthrew, -⟩ | ⟨v, hv, haccepts, hcases⟩
  · exact .inl hthrew
  rcases hcases with ⟨failure, hruled, rfl, rfl⟩ | ⟨-, hattempt⟩
  · refine .inr ⟨v, hv, haccepts, .inr ⟨rfl, h.of_same rfl rfl rfl rfl, ?_, ?_, ?_⟩⟩
    · rw [h.diverged_of_ruledOut hv hruled]
      rfl
    · exact Nat.le_add_right _ _
    · intro hpolicy
      unfold ruledOut at hruled
      rw [if_neg hpolicy] at hruled
      cases hruled
  rcases attempt_cases hattempt with ⟨w, message, -, rfl, -⟩ | ⟨w, tx, forked, hbegun, hreplay⟩
  · exact .inl ⟨message, rfl⟩
  obtain ⟨rfl, hbase⟩ := h.beginNext hbegun
  obtain ⟨hsteps, ⟨n, cutoffIndices, hmatched, rfl, -⟩ | ⟨d, hdiverged, rfl, hl'⟩⟩ :=
    replayCandidate_cases hreplay
  · refine .inr ⟨v, hv, haccepts, .inl ⟨_, rfl, rfl, ?_, hsteps⟩⟩
    rw [hmatched]
    rfl
  · refine .inr ⟨v, hv, haccepts, .inr ⟨rfl, ?_, ?_, Nat.le_of_eq hsteps, fun _ => hsteps⟩⟩
    · rw [hl']
      refine ⟨fun hnone => ?_, fun id hid => ?_, fun failure hfailure => ?_⟩
      · cases hnone
      · cases hid
        exact hbase
      · -- A new failure is one that shows again after its prefix.
        unfold reject at hfailure
        simp only at hfailure
        have hcases : failure ∈ l.knownFailures ∨
            failure = (v.log.take (d.divergedAt + 1), d) := by
          split at hfailure
          · exact (List.mem_append.1 hfailure).imp_right List.mem_singleton.1
          · exact .inl hfailure
        rcases hcases with hold | rfl
        · exact h.known failure hold
        · intro saved' v' hv' _ hstart
          exact diverged_again hdet hv hdiverged hv' hstart
    · rw [hdiverged]
      rfl

/-! ## All candidates -/

/-- The loop chooses the first checkpoint whose log replays on the shared tree. -/
theorem Steady.tryAll (hdet : world.Deterministic) {candidates : List AgentEvent}
    (h : Steady world tree l) {restored : Option Restored}
    (hall : l.tryAll o world runId candidates = (l', .ok restored)) :
    restored.map Restored.checkpointSeq =
        (candidates.find? (world.replays tree)).map AgentEvent.seq ∧
      l'.replayedSteps ≤ l.replayedSteps + world.replaySteps tree candidates ∧
      (o.replayPolicy ≠ some "deterministic" →
        l'.replayedSteps = l.replayedSteps + world.replaySteps tree candidates) := by
  induction candidates generalizing l with
  | nil =>
    unfold tryAll at hall
    cases hall
    exact ⟨rfl, Nat.le_refl _, fun _ => rfl⟩
  | cons saved older ih =>
    unfold tryAll at hall
    cases htry : l.tryCandidate o world runId saved with
    | mk =>
      rw [htry] at hall
      rcases h.tryCandidate hdet htry with ⟨message, rfl⟩ | ⟨v, hv, haccepts, hcases⟩
      · cases hall
      have hreplays : world.replays tree saved = (replayObservationLog v tree).isMatched := by
        unfold RecoveryWorld.replays
        rw [hv]
      have hsteps : world.replaySteps tree (saved :: older) =
          if (replayObservationLog v tree).isMatched then (replayObservationLog v tree).calls
          else (replayObservationLog v tree).calls + world.replaySteps tree older := by
        rw [RecoveryWorld.replaySteps, hv]
      rw [List.find?_cons, hreplays, hsteps]
      rcases hcases with ⟨candidate, rfl, hseq, hmatched, hcount⟩ |
        ⟨rfl, hsteady, hdiverged, hle, heq⟩
      · cases hall
        rw [hmatched]
        refine ⟨congrArg some hseq, Nat.le_of_eq hcount, fun _ => hcount⟩
      · rw [hdiverged]
        obtain ⟨hchosen, hle', heq'⟩ := ih hsteady hall
        refine ⟨hchosen, ?_, fun hpolicy => ?_⟩
        · simp only [Bool.false_eq_true, if_false]
          omega
        · have hfirst := heq hpolicy
          have hrest := heq' hpolicy
          simp only [Bool.false_eq_true, if_false]
          omega

/-! ## When a recovery returns -/

/-- The supervisor begins every transaction of the recovery, and knows none of them before. -/
structure Serves (o : AgentWorkspaceRecoveryOptions) (world : RecoveryWorld τ α)
    (w : Supervised τ) : Prop where
  begins : ∀ attempt, ∃ forkRoot, world.begins attempt = .begun forkRoot
  transactions : ∀ tx ∈ w.transactions, ∀ attempt : Nat,
    tx.txId ≠ o.recoveryId ++ "-" ++ toString attempt
  snapshots : ∀ snapshot ∈ w.snapshots, ∀ attempt : Nat,
    snapshot.1 ≠ o.recoveryId ++ "-" ++ toString attempt ++ "-base"

variable {before : Supervised τ}

omit [BEq α] in
theorem Serves.beginNext [BEq α] (hserves : Serves o world before) (hbalanced : Balanced before l)
    (hsteady : Steady world tree l) :
    ∃ w begun, l.beginNext o world runId = (w, .ok begun) := by
  obtain ⟨forkRoot, hbegins⟩ := hserves.begins (l.attempts + 1)
  have hnew : (l.supervised.transactions.any fun tx => decide (tx.txId = l.nextTxId o)) = false := by
    rw [hbalanced.transactions, List.any_eq_false]
    intro tx htx
    simpa [nextTxId] using hserves.transactions tx htx (l.attempts + 1)
  have hbased : ∃ based, l.supervised.baseFor (l.nextTxId o) l.baseSnapshotId
      (world.trees (l.attempts + 1)) = .ok based := by
    unfold Supervised.baseFor
    cases hbase : l.baseSnapshotId with
    | some id =>
      simp only [hsteady.shared id hbase]
      exact ⟨_, rfl⟩
    | none =>
      have hfresh : (l.supervised.snapshots.any fun snapshot =>
          decide (snapshot.1 = l.nextTxId o ++ "-base")) = false := by
        rw [hbalanced.unbased hbase, List.any_eq_false]
        intro snapshot hsnapshot
        simpa [nextTxId] using
          hserves.snapshots snapshot hsnapshot (l.attempts + 1)
      simp only [hfresh]
      exact ⟨_, rfl⟩
  obtain ⟨⟨w, base⟩, hbased⟩ := hbased
  unfold CandidateLoop.beginNext Supervised.beginWorkspaceTransaction
  rw [hnew, hbegins, hbased]
  exact ⟨_, _, rfl⟩

/-- With a supervisor that serves it, a recovery is only left because of a log. -/
theorem Serves.tryAll_ok_iff (hserves : Serves o world before) (hdet : world.Deterministic)
    {candidates : List AgentEvent} (hbalanced : Balanced before l) (hsteady : Steady world tree l) :
    (∃ l' restored, l.tryAll o world runId candidates = (l', .ok restored)) ↔
      world.observed tree candidates = true := by
  induction candidates generalizing l with
  | nil => exact ⟨fun _ => rfl, fun _ => ⟨l, none, rfl⟩⟩
  | cons saved older ih =>
    unfold tryAll RecoveryWorld.observed
    cases htry : l.tryCandidate o world runId saved with
    | mk l₁ =>
      rcases hsteady.tryCandidate hdet htry with ⟨message, rfl⟩ | ⟨v, hv, haccepts, hcases⟩
      · -- The begin did not fail, so the log was refused.
        have hrefused : ∀ v, world.observations saved = .ok v → acceptsLog v = false := by
          rcases tryCandidate_cases htry with ⟨-, -, hrefused⟩ | ⟨v, hv, -, hcases⟩
          · exact hrefused
          rcases hcases with ⟨_, -, ⟨⟩, -⟩ | ⟨-, hattempt⟩
          rcases attempt_cases hattempt with ⟨w, _, hfailed, -⟩ | ⟨w, tx, forked, -, hreplay⟩
          · have hbegins : ∃ w' begun, l.beginNext o world runId = (w', .ok begun) :=
              hserves.beginNext hbalanced hsteady
            obtain ⟨w', begun, hbegun⟩ := hbegins
            rw [hbegun] at hfailed
            cases hfailed
          · obtain ⟨-, ⟨_, _, -, ⟨⟩, -⟩ | ⟨_, -, ⟨⟩, -⟩⟩ := replayCandidate_cases hreplay
        constructor
        · rintro ⟨l', restored, ⟨⟩⟩
        · intro hobserved
          cases hv : world.observations saved with
          | error =>
            rw [hv] at hobserved
            cases hobserved
          | ok v =>
            rw [hv] at hobserved
            simp only [hrefused v hv] at hobserved
            cases hobserved
      · rw [hv]
        simp only [haccepts, Bool.true_and, Bool.or_eq_true]
        rcases hcases with ⟨candidate, rfl, -, hmatched, -⟩ | ⟨rfl, hsteady', hdiverged, -⟩
        · exact ⟨fun _ => .inl hmatched, fun _ => ⟨l₁, some candidate, rfl⟩⟩
        · have hbalanced' : Balanced before l₁ := by
            rcases hbalanced.tryCandidate htry with ⟨-, hnext, -⟩ | ⟨_, ⟨⟩, -⟩ | ⟨_, ⟨⟩, -⟩
            exact hnext
          rw [hdiverged]
          simp only [Bool.false_eq_true, false_or]
          exact ih hbalanced' hsteady'

/-! ## The two policies -/

def AgentWorkspaceRecoveryOptions.recheck (o : AgentWorkspaceRecoveryOptions) :
    AgentWorkspaceRecoveryOptions :=
  { o with replayPolicy := some "recheck" }

def AgentWorkspaceRecoveryOptions.deterministic (o : AgentWorkspaceRecoveryOptions) :
    AgentWorkspaceRecoveryOptions :=
  { o with replayPolicy := some "deterministic" }

/-- Two calls meet the same observations, and the first begin finds the same tree. -/
structure SameBaseline (world world' : RecoveryWorld τ α) : Prop where
  observations : world'.observations = world.observations
  tree : world'.trees 1 = world.trees 1

theorem steady_start (world : RecoveryWorld τ α) (w : Supervised τ) :
    Steady world (world.trees 1) ({ supervised := w } : CandidateLoop τ α) :=
  ⟨fun _ => rfl, nofun, nofun⟩

omit [BEq α] in
/-- What a recovery returns is what `prepare` has found. -/
theorem answer_of_settleRecovery {agent : AgentState} {started : AgentRuntime}
    {answer : Except String AgentWorkspaceRecoveryResult} {result : AgentWorkspaceRecoveryResult}
    (h : (settleRecovery world agent started w answer).result = .ok result) :
    answer = .ok result := by
  unfold settleRecovery at h
  dsimp only at h
  split at h
  · exact h
  · exact h
  · cases h
  · rename_i failure _
    cases failure with
    | none => exact h
    | some => cases h

/-- A recovery that returns has tried the checkpoints of its agent. -/
theorem tryAll_of_result {agents : AgentRuntime} {result : AgentWorkspaceRecoveryResult}
    (h : (recoverAgentWorkspace o world agents w).result = .ok result) :
    ∃ runId l restored, tryAll o world runId
        (agents.log.checkpoints o.agentId).reverse { supervised := w } = (l, .ok restored) ∧
      result = l.result restored := by
  unfold recoverAgentWorkspace at h
  cases hgranted : admitRecovery o world agents with
  | error =>
    rw [hgranted] at h
    cases h
  | ok admitted =>
    obtain ⟨agent, started⟩ := admitted
    rw [hgranted] at h
    cases hall : tryAll o world agent.runId
        (agents.log.checkpoints agent.id).reverse { supervised := w } with
    | mk l answer =>
      simp only [prepareCandidates_eq hall] at h
      rw [id_of_admitRecovery hgranted] at hall
      have hanswer := answer_of_settleRecovery h
      cases answer with
      | error => cases hanswer
      | ok restored =>
        cases hanswer
        exact ⟨agent.runId, l, restored, hall, rfl⟩

omit [BEq α] in
theorem observed_congr {world' : RecoveryWorld τ α} (h : world'.observations = world.observations)
    (tree : τ) (candidates : List AgentEvent) :
    world'.observed tree candidates = world.observed tree candidates ∧
      world'.replaySteps tree candidates = world.replaySteps tree candidates ∧
        world'.replays tree = world.replays tree := by
  refine ⟨?_, ?_, ?_⟩
  · induction candidates with
    | nil => rfl
    | cons saved older ih => simp only [RecoveryWorld.observed, h, ih]
  · induction candidates with
    | nil => rfl
    | cons saved older ih => simp only [RecoveryWorld.replaySteps, h, ih]
  · funext saved
    simp only [RecoveryWorld.replays, h]

/-- Skipping what known failures rule out changes nothing but the work: the recovery chooses the
    newest checkpoint whose whole log replays on the baseline, as one that replays every log. -/
theorem deterministic_recovery_agrees {world world' : RecoveryWorld τ α}
    (hdet : world.Deterministic) (hsame : SameBaseline world world')
    (o : AgentWorkspaceRecoveryOptions) (agents : AgentRuntime) (w w' : Supervised τ) :
    (∀ result result', (recoverAgentWorkspace o.recheck world agents w).result = .ok result →
      (recoverAgentWorkspace o.deterministic world' agents w').result = .ok result' →
        result'.restored.isSome = result.restored.isSome ∧
          result'.restored.map Restored.checkpointSeq =
            result.restored.map Restored.checkpointSeq ∧
          result.restored.map Restored.checkpointSeq =
            ((agents.log.checkpoints o.agentId).reverse.find?
              (world.replays (world.trees 1))).map AgentEvent.seq ∧
          result'.replayedSteps ≤ result.replayedSteps) ∧
      (Serves o.recheck world w → Serves o.deterministic world' w' → ∀ runId checkpoints,
        (∃ result, (prepareCandidates o.recheck world runId checkpoints w).2 = .ok result) ↔
          ∃ result, (prepareCandidates o.deterministic world' runId checkpoints w').2 =
            .ok result) := by
  have hdet' : world'.Deterministic := by
    intro saved saved' v v' hv hv'
    rw [hsame.observations] at hv hv'
    exact hdet saved saved' v v' hv hv'
  constructor
  · intro result result' hresult hresult'
    obtain ⟨runId, l, restored, hall, rfl⟩ := tryAll_of_result hresult
    obtain ⟨runId', l', restored', hall', rfl⟩ := tryAll_of_result hresult'
    obtain ⟨hchosen, -, hsteps⟩ := (steady_start world w).tryAll hdet hall
    obtain ⟨hchosen', hsteps', -⟩ := (steady_start world' w').tryAll hdet' hall'
    obtain ⟨-, hcounts, hreplays⟩ :=
      observed_congr hsame.observations (world.trees 1) (agents.log.checkpoints o.agentId).reverse
    have hagree : restored'.map Restored.checkpointSeq = restored.map Restored.checkpointSeq := by
      rw [hchosen, hchosen', hsame.tree, hreplays]
      rfl
    refine ⟨?_, hagree, hchosen, ?_⟩
    · show restored'.isSome = restored.isSome
      simpa using congrArg Option.isSome hagree
    · have hpolicy : o.recheck.replayPolicy ≠ some "deterministic" := by
        show some "recheck" ≠ some "deterministic"
        decide
      rw [hsame.tree] at hsteps'
      show l'.replayedSteps ≤ l.replayedSteps
      rw [hsteps hpolicy]
      exact hsteps'.trans (Nat.le_of_eq (congrArg (0 + ·) hcounts))
  · intro hserves hserves' runId checkpoints
    have hreturns : ∀ {o : AgentWorkspaceRecoveryOptions} {world : RecoveryWorld τ α}
        {w : Supervised τ}, Serves o world w → world.Deterministic →
          ((∃ result, (prepareCandidates o world runId checkpoints w).2 = .ok result) ↔
            world.observed (world.trees 1) checkpoints.reverse = true) := by
      intro o world w hserves hdet
      have htried : (∃ l restored, tryAll o world runId checkpoints.reverse
          { supervised := w } = (l, .ok restored)) ↔ _ :=
        hserves.tryAll_ok_iff hdet (balanced_start w) (steady_start world w)
      rw [← htried]
      unfold prepareCandidates
      cases hall : tryAll o world runId checkpoints.reverse { supervised := w } with
      | mk l answer =>
        constructor
        · rintro ⟨result, hresult⟩
          cases answer with
          | error => cases hresult
          | ok restored => exact ⟨l, restored, rfl⟩
        · rintro ⟨l', restored, ⟨⟩⟩
          exact ⟨_, rfl⟩
    rw [hreturns hserves hdet, hreturns hserves' hdet', hsame.tree,
      (observed_congr hsame.observations (world.trees 1) checkpoints.reverse).1]

/-- An agent that was restored to its start twice. -/
def restoredTwice : AgentRuntime :=
  (RuntimeEvent.restoreCheckpoint "a" 2 none).after restoredRuntime

/-- Only the first checkpoint has a log that the adapter repeats.  The two later ones share one that
    it does not. -/
def changedTwice : RecoveryWorld Unit Unit where
  observations saved :=
    let recorded := if saved.seq < 4 then "h" else "x"
    .ok {
      log := [{ kind := .observe, call := (), resultHash := some recorded }]
      replay := fun _ _ _ => .ok (.hash "h") }
  begins attempt := .begun ("/fork-" ++ toString attempt)
  trees _ := ()
  whilePreparing s := ["1", "2", "3"].foldl (fun s attempt => RuntimeEvent.after (.transaction {
    type := "TX_BEGUN", txId := "rec-" ++ attempt, runId := some "r",
    forkRoot := some ("/fork-" ++ attempt) }) s) s

/-- The checkpoint in the middle is skipped, and the first one is chosen all the same. -/
theorem changedTwice_agrees :
    let o : AgentWorkspaceRecoveryOptions := { agentId := "a", recoveryId := "rec" }
    ∃ result result',
      (recoverAgentWorkspace o.recheck changedTwice restoredTwice {}).result = .ok result ∧
        (recoverAgentWorkspace o.deterministic changedTwice restoredTwice {}).result =
          .ok result' ∧
        result.restored.map Restored.checkpointSeq = some 2 ∧
        result'.restored.map Restored.checkpointSeq = some 2 ∧
        result.replayedSteps = 3 ∧ result'.replayedSteps = 2 := by
  intro o
  have hdet : changedTwice.Deterministic := by
    rintro saved saved' v v' ⟨⟩ ⟨⟩ tree done done' entry entry' -
    exact ⟨rfl, fun _ => rfl⟩
  have hagree := (deterministic_recovery_agrees hdet ⟨rfl, rfl⟩ o restoredTwice {} {}).1
  have hrecheck : (recoverAgentWorkspace o.recheck changedTwice restoredTwice {}).result.toOption.map
      (fun r => (r.restored.map Restored.checkpointSeq, r.replayedSteps)) = some (some 2, 3) := by
    decide +kernel
  have hskips : (recoverAgentWorkspace o.deterministic changedTwice restoredTwice
      {}).result.toOption.map (fun r => r.replayedSteps) = some 2 := by
    decide +kernel
  cases hresult : (recoverAgentWorkspace o.recheck changedTwice restoredTwice {}).result with
  | error =>
    rw [hresult] at hrecheck
    cases hrecheck
  | ok result =>
    cases hresult' :
        (recoverAgentWorkspace o.deterministic changedTwice restoredTwice {}).result with
    | error =>
      rw [hresult'] at hskips
      cases hskips
    | ok result' =>
      rw [hresult] at hrecheck
      rw [hresult'] at hskips
      obtain ⟨-, hsame, -⟩ := hagree result result' hresult hresult'
      obtain ⟨hseq, hsteps⟩ := Prod.mk.inj (Option.some.inj hrecheck)
      exact ⟨result, result', rfl, rfl, hseq, hsame.trans hseq, hsteps, Option.some.inj hskips⟩

end XioFlow.Agents
