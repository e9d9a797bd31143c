/-
  XioFlow.Agents.RecoveryCleanup

  What a recovery of an agent leaves behind: nothing, or the transaction that
  the agent works in from then on.  The exception is a begin that fails once the
  baseline is there, which nobody prunes then.
-/

import XioFlow.Agents.WorkspaceRecovery
import XioFlow.Agents.Calls

namespace XioFlow.Agents

open ObservationReplay (LogEntry ObservationValidation replayObservationLog)

variable {τ α : Type}

/-! ## Between two candidates -/

/-- No transaction of the recovery is open, and it holds its baseline and no other snapshot. -/
structure Balanced (before : Supervised τ) (l : CandidateLoop τ α) : Prop where
  idle : l.candidatePending = false
  transactions : l.supervised.transactions = before.transactions
  unbased : l.baseSnapshotId = none → l.supervised.snapshots = before.snapshots
  based : ∀ id, l.baseSnapshotId = some id → (∀ snapshot ∈ before.snapshots, snapshot.1 ≠ id) ∧
    ∃ tree, l.supervised.snapshots = before.snapshots ++ [(id, tree)]

/-- A candidate is open, on the baseline. -/
structure Holding (before : Supervised τ) (tx : WorkspaceTransaction) (l : CandidateLoop τ α) :
    Prop where
  pending : l.candidatePending = true
  base : l.baseSnapshotId = some tx.baseSnapshotId
  fresh : ∀ other ∈ before.transactions, other.txId ≠ tx.txId
  transactions : l.supervised.transactions = before.transactions ++ [tx]
  freshBase : ∀ snapshot ∈ before.snapshots, snapshot.1 ≠ tx.baseSnapshotId
  snapshots : ∃ tree, l.supervised.snapshots = before.snapshots ++ [(tx.baseSnapshotId, tree)]

theorem balanced_start (w : Supervised τ) :
    Balanced w ({ supervised := w } : CandidateLoop τ α) :=
  ⟨rfl, rfl, fun _ => rfl, nofun⟩

theorem filter_append_fresh {β γ : Type} [DecidableEq γ] (key : β → γ) {l : List β} {b : β}
    (hfresh : ∀ a ∈ l, key a ≠ key b) : ((l ++ [b]).filter fun a => key a ≠ key b) = l := by
  rw [List.filter_append, List.filter_eq_self.2]
  · simp
  · intro a ha
    simpa using hfresh a ha

variable {before : Supervised τ} {l : CandidateLoop τ α}

theorem Balanced.settle (h : Balanced before l) : l.settle = before := by
  unfold CandidateLoop.settle
  cases hbase : l.baseSnapshotId with
  | none =>
    exact Supervised.ext h.transactions (h.unbased hbase)
  | some id =>
    obtain ⟨hfresh, tree, hsnapshots⟩ := h.based id hbase
    simp only [h.idle, Bool.false_eq_true, if_false]
    refine Supervised.ext h.transactions ?_
    simp only [Supervised.pruneSnapshots, hsnapshots]
    exact filter_append_fresh Prod.fst (b := (id, tree)) hfresh

variable {tx : WorkspaceTransaction}

theorem Holding.settle (h : Holding before tx l) : l.settle = l.supervised := by
  unfold CandidateLoop.settle
  rw [h.base]
  simp only [h.pending, if_true]

/-- A candidate that is given back leaves nothing. -/
theorem Holding.discard (h : Holding before tx l) :
    ((l.supervised.abortWorkspaceTransaction tx.txId).pruneSnapshots tx.baseSnapshotId) =
      before := by
  obtain ⟨tree, hsnapshots⟩ := h.snapshots
  refine Supervised.ext ?_ ?_
  · simp only [Supervised.abortWorkspaceTransaction, Supervised.pruneSnapshots, h.transactions]
    exact filter_append_fresh WorkspaceTransaction.txId h.fresh
  · simp only [Supervised.abortWorkspaceTransaction, Supervised.pruneSnapshots, hsnapshots]
    exact filter_append_fresh Prod.fst (b := (tx.baseSnapshotId, tree)) h.freshBase

/-! ## One candidate -/

/-- The next begin fails, and the baseline is there or was just captured. -/
def Strands (o : AgentWorkspaceRecoveryOptions) (world : RecoveryWorld τ α) (runId : String)
    (l : CandidateLoop τ α) : Prop :=
  ∃ w message, l.beginNext o world runId = (w, .error message) ∧
    (l.baseSnapshotId.isSome = true ∨ w.snapshots ≠ l.supervised.snapshots)

theorem beginWorkspaceTransaction_error {answer : BeginAnswer} {txId runId message : String}
    {baseSnapshotId : Option String} {now : τ} {w w' : Supervised τ}
    (h : w.beginWorkspaceTransaction answer txId runId baseSnapshotId now = (w', .error message)) :
    w' = w ∨ ∃ base, w.baseFor txId baseSnapshotId now = .ok (w', base) := by
  unfold Supervised.beginWorkspaceTransaction at h
  split at h
  · cases h
    exact .inl rfl
  split at h
  · cases h
    exact .inl rfl
  · split at h
    · cases h
      exact .inl rfl
    · rename_i hbase
      cases h
      exact .inr ⟨_, hbase⟩
  · split at h
    · cases h
      exact .inl rfl
    · cases h

variable {o : AgentWorkspaceRecoveryOptions} {world : RecoveryWorld τ α} {runId : String}
  {before w : Supervised τ} {l : CandidateLoop τ α}

/-- A candidate that is begun is the only transaction of the recovery. -/
theorem Balanced.begun (h : Balanced before l) {tree : τ}
    (hbegun : l.beginNext o world runId = (w, .ok (tx, tree))) {started : CandidateLoop τ α}
    (hpending : started.candidatePending = true)
    (hbase : started.baseSnapshotId = some tx.baseSnapshotId) (hw : started.supervised = w) :
    Holding before tx started := by
  obtain ⟨htxId, hnew, based, hbased, rfl⟩ := Supervised.beginWorkspaceTransaction_ok hbegun
  have hfresh : ∀ other ∈ before.transactions, other.txId ≠ tx.txId := by
    intro other hother
    rw [htxId]
    exact hnew other (h.transactions ▸ hother)
  rcases Supervised.baseFor_ok hbased with ⟨hid, rfl, -⟩ | ⟨hnone, -, hfreshBase, rfl⟩
  · obtain ⟨hfreshBase, held, hsnapshots⟩ := h.based _ hid
    refine ⟨hpending, hbase, hfresh, ?_, hfreshBase, held, ?_⟩ <;> rw [hw]
    · simp only [h.transactions]
    · exact hsnapshots
  · have hsnapshots := h.unbased hnone
    refine ⟨hpending, hbase, hfresh, ?_, ?_, tree, ?_⟩
    · rw [hw]
      simp only [h.transactions]
    · rw [← hsnapshots]
      exact hfreshBase
    · rw [hw]
      simp only [hsnapshots]

/-- A begin that fails opens nothing.  It leaves a snapshot exactly when it strands the baseline. -/
theorem Balanced.failed (h : Balanced before l) {message : String}
    (hfailed : l.beginNext o world runId = (w, .error message)) :
    w.transactions = before.transactions ∧
      (w.snapshots = before.snapshots ↔ ¬ Strands o world runId l) := by
  have hstrands : Strands o world runId l ↔
      l.baseSnapshotId.isSome = true ∨ w.snapshots ≠ l.supervised.snapshots := by
    constructor
    · rintro ⟨w', message', hfailed', hleft⟩
      rw [hfailed] at hfailed'
      cases hfailed'
      exact hleft
    · intro hleft
      exact ⟨w, message, hfailed, hleft⟩
  rw [hstrands]
  rcases beginWorkspaceTransaction_error hfailed with rfl | ⟨base, hbased⟩
  · refine ⟨h.transactions, ?_⟩
    cases hbase : l.baseSnapshotId with
    | none => simp [h.unbased hbase]
    | some id =>
      obtain ⟨-, tree, hsnapshots⟩ := h.based id hbase
      simp [hsnapshots]
  · rcases Supervised.baseFor_ok hbased with ⟨hid, rfl, -⟩ | ⟨hnone, -, -, rfl⟩
    · obtain ⟨-, tree, hsnapshots⟩ := h.based _ hid
      refine ⟨h.transactions, ?_⟩
      simp [hid, hsnapshots]
    · refine ⟨h.transactions, ?_⟩
      simp [h.unbased hnone]

section Loop

variable [BEq α]

/-- The candidate is not ruled out by what is known, and its log is accepted. -/
def Attempts (o : AgentWorkspaceRecoveryOptions) (world : RecoveryWorld τ α) (saved : AgentEvent)
    (l : CandidateLoop τ α) : Prop :=
  ∃ v, world.observations saved = .ok v ∧ acceptsLog v = true ∧ l.ruledOut o v.log = none

/-- What a candidate leaves, when the loop goes on, ends with it, or is left by an error. -/
theorem Balanced.tryCandidate (h : Balanced before l) {saved : AgentEvent} {l' : CandidateLoop τ α}
    {step : CandidateStep} (htry : l.tryCandidate o world runId saved = (l', step)) :
    (step = .next ∧ Balanced before l' ∧
        ¬ (Attempts o world saved l ∧ Strands o world runId l)) ∨
      (∃ candidate, step = .restored candidate ∧ Holding before candidate.transaction l' ∧
        ¬ (Attempts o world saved l ∧ Strands o world runId l)) ∨
      ∃ message, step = .threw message ∧ l'.settle.transactions = before.transactions ∧
        (l'.settle.snapshots = before.snapshots ↔
          ¬ (Attempts o world saved l ∧ Strands o world runId l)) := by
  rcases tryCandidate_cases htry with ⟨rfl, ⟨message, rfl⟩, hrefused⟩ | ⟨v, hv, haccepts, hcases⟩
  · refine .inr (.inr ⟨message, rfl, ?_⟩)
    rw [h.settle]
    refine ⟨rfl, fun _ => ?_, fun _ => rfl⟩
    rintro ⟨⟨v, hv, haccepts, -⟩, -⟩
    rw [hrefused v hv] at haccepts
    cases haccepts
  rcases hcases with ⟨failure, hruled, rfl, rfl⟩ | ⟨hruled, hattempt⟩
  · refine .inl ⟨rfl, ⟨h.idle, h.transactions, h.unbased, h.based⟩, ?_⟩
    rintro ⟨⟨v', hv', -, hnone⟩, -⟩
    rw [hv] at hv'
    cases hv'
    rw [hruled] at hnone
    cases hnone
  have hattempts : Attempts o world saved l := ⟨v, hv, haccepts, hruled⟩
  rcases attempt_cases hattempt with
    ⟨w, message, hfailed, rfl, rfl⟩ | ⟨w, tx, tree, hbegun, hreplay⟩
  · obtain ⟨htransactions, hsnapshots⟩ := h.failed hfailed
    have hsettle : (l.pending w l.baseSnapshotId).settle = w := by
      unfold CandidateLoop.settle CandidateLoop.pending
      cases l.baseSnapshotId <;> rfl
    refine .inr (.inr ⟨message, rfl, ?_⟩)
    rw [hsettle, hsnapshots]
    refine ⟨htransactions, not_congr ?_⟩
    exact (and_iff_right hattempts).symm
  · have hnot : ¬ (Attempts o world saved l ∧ Strands o world runId l) := by
      rintro ⟨-, w', message, hfailed, -⟩
      rw [hbegun] at hfailed
      cases hfailed
    have hholds : Holding before tx (l.pending w (some tx.baseSnapshotId)) :=
      h.begun hbegun rfl rfl rfl
    obtain ⟨-, ⟨n, cutoffIndices, -, rfl, hl'⟩ | ⟨d, -, rfl, hl'⟩⟩ := replayCandidate_cases hreplay
    · refine .inr (.inl ⟨_, rfl, ?_, hnot⟩)
      rw [hl']
      exact ⟨hholds.pending, hholds.base, hholds.fresh, hholds.transactions, hholds.freshBase,
        hholds.snapshots⟩
    · refine .inl ⟨rfl, ?_, hnot⟩
      rw [hl']
      obtain ⟨held, hsnapshots⟩ := hholds.snapshots
      refine ⟨rfl, ?_, fun hnone => ?_, fun id hid => ?_⟩
      · simp only [CandidateLoop.reject, Supervised.abortWorkspaceTransaction, hholds.transactions]
        exact filter_append_fresh WorkspaceTransaction.txId hholds.fresh
      · cases hnone
      · cases hid
        exact ⟨hholds.freshBase, held, hsnapshots⟩

/-! ## All candidates -/

/-- The loop comes to these candidates with these variables. -/
inductive Comes (o : AgentWorkspaceRecoveryOptions) (world : RecoveryWorld τ α) (runId : String)
    (candidates : List AgentEvent) (start : CandidateLoop τ α) :
    List AgentEvent → CandidateLoop τ α → Prop where
  | start : Comes o world runId candidates start candidates start
  | next {saved : AgentEvent} {older : List AgentEvent} {l l' : CandidateLoop τ α}
      (h : Comes o world runId candidates start (saved :: older) l)
      (step : l.tryCandidate o world runId saved = (l', .next)) :
      Comes o world runId candidates start older l'

/-- A candidate of the loop is begun in vain once the baseline is there. -/
def StrandsIn (o : AgentWorkspaceRecoveryOptions) (world : RecoveryWorld τ α) (runId : String)
    (candidates : List AgentEvent) (start : CandidateLoop τ α) : Prop :=
  ∃ saved older l, Comes o world runId candidates start (saved :: older) l ∧
    Attempts o world saved l ∧ Strands o world runId l

theorem comes_nil {rest : List AgentEvent} {k : CandidateLoop τ α}
    (h : Comes o world runId [] l rest k) : rest = [] := by
  induction h with
  | start => rfl
  | next _ _ ih => cases ih

theorem strandsIn_cons {saved : AgentEvent} {older : List AgentEvent} :
    StrandsIn o world runId (saved :: older) l ↔
      (Attempts o world saved l ∧ Strands o world runId l) ∨
        ∃ l', l.tryCandidate o world runId saved = (l', .next) ∧
          StrandsIn o world runId older l' := by
  have hcomes : ∀ rest k, Comes o world runId (saved :: older) l rest k →
      (rest = saved :: older ∧ k = l) ∨
        ∃ l', l.tryCandidate o world runId saved = (l', .next) ∧
          Comes o world runId older l' rest k := by
    intro rest k h
    induction h with
    | start => exact .inl ⟨rfl, rfl⟩
    | @next saved' rest k k' hcomes hstep ih =>
      right
      rcases ih with ⟨hrest, rfl⟩ | ⟨l', hfirst, hlater⟩
      · cases hrest
        exact ⟨k', hstep, .start⟩
      · exact ⟨l', hfirst, hlater.next hstep⟩
  have hlater : ∀ l', l.tryCandidate o world runId saved = (l', .next) → ∀ rest k,
      Comes o world runId older l' rest k → Comes o world runId (saved :: older) l rest k := by
    intro l' hfirst rest k h
    induction h with
    | start => exact .next .start hfirst
    | next _ hstep ih => exact .next ih hstep
  constructor
  · rintro ⟨saved', older', k, h, hstrands⟩
    rcases hcomes _ _ h with ⟨heq, rfl⟩ | ⟨l', hfirst, hrest⟩
    · cases heq
      exact .inl hstrands
    · exact .inr ⟨l', hfirst, saved', older', k, hrest, hstrands⟩
  · rintro (hstrands | ⟨l', hfirst, saved', older', k, h, hstrands⟩)
    · exact ⟨saved, older, l, .start, hstrands⟩
    · exact ⟨saved', older', k, hlater l' hfirst _ _ h, hstrands⟩

theorem Balanced.tryAll {candidates : List AgentEvent} (h : Balanced before l)
    {l' : CandidateLoop τ α} {answer : Except String (Option Restored)}
    (hall : l.tryAll o world runId candidates = (l', answer)) :
    (∃ candidate, answer = .ok (some candidate) ∧ Holding before candidate.transaction l' ∧
        ¬ StrandsIn o world runId candidates l) ∨
      ((∀ candidate, answer ≠ .ok (some candidate)) ∧
        l'.settle.transactions = before.transactions ∧
        (l'.settle.snapshots = before.snapshots ↔ ¬ StrandsIn o world runId candidates l)) := by
  induction candidates generalizing l with
  | nil =>
    unfold CandidateLoop.tryAll at hall
    cases hall
    refine .inr ⟨nofun, by rw [h.settle], fun _ => ?_, fun _ => by rw [h.settle]⟩
    rintro ⟨saved, older, k, hcomes, -⟩
    cases comes_nil hcomes
  | cons saved older ih =>
    rw [strandsIn_cons]
    unfold CandidateLoop.tryAll at hall
    cases htry : l.tryCandidate o world runId saved with
    | mk l₁ =>
      rw [htry] at hall
      rcases h.tryCandidate htry with ⟨rfl, hbalanced, hnot⟩ |
        ⟨candidate, rfl, hholds, hnot⟩ | ⟨message, rfl, htransactions, hsnapshots⟩
      · have hsame : (Attempts o world saved l ∧ Strands o world runId l) ∨
            (∃ l', (l₁, CandidateStep.next) = (l', .next) ∧
              StrandsIn o world runId older l') ↔ StrandsIn o world runId older l₁ := by
          constructor
          · rintro (hstrands | ⟨l₂, heq, hlater⟩)
            · exact absurd hstrands hnot
            · cases heq
              exact hlater
          · intro hlater
            exact .inr ⟨l₁, rfl, hlater⟩
        rw [hsame]
        exact ih hbalanced hall
      · cases hall
        refine .inl ⟨candidate, rfl, hholds, ?_⟩
        rintro (hstrands | ⟨l₂, heq, -⟩)
        · exact hnot hstrands
        · cases heq
      · cases hall
        refine .inr ⟨nofun, htransactions, hsnapshots.trans (not_congr ?_)⟩
        constructor
        · exact .inl
        · rintro (hstrands | ⟨l₂, heq, -⟩)
          · exact hstrands
          · cases heq

end Loop

/-! ## Binding -/

/-- What the recovery does with an answer of `prepare`. -/
theorem afterPrepare_cases (recovery : AgentRecovery)
    (answer : Except String (Option AgentRuntime.Prepared)) (s : AgentRuntime) :
    (∃ candidate state s', answer = .ok (some candidate) ∧ s.find recovery.agentId = .ok state ∧
        s.commitRestore state candidate.seq candidate.workspace = .ok s' ∧
        s.afterPrepare recovery answer = .bound s') ∨
      (∃ candidate failure, answer = .ok (some candidate) ∧
        s.afterPrepare recovery answer = .discards failure) ∨
      ((∀ candidate, answer ≠ .ok (some candidate)) ∧
        ∃ s' failure, s.afterPrepare recovery answer = .over s' failure) := by
  unfold AgentRuntime.afterPrepare
  cases answer with
  | error => exact .inr (.inr ⟨nofun, _, _, rfl⟩)
  | ok candidate =>
    cases candidate with
    | none =>
      refine .inr (.inr ⟨nofun, ?_⟩)
      cases s.find recovery.agentId with
      | error => exact ⟨_, _, rfl⟩
      | ok =>
        simp only
        split <;> exact ⟨_, _, rfl⟩
    | some candidate =>
      cases hfind : s.find recovery.agentId with
      | error => exact .inr (.inl ⟨candidate, _, rfl, rfl⟩)
      | ok state =>
        simp only
        split
        · exact .inr (.inl ⟨candidate, _, rfl, rfl⟩)
        · cases hcommit : s.commitRestore state candidate.seq candidate.workspace with
          | error => exact .inr (.inl ⟨candidate, _, rfl, rfl⟩)
          | ok s' => exact .inl ⟨candidate, state, s', rfl, rfl, hcommit, rfl⟩

theorem find_ok {id : String} {s : AgentRuntime} {state : AgentState} (h : s.find id = .ok state) :
    s.log.get id = some state := by
  unfold AgentRuntime.find at h
  cases hget : s.log.get id with
  | none =>
    rw [hget] at h
    cases h
  | some =>
    rw [hget] at h
    cases h
    rfl

/-- The restored agent works in the transaction of the candidate. -/
theorem workspace_of_commitRestore {s s' : AgentRuntime} {id : String} {state : AgentState}
    {seq : Nat} {workspace : AgentWorkspace} (hfind : s.find id = .ok state)
    (h : s.commitRestore state seq (some workspace) = .ok s') :
    (s'.log.get id).bind AgentState.workspace = some workspace := by
  obtain ⟨-, checkpoint, rfl⟩ := AgentRuntime.commitRestore_ok h
  have hid := AgentLog.get_id (find_ok hfind)
  obtain ⟨input, body, hproject⟩ := s.log.project_eq .restored
    (AgentRuntime.restoredState state checkpoint (some workspace)) (some seq)
  have hself := s.log.get_record_self .restored
    (AgentRuntime.restoredState state checkpoint (some workspace)) (some seq)
  rw [hproject] at hself
  have hsame : (AgentRuntime.restoredState state checkpoint (some workspace)).id = id := hid
  rw [hsame] at hself
  simp only [hself]
  rfl

/-! ## The whole recovery -/

/-- Nothing that the recovery opened or captured is left, or the agent works in the one
    transaction that is. -/
structure LeaksNothing (before : Supervised τ) (agentId : String) (e : RecoveryEnd τ) : Prop where
  bound : e.bound = true → ∃ result candidate, e.result = .ok result ∧
    result.restored = some candidate ∧
      e.supervised.transactions = before.transactions ++ [candidate.transaction] ∧
        (e.agents.log.get agentId).bind AgentState.workspace =
          some ⟨candidate.transaction.txId, candidate.transaction.forkRoot⟩
  unbound : e.bound = false → e.supervised.transactions = before.transactions ∧
    e.supervised.snapshots = before.snapshots

/-- The recovery comes to a begin that fails once the baseline is there. -/
def StrandsBaseline [BEq α] (o : AgentWorkspaceRecoveryOptions) (world : RecoveryWorld τ α)
    (agents : AgentRuntime) (w : Supervised τ) : Prop :=
  ∃ agent started, admitRecovery o world agents = .ok (agent, started) ∧
    StrandsIn o world agent.runId (agents.log.checkpoints agent.id).reverse { supervised := w }

theorem id_of_admitRecovery [BEq α] {agents started : AgentRuntime} {agent : AgentState}
    (h : admitRecovery o world agents = .ok (agent, started)) : agent.id = o.agentId := by
  unfold admitRecovery at h
  obtain ⟨-, h⟩ := Lib.except_seq_ok_iff.1 h
  obtain ⟨-, h⟩ := Lib.except_seq_ok_iff.1 h
  cases hget : agents.log.get o.agentId with
  | none =>
    rw [hget] at h
    cases h
  | some =>
    rw [hget] at h
    obtain ⟨runtime, -, hpure⟩ := Lib.except_bind_ok h
    cases hpure
    exact AgentLog.get_id hget

theorem strandsBaseline_iff [BEq α] {agents started : AgentRuntime} {agent : AgentState}
    (h : admitRecovery o world agents = .ok (agent, started)) :
    StrandsBaseline o world agents w ↔
      StrandsIn o world agent.runId (agents.log.checkpoints agent.id).reverse
        { supervised := w } := by
  constructor
  · rintro ⟨agent', started', hgranted, hstrands⟩
    rw [h] at hgranted
    cases hgranted
    exact hstrands
  · intro hstrands
    exact ⟨agent, started, h, hstrands⟩

theorem not_restored {answer : Except String (Option Restored)}
    (h : ∀ candidate, answer ≠ .ok (some candidate)) (result : AgentWorkspaceRecoveryResult)
    (candidate : Restored) (hresult : answer.map l.result = .ok result) :
    result.restored ≠ some candidate := by
  cases answer with
  | error => cases hresult
  | ok =>
    cases hresult
    intro hsome
    exact h candidate (congrArg Except.ok hsome)

theorem not_prepared {answer : Except String AgentWorkspaceRecoveryResult}
    (h : ∀ result candidate, answer = .ok result → result.restored ≠ some candidate)
    (given : AgentRuntime.Prepared) :
    answer.map AgentWorkspaceRecoveryResult.prepared ≠ .ok (some given) := by
  cases answer with
  | error => nofun
  | ok result =>
    intro heq
    obtain ⟨candidate, hcandidate, -⟩ := Option.map_eq_some_iff.1 (Except.ok.inj heq)
    exact h result candidate rfl hcandidate

/-- A prepared candidate is bound, or given back. -/
theorem Holding.settleRecovery {candidate : Restored} (h : Holding before candidate.transaction l)
    (agent : AgentState) (started : AgentRuntime) :
    LeaksNothing before agent.id
      (settleRecovery world agent started l.supervised (.ok (l.result (some candidate)))) := by
  unfold XioFlow.Agents.settleRecovery
  rcases afterPrepare_cases ⟨agent.id, agent, .preparing⟩
      (.ok (l.result (some candidate)).prepared) (world.whilePreparing started) with
    ⟨given, state, s', hgiven, hfind, hcommit, hbound⟩ | ⟨given, failure, -, hdiscards⟩ |
      ⟨habsent, -⟩
  · simp only [Except.map, hbound]
    refine ⟨fun _ => ⟨_, candidate, rfl, rfl, h.transactions, ?_⟩, nofun⟩
    cases hgiven
    exact workspace_of_commitRestore hfind hcommit
  · simp only [Except.map, hdiscards]
    refine ⟨nofun, fun _ => ?_⟩
    simp only [discardPrepared, CandidateLoop.result, h.discard, and_self]
  · exact absurd rfl (habsent _)

variable (world) in
/-- Without a prepared candidate the recovery is over. -/
theorem settleRecovery_unprepared {answer : Except String AgentWorkspaceRecoveryResult}
    (h : ∀ result candidate, answer = .ok result → result.restored ≠ some candidate)
    (agent : AgentState) (started : AgentRuntime) (w : Supervised τ) :
    (settleRecovery world agent started w answer).bound = false ∧
      (settleRecovery world agent started w answer).supervised = w := by
  unfold settleRecovery
  rcases afterPrepare_cases ⟨agent.id, agent, .preparing⟩
      (answer.map AgentWorkspaceRecoveryResult.prepared) (world.whilePreparing started) with
    ⟨given, _, _, hgiven, -⟩ | ⟨given, failure, hgiven, -⟩ | ⟨-, s', failure, hover⟩
  · exact absurd hgiven (not_prepared h given)
  · exact absurd hgiven (not_prepared h given)
  · simp only [hover]
    cases failure <;> exact ⟨rfl, rfl⟩

/-- A recovery leaks nothing, unless a begin fails once the baseline is there. -/
theorem recoverAgentWorkspace_leaksNothing_iff [BEq α] (o : AgentWorkspaceRecoveryOptions)
    (world : RecoveryWorld τ α) (agents : AgentRuntime) (w : Supervised τ) :
    LeaksNothing w o.agentId (recoverAgentWorkspace o world agents w) ↔
      ¬ StrandsBaseline o world agents w := by
  unfold recoverAgentWorkspace
  cases hgranted : admitRecovery o world agents with
  | error =>
    refine ⟨fun _ => ?_, fun _ => ⟨nofun, fun _ => ⟨rfl, rfl⟩⟩⟩
    rintro ⟨agent, started, hadmitted, -⟩
    rw [hgranted] at hadmitted
    cases hadmitted
  | ok admitted =>
    obtain ⟨agent, started⟩ := admitted
    rw [← id_of_admitRecovery hgranted, strandsBaseline_iff hgranted]
    cases hall : CandidateLoop.tryAll o world agent.runId
        (agents.log.checkpoints agent.id).reverse { supervised := w } with
    | mk l =>
      simp only [prepareCandidates_eq hall]
      rcases (balanced_start w).tryAll hall with ⟨candidate, rfl, hholds, hnot⟩ |
        ⟨hnone, htransactions, hsnapshots⟩
      · simp only [Except.map, hholds.settle]
        exact ⟨fun _ => hnot, fun _ => hholds.settleRecovery agent started⟩
      · obtain ⟨hunbound, hsupervised⟩ := settleRecovery_unprepared world
          (not_restored (l := l) hnone) agent started l.settle
        rw [← hsnapshots]
        constructor
        · intro h
          rw [← hsupervised]
          exact (h.unbound hunbound).2
        · intro hpruned
          refine ⟨fun hbound => ?_, fun _ => ?_⟩
          · rw [hunbound] at hbound
            cases hbound
          · rw [hsupervised]
            exact ⟨htransactions, hpruned⟩

/-! ## A begin that fails -/

/-- An agent that was paused and restored to its start has two checkpoints. -/
def restoredRuntime : AgentRuntime :=
  [RuntimeEvent.runChanged "r" true,
    .create { id := "a", runId := "r", input := .null, checkpoint := .null, maxSteps := 3 },
    .pause "a", .restoreCheckpoint "a" 2 none].foldl (fun s event => event.after s)
    (AgentRuntime.opened 1 ⟨10, 10, 10, by decide⟩)

/-- The observation of a log of one entry has changed, and the second fork cannot be made. -/
def secondBeginFails : RecoveryWorld Unit Unit where
  observations _ := .ok {
    log := [{ kind := .observe, call := (), resultHash := some "h" }]
    replay := fun _ _ _ => .ok (.hash "changed") }
  begins attempt := if attempt = 1 then .begun "/fork-1" else .refused "EACCES"
  trees _ := ()

/-- The recovery is left by the failed begin, and the baseline stays. -/
theorem secondBegin_strandsBaseline :
    ¬ LeaksNothing {} "a" (recoverAgentWorkspace { agentId := "a", recoveryId := "rec" }
      secondBeginFails restoredRuntime {}) := by
  intro hleaks
  have hend : (recoverAgentWorkspace { agentId := "a", recoveryId := "rec" } secondBeginFails
      restoredRuntime {}).bound = false ∧
      (recoverAgentWorkspace { agentId := "a", recoveryId := "rec" } secondBeginFails
        restoredRuntime {}).supervised.snapshots = [("rec-1-base", ())] := by
    decide +kernel
  have hclean := (hleaks.unbound hend.1).2
  rw [hend.2] at hclean
  cases hclean

end XioFlow.Agents
