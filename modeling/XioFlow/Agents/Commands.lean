/-
  XioFlow.Agents.Commands

  A quantum owns its commands: it records a checkpoint only when all of them
  have settled well, takes none after it has closed, and the counter of its
  run is the number of commands that have not settled.
-/

import XioFlow.Agents.Execution
import XioFlow.Lib.Transition

namespace XioFlow.Agents

open Lib
open AgentCall

/-! ## The state of one quantum -/

/-- The batch has, or should have, a failure on account of the call. -/
def AgentCall.isBad : AgentCall → Bool
  | closed => false
  | afterFailure _ | refused _ => true
  | accepted opId (.tracked outcome) | accepted opId (.dropped outcome) =>
    (outcome.failure? opId).isSome
  | accepted _ _ => false

/-- The step has settled. -/
def QuantumPhase.isStepping : QuantumPhase → Bool
  | stepping => true
  | _ => false

structure Quantum.Sound (q : Quantum) : Prop where
  context : q.commands.isOpen = q.phase.isStepping
  told : ∀ call ∈ q.commands.calls, call.isBad = true → q.commands.failures ≠ []
  awaited : ∀ returned snapshot, q.phase = .joining returned snapshot →
    ∀ c ∈ q.commands.pending, c ∈ snapshot
  clean : ∀ status checkpoint, q.phase = .checkpointed status checkpoint →
    q.commands.failures = [] ∧ ∀ call ∈ q.commands.calls, call.isPending = false

/-- A checkpointed quantum has no call but those made after it closed and commands that settled
    with a known outcome. -/
def Quantum.Owns (q : Quantum) : Prop :=
  ∀ status checkpoint, q.phase = .checkpointed status checkpoint → ∀ call ∈ q.commands.calls,
    call = .closed ∨ ∃ opId, call = .accepted opId (.dropped (.resolved none))

variable {q : Quantum} {r : RunUsages}

theorem Quantum.Sound.owns (h : q.Sound) : q.Owns := by
  intro status checkpoint hphase call hcall
  obtain ⟨hfailures, hsettled⟩ := h.clean status checkpoint hphase
  have hpending := hsettled call hcall
  have hgood : call.isBad = false := by
    rw [← Bool.not_eq_true]
    exact fun hbad => h.told call hcall hbad hfailures
  cases call with
  | closed => exact .inl rfl
  | afterFailure | refused => cases hgood
  | accepted opId phase =>
    right
    refine ⟨opId, ?_⟩
    cases phase with
    | dropped outcome =>
      cases outcome with
      | rejected => cases hgood
      | resolved reason =>
        cases reason with
        | some => cases hgood
        | none => rfl
    | reserved | submitted | settled | released | tracked => cases hpending

variable {c : Nat} {runId : String}

theorem AgentCommandGroup.mem_pending {g : AgentCommandGroup} :
    c ∈ g.pending ↔ ∃ call, g.calls[c]? = some call ∧ call.isPending = true := by
  unfold pending
  rw [List.mem_filter, List.mem_range, Option.any_eq_true]
  constructor
  · rintro ⟨-, call, hcall, hpending⟩
    exact ⟨call, hcall, hpending⟩
  · rintro ⟨call, hcall, hpending⟩
    exact ⟨(List.getElem?_eq_some_iff.1 hcall).1, call, hcall, hpending⟩

/-! ## Calls that move on -/

/-- A later state of the same call. -/
structure AgentCall.Advances (a b : AgentCall) : Prop where
  bad : b.isBad = true → a.isBad = true
  pending : b.isPending = true → a.isPending = true

/-- Calls that move on one by one leave a quantum sound. -/
theorem Quantum.Sound.onCall (h : q.Sound) {f : AgentCall → AgentCall}
    (hf : ∀ call : AgentCall, call.Advances (f call)) :
    ({ q with commands := { q.commands with calls := q.commands.calls.modify c f } } :
      Quantum).Sound where
  context := h.context
  told call hcall hbad := by
    obtain ⟨i, hi⟩ := List.getElem?_of_mem hcall
    rw [List.getElem?_modify] at hi
    obtain ⟨old, hold, heq⟩ := Option.map_eq_some_iff.1 hi
    refine h.told old (List.mem_of_getElem? hold) ?_
    split at heq
    · exact (hf old).bad (heq ▸ hbad)
    · exact heq ▸ hbad
  awaited returned snapshot hphase i hi := by
    obtain ⟨call, hcall, hpending⟩ := AgentCommandGroup.mem_pending.1 hi
    rw [List.getElem?_modify] at hcall
    obtain ⟨old, hold, heq⟩ := Option.map_eq_some_iff.1 hcall
    refine h.awaited returned snapshot hphase i (AgentCommandGroup.mem_pending.2 ⟨old, hold, ?_⟩)
    split at heq
    · exact (hf old).pending (heq ▸ hpending)
    · exact heq ▸ hpending
  clean status checkpoint hphase := by
    obtain ⟨hfailures, hsettled⟩ := h.clean status checkpoint hphase
    refine ⟨hfailures, fun call hcall => ?_⟩
    obtain ⟨i, hi⟩ := List.getElem?_of_mem hcall
    rw [List.getElem?_modify] at hi
    obtain ⟨old, hold, heq⟩ := Option.map_eq_some_iff.1 hi
    have hquiet := hsettled old (List.mem_of_getElem? hold)
    rw [← Bool.not_eq_true] at hquiet ⊢
    split at heq
    · exact fun hpending => hquiet ((hf old).pending (heq ▸ hpending))
    · exact fun hpending => hquiet (heq ▸ hpending)

theorem AgentCommandGroup.submit_advances (g : AgentCommandGroup) (call : AgentCall) :
    call.Advances (g.submit call) := by
  unfold submit
  split
  · split
    · exact ⟨fun h => h, fun _ => rfl⟩
    · exact ⟨fun h => h, fun _ => rfl⟩
  · exact ⟨id, id⟩

theorem AgentCall.settle_advances (outcome : CommandOutcome) (call : AgentCall) :
    call.Advances (call.settle outcome) := by
  unfold settle
  split
  · exact ⟨fun h => h, fun _ => rfl⟩
  · exact ⟨id, id⟩

theorem AgentCall.release_advances (call : AgentCall) : call.Advances call.release := by
  unfold release
  split
  · exact ⟨fun h => h, fun _ => rfl⟩
  · exact ⟨id, id⟩

theorem AgentCall.drop_advances (call : AgentCall) : call.Advances call.drop := by
  unfold drop
  split
  · exact ⟨fun h => h, fun _ => rfl⟩
  · exact ⟨id, id⟩

/-! ## What each event does to a quantum -/

/-- `executeProcess` adds one call to the batch, and the failure with it. -/
inductive Submitted (g : AgentCommandGroup) : AgentCommandGroup → Prop where
  | turnedAway (h : g.isOpen = false) : Submitted g { g with calls := g.calls ++ [.closed] }
  | failed (h : g.isOpen = true) (failure : String) (rest : List String)
      (hfailures : g.failures = failure :: rest) :
      Submitted g { g with calls := g.calls ++ [.afterFailure failure] }
  | refused (h : g.isOpen = true) (error : String) :
      Submitted g { g with calls := g.calls ++ [.refused error], failures := [error] }
  | accepted (h : g.isOpen = true) (opId : String) :
      Submitted g { g with calls := g.calls ++ [.accepted opId .reserved] }

theorem AgentCommandGroup.executeProcess_submitted (opId : String)
    (reserve : RunUsages → RunUsages × Except String Unit) (usages : RunUsages)
    (g : AgentCommandGroup) : Submitted g (g.executeProcess opId reserve usages).1 := by
  obtain ⟨isOpen, aborted, calls, failures⟩ := g
  cases isOpen with
  | false => exact .turnedAway rfl
  | true =>
    cases failures with
    | cons failure rest => exact .failed rfl failure rest rfl
    | nil =>
      unfold executeProcess
      simp only [Bool.not_true, Bool.false_eq_true, if_false]
      split
      · exact .refused rfl abortReason
      · rcases reserve usages with ⟨usages', error | u⟩
        · exact .refused rfl error
        · exact .accepted rfl opId

theorem Quantum.Sound.submitted (h : q.Sound) {g : AgentCommandGroup}
    (hg : Submitted q.commands g) : ({ q with commands := g } : Quantum).Sound := by
  have hgone : q.commands.isOpen = false → ∀ c ∈ ({ q.commands with
      calls := q.commands.calls ++ [.closed] } : AgentCommandGroup).pending,
      c ∈ q.commands.pending := by
    intro _ c hc
    obtain ⟨call, hcall, hpending⟩ := AgentCommandGroup.mem_pending.1 hc
    refine AgentCommandGroup.mem_pending.2 ⟨call, ?_, hpending⟩
    rcases lt_or_ge c q.commands.calls.length with hlt | hge
    · rwa [List.getElem?_append_left hlt] at hcall
    · rw [List.getElem?_append_right hge] at hcall
      have hmem := List.mem_of_getElem? hcall
      rw [List.mem_singleton.1 hmem] at hpending
      cases hpending
  -- an open context means that the step has not settled
  have hstepping : q.commands.isOpen = true → q.phase = .stepping := by
    intro hopen
    have hphase := h.context.symm.trans hopen
    cases hq : q.phase with
    | stepping => rfl
    | joining | checkpointed | interrupted | unrecorded => rw [hq] at hphase; cases hphase
  cases hg with
  | turnedAway hclosed =>
    refine ⟨h.context, fun call hcall hbad => ?_, fun returned snapshot hphase c hc => ?_,
      fun status checkpoint hphase => ?_⟩
    · rcases List.mem_append.1 hcall with hold | hnew
      · exact h.told call hold hbad
      · rw [List.mem_singleton.1 hnew] at hbad
        cases hbad
    · exact h.awaited returned snapshot hphase c (hgone hclosed c hc)
    · obtain ⟨hfailures, hsettled⟩ := h.clean status checkpoint hphase
      refine ⟨hfailures, fun call hcall => ?_⟩
      rcases List.mem_append.1 hcall with hold | hnew
      · exact hsettled call hold
      · rw [List.mem_singleton.1 hnew]
        rfl
  | failed hopen failure rest hfailures =>
    have hphase := hstepping hopen
    refine ⟨h.context, fun _ _ _ => ?_, fun _ _ hjoining => ?_, fun _ _ hdone => ?_⟩
    · exact hfailures ▸ List.cons_ne_nil failure rest
    · rw [hphase] at hjoining; cases hjoining
    · rw [hphase] at hdone; cases hdone
  | refused hopen error =>
    have hphase := hstepping hopen
    refine ⟨h.context, fun _ _ _ => List.cons_ne_nil error [], fun _ _ hjoining => ?_,
      fun _ _ hdone => ?_⟩
    · rw [hphase] at hjoining; cases hjoining
    · rw [hphase] at hdone; cases hdone
  | accepted hopen opId =>
    have hphase := hstepping hopen
    refine ⟨h.context, fun call hcall hbad => ?_, fun _ _ hjoining => ?_, fun _ _ hdone => ?_⟩
    · rcases List.mem_append.1 hcall with hold | hnew
      · exact h.told call hold hbad
      · rw [List.mem_singleton.1 hnew] at hbad
        cases hbad
    · rw [hphase] at hjoining; cases hjoining
    · rw [hphase] at hdone; cases hdone

theorem Quantum.conclude_not_stepping (q : Quantum) (returned : Except String AgentStepResult) :
    (q.conclude returned).isStepping = false := by
  unfold conclude
  split
  · split
    · rfl
    · split <;> rfl
  · rfl

/-- A checkpoint is recorded only when there is no failure. -/
theorem Quantum.conclude_checkpointed {returned : Except String AgentStepResult} {status : String}
    {checkpoint : Json} (h : q.conclude returned = .checkpointed status checkpoint) :
    q.commands.failures = [] := by
  unfold conclude at h
  split at h
  · rename_i result hnone
    unfold allFailures at hnone
    rw [List.append_eq_nil_iff, List.append_eq_nil_iff] at hnone
    exact hnone.1.2
  · cases h

theorem Quantum.Sound.track (h : q.Sound) {opId : String} {outcome : CommandOutcome}
    (hcall : q.commands.calls[c]? = some (.accepted opId (.released outcome))) :
    ({ q with
      commands := { q.commands with
        calls := q.commands.calls.set c (.accepted opId (.tracked outcome))
        failures := q.commands.failures ++ (outcome.failure? opId).toList } } : Quantum).Sound where
  context := h.context
  told call hmem hbad := by
    rcases List.mem_or_eq_of_mem_set hmem with hold | rfl
    · exact fun hnone => h.told call hold hbad (List.append_eq_nil_iff.1 hnone).1
    · intro hnone
      have hfailure := (List.append_eq_nil_iff.1 hnone).2
      obtain ⟨failure, hsome⟩ := Option.isSome_iff_exists.1 hbad
      rw [hsome] at hfailure
      cases hfailure
  awaited returned snapshot hphase i hi := by
    obtain ⟨call, hget, hpending⟩ := AgentCommandGroup.mem_pending.1 hi
    refine h.awaited returned snapshot hphase i (AgentCommandGroup.mem_pending.2 ?_)
    by_cases heq : c = i
    · subst heq
      exact ⟨_, hcall, rfl⟩
    · rw [List.getElem?_set_ne heq] at hget
      exact ⟨call, hget, hpending⟩
  clean status checkpoint hphase := by
    -- the call has not been dropped yet
    have hquiet := (h.clean status checkpoint hphase).2 _ (List.mem_of_getElem? hcall)
    cases hquiet

theorem Quantum.Sound.finish (h : q.Sound) (returned : Except String AgentStepResult) :
    ({ q with
      commands := { q.commands with isOpen := false }
      phase := .joining returned q.commands.pending } : Quantum).Sound where
  context := rfl
  told := h.told
  awaited returned' snapshot hphase c hc := by
    cases hphase
    exact hc
  clean status checkpoint hphase := nomatch hphase

theorem Quantum.Sound.joined (h : q.Sound) {returned : Except String AgentStepResult}
    {snapshot : List Nat} (hphase : q.phase = .joining returned snapshot)
    (hall : ∀ c ∈ snapshot, c ∉ q.commands.pending) {phase : QuantumPhase}
    (hrecorded : phase = q.conclude returned ∨ phase = .unrecorded) :
    ({ q with phase } : Quantum).Sound where
  context := by
    have hstep : phase.isStepping = false := by
      rcases hrecorded with rfl | rfl
      · exact q.conclude_not_stepping returned
      · rfl
    show q.commands.isOpen = phase.isStepping
    rw [h.context, hphase, hstep]
    rfl
  told := h.told
  awaited returned' snapshot' hjoining := by
    exfalso
    rcases hrecorded with rfl | rfl
    · unfold conclude at hjoining
      simp only at hjoining
      split at hjoining
      · split at hjoining
        · cases hjoining
        · split at hjoining <;> cases hjoining
      · cases hjoining
    · cases hjoining
  clean status checkpoint hdone := by
    rcases hrecorded with rfl | rfl
    · refine ⟨conclude_checkpointed hdone, fun call hcall => ?_⟩
      rw [← Bool.not_eq_true]
      intro hpending
      obtain ⟨c, hc⟩ := List.getElem?_of_mem hcall
      have hmem := AgentCommandGroup.mem_pending.2 ⟨call, hc, hpending⟩
      exact hall c (h.awaited returned snapshot hphase c hmem) hmem
    · cases hdone

/-! ## All quanta -/

theorem forall_mem_modify {α : Type} {P : α → Prop} {l : List α} (h : ∀ a ∈ l, P a) {i : Nat}
    {f : α → α} (hf : ∀ a, P a → P (f a)) : ∀ a ∈ l.modify i f, P a := by
  intro a ha
  obtain ⟨j, hj⟩ := List.getElem?_of_mem ha
  rw [List.getElem?_modify] at hj
  obtain ⟨old, hold, rfl⟩ := Option.map_eq_some_iff.1 hj
  have hP := h old (List.mem_of_getElem? hold)
  split
  · exact hf old hP
  · exact hP

namespace Commands

/-- Every quantum is sound. -/
def Sound (s : Commands) : Prop := ∀ quantum ∈ s.quanta, quantum.Sound

theorem Sound.onQuantum {s : Commands} (h : s.Sound) {q : Nat} {f : Quantum → Quantum}
    (hf : ∀ quantum, quantum.Sound → (f quantum).Sound) : (s.onQuantum q f).Sound :=
  forall_mem_modify h hf

theorem Sound.after {s : Commands} (h : s.Sound) (event : CommandEvent) : (after event s).Sound := by
  cases event with
  | begin =>
    intro quantum hquantum
    rcases List.mem_append.1 hquantum with hold | hnew
    · exact h quantum hold
    · rw [List.mem_singleton.1 hnew]
      exact ⟨rfl, fun _ hcall => (nomatch hcall), fun _ _ hphase => (nomatch hphase),
        fun _ _ hphase => (nomatch hphase)⟩
  | call q opId admits =>
    show (s.call q opId admits).Sound
    unfold call
    cases hquantum : s.quanta[q]? with
    | none => exact h
    | some quantum =>
      intro quantum' hquantum'
      rcases List.mem_or_eq_of_mem_set hquantum' with hold | rfl
      · exact h quantum' hold
      · exact (h quantum (List.mem_of_getElem? hquantum)).submitted
          (quantum.commands.executeProcess_submitted opId _ _)
  | submit =>
    exact h.onQuantum fun quantum hq => hq.onCall quantum.commands.submit_advances
  | settle q c outcome =>
    exact h.onQuantum fun quantum hq => hq.onCall (settle_advances outcome)
  | release q c =>
    show (s.release q c).Sound
    unfold release
    split
    · exact h
    · split
      · exact h.onQuantum fun quantum' hq => hq.onCall release_advances
      · exact h
  | track =>
    refine h.onQuantum fun quantum hq => ?_
    split
    · rename_i opId outcome hcall
      exact hq.track hcall
    · exact hq
  | drop => exact h.onQuantum fun quantum hq => hq.onCall drop_advances
  | abort => exact h.onQuantum fun quantum hq => ⟨hq.context, hq.told, hq.awaited, hq.clean⟩
  | stepSettled q returned =>
    refine h.onQuantum fun quantum hq => ?_
    split
    · exact hq.finish returned
    · exact hq
  | joined q journalAccepts =>
    refine h.onQuantum fun quantum hq => ?_
    split
    · rename_i returned snapshot hphase
      split
      · rename_i hall
        refine hq.joined hphase (fun c hc => by simpa using List.all_eq_true.1 hall c hc) ?_
        cases journalAccepts with
        | true => exact .inl rfl
        | false => exact .inr rfl
      · exact hq
    · exact hq
  | readBudget runId budget =>
    show (s.readBudget runId budget).Sound
    unfold readBudget
    split
    · exact h
    · exact h

end Commands

/-! ## The counter of a run -/

/-- The counter is within the limit, and what it counts was admitted under a limit on record. -/
def RunUsages.Limited (r : RunUsages) : Prop :=
  ∀ runId usage, r.runs runId = some usage →
    usage.pendingCommands ≤ usage.budget.maxPendingCommands ∧
      (0 < usage.pendingCommands → r.budgetedRuns runId = true)

/-- The counter of one run has moved by `n`, and the limits still hold. -/
structure RunUsages.Moved (runId : String) (n : Nat) (r r' : RunUsages) : Prop where
  counter : ∀ id, r'.pendingCommands id = r.pendingCommands id + if id = runId then n else 0
  limited : r.Limited → r'.Limited

theorem RunUsages.Moved.refl (runId : String) (r : RunUsages) : r.Moved runId 0 r :=
  ⟨fun id => by split <;> rfl, fun h => h⟩

theorem RunUsages.Moved.trans {n : Nat} {r₁ r' : RunUsages} (h : r.Moved runId 0 r₁)
    (h' : r₁.Moved runId n r') : r.Moved runId n r' := by
  refine ⟨fun id => ?_, fun hlimited => h'.limited (h.limited hlimited)⟩
  rw [h'.counter, h.counter, ite_self, Nat.add_zero]

/-- A limit is read only for a run without one, which has no command yet. -/
theorem RunUsages.readBudget_moved {budget : AgentRunBudget} {r' : RunUsages}
    (h : r.readBudget runId budget = .ok r') : r.Moved runId 0 r' := by
  unfold readBudget at h
  split at h
  · cases h
  rename_i hfresh
  obtain rfl := Except.ok.inj h
  refine ⟨fun id => ?_, fun hlimited id usage husage => ?_⟩
  · unfold pendingCommands
    simp only [set_runs]
    by_cases hid : id = runId
    · subst hid
      rw [if_pos rfl, if_pos rfl]
      cases r.runs id with
      | none => rfl
      | some => rfl
    · rw [if_neg hid, if_neg hid]
      rfl
  · simp only [set_runs] at husage
    by_cases hid : id = runId
    · subst hid
      rw [if_pos rfl] at husage
      obtain rfl := Option.some.inj husage
      cases hold : r.runs id with
      | none => simp
      | some usage =>
        have hzero : usage.pendingCommands = 0 := by
          by_contra hpositive
          exact hfresh ((hlimited id usage hold).2 (Nat.pos_of_ne_zero hpositive))
        simp [hzero]
    · rw [if_neg hid] at husage
      refine ⟨(hlimited id usage husage).1, fun hpositive => ?_⟩
      simp [(hlimited id usage husage).2 hpositive]

theorem RunUsages.ensureRunBudget_moved (runId : String) (r : RunUsages) :
    r.Moved runId 0 (r.ensureRunBudget runId) := by
  unfold ensureRunBudget
  cases hread : r.readBudget runId r.defaultRunBudget with
  | error => exact Moved.refl runId r
  | ok => exact readBudget_moved hread

theorem RunUsages.ensureRunBudget_budgeted (runId : String) (r : RunUsages) :
    (r.ensureRunBudget runId).budgetedRuns runId = true := by
  unfold ensureRunBudget readBudget
  by_cases hbudgeted : r.budgetedRuns runId = true
  · rw [if_pos hbudgeted]
    exact hbudgeted
  · rw [if_neg hbudgeted]
    simp

/-- The counter of a run that is set to `m`. -/
theorem RunUsages.pendingCommands_set (runId id : String) (usage : AgentRunUsage) (r : RunUsages) :
    (r.set runId usage).pendingCommands id =
      if id = runId then usage.pendingCommands else r.pendingCommands id := by
  unfold pendingCommands
  rw [set_runs]
  by_cases hid : id = runId
  · rw [if_pos hid, if_pos hid]
  · rw [if_neg hid, if_neg hid]

theorem RunUsages.pendingCommands_of_runs {usage : AgentRunUsage} (h : r.runs runId = some usage) :
    r.pendingCommands runId = usage.pendingCommands := by
  unfold pendingCommands
  rw [h]

/-- A reservation takes one slot or none, and never one above the limit. -/
theorem reserveCommand_moved (runId : String) (admits : Except String Unit) (r : RunUsages) :
    ((reserveCommand runId admits r).2 = .ok () ∧
      r.Moved runId 1 (reserveCommand runId admits r).1) ∨
    ∃ error, (reserveCommand runId admits r).2 = .error error ∧
      r.Moved runId 0 (reserveCommand runId admits r).1 := by
  unfold reserveCommand
  cases admits with
  | error error => exact .inr ⟨error, rfl, RunUsages.Moved.refl runId r⟩
  | ok =>
    have hensured := r.ensureRunBudget_moved runId
    simp only
    cases husage : (r.ensureRunBudget runId).runs runId with
    | none => exact .inr ⟨_, rfl, hensured⟩
    | some usage =>
      simp only
      by_cases hfull : usage.budget.maxPendingCommands ≤ usage.pendingCommands
      · rw [if_pos hfull]
        exact .inr ⟨_, rfl, hensured⟩
      · rw [if_neg hfull]
        refine .inl ⟨rfl, hensured.trans ⟨fun id => ?_, fun hlimited id usage' husage' => ?_⟩⟩
        · rw [RunUsages.pendingCommands_set]
          by_cases hid : id = runId
          · subst hid
            rw [if_pos rfl, if_pos rfl, RunUsages.pendingCommands_of_runs husage]
          · rw [if_neg hid, if_neg hid]
            rfl
        · rw [RunUsages.set_runs] at husage'
          by_cases hid : id = runId
          · subst hid
            rw [if_pos rfl] at husage'
            obtain rfl := Option.some.inj husage'
            exact ⟨by simp only; omega, fun _ => r.ensureRunBudget_budgeted id⟩
          · rw [if_neg hid] at husage'
            exact hlimited id usage' husage'

/-! ## Counting commands -/

/-- The commands of the quantum that have not settled. -/
def Quantum.unsettled (q : Quantum) : Nat := q.commands.calls.countP isUnsettled

/-- What a quantum contributes to the commands of a run. -/
def Quantum.unsettledOf (runId : String) (q : Quantum) : Nat :=
  if q.runId = runId then q.unsettled else 0

/-- The accepted commands of a run that have not settled. -/
def Commands.unsettled (runId : String) (s : Commands) : Nat :=
  total (Quantum.unsettledOf runId) s.quanta

theorem modify_eq_set {α : Type} {l : List α} {i : Nat} {a : α} (h : l[i]? = some a)
    (f : α → α) : l.modify i f = l.set i (f a) := by
  refine List.ext_getElem? fun j => ?_
  rw [List.getElem?_modify, List.getElem?_set]
  by_cases hij : i = j
  · subst hij
    rw [if_pos rfl, h]
    simp [(List.getElem?_eq_some_iff.1 h).1]
  · rw [if_neg hij]
    simp [hij]

/-- A slot more or less in a batch, as one of its calls moves on. -/
theorem countP_modify {l : List AgentCall} {call : AgentCall} (h : l[c]? = some call)
    (f : AgentCall → AgentCall) :
    (l.modify c f).countP isUnsettled + call.isUnsettled.toNat =
      l.countP isUnsettled + (f call).isUnsettled.toNat := by
  have hcount : ∀ l : List AgentCall, l.countP isUnsettled =
      total (fun call => call.isUnsettled.toNat) l := by
    intro l
    induction l with
    | nil => rfl
    | cons call l ih =>
      rw [List.countP_cons, ih, total]
      cases call.isUnsettled <;> simp [Nat.add_comm]
  rw [modify_eq_set h, hcount, hcount]
  exact total_set (fun call => call.isUnsettled.toNat) h (f call)

/-- Calls that move on without settling or being accepted take the slots they took. -/
theorem countP_modify_same (l : List AgentCall) (c : Nat) {f : AgentCall → AgentCall}
    (hf : ∀ call, (f call).isUnsettled = call.isUnsettled) :
    (l.modify c f).countP isUnsettled = l.countP isUnsettled := by
  cases hcall : l[c]? with
  | none =>
    have hout : l.modify c f = l := by
      refine List.ext_getElem? fun j => ?_
      rw [List.getElem?_modify]
      by_cases hcj : c = j
      · subst hcj
        rw [hcall]
        rfl
      · simp [hcj]
    rw [hout]
  | some call =>
    have hmoved := countP_modify hcall f
    rw [hf call] at hmoved
    omega

namespace Commands

/-- The counter of every run is the number of its unsettled commands. -/
def Counted (s : Commands) : Prop :=
  ∀ runId, s.usages.pendingCommands runId = s.unsettled runId

variable {q : Nat}

variable {s : Commands}

/-- A quantum that goes on in its run without taking or giving back a slot. -/
theorem unsettled_onQuantum {f : Quantum → Quantum}
    (hf : ∀ quantum, (f quantum).runId = quantum.runId ∧
      (f quantum).unsettled = quantum.unsettled) (runId : String) :
    (s.onQuantum q f).unsettled runId = s.unsettled runId := by
  have hsame : ∀ quantum, (f quantum).unsettledOf runId = quantum.unsettledOf runId := by
    intro quantum
    unfold Quantum.unsettledOf
    rw [(hf quantum).1, (hf quantum).2]
  show total (Quantum.unsettledOf runId) (s.quanta.modify q f) =
    total (Quantum.unsettledOf runId) s.quanta
  cases hquantum : s.quanta[q]? with
  | none =>
    have hlen := List.getElem?_eq_none_iff.1 hquantum
    rw [List.modify_eq_self hlen]
  | some quantum =>
    have hset := total_set (Quantum.unsettledOf runId) hquantum (f quantum)
    rw [hsame quantum] at hset
    rw [modify_eq_set hquantum]
    omega

/-- The batch of one quantum is replaced. -/
theorem unsettled_set (s : Commands) {quantum : Quantum} (hquantum : s.quanta[q]? = some quantum)
    (commands : AgentCommandGroup) (runId : String) :
    total (Quantum.unsettledOf runId) (s.quanta.set q { quantum with commands }) +
        (if runId = quantum.runId then quantum.unsettled else 0) =
      s.unsettled runId +
        if runId = quantum.runId then commands.calls.countP isUnsettled else 0 := by
  have hset := total_set (Quantum.unsettledOf runId) hquantum { quantum with commands }
  unfold Quantum.unsettledOf at hset
  simp only [eq_comm (a := runId)]
  exact hset

/-- A call takes a slot when it is accepted, and none otherwise. -/
theorem executeProcess_moved (opId runId : String) (admits : Except String Unit)
    (usages : RunUsages) (g : AgentCommandGroup) :
    ∃ n, usages.Moved runId n (g.executeProcess opId (reserveCommand runId admits) usages).2 ∧
      (g.executeProcess opId (reserveCommand runId admits) usages).1.calls.countP
          isUnsettled =
        g.calls.countP isUnsettled + n := by
  obtain ⟨isOpen, aborted, calls, failures⟩ := g
  have hturned : ∀ call : AgentCall, call.isUnsettled = false →
      (calls ++ [call]).countP isUnsettled = calls.countP isUnsettled + 0 := by
    intro call hcall
    rw [List.countP_append, List.countP_singleton, hcall]
    rfl
  cases isOpen with
  | false => exact ⟨0, .refl runId usages, hturned _ rfl⟩
  | true =>
    cases failures with
    | cons => exact ⟨0, .refl runId usages, hturned _ rfl⟩
    | nil =>
      unfold AgentCommandGroup.executeProcess
      simp only [Bool.not_true, Bool.false_eq_true, if_false]
      cases aborted with
      | true => exact ⟨0, .refl runId usages, hturned _ rfl⟩
      | false =>
        simp only [Bool.false_eq_true, if_false]
        have hreserved := reserveCommand_moved runId admits usages
        rcases hreserve : reserveCommand runId admits usages with ⟨usages', answer⟩
        rw [hreserve] at hreserved
        rcases hreserved with ⟨hok, hmoved⟩ | ⟨error, herror, hmoved⟩
        · simp only at hok
          subst hok
          refine ⟨1, hmoved, ?_⟩
          simp only
          rw [List.countP_append, List.countP_singleton]
          rfl
        · simp only at herror
          subst herror
          exact ⟨0, hmoved, hturned _ rfl⟩

/-- The counters and their limits. -/
structure Accounted (s : Commands) : Prop where
  counted : s.Counted
  limited : s.usages.Limited

theorem Accounted.onQuantum (h : s.Accounted) {f : Quantum → Quantum}
    (hf : ∀ quantum, (f quantum).runId = quantum.runId ∧
      (f quantum).unsettled = quantum.unsettled) : (s.onQuantum q f).Accounted where
  counted runId := by
    rw [unsettled_onQuantum hf]
    exact h.counted runId
  limited := h.limited

/-- A slot is given back for a command that had one. -/
theorem Accounted.release (h : s.Accounted) (q c : Nat) : (s.release q c).Accounted := by
  unfold Commands.release
  cases hquantum : s.quanta[q]? with
  | none => exact h
  | some quantum =>
    simp only
    split
    · rename_i opId outcome usage hcall husage
      have hmoved := countP_modify hcall AgentCall.release
      have hfewer : quantum.unsettled = (quantum.commands.calls.modify c
          AgentCall.release).countP AgentCall.isUnsettled + 1 := hmoved.symm
      have hcounter := h.counted quantum.runId
      rw [RunUsages.pendingCommands_of_runs husage] at hcounter
      have hset := unsettled_set s hquantum { quantum.commands with
        calls := quantum.commands.calls.modify c AgentCall.release }
      constructor
      · intro runId
        show (s.usages.set quantum.runId _).pendingCommands runId =
          total (Quantum.unsettledOf runId) (s.quanta.modify q _)
        rw [RunUsages.pendingCommands_set, modify_eq_set hquantum]
        have hone := hset runId
        by_cases hrun : runId = quantum.runId
        · subst hrun
          rw [if_pos rfl]
          rw [if_pos rfl, if_pos rfl] at hone
          unfold Quantum.unsettled at hone hfewer
          simp only at hone ⊢
          omega
        · rw [if_neg hrun]
          rw [if_neg hrun, if_neg hrun, Nat.add_zero, Nat.add_zero] at hone
          rw [h.counted runId]
          exact hone.symm
      · intro id usage' husage'
        rw [RunUsages.set_runs] at husage'
        by_cases hid : id = quantum.runId
        · rw [if_pos hid] at husage'
          obtain rfl := Option.some.inj husage'
          have hold := h.limited _ usage husage
          refine ⟨?_, fun hpositive => ?_⟩
          · show usage.pendingCommands - 1 ≤ usage.budget.maxPendingCommands
            omega
          · rw [hid]
            exact hold.2 (by simp only at hpositive; omega)
        · rw [if_neg hid] at husage'
          exact h.limited id usage' husage'
    · exact h

theorem unsettled_modify {q : Quantum} {c : Nat} {f : AgentCall → AgentCall}
    (hf : ∀ call, (f call).isUnsettled = call.isUnsettled) :
    ({ q with commands := { q.commands with calls := q.commands.calls.modify c f } } :
      Quantum).unsettled = q.unsettled :=
  countP_modify_same _ _ hf

theorem isUnsettled_submit (g : AgentCommandGroup) (call : AgentCall) :
    (g.submit call).isUnsettled = call.isUnsettled := by
  unfold AgentCommandGroup.submit
  split
  · split <;> rfl
  · rfl

theorem isUnsettled_settle (outcome : CommandOutcome) (call : AgentCall) :
    (call.settle outcome).isUnsettled = call.isUnsettled := by
  unfold settle
  split <;> rfl

theorem isUnsettled_drop (call : AgentCall) : call.drop.isUnsettled = call.isUnsettled := by
  unfold drop
  split <;> rfl

theorem Accounted.after (h : s.Accounted) (event : CommandEvent) : (after event s).Accounted := by
  cases event with
  | begin agentId runId =>
    refine ⟨fun id => ?_, h.limited⟩
    show s.usages.pendingCommands id =
      total (Quantum.unsettledOf id) (s.quanta ++ [({ agentId, runId } : Quantum)])
    have hnone : Quantum.unsettledOf id { agentId, runId } = 0 := by
      unfold Quantum.unsettledOf
      split <;> rfl
    rw [total_append, hnone]
    exact h.counted id
  | call q opId admits =>
    show (s.call q opId admits).Accounted
    unfold call
    cases hquantum : s.quanta[q]? with
    | none => exact h
    | some quantum =>
      obtain ⟨n, hmoved, hcount⟩ :=
        executeProcess_moved opId quantum.runId admits s.usages quantum.commands
      refine ⟨fun runId => ?_, hmoved.limited h.limited⟩
      have hset := unsettled_set s hquantum (quantum.commands.executeProcess opId
        (reserveCommand quantum.runId admits) s.usages).1 runId
      show RunUsages.pendingCommands _ runId = total _ (s.quanta.set q _)
      rw [hmoved.counter, h.counted]
      unfold Quantum.unsettled at hset
      rw [hcount] at hset
      split at hset
      · rw [if_pos (by assumption)]
        omega
      · rw [if_neg (by assumption)]
        omega
  | submit =>
    exact h.onQuantum fun quantum => ⟨rfl, unsettled_modify (isUnsettled_submit _)⟩
  | settle q c outcome =>
    exact h.onQuantum fun quantum => ⟨rfl, unsettled_modify (isUnsettled_settle outcome)⟩
  | release q c => exact h.release q c
  | track =>
    refine h.onQuantum fun quantum => ?_
    split
    · rename_i opId outcome hcall
      refine ⟨rfl, ?_⟩
      have hmoved := countP_modify hcall fun _ => .accepted opId (.tracked outcome)
      rw [modify_eq_set hcall] at hmoved
      exact hmoved
    · exact ⟨rfl, rfl⟩
  | drop => exact h.onQuantum fun quantum => ⟨rfl, unsettled_modify isUnsettled_drop⟩
  | abort => exact h.onQuantum fun quantum => ⟨rfl, rfl⟩
  | stepSettled =>
    refine h.onQuantum fun quantum => ?_
    split
    · exact ⟨rfl, rfl⟩
    · exact ⟨rfl, rfl⟩
  | joined =>
    refine h.onQuantum fun quantum => ?_
    split
    · split
      · exact ⟨rfl, rfl⟩
      · exact ⟨rfl, rfl⟩
    · exact ⟨rfl, rfl⟩
  | readBudget runId budget =>
    show (s.readBudget runId budget).Accounted
    unfold readBudget
    split
    · rename_i usages hread
      have hmoved := RunUsages.readBudget_moved hread
      refine ⟨fun id => ?_, hmoved.limited h.limited⟩
      show usages.pendingCommands id = s.unsettled id
      rw [hmoved.counter, ite_self]
      exact h.counted id
    · exact h

end Commands

/-! ## Every run -/

theorem Commands.accounted_opened (defaultRunBudget : AgentRunBudget)
    (budgets : String → Option AgentRunBudget) :
    (Commands.opened defaultRunBudget budgets).Accounted := by
  constructor
  · intro runId
    show RunUsages.pendingCommands _ runId = 0
    unfold RunUsages.pendingCommands
    rw [show (Commands.opened defaultRunBudget budgets).usages.runs runId =
      (budgets runId).map fun budget => { budget } from rfl]
    cases budgets runId with
    | none => rfl
    | some => rfl
  · intro runId usage husage
    obtain ⟨budget, -, rfl⟩ := Option.map_eq_some_iff.1 husage
    exact ⟨Nat.zero_le _, fun hpositive => absurd hpositive (Nat.lt_irrefl 0)⟩

/-- A call in a context that has closed is turned away: the batch takes no command and the run no
    slot. -/
theorem Commands.call_closed {s : Commands} {q : Nat} {quantum : Quantum}
    (hquantum : s.quanta[q]? = some quantum) (hsound : quantum.Sound)
    (hsettled : quantum.phase.isStepping = false) (opId : String) (admits : Except String Unit) :
    after (.call q opId admits) s = { s with
      quanta := s.quanta.set q { quantum with
        commands := { quantum.commands with calls := quantum.commands.calls ++ [.closed] } } } := by
  have hclosed : quantum.commands.isOpen = false := hsound.context.trans hsettled
  have hturned : quantum.commands.executeProcess opId (reserveCommand quantum.runId admits)
      s.usages = ({ quantum.commands with calls := quantum.commands.calls ++ [.closed] },
        s.usages) := by
    unfold AgentCommandGroup.executeProcess
    rw [if_pos (by rw [hclosed]; rfl)]
  show s.call q opId admits = _
  unfold call
  rw [hquantum]
  simp only [hturned]

/-- After any run of any adapters: a quantum has recorded a checkpoint only when all its commands
    had settled with a known outcome, a context whose step has settled turns every call away, and
    the counter of a run is the number of its unsettled commands, within its limit. -/
theorem quantum_ownsCommands (defaultRunBudget : AgentRunBudget)
    (budgets : String → Option AgentRunBudget) (events : List CommandEvent) :
    let s := afterAll Commands.after (Commands.opened defaultRunBudget budgets) events
    (∀ quantum ∈ s.quanta, quantum.Owns) ∧
    (∀ q quantum, s.quanta[q]? = some quantum → quantum.phase.isStepping = false →
      ∀ opId admits, Commands.after (.call q opId admits) s = { s with
        quanta := s.quanta.set q { quantum with
          commands := { quantum.commands with
            calls := quantum.commands.calls ++ [.closed] } } }) ∧
    ∀ runId, s.usages.pendingCommands runId = s.unsettled runId ∧
      ∀ usage, s.usages.runs runId = some usage →
        usage.pendingCommands ≤ usage.budget.maxPendingCommands := by
  intro s
  have hsound : s.Sound := afterAll_invariant (fun s event h => h.after event)
    (fun quantum hquantum => nomatch hquantum) events
  have haccounted : s.Accounted := afterAll_invariant (fun s event h => h.after event)
    (Commands.accounted_opened defaultRunBudget budgets) events
  refine ⟨fun quantum hquantum => (hsound quantum hquantum).owns, ?_, fun runId => ?_⟩
  · intro q quantum hquantum hsettled opId admits
    exact Commands.call_closed hquantum (hsound quantum (List.mem_of_getElem? hquantum)) hsettled
      opId admits
  · exact ⟨haccounted.counted runId, fun usage husage => (haccounted.limited runId usage husage).1⟩

/-- A quantum with one command that it awaits records its checkpoint. -/
example : (afterAll Commands.after (Commands.opened DEFAULT_AGENT_RUN_BUDGET fun _ => none)
    [.begin "a" "r", .call 0 "o" (.ok ()), .submit 0 0, .settle 0 0 (.resolved none),
      .release 0 0, .track 0 0, .drop 0 0, .stepSettled 0 (.ok ⟨"completed", .null⟩),
      .joined 0 true]).quanta.map Quantum.phase = [.checkpointed "completed" .null] := rfl

end XioFlow.Agents
