/-
  XioFlow.Pipeline.Progress

  Every run settles: as long as one has not, something other than a launch or
  an abort can happen, and without launches only finitely much can.

  No cycle of waits is possible: a join waits for a promise, a promise for
  resources, resources for the commit queue, and the commit queue for an
  executor or a checker.
-/

import Mathlib
import XioFlow.Lib.Transition
import XioFlow.Pipeline.History

namespace XioFlow.Pipeline

open Lib

/-! ## Something can happen -/

/-- The steps of the runs that are under way. -/
def Label.internal : Label → Bool
  | launch .. | abort _ => false
  | _ => true

def Label.launches : Label → Bool
  | launch .. => true
  | _ => false

def Enabled (host : PipelineHost) (s : State) : Prop :=
  ∃ l s', l.internal = true ∧ Step host s l s'

section Enabled

variable {host : PipelineHost} {s : State}

variable {t : TaskId}

/-- The body of a task has begun: an executor or a checker answers, the head of the commit queue
    leaves it, or the resources are given back. -/
theorem enabled_of_running (hc : Coordinated host s) (hrunning : (s.phase t).running = true) :
    Enabled host s := by
  have hbegun : s.phase t ≠ .idle :=
    Phase.ne_idle_of_own (Phase.own_of_inside (Phase.inside_of_running hrunning))
  obtain ⟨instruction, htask⟩ := hc.task t hbegun
  obtain ⟨run, hrun, hby⟩ := Option.bind_eq_some_iff.1 htask
  cases hphase : s.phase t with
  | idle => exact absurd hphase hbegun
  | joined | waiting | granted | queued | resolved =>
    rw [hphase] at hrunning
    cases hrunning
  | checking index =>
    exact ⟨.answer t (.ok .valid), _, rfl,
      .answer s t run instruction index (.ok .valid) hphase hrun hby⟩
  | executing =>
    exact ⟨.settle t (.error ""), _, rfl,
      .settle s t run instruction (.error "") hphase hrun hby⟩
  | returned result =>
    by_cases hqueue : t ∈ s.commitQueue
    · have hnot : s.phase t ≠ .queued := by
        rw [hphase]
        exact Phase.noConfusion
      have hhead := hc.head_of_running hnot hqueue
      obtain ⟨rest, hrest⟩ := List.head?_eq_some_iff.1 hhead
      exact ⟨.leaveQueue t, _, rfl, .leaveQueue s t result rest hphase hrest⟩
    · exact ⟨.release t, _, rfl, .release s t result hphase hqueue⟩

/-- A task holds its resources: it goes on, or the head of the commit queue does. -/
theorem enabled_of_inside (hc : Coordinated host s) (hinside : (s.phase t).inside = true) :
    Enabled host s := by
  obtain ⟨instruction, htask⟩ := hc.task t (Phase.ne_idle_of_own (Phase.own_of_inside hinside))
  obtain ⟨run, hrun, hby⟩ := Option.bind_eq_some_iff.1 htask
  by_cases hgranted : s.phase t = .granted
  · cases hcommits : instruction.op.commits with
    | true => exact ⟨.resume t, _, rfl, .enqueue s t instruction hgranted htask hcommits⟩
    | false => exact ⟨.resume t, _, rfl, .resume s t run instruction hgranted hrun hby hcommits⟩
  by_cases hqueued : s.phase t = .queued
  · have hmem := hc.queued t hqueued
    obtain ⟨head, rest, hqueue⟩ := List.exists_cons_of_ne_nil (List.ne_nil_of_mem hmem)
    have hhead : head ∈ s.commitQueue := by rw [hqueue]; exact List.mem_cons_self
    rcases hc.queue head hhead with hwaits | ⟨-, hrunning⟩
    · obtain ⟨first, hfirst⟩ := hc.task head (by rw [hwaits]; exact Phase.noConfusion)
      obtain ⟨run', hrun', hby'⟩ := Option.bind_eq_some_iff.1 hfirst
      exact ⟨.turn head, _, rfl,
        .turn s head run' first hwaits (by rw [hqueue]; rfl) hrun' hby'⟩
    · exact enabled_of_running hc hrunning
  · refine enabled_of_running hc (t := t) ?_
    cases hphase : s.phase t with
    | granted => exact absurd hphase hgranted
    | queued => exact absurd hphase hqueued
    | checking => rfl
    | executing => rfl
    | returned => rfl
    | idle | joined | waiting | resolved =>
      rw [hphase] at hinside
      cases hinside

/-- A promise that is not settled is on its way. -/
theorem enabled_of_own (hc : Coordinated host s) (hown : (s.phase t).own = true)
    (hnot : ∀ result, s.phase t ≠ .resolved result) : Enabled host s := by
  cases hphase : s.phase t with
  | idle | joined =>
    rw [hphase] at hown
    cases hown
  | resolved result => exact absurd hphase (hnot result)
  | waiting =>
    -- whoever holds a resource it waits for can go on
    obtain ⟨resource, hcost, hheld⟩ := hc.locks.blocked t ((hc.waiting t).2 hphase)
    obtain ⟨holder, hinside, -⟩ := (hc.locks.exclusive.held_iff resource).1 hheld
    exact enabled_of_inside hc hinside
  | granted | queued | checking | executing | returned =>
    exact enabled_of_inside hc (t := t) (by rw [hphase]; rfl)

/-- What has begun and is not completed is on its way. -/
theorem enabled_of_begun (hc : Coordinated host s) (hbegun : s.phase t ≠ .idle)
    (hnone : s.completed t = none) : Enabled host s := by
  by_cases hresolved : ∃ result, s.phase t = .resolved result
  · obtain ⟨result, hphase⟩ := hresolved
    exact ⟨.deliver t, _, rfl, .deliver s t result hphase hnone⟩
  by_cases hjoined : ∃ owner, s.phase t = .joined owner
  · obtain ⟨owner, hphase⟩ := hjoined
    by_cases hsettled : ∃ result, s.phase owner = .resolved result
    · obtain ⟨result, howner⟩ := hsettled
      exact ⟨.deliver t, _, rfl, .deliverJoined s t owner result hphase howner hnone⟩
    · exact enabled_of_own hc (hc.joins t owner hphase) fun result heq => hsettled ⟨result, heq⟩
  · refine enabled_of_own hc (t := t) ?_ fun result heq => hresolved ⟨result, heq⟩
    cases hphase : s.phase t with
    | idle => exact absurd hphase hbegun
    | joined owner => exact absurd ⟨owner, hphase⟩ hjoined
    | waiting | granted | queued | checking | executing | returned | resolved => rfl

/-- As long as a run has not settled, it or something it waits for can go on. -/
theorem Invariant.enabled (h : Invariant host s) {r : RunId} {run : Run}
    (hrun : s.runs[r]? = some run) (hnot : ∀ result, run.loop ≠ .settled result) :
    Enabled host s := by
  have hr := h.schedules.runs r run hrun
  cases hloop : run.loop with
  | settled result => exact absurd hloop (hnot result)
  | ready =>
    by_cases hmore : run.pending ≠ [] ∨ run.active ≠ []
    · cases haborted : run.aborted with
      | true => exact ⟨.iterate r, _, rfl, .cancel s r run hrun hloop hmore haborted⟩
      | false => exact ⟨.iterate r, _, rfl, .iterate s r run hrun hloop hmore haborted⟩
    · rw [not_or, not_not, not_not] at hmore
      exact ⟨.iterate r, _, rfl, .finish s r run hrun hloop hmore.1 hmore.2⟩
  | racing =>
    obtain ⟨id, hid⟩ := List.exists_mem_of_ne_nil _ (hr.racing hloop)
    by_cases hdone : s.completed ⟨r, id⟩ = none
    · exact enabled_of_begun h.coordinated (hr.active id hid) hdone
    · exact ⟨.wake r, _, rfl, .wake s r run id hrun hloop hid hdone⟩
  | scanning rest progressed =>
    cases rest with
    | nil =>
      by_cases hactive : run.active = []
      · by_cases hprogress : run.pending = [] ∨ progressed = true
        · exact ⟨.scanned r, _, rfl,
            .again s r run progressed hrun hloop hactive hprogress⟩
        · rw [not_or, Bool.not_eq_true] at hprogress
          obtain ⟨hpending, rfl⟩ := hprogress
          exact ⟨.scanned r, _, rfl, .stuck s r run hrun hloop hactive hpending⟩
      · exact ⟨.scanned r, _, rfl, .race s r run progressed hrun hloop hactive⟩
    | cons id rest =>
      by_cases hroom : run.active.length < run.limit
      · obtain ⟨instruction, hby⟩ :=
          (hr.pending id ((hr.scanning _ _ hloop).2 id List.mem_cons_self)).1
        by_cases hready : ∀ d ∈ instruction.dependsOn, s.completed ⟨r, .text d⟩ ≠ none
        · cases hfailed : failedDependency s r instruction with
          | some d =>
            exact ⟨.scan r, _, rfl, .skip s r run id rest progressed instruction d hrun hloop
              hroom hby hready hfailed⟩
          | none =>
            cases hflight : s.inFlight (joinKey host run.program instruction) with
            | none =>
              exact ⟨.scan r, _, rfl, .own s r run id rest progressed instruction hrun
                hloop hroom hby hready hfailed hflight⟩
            | some entry =>
              obtain ⟨fingerprint, owner⟩ := entry
              by_cases hsame :
                  fingerprint = instructionFingerprint host run.program instruction
              · rw [hsame] at hflight
                exact ⟨.scan r, _, rfl, .join s r run id rest progressed instruction owner
                  hrun hloop hroom hby hready hfailed hflight⟩
              · exact ⟨.scan r, _, rfl, .conflict s r run id rest progressed instruction
                  fingerprint owner hrun hloop hroom hby hready hfailed hflight hsame⟩
        · have hblocked : ∃ d ∈ instruction.dependsOn, s.completed ⟨r, .text d⟩ = none := by
            by_contra hall
            exact hready fun d hd hnone => hall ⟨d, hd, hnone⟩
          exact ⟨.scan r, _, rfl, .blocked s r run id rest progressed instruction hrun hloop
            hroom hby hblocked⟩
      · exact ⟨.scan r, _, rfl, .full s r run id rest progressed hrun hloop
          (Nat.not_lt.1 hroom)⟩

end Enabled

/-! ## What is left to do -/

/-- Steps that a task with `n` preconditions may still take, with room for what the scheduling
    loop does about it. -/
def phaseCost (n : Nat) : Phase → Nat
  | .idle => n + 12
  | .joined _ => 0
  | .waiting => n + 9
  | .granted => n + 8
  | .queued => n + 6
  | .checking index => n - index + 4
  | .executing => 4
  | .returned _ => 3
  | .resolved _ => 2

def State.key? (host : PipelineHost) (s : State) (t : TaskId) : Option String :=
  (s.runs[t.run]?).bind fun run => (byId run.program t.id).map (joinKey host run.program)

/-- The key of a task has an entry of this task. -/
def State.flying (host : PipelineHost) (s : State) (t : TaskId) : Prop :=
  ∃ key fingerprint, s.key? host t = some key ∧ s.inFlight key = some (fingerprint, t)

open Classical in
/-- One where something is still to be done. -/
noncomputable def todo (p : Prop) : Nat := if p then 1 else 0

variable {p : Prop}

theorem todo_le {q : Prop} (h : p → q) : todo p ≤ todo q := by
  unfold todo
  by_cases hp : p
  · rw [if_pos hp, if_pos (h hp)]
  · rw [if_neg hp]
    exact Nat.zero_le _

theorem todo_le_one (p : Prop) : todo p ≤ 1 := by
  unfold todo
  split <;> omega

theorem todo_pos (h : p) : todo p = 1 := if_pos h

theorem todo_neg (h : ¬ p) : todo p = 0 := if_neg h

def State.conditions (s : State) (t : TaskId) : Nat :=
  match s.task? t with
  | some instruction => instruction.precondition.length
  | none => 0

noncomputable def State.taskCost (host : PipelineHost) (s : State) (t : TaskId) : Nat :=
  phaseCost (s.conditions t) (s.phase t) + todo (s.completed t = none) +
    todo (t ∈ s.commitQueue) + todo (s.flying host t)

def Run.size (run : Run) : Nat := run.program.instructions.length

/-- Steps that the loop of a run may still take without the help of its tasks. -/
def Run.loopCost (run : Run) : Nat :=
  match run.loop with
  | .ready => if run.pending = [] ∧ run.active = [] then 1 else run.pending.length + 3
  | .scanning rest progressed =>
    rest.length + 2 + if progressed then run.pending.length + 4 else 0
  | .racing => 0
  | .settled _ => 0

noncomputable def State.workOf (host : PipelineHost) (s : State) (r : RunId) (run : Run) : Nat :=
  todo (run.aborted = false) + run.active.length +
    ((instructionIds run.program).map fun id => s.taskCost host ⟨r, id⟩).sum

noncomputable def State.runCost (host : PipelineHost) (s : State) (r : RunId) : Nat :=
  match s.runs[r]? with
  | some run => (2 * run.size + 7) * s.workOf host r run + run.loopCost
  | none => 0

noncomputable def State.remaining (host : PipelineHost) (s : State) : Nat :=
  ((List.range s.runs.length).map (s.runCost host)).sum

section Remaining

variable {host : PipelineHost} {s s' : State}

variable {r : RunId} {run' : Run} {k : Nat} {instruction : Instruction} {run : Run}

theorem runCost_eq (hrun : s.runs[r]? = some run) :
    s.runCost host r = (2 * run.size + 7) * s.workOf host r run + run.loopCost := by
  unfold State.runCost
  rw [hrun]

/-- The loop's own steps do not outweigh one of a task. -/
theorem Scheduled.loopCost_lt (h : Scheduled s r run) :
    run.loopCost < 2 * run.size + 7 := by
  have hpending : run.pending.length ≤ run.size := by
    have hsub : run.pending ⊆ instructionIds run.program := by
      intro id hid
      obtain ⟨instruction, hby⟩ := (h.pending id hid).1
      obtain ⟨hmem, rfl⟩ := byId_mem hby
      exact List.mem_map.2 ⟨instruction, hmem, rfl⟩
    have hle := (h.pendingNodup.subperm hsub).length_le
    unfold instructionIds at hle
    rwa [List.length_map] at hle
  unfold Run.loopCost
  split
  · split <;> omega
  · rename_i rest progressed hloop
    obtain ⟨hnodup, hsub⟩ := h.scanning _ _ hloop
    have hrest : rest.length ≤ run.pending.length := (hnodup.subperm hsub).length_le
    split <;> omega
  · omega
  · omega

/-- The runs keep their programs, and no run is added. -/
def SamePrograms (s s' : State) : Prop :=
  s'.runs.map Run.program = s.runs.map Run.program

theorem map_of_set {α : Type} {f : Run → α} (hrun : s.runs[r]? = some run)
    (hruns : s'.runs = s.runs.set r run') (hf : f run' = f run) :
    s'.runs.map f = s.runs.map f := by
  refine List.ext_getElem? fun r' => ?_
  have hget : s'.runs[r']? = if r' = r then some run' else s.runs[r']? := by
    rw [hruns]
    exact State.getElem?_setRun hrun
  rw [List.getElem?_map, List.getElem?_map, hget]
  split
  · rename_i heq
    rw [heq, hrun, Option.map_some, Option.map_some, hf]
  · rfl

theorem samePrograms_of_set (hrun : s.runs[r]? = some run)
    (hruns : s'.runs = s.runs.set r run') (hprogram : run'.program = run.program) :
    SamePrograms s s' := map_of_set hrun hruns hprogram

theorem samePrograms_of_runs (h : s'.runs = s.runs) : SamePrograms s s' := by
  unfold SamePrograms
  rw [h]

theorem SamePrograms.program (h : SamePrograms s s') (r : RunId) :
    (s'.runs[r]?).map Run.program = (s.runs[r]?).map Run.program := by
  rw [← List.getElem?_map, ← List.getElem?_map, h]

/-- What depends on the program of a run only. -/
theorem SamePrograms.bind {α : Type} (h : SamePrograms s s') (r : RunId)
    (f : Program → Option α) :
    ((s'.runs[r]?).bind fun run => f run.program) = (s.runs[r]?).bind fun run => f run.program := by
  have hprogram := h.program r
  cases hrun : s.runs[r]? with
  | none =>
    rw [hrun, Option.map_none, Option.map_eq_none_iff] at hprogram
    rw [hprogram]
  | some =>
    rw [hrun] at hprogram
    obtain ⟨run', hrun', heq⟩ := Option.map_eq_some_iff.1 hprogram
    rw [hrun', Option.bind_some, Option.bind_some, heq]

theorem SamePrograms.conditions (h : SamePrograms s s') (t : TaskId) :
    s'.conditions t = s.conditions t := by
  have htask : s'.task? t = s.task? t := h.bind t.run fun program => byId program t.id
  unfold State.conditions
  rw [htask]

theorem SamePrograms.key? (h : SamePrograms s s') (t : TaskId) :
    s'.key? host t = s.key? host t :=
  h.bind t.run fun program => (byId program t.id).map (joinKey host program)

variable {t : TaskId} {result : InstructionResult} {l : Label}

/-- Only its phase may give the task more to do. -/
structure NothingAdded (s s' : State) (t : TaskId) : Prop where
  programs : SamePrograms s s'
  completed : s'.completed t = none → s.completed t = none
  queue : t ∈ s'.commitQueue → t ∈ s.commitQueue
  flight : ∀ key fingerprint, s'.inFlight key = some (fingerprint, t) →
    s.inFlight key = some (fingerprint, t)

/-- What the tasks of all runs share. -/
def State.shared (s : State) :
    (TaskId → Option InstructionResult) × List TaskId × (String → Option (String × TaskId)) :=
  (s.completed, s.commitQueue, s.inFlight)

theorem nothingAdded_of_shared (h : SamePrograms s s') (hshared : s'.shared = s.shared)
    (t : TaskId) : NothingAdded s s' t := by
  simp only [State.shared, Prod.mk.injEq] at hshared
  obtain ⟨hcompleted, hqueue, hflight⟩ := hshared
  exact ⟨h, fun hnone => hcompleted ▸ hnone, fun hmem => hqueue ▸ hmem,
    fun _ _ hentry => hflight ▸ hentry⟩

theorem NothingAdded.flying (h : NothingAdded s s' t) (hflying : s'.flying host t) :
    s.flying host t := by
  obtain ⟨key, fingerprint, hkey, hentry⟩ := hflying
  exact ⟨key, fingerprint, (h.programs.key? t).symm.trans hkey, h.flight key fingerprint hentry⟩

theorem NothingAdded.taskCost (h : NothingAdded s s' t) (host : PipelineHost) :
    s'.taskCost host t + phaseCost (s.conditions t) (s.phase t) ≤
      s.taskCost host t + phaseCost (s.conditions t) (s'.phase t) := by
  have h₁ := todo_le h.completed
  have h₂ := todo_le h.queue
  have h₃ := todo_le (h.flying : s'.flying host t → _)
  unfold State.taskCost
  rw [h.programs.conditions]
  omega

theorem taskCost_le (h : NothingAdded s s' t)
    (hphase : phaseCost (s.conditions t) (s'.phase t) ≤ phaseCost (s.conditions t) (s.phase t)) :
    s'.taskCost host t ≤ s.taskCost host t := by
  have hcost := h.taskCost host
  omega

theorem taskCost_same (h : ∀ t, NothingAdded s s' t) (hphase : s'.phase = s.phase) (t : TaskId) :
    s'.taskCost host t ≤ s.taskCost host t := taskCost_le (h t) (by rw [hphase])

theorem sum_map_lt {α : Type} {f g : α → Nat} {l : List α} {a : α} (hle : ∀ b ∈ l, f b ≤ g b)
    (ha : a ∈ l) (hlt : f a + k < g a) : (l.map f).sum + k < (l.map g).sum := by
  induction l with
  | nil => cases ha
  | cons b l ih =>
    have hhead : f b ≤ g b := hle b List.mem_cons_self
    have htail : (l.map f).sum ≤ (l.map g).sum :=
      List.sum_le_sum fun c hc => hle c (List.mem_cons_of_mem _ hc)
    rw [List.map_cons, List.map_cons, List.sum_cons, List.sum_cons]
    rcases List.mem_cons.1 ha with rfl | ha
    · omega
    · have hrest := ih (fun c hc => hle c (List.mem_cons_of_mem _ hc)) ha
      omega

theorem workOf_le (hprogram : run'.program = run.program)
    (haborted : run.aborted = true → run'.aborted = true)
    (hactive : run'.active.length ≤ run.active.length)
    (hle : ∀ id, s'.taskCost host ⟨r, id⟩ ≤ s.taskCost host ⟨r, id⟩) :
    s'.workOf host r run' ≤ s.workOf host r run := by
  have hsum : ((instructionIds run.program).map fun id => s'.taskCost host ⟨r, id⟩).sum ≤
      ((instructionIds run.program).map fun id => s.taskCost host ⟨r, id⟩).sum :=
    List.sum_le_sum fun id _ => hle id
  have htodo : todo (run'.aborted = false) ≤ todo (run.aborted = false) := by
    refine todo_le fun hfalse => ?_
    cases hrun : run.aborted with
    | false => rfl
    | true =>
      rw [haborted hrun] at hfalse
      cases hfalse
  unfold State.workOf
  rw [hprogram]
  omega

variable {id : InstructionId}

/-- One task of the run has more than `k` less to do, and the run got `k` more active ones. -/
theorem workOf_lt (hprogram : run'.program = run.program)
    (haborted : run'.aborted = run.aborted) (hactive : run'.active.length ≤ run.active.length + k)
    (hle : ∀ id, s'.taskCost host ⟨r, id⟩ ≤ s.taskCost host ⟨r, id⟩)
    (hid : id ∈ instructionIds run.program)
    (hlt : s'.taskCost host ⟨r, id⟩ + k < s.taskCost host ⟨r, id⟩) :
    s'.workOf host r run' < s.workOf host r run := by
  have hsum := sum_map_lt (f := fun id => s'.taskCost host ⟨r, id⟩)
    (g := fun id => s.taskCost host ⟨r, id⟩) (fun b _ => hle b) hid hlt
  unfold State.workOf
  rw [hprogram, haborted]
  omega

/-- A run has less to do, and the others no more. -/
theorem remaining_lt (run' : Run) (hrun : s.runs[r]? = some run)
    (hget : ∀ r' : RunId, s'.runs[r']? = if r' = r then some run' else s.runs[r']?)
    (hprogram : run'.program = run.program) (hle : ∀ t, s'.taskCost host t ≤ s.taskCost host t)
    (hless : (s'.workOf host r run' < s.workOf host r run ∧ run'.loopCost < 2 * run.size + 7) ∨
      (s'.workOf host r run' ≤ s.workOf host r run ∧ run'.loopCost < run.loopCost)) :
    s'.remaining host < s.remaining host := by
  have hsize : run'.size = run.size := congrArg (fun p => p.instructions.length) hprogram
  have hlength : s'.runs.length = s.runs.length := by
    have hsome : ∀ r' : RunId, s'.runs[r']? = none ↔ s.runs[r']? = none := by
      intro r'
      rw [hget]
      by_cases hr : r' = r
      · rw [if_pos hr, hr, hrun]
        simp
      · rw [if_neg hr]
    have h₁ := (hsome s.runs.length).2 (List.getElem?_eq_none (Nat.le_refl _))
    have h₂ := (hsome s'.runs.length).1 (List.getElem?_eq_none (Nat.le_refl _))
    rw [List.getElem?_eq_none_iff] at h₁ h₂
    omega
  have hself : s'.runCost host r < s.runCost host r := by
    rw [runCost_eq hrun, runCost_eq ((hget r).trans (if_pos rfl)), hsize]
    rcases hless with ⟨hwork, hloop⟩ | ⟨hwork, hloop⟩
    · calc (2 * run.size + 7) * s'.workOf host r run' + run'.loopCost
          < (2 * run.size + 7) * s'.workOf host r run' + (2 * run.size + 7) := by omega
        _ = (2 * run.size + 7) * (s'.workOf host r run' + 1) := by rw [Nat.mul_succ]
        _ ≤ (2 * run.size + 7) * s.workOf host r run := Nat.mul_le_mul_left _ hwork
        _ ≤ (2 * run.size + 7) * s.workOf host r run + run.loopCost := Nat.le_add_right _ _
    · have hmul := Nat.mul_le_mul_left (2 * run.size + 7) hwork
      omega
  have hother : ∀ r', s'.runCost host r' ≤ s.runCost host r' := by
    intro r'
    by_cases hr : r' = r
    · exact hr ▸ Nat.le_of_lt hself
    · have hsame : s'.runs[r']? = s.runs[r']? := (hget r').trans (if_neg hr)
      cases hrun' : s.runs[r']? with
      | none =>
        unfold State.runCost
        rw [hsame, hrun']
      | some other =>
        rw [runCost_eq hrun', runCost_eq (hsame.trans hrun')]
        have hwork : s'.workOf host r' other ≤ s.workOf host r' other :=
          workOf_le rfl id (Nat.le_refl _) fun id => hle ⟨r', id⟩
        have hmul := Nat.mul_le_mul_left (2 * other.size + 7) hwork
        omega
  have hlt : r < s.runs.length := (List.getElem?_eq_some_iff.1 hrun).1
  unfold State.remaining
  rw [hlength]
  exact sum_map_lt (k := 0) (fun r' _ => hother r') (List.mem_range.2 hlt) hself

/-! ## Every step takes from it -/

/-- The loop goes on by itself. -/
theorem remaining_loop (hrun : s.runs[r]? = some run)
    (hprogram : run'.program = run.program) (haborted : run'.aborted = run.aborted)
    (hactive : run'.active = run.active) (hloop : run'.loopCost < run.loopCost) :
    (s.setRun r run').remaining host < s.remaining host := by
  have hle : ∀ t, (s.setRun r run').taskCost host t ≤ s.taskCost host t :=
    taskCost_same (nothingAdded_of_shared (samePrograms_of_set hrun rfl hprogram) rfl) rfl
  refine remaining_lt _ hrun (fun _ => State.getElem?_setRun hrun) hprogram hle (.inr ⟨?_, hloop⟩)
  refine workOf_le hprogram (fun h => haborted.trans h) ?_ fun id => hle ⟨r, id⟩
  rw [hactive]

theorem loopCost_ready (hloop : run.loop = .ready)
    (hmore : run.pending ≠ [] ∨ run.active ≠ []) : run.loopCost = run.pending.length + 3 := by
  unfold Run.loopCost
  rw [hloop]
  exact if_neg fun hnil => hmore.elim (fun hne => hne hnil.1) fun hne => hne hnil.2

/-- A task goes on, and no other has more to do. -/
theorem remaining_task (hs : Schedules s) (hrun : s.runs[t.run]? = some run)
    (hby : byId run.program t.id = some instruction) (hruns : s'.runs = s.runs)
    (hle : ∀ u, s'.taskCost host u ≤ s.taskCost host u)
    (hlt : s'.taskCost host t < s.taskCost host t) : s'.remaining host < s.remaining host := by
  have hid : t.id ∈ instructionIds run.program := by
    obtain ⟨hmem, hid⟩ := byId_mem hby
    exact List.mem_map.2 ⟨instruction, hmem, hid⟩
  refine remaining_lt _ hrun (fun r' => ?_) rfl hle (.inl ⟨?_, (hs.runs _ run hrun).loopCost_lt⟩)
  · rw [hruns]
    split
    · rename_i heq
      rw [heq, hrun]
    · rfl
  · exact workOf_lt (k := 0) rfl rfl (Nat.le_refl _) (fun id => hle ⟨t.run, id⟩) hid hlt

/-- The scan deals with an instruction, which may become active. -/
theorem remaining_scan (hrun : s.runs[r]? = some run)
    (hby : byId run.program id = some instruction)
    (hget : ∀ r' : RunId, s'.runs[r']? = if r' = r then some run' else s.runs[r']?)
    (hnew : Scheduled s' r run') (hprogram : run'.program = run.program)
    (haborted : run'.aborted = run.aborted) (hactive : run'.active.length ≤ run.active.length + k)
    (hle : ∀ t, s'.taskCost host t ≤ s.taskCost host t)
    (hlt : s'.taskCost host ⟨r, id⟩ + k < s.taskCost host ⟨r, id⟩) :
    s'.remaining host < s.remaining host := by
  have hid : id ∈ instructionIds run.program := by
    obtain ⟨hmem, hid⟩ := byId_mem hby
    exact List.mem_map.2 ⟨instruction, hmem, hid⟩
  have hloop := hnew.loopCost_lt
  rw [show run'.size = run.size from congrArg (fun p => p.instructions.length) hprogram] at hloop
  exact remaining_lt _ hrun hget hprogram hle
    (.inl ⟨workOf_lt hprogram haborted hactive (fun id => hle ⟨r, id⟩) hid hlt, hloop⟩)

theorem taskCost_lt (h : NothingAdded s s' t)
    (hphase : phaseCost (s.conditions t) (s'.phase t) + k <
      phaseCost (s.conditions t) (s.phase t)) : s'.taskCost host t + k < s.taskCost host t := by
  have hcost := h.taskCost host
  omega

/-- A task is completed. -/
theorem taskCost_lt_of_completed (h : NothingAdded s s' t) (hphase : s'.phase t = s.phase t)
    (hnone : s.completed t = none) (hsome : s'.completed t ≠ none) :
    s'.taskCost host t < s.taskCost host t := by
  have h₁ := todo_neg hsome
  have h₂ := todo_pos hnone
  have h₃ := todo_le (h.flying : s'.flying host t → _)
  have h₄ := todo_le h.queue
  unfold State.taskCost
  rw [h.programs.conditions, hphase]
  omega

theorem phaseCost_running {p : Phase} (h : p.running = true) (n : Nat) : phaseCost n p ≤ n + 4 := by
  cases p with
  | checking index =>
    show n - index + 4 ≤ n + 4
    omega
  | executing =>
    show 4 ≤ n + 4
    omega
  | returned =>
    show 3 ≤ n + 4
    omega
  | idle | joined | waiting | granted | queued | resolved => cases h

/-- The checker is asked about later and later preconditions. -/
theorem afterAnswer_later {index asked : Nat}
    {answer : Except String PreconditionVerdict}
    (h : afterAnswer s r run instruction index answer = .checking asked) : index < asked := by
  unfold afterAnswer at h
  split at h
  · obtain ⟨n, kind, fields, heq, -⟩ := checkFrom_checking h
    omega
  · cases h
  · cases h

/-- A task in its body goes on. -/
theorem remaining_advance (hs : Schedules s) {p : Phase}
    (hrun : s.runs[t.run]? = some run) (hby : byId run.program t.id = some instruction)
    (hruns : s'.runs = s.runs) (hphase : s'.phase = (s.setPhase t p).phase)
    (hshared : s'.shared = s.shared) (hlt : phaseCost instruction.precondition.length p <
      phaseCost instruction.precondition.length (s.phase t)) :
    s'.remaining host < s.remaining host := by
  have hconditions : s.conditions t = instruction.precondition.length := by
    have htask : s.task? t = some instruction := (State.task?_eq hrun).trans hby
    unfold State.conditions
    rw [htask]
  have hadded := nothingAdded_of_shared (samePrograms_of_runs hruns) hshared
  have hless : s'.taskCost host t < s.taskCost host t := by
    refine taskCost_lt (k := 0) (hadded t) ?_
    rw [hphase, hconditions, show (s.setPhase t p).phase t = p from if_pos rfl]
    exact hlt
  refine remaining_task hs hrun hby hruns (fun u => ?_) hless
  by_cases hu : u = t
  · exact hu ▸ Nat.le_of_lt hless
  · refine taskCost_le (hadded u) ?_
    rw [hphase, show (s.setPhase t p).phase u = s.phase u from if_neg hu]

/-- A task is completed with a result. -/
theorem taskCost_finish_le (host : PipelineHost) (s' : State) (hnone : s.completed t = none)
    (hprograms : SamePrograms s s') (hphase : s'.phase = s.phase)
    (hshared : s'.shared = (s.finish t result).shared) :
    (∀ u, s'.taskCost host u ≤ s.taskCost host u) ∧
      s'.taskCost host t < s.taskCost host t := by
  simp only [State.shared, Prod.mk.injEq] at hshared
  obtain ⟨hcompleted, hqueue, hflight⟩ := hshared
  have hadded : ∀ u, NothingAdded s s' u := by
    refine fun u => ⟨hprograms, fun hn => ?_, fun hmem => hqueue ▸ hmem,
      fun _ _ hentry => hflight ▸ hentry⟩
    by_cases hu : u = t
    · exact hu ▸ hnone
    · rw [hcompleted] at hn
      exact (if_neg hu).symm.trans hn
  refine ⟨taskCost_same hadded hphase,
    taskCost_lt_of_completed (hadded t) (by rw [hphase]) hnone ?_⟩
  rw [hcompleted, show (s.finish t result).completed t = some result from if_pos rfl]
  exact Option.some_ne_none _

/-- An instruction starts on its own. -/
theorem taskCost_startOwn (hc : Coordinated host s) (hs : Schedules s)
    (instruction : Instruction) (rest : List InstructionId) (hrun : s.runs[t.run]? = some run)
    (hidle : s.phase t = .idle) :
    (∀ u, (s.startOwn host t run instruction rest).taskCost host u ≤ s.taskCost host u) ∧
      (s.startOwn host t run instruction rest).taskCost host t + 1 < s.taskCost host t := by
  obtain ⟨hruns, hcompleted, hqueue⟩ := startOwn_frame host s t run instruction rest
  have hprograms : SamePrograms s (s.startOwn host t run instruction rest) :=
    samePrograms_of_set hrun hruns rfl
  have hflight : (s.startOwn host t run instruction rest).inFlight = fun k =>
      if k = joinKey host run.program instruction then
        some (instructionFingerprint host run.program instruction, t) else s.inFlight k := by
    unfold State.startOwn
    simp only
  have hphase : ∀ u, (s.startOwn host t run instruction rest).phase u = s.phase u ∨
      (s.phase u = .waiting ∧ (s.startOwn host t run instruction rest).phase u = .granted) ∨
      (u = t ∧ phaseCost (s.conditions t) ((s.startOwn host t run instruction rest).phase t) ≤
        s.conditions t + 9) := by
    intro u
    unfold State.startOwn
    simp only
    split
    · show (if u = t then Phase.resolved _ else s.phase u) = s.phase u ∨ _ ∨ (u = t ∧
        phaseCost _ (if t = t then Phase.resolved _ else s.phase t) ≤ _)
      by_cases hu : u = t
      · refine .inr (.inr ⟨hu, ?_⟩)
        rw [if_pos rfl]
        show 2 ≤ s.conditions t + 9
        omega
      · exact .inl (if_neg hu)
    · have hwaits := hc.acquired_waiting hidle
      generalize (Locks.acquire s.cost s.locks t).1 = granted at hwaits
      show (if u ∈ granted then Phase.granted else if u = t then .waiting else s.phase u) =
          s.phase u ∨ (s.phase u = .waiting ∧
          (if u ∈ granted then Phase.granted else if u = t then .waiting else s.phase u) =
            .granted) ∨ (u = t ∧ phaseCost _
          (if t ∈ granted then Phase.granted else if t = t then .waiting else s.phase t) ≤ _)
      by_cases hu : u = t
      · refine .inr (.inr ⟨hu, ?_⟩)
        split
        · show s.conditions t + 8 ≤ _
          omega
        · rw [if_pos rfl]
          exact Nat.le_refl _
      · by_cases hgranted : u ∈ granted
        · have hwas : s.phase u = .waiting := (if_neg hu).symm.trans (hwaits u hgranted)
          exact .inr (.inl ⟨hwas, if_pos hgranted⟩)
        · exact .inl (by rw [if_neg hgranted, if_neg hu])
  -- the phase of the task gives more than its new entry takes
  have hlt : (s.startOwn host t run instruction rest).taskCost host t + 1 <
      s.taskCost host t := by
    have hcost : phaseCost (s.conditions t) ((s.startOwn host t run instruction rest).phase t) ≤
        s.conditions t + 9 := by
      rcases hphase t with hsame | ⟨hwas, -⟩ | ⟨-, hcost⟩
      · exact absurd (hsame.trans hidle) (hs.startOwn hc run instruction rest hidle).1
      · rw [hidle] at hwas
        cases hwas
      · exact hcost
    have hbit := todo_le_one ((s.startOwn host t run instruction rest).flying host t)
    unfold State.taskCost
    rw [hprograms.conditions, hcompleted, hqueue, hidle]
    show _ < s.conditions t + 12 + _ + _ + _
    omega
  refine ⟨fun u => ?_, hlt⟩
  by_cases hu : u = t
  · subst hu
    omega
  · refine taskCost_le ⟨hprograms, fun hn => hcompleted ▸ hn, fun hmem => hqueue ▸ hmem,
      fun key fingerprint hentry => ?_⟩ ?_
    · rw [hflight] at hentry
      by_cases hkey : key = joinKey host run.program instruction
      · simp only [if_pos hkey, Option.some.injEq, Prod.mk.injEq] at hentry
        exact absurd hentry.2.symm hu
      · simpa only [if_neg hkey] using hentry
    · rcases hphase u with hsame | ⟨hwas, hgranted⟩ | ⟨heq, -⟩
      · rw [hsame]
      · rw [hwas, hgranted]
        exact Nat.add_le_add_left (by omega) _
      · exact absurd heq hu

theorem remaining_finish {rest : List InstructionId}
    (hrun : s.runs[r]? = some run) (hby : byId run.program id = some instruction)
    (hnone : s.completed ⟨r, id⟩ = none) (hnew : Scheduled s' r (run.scanned id rest))
    (hruns : s'.runs = s.runs.set r (run.scanned id rest)) (hphase : s'.phase = s.phase)
    (hshared : s'.shared = (s.finish ⟨r, id⟩ result).shared) :
    s'.remaining host < s.remaining host := by
  have hprograms : SamePrograms s s' := samePrograms_of_set hrun hruns rfl
  obtain ⟨hle, hlt⟩ := taskCost_finish_le host _ hnone hprograms hphase hshared
  refine remaining_scan (k := 0) hrun hby (fun r' => ?_) hnew rfl rfl (Nat.le_refl _) hle hlt
  rw [hruns]
  exact State.getElem?_setRun hrun

/-- A run is aborted, or has fewer active instructions. -/
theorem remaining_run (hrun : s.runs[r]? = some run)
    (hruns : s'.runs = s.runs.set r run') (hprogram : run'.program = run.program)
    (hless : todo (run'.aborted = false) + run'.active.length <
      todo (run.aborted = false) + run.active.length) (hloop : run'.loopCost < 2 * run.size + 7)
    (hphase : s'.phase = s.phase) (hshared : s'.shared = s.shared) :
    s'.remaining host < s.remaining host := by
  have hle : ∀ t, s'.taskCost host t ≤ s.taskCost host t :=
    taskCost_same (nothingAdded_of_shared (samePrograms_of_set hrun hruns hprogram) hshared) hphase
  have hwork : s'.workOf host r run' < s.workOf host r run := by
    have hsum := List.sum_le_sum (l := instructionIds run.program) fun id _ => hle ⟨r, id⟩
    unfold State.workOf
    rw [hprogram]
    omega
  refine remaining_lt _ hrun (fun _ => ?_) hprogram hle (.inl ⟨hwork, hloop⟩)
  rw [hruns]
  exact State.getElem?_setRun hrun

theorem remaining_enqueue (hs : Schedules s) (htask : s.task? t = some instruction)
    (hgranted : s.phase t = .granted) (hruns : s'.runs = s.runs)
    (hphase : s'.phase = (s.setPhase t .queued).phase)
    (hshared : s'.shared = (s.completed, s.commitQueue ++ [t], s.inFlight)) :
    s'.remaining host < s.remaining host := by
  obtain ⟨run, hrun, hby⟩ := Option.bind_eq_some_iff.1 htask
  simp only [State.shared, Prod.mk.injEq] at hshared
  obtain ⟨hcompleted, hqueue, hflight⟩ := hshared
  have hprograms := samePrograms_of_runs hruns
  have hlt : s'.taskCost host t < s.taskCost host t := by
    have hbit := todo_le_one (t ∈ s'.commitQueue)
    have hflying : s'.flying host t → s.flying host t := by
      rintro ⟨key, fingerprint, hkey, hentry⟩
      exact ⟨key, fingerprint, (hprograms.key? t).symm.trans hkey, hflight ▸ hentry⟩
    have hentries := todo_le hflying
    unfold State.taskCost
    rw [hprograms.conditions, hphase, hgranted, hcompleted,
      show (s.setPhase t .queued).phase t = .queued from if_pos rfl]
    show s.conditions t + 6 + _ + _ + _ < s.conditions t + 8 + _ + _ + _
    omega
  refine remaining_task hs hrun hby hruns (fun u => ?_) hlt
  by_cases hu : u = t
  · rw [hu]
    exact Nat.le_of_lt hlt
  · refine taskCost_le ⟨hprograms, fun hnone => hcompleted ▸ hnone, fun hmem => ?_,
      fun _ _ hentry => hflight ▸ hentry⟩ ?_
    · rw [hqueue] at hmem
      exact (List.mem_append.1 hmem).resolve_right fun hlast => hu (List.mem_singleton.1 hlast)
    · rw [hphase, show (s.setPhase t .queued).phase u = s.phase u from if_neg hu]

theorem remaining_leaveQueue (hc : Coordinated host s) (hs : Schedules s) {rest : List TaskId}
    (hbegun : s.phase t ≠ .idle) (hqueue : s.commitQueue = t :: rest) (hruns : s'.runs = s.runs)
    (hphase : s'.phase = s.phase) (hshared : s'.shared = (s.completed, rest, s.inFlight)) :
    s'.remaining host < s.remaining host := by
  obtain ⟨instruction, htask⟩ := hc.task t hbegun
  obtain ⟨run, hrun, hby⟩ := Option.bind_eq_some_iff.1 htask
  simp only [State.shared, Prod.mk.injEq] at hshared
  obtain ⟨hcompleted, hqueue', hflight⟩ := hshared
  have hnodup := hc.queueNodup
  rw [hqueue, List.nodup_cons] at hnodup
  have hadded : ∀ u, NothingAdded s s' u := fun u =>
    ⟨samePrograms_of_runs hruns, fun hnone => hcompleted ▸ hnone,
      fun hmem => hqueue ▸ List.mem_cons_of_mem _ (hqueue' ▸ hmem),
      fun _ _ hentry => hflight ▸ hentry⟩
  refine remaining_task hs hrun hby hruns (taskCost_same hadded hphase) ?_
  have hout := todo_neg (p := t ∈ s'.commitQueue) (by rw [hqueue']; exact hnodup.1)
  have hin := todo_pos (p := t ∈ s.commitQueue) (by rw [hqueue]; exact List.mem_cons_self)
  have hentries := todo_le ((hadded t).flying : s'.flying host t → _)
  unfold State.taskCost
  rw [(hadded t).programs.conditions, hphase, hcompleted]
  omega

/-- A task gives its resources to others. -/
theorem remaining_release (hc : Coordinated host s) (hs : Schedules s) {granted : List TaskId}
    (hreturned : s.phase t = .returned result) (hwas : ∀ u ∈ granted, s.phase u = .waiting)
    (hruns : s'.runs = s.runs)
    (hphase : s'.phase = ((s.setPhase t (.resolved result)).grant granted).phase)
    (hshared : s'.shared = s.shared) : s'.remaining host < s.remaining host := by
  obtain ⟨instruction, htask⟩ := hc.task t (by rw [hreturned]; exact Phase.noConfusion)
  obtain ⟨run, hrun, hby⟩ := Option.bind_eq_some_iff.1 htask
  have hadded := nothingAdded_of_shared (samePrograms_of_runs hruns) hshared
  have hphase' : ∀ u, s'.phase u = if u ∈ granted then .granted else
      if u = t then .resolved result else s.phase u := by
    intro u
    rw [hphase]
    rfl
  have hnot : t ∉ granted := by
    intro ht
    have heq := hwas t ht
    rw [hreturned] at heq
    cases heq
  have hlt : s'.taskCost host t < s.taskCost host t := by
    refine taskCost_lt (k := 0) (hadded t) ?_
    rw [hphase', if_neg hnot, if_pos rfl, hreturned]
    exact Nat.lt_succ_self 2
  refine remaining_task hs hrun hby hruns (fun u => ?_) hlt
  by_cases hu : u = t
  · rw [hu]
    exact Nat.le_of_lt hlt
  · refine taskCost_le (hadded u) ?_
    rw [hphase']
    by_cases hgranted : u ∈ granted
    · rw [if_pos hgranted, hwas u hgranted]
      exact Nat.add_le_add_left (by omega) _
    · rw [if_neg hgranted, if_neg hu]

theorem remaining_forget (hc : Coordinated host s) (hs : Schedules s) {key fingerprint : String}
    (hentry : s.inFlight key = some (fingerprint, t)) (hruns : s'.runs = s.runs)
    (hphase : s'.phase = s.phase)
    (hshared : s'.shared =
      (s.completed, s.commitQueue, fun k => if k = key then none else s.inFlight k)) :
    s'.remaining host < s.remaining host := by
  obtain ⟨run, instruction, hrun, hby, hkey, -⟩ := (hc.flight key fingerprint t hentry).known
  simp only [State.shared, Prod.mk.injEq] at hshared
  obtain ⟨hcompleted, hqueue, hflight⟩ := hshared
  have hprograms := samePrograms_of_runs hruns
  have hadded : ∀ u, NothingAdded s s' u := by
    refine fun u => ⟨hprograms, fun hnone => hcompleted ▸ hnone, fun hmem => hqueue ▸ hmem,
      fun k f hthere => ?_⟩
    simp only [hflight] at hthere
    split at hthere
    · cases hthere
    · exact hthere
  refine remaining_task hs hrun hby hruns (taskCost_same hadded hphase) ?_
  have hown : s.key? host t = some key := by
    unfold State.key?
    rw [hrun, Option.bind_some, hby, Option.map_some, hkey]
  have hgone : ¬ s'.flying host t := by
    rintro ⟨k, f, hk, hthere⟩
    obtain rfl := Option.some.inj (hown.symm.trans ((hprograms.key? t).symm.trans hk))
    simp [hflight] at hthere
  have hthere : s.flying host t := ⟨key, fingerprint, hown, hentry⟩
  have h₁ := todo_neg hgone
  have h₂ := todo_pos hthere
  unfold State.taskCost
  rw [hprograms.conditions, hphase, hcompleted, hqueue]
  omega

/-- An instruction joins another one. -/
theorem remaining_join {rest : List InstructionId}
    {owner : TaskId} (hrun : s.runs[r]? = some run) (hby : byId run.program id = some instruction)
    (hidle : s.phase ⟨r, id⟩ = .idle) (hnew : Scheduled s' r (run.started id rest))
    (hruns : s'.runs = s.runs.set r (run.started id rest))
    (hphase : s'.phase = (s.setPhase ⟨r, id⟩ (.joined owner)).phase)
    (hshared : s'.shared = s.shared) : s'.remaining host < s.remaining host := by
  have hadded := nothingAdded_of_shared (samePrograms_of_set hrun hruns rfl) hshared
  have hphase' : ∀ u, s'.phase u = if u = ⟨r, id⟩ then .joined owner else s.phase u := by
    intro u
    rw [hphase]
    rfl
  have hlt : s'.taskCost host ⟨r, id⟩ + 1 < s.taskCost host ⟨r, id⟩ := by
    refine taskCost_lt (hadded _) ?_
    rw [hphase', if_pos rfl, hidle]
    show 0 + 1 < s.conditions ⟨r, id⟩ + 12
    omega
  refine remaining_scan (k := 1) hrun hby (fun _ => ?_) hnew rfl rfl ?_ (fun u => ?_) hlt
  · rw [hruns]
    exact State.getElem?_setRun hrun
  · show (run.active ++ [id]).length ≤ _
    simp
  · by_cases hu : u = ⟨r, id⟩
    · rw [hu]
      omega
    · refine taskCost_le (hadded u) ?_
      rw [hphase', if_neg hu]

/-- What is pending is cancelled: the loop has less to do. -/
theorem remaining_cancel (hrun : s.runs[r]? = some run) (hloop : run.loop = .ready)
    (hmore : run.pending ≠ [] ∨ run.active ≠ [])
    (hruns : s'.runs = s.runs.set r { run with pending := [], loop := .scanning [] false })
    (hphase : s'.phase = s.phase) (hcompleted : ∀ t, s'.completed t = none → s.completed t = none)
    (hqueue : s'.commitQueue = s.commitQueue) (hflight : s'.inFlight = s.inFlight) :
    s'.remaining host < s.remaining host := by
  have hadded : ∀ t, NothingAdded s s' t := fun t =>
    ⟨samePrograms_of_set hrun hruns rfl, hcompleted t, fun hmem => hqueue ▸ hmem,
      fun _ _ hentry => hflight ▸ hentry⟩
  have hle : ∀ t, s'.taskCost host t ≤ s.taskCost host t := taskCost_same hadded hphase
  have hready := loopCost_ready hloop hmore
  refine remaining_lt { run with pending := [], loop := .scanning [] false } hrun
    (fun _ => ?_) rfl hle (.inr ⟨workOf_le rfl id (Nat.le_refl _) fun id => hle ⟨r, id⟩, ?_⟩)
  · rw [hruns]
    exact State.getElem?_setRun hrun
  · rw [hready]
    show 0 + 2 + 0 < _
    omega

/-- What the caller gave a run: its program and its signal. -/
def Run.given (run : Run) : Program × Bool := (run.program, run.aborted)

/-- Only a launch and an abort change what was given. -/
theorem Step.given (hstep : Step host s l s') (hl : l.internal = true) :
    s'.runs.map Run.given = s.runs.map Run.given := by
  cases hstep with
  | launch => cases hl
  | abort => cases hl
  | iterate _ _ hrun | cancel _ _ hrun | finish _ _ hrun | full _ _ _ _ _ hrun
  | blocked _ _ _ _ _ _ hrun | skip _ _ _ _ _ _ _ hrun | conflict _ _ _ _ _ _ _ _ hrun
  | join _ _ _ _ _ _ _ hrun | race _ _ _ hrun | again _ _ _ hrun | stuck _ _ hrun
  | wake _ _ _ hrun => exact map_of_set hrun rfl rfl
  | own r run id rest progressed instruction hrun =>
    exact map_of_set hrun (startOwn_frame host s ⟨r, id⟩ run instruction rest).1 rfl
  | enqueue | resume | turn | answer | settle | leaveQueue | release | forget | deliver
  | deliverJoined => rfl

theorem Step.samePrograms (hstep : Step host s l s') (hl : l.launches = false) :
    SamePrograms s s' := by
  by_cases hinternal : l.internal = true
  · have hgiven := congrArg (List.map Prod.fst) (hstep.given hinternal)
    rw [List.map_map, List.map_map] at hgiven
    exact hgiven
  · cases hstep with
    | launch => cases hl
    | abort r run hrun =>
      have hruns : (s.setRun r { run with aborted := true }).runs =
          s.runs.set r { run with aborted := true } := rfl
      exact samePrograms_of_set hrun hruns rfl
    | _ => exact absurd rfl hinternal

/-- Every step other than a launch takes from what is left to do. -/
theorem remaining_step (h : Invariant host s) (hh : History s) (hstep : Step host s l s')
    (hl : l.launches = false) : s'.remaining host < s.remaining host := by
  obtain ⟨hc, hs⟩ := h
  have hs' := hs.step hc hstep
  cases hstep with
  | launch => cases hl
  | abort r run hrun hnot =>
    have hless : todo (({ run with aborted := true } : Run).aborted = false) + run.active.length <
        todo (run.aborted = false) + run.active.length := by
      rw [todo_neg (p := ({ run with aborted := true } : Run).aborted = false) (by simp),
        todo_pos hnot]
      omega
    exact remaining_run hrun rfl rfl hless (hs.runs r run hrun).loopCost_lt rfl rfl
  | iterate r run hrun hloop hmore =>
    refine remaining_loop hrun rfl rfl rfl ?_
    rw [loopCost_ready hloop hmore]
    show run.pending.length + 2 + 0 < _
    omega
  | cancel r run hrun hloop hmore =>
    exact remaining_cancel hrun hloop hmore rfl rfl
      (fun t hnone => (Option.or_eq_none_iff.1 hnone).2) rfl rfl
  | finish r run hrun hloop hpending hactive =>
    refine remaining_loop hrun rfl rfl rfl ?_
    have hready : run.loopCost = 1 := by
      unfold Run.loopCost
      rw [hloop]
      exact if_pos ⟨hpending, hactive⟩
    rw [hready]
    exact Nat.one_pos
  | full r run id rest progressed hrun hloop =>
    refine remaining_loop hrun rfl rfl rfl ?_
    unfold Run.loopCost
    rw [hloop]
    simp only [List.length_nil, List.length_cons]
    omega
  | blocked r run id rest progressed instruction hrun hloop =>
    refine remaining_loop hrun rfl rfl rfl ?_
    unfold Run.loopCost
    rw [hloop]
    simp only [List.length_cons]
    omega
  | skip r run id rest _ _ _ hrun hloop _ hby | conflict r run id rest _ _ _ _ hrun hloop _ hby =>
    obtain ⟨-, -, hnone⟩ := (hs.runs r run hrun).pending id
      (((hs.runs r run hrun).scanning _ _ hloop).2 id List.mem_cons_self)
    have hnew := hs'.runs r (run.scanned id rest) (State.getElem?_set_self hrun)
    exact remaining_finish hrun hby hnone hnew rfl rfl rfl
  | join r run id rest progressed instruction owner hrun hloop hroom hby =>
    have hidle := hs.idle_of_scanning r run id rest progressed hrun hloop
    have hnew := hs'.runs r (run.started id rest) (State.getElem?_set_self hrun)
    exact remaining_join hrun hby hidle hnew rfl rfl rfl
  | own r run id rest progressed instruction hrun hloop hroom hby =>
    have hidle := hs.idle_of_scanning r run id rest progressed hrun hloop
    have hruns := (startOwn_frame host s ⟨r, id⟩ run instruction rest).1
    have hnew := hs'.runs r (run.started id rest) (by
      rw [hruns]
      exact State.getElem?_set_self hrun)
    obtain ⟨hle, hlt⟩ := taskCost_startOwn hc hs instruction rest hrun hidle
    refine remaining_scan (k := 1) hrun hby (fun _ => ?_) hnew rfl rfl ?_ hle hlt
    · rw [hruns]
      exact State.getElem?_setRun hrun
    · show (run.active ++ [id]).length ≤ _
      simp
  | race r run progressed hrun hloop =>
    refine remaining_loop hrun rfl rfl rfl ?_
    unfold Run.loopCost
    rw [hloop]
    simp only [List.length_nil]
    omega
  | again r run progressed hrun hloop hactive hprogress =>
    refine remaining_loop hrun rfl rfl rfl ?_
    unfold Run.loopCost
    rw [hloop]
    simp only [List.length_nil, hactive]
    rcases hprogress with hnil | hprogress
    · rw [if_pos ⟨hnil, trivial⟩]
      omega
    · rw [hprogress]
      split <;> simp only [if_true] <;> omega
  | stuck r run hrun hloop hactive hpending =>
    exact absurd hpending fun hne => (hs.runs r run hrun).not_stuck hloop hactive hne
  | wake r run id hrun hloop hid hdone =>
    have hnew := hs'.runs r _ (State.getElem?_set_self hrun)
    have hfewer : (run.active.filter fun id =>
        decide (s.completed ⟨r, id⟩ = none)).length < run.active.length := by
      rw [List.length_filter_lt_length_iff_exists]
      exact ⟨id, hid, by simpa using hdone⟩
    exact remaining_run hrun rfl rfl (Nat.add_lt_add_left hfewer _) hnew.loopCost_lt rfl rfl
  | enqueue t instruction hphase htask =>
    exact remaining_enqueue hs htask hphase rfl rfl rfl
  | resume t run instruction hphase hrun hby =>
    refine remaining_advance hs hrun hby rfl rfl rfl ?_
    have hcost := phaseCost_running (runBody_running s t.run run instruction)
      instruction.precondition.length
    rw [hphase]
    show _ < instruction.precondition.length + 8
    omega
  | turn t run instruction hphase hhead hrun hby =>
    refine remaining_advance hs hrun hby rfl rfl rfl ?_
    have hcost := phaseCost_running (runBody_running s t.run run instruction)
      instruction.precondition.length
    rw [hphase]
    show _ < instruction.precondition.length + 6
    omega
  | answer t run instruction index answer hphase hrun hby =>
    refine remaining_advance hs hrun hby rfl rfl rfl ?_
    -- the precondition that was asked about exists
    obtain ⟨found, kind, fields, htask, hindex, -⟩ := hh.checking t index hphase
    obtain rfl := Option.some.inj (((State.task?_eq hrun).trans hby).symm.trans htask)
    have hlt := (List.getElem?_eq_some_iff.1 hindex).1
    have hrunning := afterAnswer_running s t.run run instruction index answer
    have hlater : ∀ asked, afterAnswer s t.run run instruction index answer = .checking asked →
        index < asked := fun asked => afterAnswer_later
    generalize afterAnswer s t.run run instruction index answer = p at hrunning hlater ⊢
    rw [hphase]
    show _ < instruction.precondition.length - index + 4
    cases p with
    | checking asked =>
      have hasked := hlater asked rfl
      show instruction.precondition.length - asked + 4 < _
      omega
    | executing =>
      show 4 < _
      omega
    | returned =>
      show 3 < _
      omega
    | idle | joined | waiting | granted | queued | resolved => cases hrunning
  | settle t run instruction answer hphase hrun hby =>
    refine remaining_advance hs (p := .returned (executed instruction answer)) hrun hby rfl rfl
      rfl ?_
    rw [hphase]
    exact Nat.lt_succ_self 3
  | leaveQueue t result rest hphase hqueue =>
    exact remaining_leaveQueue hc hs (by rw [hphase]; exact Phase.noConfusion) hqueue rfl rfl
      rfl
  | release t result hphase =>
    exact remaining_release hc hs hphase (fun u hu => (hc.released_waiting hphase u hu).2) rfl rfl
      rfl
  | forget t result key fingerprint hphase hflight =>
    exact remaining_forget hc hs hflight rfl rfl rfl
  | deliver t result hphase hnone =>
    obtain ⟨instruction, htask⟩ := hc.task t (by rw [hphase]; exact Phase.noConfusion)
    obtain ⟨run, hrun, hby⟩ := Option.bind_eq_some_iff.1 htask
    obtain ⟨hle, hlt⟩ := taskCost_finish_le host (s.finish t result) hnone rfl rfl
      rfl
    exact remaining_task hs hrun hby rfl hle hlt
  | deliverJoined t owner result hphase howner hnone =>
    obtain ⟨instruction, htask⟩ := hc.task t (by rw [hphase]; exact Phase.noConfusion)
    obtain ⟨run, hrun, hby⟩ := Option.bind_eq_some_iff.1 htask
    obtain ⟨hle, hlt⟩ := taskCost_finish_le host
      (s.finish t { result with id := t.id, joined := true }) hnone rfl rfl rfl
    exact remaining_task hs hrun hby rfl hle hlt

end Remaining

end XioFlow.Pipeline
