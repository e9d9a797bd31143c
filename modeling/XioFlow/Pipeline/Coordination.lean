/-
  XioFlow.Pipeline.Coordination

  The invariant of the coordinator: resources, commit queue and in-flight
  entries agree with the phases of the tasks.
-/

import XioFlow.Pipeline.Engine

namespace XioFlow.Pipeline

open Lib

/-! ## Phases -/

namespace Phase

/-- The task holds its resources. -/
def inside : Phase → Bool
  | granted | queued | checking _ | executing | returned _ => true
  | idle | joined _ | waiting | resolved _ => false

/-- The body of the task has begun and its resources are still held. -/
def running : Phase → Bool
  | checking _ | executing | returned _ => true
  | idle | joined _ | waiting | granted | queued | resolved _ => false

/-- The task has a promise of its own. -/
def own : Phase → Bool
  | idle | joined _ => false
  | _ => true

variable {p : Phase}

theorem own_of_inside (h : p.inside = true) : p.own = true := by
  cases p <;> first | rfl | cases h

theorem inside_of_running (h : p.running = true) : p.inside = true := by
  cases p <;> first | rfl | cases h

theorem ne_idle_of_own (h : p.own = true) : p ≠ .idle := by
  rintro rfl
  cases h

end Phase

/-! ## Reading a state -/

namespace State

variable {s : State}

theorem task?_eq {t : TaskId} {run : Run} (hrun : s.runs[t.run]? = some run) :
    s.task? t = byId run.program t.id := by
  unfold task?
  rw [hrun]
  rfl

theorem getElem?_setRun {r r' : RunId} {run run' : Run} (hrun : s.runs[r]? = some run) :
    (s.setRun r run').runs[r']? = if r' = r then some run' else s.runs[r']? := by
  obtain ⟨hlt, -⟩ := List.getElem?_eq_some_iff.1 hrun
  show (s.runs.set r run')[r']? = _
  rw [List.getElem?_set]
  by_cases h : r = r'
  · subst h
    rw [if_pos rfl, if_pos rfl, if_pos hlt]
  · rw [if_neg h, if_neg (Ne.symm h)]

theorem getElem?_set_self {r : RunId} {run run' : Run} (hrun : s.runs[r]? = some run) :
    (s.runs.set r run')[r]? = some run' := by
  have h : (s.setRun r run').runs[r]? = _ := getElem?_setRun hrun
  rwa [if_pos rfl] at h

theorem cost_congr {s' : State} (h : s'.task? = s.task?) : s'.cost = s.cost := by
  funext t
  unfold cost
  rw [h]

end State

/-! ## The invariant -/

/-- The task behind an in-flight entry. -/
structure InFlightTask (host : PipelineHost) (s : State) (key fingerprint : String) (t : TaskId) :
    Prop where
  own : (s.phase t).own = true
  known : ∃ run instruction, s.runs[t.run]? = some run ∧
    byId run.program t.id = some instruction ∧ key = joinKey host run.program instruction ∧
    fingerprint = instructionFingerprint host run.program instruction

structure Coordinated (host : PipelineHost) (s : State) : Prop where
  locks : Locks.Sound s.cost s.locks fun t => (s.phase t).inside = true
  waiting : ∀ t, t ∈ s.locks.waiters ↔ s.phase t = .waiting
  queueNodup : s.commitQueue.Nodup
  queue : ∀ t ∈ s.commitQueue, s.phase t = .queued ∨
    (s.commitQueue.head? = some t ∧ (s.phase t).running = true)
  queued : ∀ t, s.phase t = .queued → t ∈ s.commitQueue
  flight : ∀ key fingerprint t, s.inFlight key = some (fingerprint, t) →
    InFlightTask host s key fingerprint t
  joins : ∀ t owner, s.phase t = .joined owner → (s.phase owner).own = true
  task : ∀ t, s.phase t ≠ .idle → ∃ instruction, s.task? t = some instruction

variable {host : PipelineHost}

/-- The runs keep their programs. -/
def KeepsPrograms (s s' : State) : Prop :=
  ∀ (r : RunId) (run : Run), s.runs[r]? = some run →
    ∃ run' : Run, s'.runs[r]? = some run' ∧ run'.program = run.program

variable {s s' : State} {t : TaskId}

theorem keepsPrograms_setRun {r : RunId} {run run' : Run} (hrun : s.runs[r]? = some run)
    (hprogram : run'.program = run.program) : KeepsPrograms s (s.setRun r run') := by
  intro r' run₀ hrun₀
  rw [State.getElem?_setRun hrun]
  by_cases h : r' = r
  · subst h
    rw [hrun, Option.some.injEq] at hrun₀
    exact ⟨run', if_pos rfl, hprogram.trans (congrArg Run.program hrun₀)⟩
  · exact ⟨run₀, by rw [if_neg h, hrun₀], rfl⟩

theorem InFlightTask.keep {key fingerprint : String} (h : InFlightTask host s key fingerprint t)
    (hkeep : KeepsPrograms s s') (hown : (s'.phase t).own = true) :
    InFlightTask host s' key fingerprint t := by
  obtain ⟨run, instruction, hrun, hby, hkey, hfingerprint⟩ := h.known
  obtain ⟨run', hrun', hprogram⟩ := hkeep t.run run hrun
  refine ⟨hown, run', instruction, hrun', ?_, ?_, ?_⟩
  · rw [hprogram]
    exact hby
  · rw [hprogram]
    exact hkey
  · rw [hprogram]
    exact hfingerprint

theorem task?_keep (hkeep : KeepsPrograms s s') {instruction : Instruction}
    (h : s.task? t = some instruction) : s'.task? t = some instruction := by
  obtain ⟨run, hrun, hby⟩ := Option.bind_eq_some_iff.1 h
  obtain ⟨run', hrun', hprogram⟩ := hkeep t.run run hrun
  rw [State.task?_eq hrun', hprogram]
  exact hby

/-- Steps that leave the phases and the coordinator alone. -/
theorem Coordinated.frame (h : Coordinated host s) (hkeep : KeepsPrograms s s')
    (hphase : s'.phase = s.phase) (hlocks : s'.locks = s.locks)
    (hqueue : s'.commitQueue = s.commitQueue)
    (hflight : ∀ key fingerprint t, s'.inFlight key = some (fingerprint, t) →
      s.inFlight key = some (fingerprint, t)) : Coordinated host s' := by
  have hcost : ∀ t, (s.phase t).own = true → s'.cost t = s.cost t := by
    intro t ht
    obtain ⟨instruction, htask⟩ := h.task t (Phase.ne_idle_of_own ht)
    unfold State.cost
    rw [htask, task?_keep hkeep htask]
  refine ⟨?_, ?_, ?_, ?_, ?_, ?_, ?_, ?_⟩
  · rw [hphase, hlocks]
    refine h.locks.congr (fun t ht => ?_)
    rcases ht with ht | ht
    · exact hcost t (Phase.own_of_inside ht)
    · exact hcost t (by rw [(h.waiting t).1 ht]; rfl)
  · rw [hphase, hlocks]
    exact h.waiting
  · rw [hqueue]
    exact h.queueNodup
  · rw [hqueue, hphase]
    exact h.queue
  · rw [hqueue, hphase]
    exact h.queued
  · intro key fingerprint t hentry
    have hold := h.flight key fingerprint t (hflight key fingerprint t hentry)
    exact hold.keep hkeep (by rw [hphase]; exact hold.own)
  · rw [hphase]
    exact h.joins
  · intro t ht
    rw [hphase] at ht
    obtain ⟨instruction, htask⟩ := h.task t ht
    exact ⟨instruction, task?_keep hkeep htask⟩

theorem Coordinated.start : Coordinated host .start := by
  refine ⟨⟨⟨?_, ?_⟩, List.nodup_nil, ?_, ?_⟩, ?_, List.nodup_nil, ?_, ?_, ?_, ?_, ?_⟩ <;>
    simp [State.start, Phase.inside]

/-! ## Tasks that move on -/

section Moves

variable {s : State} (h : Coordinated host s)
include h

variable {t : TaskId} {result : InstructionResult}

/-- A task that holds its resources goes on, in its turn. -/
theorem Coordinated.advance {p : Phase} (hinside : (s.phase t).inside = true)
    (hturn : t ∈ s.commitQueue → s.commitQueue.head? = some t) (hp : p.running = true)
    (events : List Event) : Coordinated host ((s.setPhase t p).record events) := by
  have hsame : ∀ u, u ≠ t → ((s.setPhase t p).record events).phase u = s.phase u :=
    fun u hu => if_neg hu
  have hnew : ((s.setPhase t p).record events).phase t = p := if_pos rfl
  have hin : ∀ u, (((s.setPhase t p).record events).phase u).inside = (s.phase u).inside := by
    intro u
    by_cases hu : u = t
    · rw [hu, hnew, hinside, Phase.inside_of_running hp]
    · rw [hsame u hu]
  have hown : ∀ u, (s.phase u).own = true →
      (((s.setPhase t p).record events).phase u).own = true := by
    intro u hu
    by_cases hut : u = t
    · rw [hut, hnew]
      exact Phase.own_of_inside (Phase.inside_of_running hp)
    · rwa [hsame u hut]
  refine ⟨?_, fun u => ?_, h.queueNodup, fun u hu => ?_, fun u hu => ?_, ?_, fun u o hu => ?_,
    fun u hu => ?_⟩
  · simp only [hin]
    exact h.locks
  · show u ∈ s.locks.waiters ↔ _
    rw [h.waiting]
    by_cases hu : u = t
    · rw [hu, hnew]
      constructor
      · intro heq
        rw [heq] at hinside
        cases hinside
      · intro heq
        rw [heq] at hp
        cases hp
    · rw [hsame u hu]
  · by_cases hut : u = t
    · rw [hut, hnew]
      exact .inr ⟨hturn (hut ▸ hu), hp⟩
    · rw [hsame u hut]
      exact h.queue u hu
  · by_cases hut : u = t
    · rw [hut, hnew] at hu
      rw [hu] at hp
      cases hp
    · rw [hsame u hut] at hu
      exact h.queued u hu
  · intro key fingerprint u hentry
    have hold := h.flight key fingerprint u hentry
    exact ⟨hown u hold.own, hold.known⟩
  · have hut : u ≠ t := by
      rintro rfl
      rw [hnew] at hu
      rw [hu] at hp
      cases hp
    rw [hsame u hut] at hu
    exact hown o (h.joins u o hu)
  · by_cases hut : u = t
    · rw [hut]
      exact h.task t (Phase.ne_idle_of_own (Phase.own_of_inside hinside))
    · rw [hsame u hut] at hu
      exact h.task u hu

/-- A task with its resources enters the commit queue. -/
theorem Coordinated.enqueue (hphase : s.phase t = .granted) :
    Coordinated host { s.setPhase t .queued with commitQueue := s.commitQueue ++ [t] } := by
  have hfresh : t ∉ s.commitQueue := by
    intro hmem
    rcases h.queue t hmem with hq | ⟨-, hrunning⟩
    · rw [hphase] at hq
      cases hq
    · rw [hphase] at hrunning
      cases hrunning
  have hsame : ∀ u, u ≠ t → (s.setPhase t .queued).phase u = s.phase u := fun u hu => if_neg hu
  have hnew : (s.setPhase t .queued).phase t = .queued := if_pos rfl
  have hin : ∀ u, ((s.setPhase t .queued).phase u).inside = (s.phase u).inside := by
    intro u
    by_cases hu : u = t
    · rw [hu, hnew, hphase]
      rfl
    · rw [hsame u hu]
  have hown : ∀ u, (s.phase u).own = true → ((s.setPhase t .queued).phase u).own = true := by
    intro u hu
    by_cases hut : u = t
    · rw [hut, hnew]
      rfl
    · rwa [hsame u hut]
  refine ⟨?_, fun u => ?_, ?_, fun u hu => ?_, fun u hu => ?_, ?_, fun u o hu => ?_,
    fun u hu => ?_⟩
  · simp only [hin]
    exact h.locks
  · show u ∈ s.locks.waiters ↔ (s.setPhase t .queued).phase u = .waiting
    rw [h.waiting]
    by_cases hu : u = t
    · rw [hu, hnew, hphase]
      simp
    · rw [hsame u hu]
  · rw [List.nodup_append]
    refine ⟨h.queueNodup, by simp, fun a ha b hb hab => ?_⟩
    rw [List.mem_singleton] at hb
    exact hfresh (hb ▸ hab ▸ ha)
  · show (s.setPhase t .queued).phase u = .queued ∨ ((s.commitQueue ++ [t]).head? = some u ∧ _)
    by_cases hut : u = t
    · rw [hut, hnew]
      exact .inl rfl
    · have hu' : u ∈ s.commitQueue := by
        rcases List.mem_append.1 hu with hu | hu
        · exact hu
        · exact absurd (List.mem_singleton.1 hu) hut
      rcases h.queue u hu' with hq | ⟨hhead, hrunning⟩
      · exact .inl ((hsame u hut).trans hq)
      · refine .inr ⟨?_, ?_⟩
        · rw [List.head?_append, hhead]
          rfl
        · show ((s.setPhase t .queued).phase u).running = true
          rw [hsame u hut]
          exact hrunning
  · show u ∈ s.commitQueue ++ [t]
    by_cases hut : u = t
    · rw [hut]
      simp
    · exact List.mem_append_left _ (h.queued u ((hsame u hut).symm.trans hu))
  · intro key fingerprint u hentry
    have hold := h.flight key fingerprint u hentry
    exact ⟨hown u hold.own, hold.known⟩
  · have hut : u ≠ t := by
      rintro rfl
      have hu' : (s.setPhase u .queued).phase u = .joined o := hu
      rw [hnew] at hu'
      cases hu'
    exact hown o (h.joins u o ((hsame u hut).symm.trans hu))
  · by_cases hut : u = t
    · rw [hut]
      exact h.task t (by rw [hphase]; exact Phase.noConfusion)
    · exact h.task u (fun heq => hu ((hsame u hut).trans heq))

/-- The head of the commit queue is through. -/
theorem Coordinated.leaveQueue {rest : List TaskId} (hphase : s.phase t = .returned result)
    (hqueue : s.commitQueue = t :: rest) : Coordinated host { s with commitQueue := rest } := by
  have hnodup := h.queueNodup
  rw [hqueue, List.nodup_cons] at hnodup
  refine ⟨h.locks, h.waiting, hnodup.2, fun u hu => ?_, fun u hu => ?_, ?_, h.joins, h.task⟩
  · rcases h.queue u (hqueue ▸ List.mem_cons_of_mem _ hu) with hq | ⟨hhead, -⟩
    · exact .inl hq
    · rw [hqueue, List.head?_cons, Option.some.injEq] at hhead
      exact absurd (hhead ▸ hu) hnodup.1
  · have hmem := h.queued u hu
    rw [hqueue] at hmem
    rcases List.mem_cons.1 hmem with rfl | hmem
    · have hu' : s.phase u = .queued := hu
      rw [hphase] at hu'
      cases hu'
    · exact hmem
  · intro key fingerprint u hentry
    have hold := h.flight key fingerprint u hentry
    exact ⟨hold.own, hold.known⟩

/-- A task outside the commit queue moves, and some that waited get their resources. -/
theorem Coordinated.regrant {s' : State} (hruns : s'.runs = s.runs)
    (hqueue : s'.commitQueue = s.commitQueue) (hflight : s'.inFlight = s.inFlight)
    (hlocks : Locks.Sound s.cost s'.locks fun u => (s'.phase u).inside = true)
    (hwaiting : ∀ u, u ∈ s'.locks.waiters ↔ s'.phase u = .waiting)
    (hmoves : ∀ u, s'.phase u = s.phase u ∨ (s.phase u = .waiting ∧ s'.phase u = .granted) ∨
      (u ∉ s.commitQueue ∧ s'.phase u ≠ .queued ∧ (s'.phase u).own = true ∧
        ∃ instruction, s.task? u = some instruction)) :
    Coordinated host s' := by
  have htask : s'.task? = s.task? := by
    funext u
    unfold State.task?
    rw [hruns]
  have hown : ∀ u, (s.phase u).own = true → (s'.phase u).own = true := by
    intro u hu
    rcases hmoves u with hsame | ⟨-, hgranted⟩ | ⟨-, -, hnew, -⟩
    · rwa [hsame]
    · rw [hgranted]
      rfl
    · exact hnew
  refine ⟨?_, hwaiting, ?_, fun u hu => ?_, fun u hu => ?_, ?_, fun u o hu => ?_, fun u hu => ?_⟩
  · rw [State.cost_congr htask]
    exact hlocks
  · rw [hqueue]
    exact h.queueNodup
  · rw [hqueue] at hu ⊢
    rcases hmoves u with hsame | ⟨hold, -⟩ | ⟨hnot, -⟩
    · rw [hsame]
      exact h.queue u hu
    · rcases h.queue u hu with hq | ⟨-, hrunning⟩
      · rw [hold] at hq
        cases hq
      · rw [hold] at hrunning
        cases hrunning
    · exact absurd hu hnot
  · rw [hqueue]
    rcases hmoves u with hsame | ⟨-, hgranted⟩ | ⟨-, hnot, -⟩
    · exact h.queued u (hsame ▸ hu)
    · rw [hgranted] at hu
      cases hu
    · exact absurd hu hnot
  · intro key fingerprint u hentry
    rw [hflight] at hentry
    have hold := h.flight key fingerprint u hentry
    refine ⟨hown u hold.own, ?_⟩
    rw [hruns]
    exact hold.known
  · rcases hmoves u with hsame | ⟨-, hgranted⟩ | ⟨-, -, hnew, -⟩
    · exact hown o (h.joins u o (hsame ▸ hu))
    · rw [hgranted] at hu
      cases hu
    · rw [hu] at hnew
      cases hnew
  · rw [htask]
    rcases hmoves u with hsame | ⟨hold, -⟩ | ⟨-, -, -, htask⟩
    · exact h.task u (hsame ▸ hu)
    · exact h.task u (by rw [hold]; exact Phase.noConfusion)
    · exact htask

/-- Who gets its resources when a task gives them back was waiting. -/
theorem Coordinated.released_waiting (hphase : s.phase t = .returned result) :
    ∀ u ∈ (Locks.release s.cost s.locks t).1, u ≠ t ∧ s.phase u = .waiting := by
  intro u hu
  have hinside : (s.phase t).inside = true := by rw [hphase]; rfl
  have hwas : s.phase u = .waiting :=
    (h.waiting u).1 (((Locks.release_sound h.locks hinside).2.1 u).2 (.inl hu))
  refine ⟨?_, hwas⟩
  rintro rfl
  rw [hphase] at hwas
  cases hwas

/-- Who gets its resources when a task asks for them waits, it or another. -/
theorem Coordinated.acquired_waiting (hidle : s.phase t = .idle) :
    ∀ u ∈ (Locks.acquire s.cost s.locks t).1, (s.setPhase t .waiting).phase u = .waiting := by
  intro u hu
  have hnot : ¬ (s.phase t).inside = true := by
    rw [hidle]
    exact Bool.false_ne_true
  have hfresh : t ∉ s.locks.waiters := by
    rw [h.waiting, hidle]
    exact Phase.noConfusion
  have hmem := ((Locks.acquire_sound h.locks hnot hfresh).2.1 u).2 (.inl hu)
  show (if u = t then Phase.waiting else s.phase u) = .waiting
  split
  · rfl
  · rename_i hne
    exact (h.waiting u).1 (hmem.resolve_right hne)

/-- A task gives its resources back, and some that waited for them get theirs. -/
theorem Coordinated.release (hphase : s.phase t = .returned result) (hqueue : t ∉ s.commitQueue) :
    Coordinated host
      { (s.setPhase t (.resolved result)).grant (Locks.release s.cost s.locks t).1 with
        locks := (Locks.release s.cost s.locks t).2 } := by
  have hinside : (s.phase t).inside = true := by rw [hphase]; rfl
  obtain ⟨hsound, hmem, hdisjoint⟩ := Locks.release_sound h.locks hinside
  generalize (Locks.release s.cost s.locks t).1 = granted at hsound hmem hdisjoint ⊢
  generalize (Locks.release s.cost s.locks t).2 = locks at hsound hmem hdisjoint ⊢
  have hwas : ∀ u ∈ granted, s.phase u = .waiting :=
    fun u hu => (h.waiting u).1 ((hmem u).2 (.inl hu))
  have hgranted : t ∉ granted := by
    intro hmem
    have heq := hwas t hmem
    rw [hphase] at heq
    cases heq
  have hphase' : ∀ u, ((s.setPhase t (.resolved result)).grant granted).phase u =
      if u ∈ granted then .granted else if u = t then .resolved result else s.phase u :=
    fun u => rfl
  refine h.regrant rfl rfl rfl ?_ (fun u => ?_) fun u => ?_
  · have hin : ∀ u, (((s.setPhase t (.resolved result)).grant granted).phase u).inside = true ↔
        ((s.phase u).inside = true ∧ u ≠ t) ∨ u ∈ granted := by
      intro u
      rw [hphase']
      by_cases hu : u ∈ granted
      · simp [hu, Phase.inside]
      · by_cases hut : u = t
        · simp [hut, hgranted, Phase.inside]
        · simp [hu, hut]
    simp only [hin]
    exact hsound
  · show u ∈ locks.waiters ↔ ((s.setPhase t (.resolved result)).grant granted).phase u = .waiting
    rw [hphase']
    by_cases hu : u ∈ granted
    · simp [hu, hdisjoint u hu]
    · by_cases hut : u = t
      · subst hut
        simp only [if_neg hu, if_true]
        constructor
        · intro hwaits
          have heq := (h.waiting u).1 ((hmem u).2 (.inr hwaits))
          rw [hphase] at heq
          cases heq
        · intro heq
          cases heq
      · rw [if_neg hu, if_neg hut, ← h.waiting, hmem]
        simp [hu]
  · show ((s.setPhase t (.resolved result)).grant granted).phase u = s.phase u ∨ _
    by_cases hu : u ∈ granted
    · exact .inr (.inl ⟨hwas u hu, if_pos hu⟩)
    · by_cases hut : u = t
      · have hnew : ((s.setPhase t (.resolved result)).grant granted).phase u =
            .resolved result := by
          rw [hphase', if_neg hu, if_pos hut]
        refine .inr (.inr ⟨hut ▸ hqueue, ?_, ?_, ?_⟩)
        · show ((s.setPhase t (.resolved result)).grant granted).phase u ≠ .queued
          rw [hnew]
          exact Phase.noConfusion
        · show (((s.setPhase t (.resolved result)).grant granted).phase u).own = true
          rw [hnew]
          rfl
        · exact hut ▸ h.task t (by rw [hphase]; exact Phase.noConfusion)
      · exact .inl (by rw [hphase', if_neg hu, if_neg hut])

/-- An idle task asks for its resources. -/
theorem Coordinated.acquire (hidle : s.phase t = .idle)
    (htask : ∃ instruction, s.task? t = some instruction) :
    Coordinated host
      { (s.setPhase t .waiting).grant (Locks.acquire s.cost s.locks t).1 with
        locks := (Locks.acquire s.cost s.locks t).2 } := by
  have hnot : ¬ (s.phase t).inside = true := by
    rw [hidle]
    exact Bool.false_ne_true
  have hfresh : t ∉ s.locks.waiters := by
    intro hmem
    rw [h.waiting, hidle] at hmem
    cases hmem
  have hout : t ∉ s.commitQueue := by
    intro hmem
    rcases h.queue t hmem with hq | ⟨-, hrunning⟩
    · rw [hidle] at hq
      cases hq
    · rw [hidle] at hrunning
      cases hrunning
  obtain ⟨hsound, hmem, hdisjoint⟩ := Locks.acquire_sound h.locks hnot hfresh
  generalize (Locks.acquire s.cost s.locks t).1 = granted at hsound hmem hdisjoint ⊢
  generalize (Locks.acquire s.cost s.locks t).2 = locks at hsound hmem hdisjoint ⊢
  have hphase' : ∀ u, ((s.setPhase t .waiting).grant granted).phase u =
      if u ∈ granted then .granted else if u = t then .waiting else s.phase u :=
    fun u => rfl
  refine h.regrant rfl rfl rfl ?_ (fun u => ?_) fun u => ?_
  · have hin : ∀ u, (((s.setPhase t .waiting).grant granted).phase u).inside = true ↔
        (s.phase u).inside = true ∨ u ∈ granted := by
      intro u
      rw [hphase']
      by_cases hu : u ∈ granted
      · simp [hu, Phase.inside]
      · by_cases hut : u = t
        · subst hut
          simp [hu, hidle, Phase.inside]
        · simp [hu, hut]
    simp only [hin]
    exact hsound
  · show u ∈ locks.waiters ↔ ((s.setPhase t .waiting).grant granted).phase u = .waiting
    rw [hphase']
    by_cases hu : u ∈ granted
    · simp [hu, hdisjoint u hu]
    · have hstill : u ∈ locks.waiters ↔ u ∈ s.locks.waiters ∨ u = t := by
        rw [hmem]
        simp [hu]
      by_cases hut : u = t
      · rw [hstill, if_neg hu, if_pos hut]
        exact iff_of_true (.inr hut) rfl
      · rw [if_neg hu, if_neg hut, ← h.waiting, hstill]
        simp [hut]
  · show ((s.setPhase t .waiting).grant granted).phase u = s.phase u ∨ _
    by_cases hut : u = t
    · subst hut
      refine .inr (.inr ⟨hout, ?_, ?_, htask⟩)
      · show ((s.setPhase u .waiting).grant granted).phase u ≠ .queued
        rw [hphase']
        split <;> simp
      · show (((s.setPhase u .waiting).grant granted).phase u).own = true
        rw [hphase']
        split
        · rfl
        · rw [if_pos rfl]
          rfl
    · by_cases hu : u ∈ granted
      · refine .inr (.inl ⟨?_, if_pos hu⟩)
        exact (h.waiting u).1 (((hmem u).2 (.inl hu)).resolve_right hut)
      · exact .inl (by rw [hphase', if_neg hu, if_neg hut])

/-- An idle task is settled at once. -/
theorem Coordinated.resolve (hidle : s.phase t = .idle)
    (htask : ∃ instruction, s.task? t = some instruction) (result : InstructionResult)
    (events : List Event) : Coordinated host ((s.setPhase t (.resolved result)).record events) := by
  have hphase' : ∀ u, ((s.setPhase t (.resolved result)).record events).phase u =
      if u = t then .resolved result else s.phase u := fun u => rfl
  have hout : t ∉ s.commitQueue := by
    intro hmem
    rcases h.queue t hmem with hq | ⟨-, hrunning⟩
    · rw [hidle] at hq
      cases hq
    · rw [hidle] at hrunning
      cases hrunning
  refine h.regrant rfl rfl rfl ?_ (fun u => ?_) fun u => ?_
  · have hin : ∀ u, (((s.setPhase t (.resolved result)).record events).phase u).inside =
        (s.phase u).inside := by
      intro u
      rw [hphase']
      by_cases hut : u = t
      · rw [if_pos hut, hut, hidle]
        rfl
      · rw [if_neg hut]
    simp only [hin]
    exact h.locks
  · show u ∈ s.locks.waiters ↔ _
    rw [h.waiting, hphase']
    by_cases hut : u = t
    · rw [if_pos hut, hut, hidle]
      simp
    · rw [if_neg hut]
  · by_cases hut : u = t
    · refine .inr (.inr ⟨hut ▸ hout, ?_, ?_, hut ▸ htask⟩)
      · rw [hphase', if_pos hut]
        exact Phase.noConfusion
      · rw [hphase', if_pos hut]
        rfl
    · exact .inl (by rw [hphase', if_neg hut])

/-- An idle task waits for another one's promise. -/
theorem Coordinated.join {owner : TaskId} (hidle : s.phase t = .idle)
    (htask : ∃ instruction, s.task? t = some instruction) (howner : (s.phase owner).own = true)
    (events : List Event) : Coordinated host ((s.setPhase t (.joined owner)).record events) := by
  have hsame : ∀ u, u ≠ t → ((s.setPhase t (.joined owner)).record events).phase u = s.phase u :=
    fun u hu => if_neg hu
  have hnew : ((s.setPhase t (.joined owner)).record events).phase t = .joined owner := if_pos rfl
  have hin : ∀ u, (((s.setPhase t (.joined owner)).record events).phase u).inside =
      (s.phase u).inside := by
    intro u
    by_cases hu : u = t
    · rw [hu, hnew, hidle]
      rfl
    · rw [hsame u hu]
  have hown : ∀ u, (s.phase u).own = true →
      (((s.setPhase t (.joined owner)).record events).phase u).own = true := by
    intro u hu
    have hut : u ≠ t := by
      rintro rfl
      rw [hidle] at hu
      cases hu
    rwa [hsame u hut]
  refine ⟨?_, fun u => ?_, h.queueNodup, fun u hu => ?_, fun u hu => ?_, ?_, fun u o hu => ?_,
    fun u hu => ?_⟩
  · simp only [hin]
    exact h.locks
  · show u ∈ s.locks.waiters ↔ _
    rw [h.waiting]
    by_cases hu : u = t
    · rw [hu, hnew, hidle]
      simp
    · rw [hsame u hu]
  · have hut : u ≠ t := by
      rintro rfl
      rcases h.queue u hu with hq | ⟨-, hrunning⟩
      · rw [hidle] at hq
        cases hq
      · rw [hidle] at hrunning
        cases hrunning
    rw [hsame u hut]
    exact h.queue u hu
  · by_cases hut : u = t
    · rw [hut, hnew] at hu
      cases hu
    · rw [hsame u hut] at hu
      exact h.queued u hu
  · intro key fingerprint u hentry
    have hold := h.flight key fingerprint u hentry
    exact ⟨hown u hold.own, hold.known⟩
  · by_cases hut : u = t
    · rw [hut, hnew, Phase.joined.injEq] at hu
      exact hu ▸ hown owner howner
    · rw [hsame u hut] at hu
      exact hown o (h.joins u o hu)
  · by_cases hut : u = t
    · exact hut ▸ htask
    · rw [hsame u hut] at hu
      exact h.task u hu

/-- A key is taken by a task that has begun. -/
theorem Coordinated.register (run : Run) {instruction : Instruction}
    (hown : (s.phase t).own = true) (hrun : s.runs[t.run]? = some run)
    (hby : byId run.program t.id = some instruction) :
    Coordinated host
      { s with inFlight := fun k =>
          if k = joinKey host run.program instruction then
            some (instructionFingerprint host run.program instruction, t)
          else s.inFlight k } := by
  refine ⟨h.locks, h.waiting, h.queueNodup, h.queue, h.queued, fun key fingerprint u hentry => ?_,
    h.joins, h.task⟩
  by_cases hkey : key = joinKey host run.program instruction
  · simp only [if_pos hkey, Option.some.injEq, Prod.mk.injEq] at hentry
    obtain ⟨rfl, rfl⟩ := hentry
    exact ⟨hown, run, instruction, hrun, hby, hkey, rfl⟩
  · simp only [if_neg hkey] at hentry
    have hold := h.flight key fingerprint u hentry
    exact ⟨hold.own, hold.known⟩

end Moves

/-- A task that asked for its resources waits for them or has them. -/
theorem own_of_entered (s : State) (t : TaskId) (granted : List TaskId) :
    (((s.setPhase t .waiting).grant granted).phase t).own = true := by
  have hphase : ((s.setPhase t .waiting).grant granted).phase t =
      if t ∈ granted then .granted else if t = t then .waiting else s.phase t := rfl
  rw [hphase, if_pos rfl]
  split <;> rfl

theorem checkFrom_running (s : State) (r : RunId) (run : Run) (instruction : Instruction)
    (index : Nat) (conditions : List Precondition) :
    (checkFrom s r run instruction index conditions).running = true := by
  induction conditions generalizing index with
  | nil =>
    unfold checkFrom
    split <;> rfl
  | cons condition conditions ih =>
    cases condition with
    | instructionStatus =>
      unfold checkFrom
      split
      · exact ih (index + 1)
      · rfl
    | external =>
      unfold checkFrom
      split <;> rfl

theorem runBody_running (s : State) (r : RunId) (run : Run) (instruction : Instruction) :
    (runBody s r run instruction).running = true := by
  unfold runBody
  split
  · rfl
  · exact checkFrom_running ..

theorem afterAnswer_running (s : State) (r : RunId) (run : Run) (instruction : Instruction)
    (index : Nat) (answer : Except String PreconditionVerdict) :
    (afterAnswer s r run instruction index answer).running = true := by
  unfold afterAnswer
  split
  · exact checkFrom_running ..
  · rfl
  · rfl

theorem keepsPrograms_of_runs (h : s'.runs = s.runs) : KeepsPrograms s s' :=
  fun _ run hrun => ⟨run, by rw [h, hrun], rfl⟩

/-- A task whose body has begun is at the head of the commit queue, or not in it. -/
theorem Coordinated.head_of_running (h : Coordinated host s) (hphase : s.phase t ≠ .queued)
    (ht : t ∈ s.commitQueue) : s.commitQueue.head? = some t :=
  ((h.queue t ht).resolve_left hphase).1

/-- The coordinator's invariant is kept by every step, where a scan meets idle tasks only. -/
theorem Coordinated.step {l : Label} (h : Coordinated host s) (hstep : Step host s l s')
    (hidle : ∀ (r : RunId) (run : Run) (id : InstructionId) (rest : List InstructionId)
      (progressed : Bool), s.runs[r]? = some run → run.loop = .scanning (id :: rest) progressed →
      s.phase ⟨r, id⟩ = .idle) : Coordinated host s' := by
  cases hstep with
  | launch =>
    refine h.frame (fun r run hrun => ⟨run, ?_, rfl⟩) rfl rfl rfl fun _ _ _ he => he
    show (s.runs ++ [_])[r]? = some run
    rw [List.getElem?_append_left (List.getElem?_eq_some_iff.1 hrun).1]
    exact hrun
  | cancel r run hrun =>
    exact h.frame (keepsPrograms_setRun (s := s.cancelPending r run) hrun rfl) rfl rfl rfl
      fun _ _ _ he => he
  | abort _ _ hrun | iterate _ _ hrun | finish _ _ hrun | full _ _ _ _ _ hrun
  | blocked _ _ _ _ _ _ hrun | race _ _ _ hrun | again _ _ _ hrun | stuck _ _ hrun
  | wake _ _ _ hrun =>
    exact h.frame (keepsPrograms_setRun hrun rfl) rfl rfl rfl fun _ _ _ he => he
  | skip r run id rest progressed instruction d hrun =>
    exact h.frame (keepsPrograms_setRun (s := s.finish ⟨r, id⟩ _) hrun rfl) rfl rfl rfl
      fun _ _ _ he => he
  | conflict r run id rest progressed instruction fingerprint owner hrun =>
      exact h.frame (keepsPrograms_setRun
        (s := (s.record [.conflicted ⟨r, id⟩ owner]).finish ⟨r, id⟩ _) hrun rfl) rfl rfl rfl
        fun _ _ _ he => he
  | join r run id rest progressed instruction owner hrun hloop hroom hby hready hfailed hflight =>
    have htask : s.task? ⟨r, id⟩ = some instruction := (State.task?_eq hrun).trans hby
    have hjoined := h.join (hidle r run id rest progressed hrun hloop) ⟨instruction, htask⟩
      (h.flight _ _ _ hflight).own [.joined ⟨r, id⟩ owner]
    exact hjoined.frame (keepsPrograms_setRun (s := State.record _ _) hrun rfl) rfl rfl rfl
      fun _ _ _ he => he
  | own r run id rest progressed instruction hrun hloop hroom hby =>
    have hphase := hidle r run id rest progressed hrun hloop
    have htask : s.task? ⟨r, id⟩ = some instruction := (State.task?_eq hrun).trans hby
    unfold State.startOwn
    simp only
    split
    · have hentered := h.resolve hphase ⟨instruction, htask⟩ (abortOutcome instruction)
        [.cut ⟨r, id⟩]
      have hset := hentered.frame
        (@keepsPrograms_setRun (State.record _ _) r run (run.started id rest) hrun rfl)
        rfl rfl rfl fun _ _ _ he => he
      refine hset.register (run.started id rest) ?_ ?_ hby
      · show (if (⟨r, id⟩ : TaskId) = ⟨r, id⟩ then Phase.resolved _ else _).own = true
        rw [if_pos rfl]
        rfl
      · exact State.getElem?_set_self hrun
    · have hentered := h.acquire hphase ⟨instruction, htask⟩
      have hset := hentered.frame
        (@keepsPrograms_setRun { (s.setPhase ⟨r, id⟩ .waiting).grant _ with locks := _ } r run
          (run.started id rest) hrun rfl)
        rfl rfl rfl fun _ _ _ he => he
      refine hset.register (run.started id rest) ?_ ?_ hby
      · exact own_of_entered s ⟨r, id⟩ _
      · exact State.getElem?_set_self hrun
  | enqueue t instruction hphase => exact h.enqueue hphase
  | resume t run instruction hphase =>
    have hinside : (s.phase t).inside = true := by rw [hphase]; rfl
    refine h.advance hinside (fun ht => h.head_of_running ?_ ht) (runBody_running ..) _
    rw [hphase]
    exact Phase.noConfusion
  | turn t run instruction hphase hhead =>
    have hinside : (s.phase t).inside = true := by rw [hphase]; rfl
    exact h.advance hinside (fun _ => hhead) (runBody_running ..) _
  | answer t run instruction index answer hphase =>
    have hinside : (s.phase t).inside = true := by rw [hphase]; rfl
    have hrecorded : Coordinated host (s.record (answerEvents t index answer)) :=
      h.frame (keepsPrograms_of_runs rfl) rfl rfl rfl fun _ _ _ he => he
    refine hrecorded.advance hinside (fun ht => h.head_of_running ?_ ht)
      (afterAnswer_running ..) _
    rw [hphase]
    exact Phase.noConfusion
  | settle t run instruction answer hphase =>
    have hinside : (s.phase t).inside = true := by rw [hphase]; rfl
    refine h.advance hinside (fun ht => h.head_of_running ?_ ht) rfl _
    rw [hphase]
    exact Phase.noConfusion
  | leaveQueue t result rest hphase hqueue => exact h.leaveQueue hphase hqueue
  | release t result hphase hqueue => exact h.release hphase hqueue
  | forget t result key =>
    refine h.frame (keepsPrograms_of_runs rfl) rfl rfl rfl fun k f u hentry => ?_
    by_cases hk : k = key
    · simp [hk] at hentry
    · simpa [hk] using hentry
  | deliver | deliverJoined =>
    exact h.frame (keepsPrograms_of_runs rfl) rfl rfl rfl fun _ _ _ he => he

end XioFlow.Pipeline
