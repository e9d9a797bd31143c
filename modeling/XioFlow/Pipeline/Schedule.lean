/-
  XioFlow.Pipeline.Schedule

  The invariant of the scheduling loops: each instruction is pending, active
  or completed, what has begun had all its dependencies, and a loop that has
  nothing active cannot be stuck.
-/

import XioFlow.Pipeline.Accepted
import XioFlow.Pipeline.Coordination

namespace XioFlow.Pipeline

open Lib

/-! ## The invariant of a run -/

/-- A result that no dependent goes on after, and no executor gave. -/
def InstructionResult.unsuccessful (result : InstructionResult) : Prop :=
  result.status = .partialDone ∨ result.status = .cancelled ∨ result.status = .failed

structure Scheduled (s : State) (r : RunId) (run : Run) : Prop where
  accepted : Accepted run.program
  pendingNodup : run.pending.Nodup
  pending : ∀ id ∈ run.pending, (∃ instruction, byId run.program id = some instruction) ∧
    s.phase ⟨r, id⟩ = .idle ∧ s.completed ⟨r, id⟩ = none
  activeNodup : run.active.Nodup
  active : ∀ id ∈ run.active, s.phase ⟨r, id⟩ ≠ .idle
  capacity : run.active.length ≤ run.limit
  covered : ∀ id ∈ instructionIds run.program,
    id ∈ run.pending ∨ id ∈ run.active ∨ s.completed ⟨r, id⟩ ≠ none
  started : ∀ id, s.phase ⟨r, id⟩ ≠ .idle → id ∈ run.active ∨ s.completed ⟨r, id⟩ ≠ none
  done : ∀ id, s.completed ⟨r, id⟩ ≠ none → s.phase ⟨r, id⟩ = .idle ∨
    (∃ owner, s.phase ⟨r, id⟩ = .joined owner) ∨ ∃ result, s.phase ⟨r, id⟩ = .resolved result
  dependencies : ∀ id instruction, s.phase ⟨r, id⟩ ≠ .idle →
    byId run.program id = some instruction → ∀ d ∈ instruction.dependsOn,
      ∃ result, s.completed ⟨r, .text d⟩ = some result ∧ dependencySucceeded result = true
  unstarted : ∀ id result, s.completed ⟨r, id⟩ = some result → s.phase ⟨r, id⟩ = .idle →
    result.unsuccessful
  scanning : ∀ rest progressed, run.loop = .scanning rest progressed →
    rest.Nodup ∧ ∀ id ∈ rest, id ∈ run.pending
  blocked : ∀ rest, run.loop = .scanning rest false → run.active ≠ [] ∨
    ∀ id ∈ run.pending, id ∉ rest → ∃ instruction, byId run.program id = some instruction ∧
      ∃ d ∈ instruction.dependsOn, s.completed ⟨r, .text d⟩ = none
  racing : run.loop = .racing → run.active ≠ []
  settled : ∀ result, run.loop = .settled result → run.pending = [] ∧ run.active = [] ∧
    result = ⟨finalStatus (s.results r run.program), s.results r run.program⟩

/-- All runs are scheduled, and only tasks of runs are completed. -/
structure Schedules (s : State) : Prop where
  runs : ∀ (r : RunId) (run : Run), s.runs[r]? = some run → Scheduled s r run
  known : ∀ t, s.completed t ≠ none → ∃ run, s.runs[t.run]? = some run

theorem Schedules.start : Schedules .start :=
  ⟨fun r run h => by simp [State.start] at h, fun t h => absurd rfl h⟩

/-- What other tasks do to a run does not show in its schedule: none begins, none is completed,
    and what is completed stays where it is. -/
structure Untouched (s s' : State) (t : TaskId) : Prop where
  completed : s'.completed t = s.completed t
  idle : s'.phase t = .idle ↔ s.phase t = .idle
  still : s.completed t ≠ none → s'.phase t = s.phase t

theorem Untouched.refl (s : State) (t : TaskId) : Untouched s s t := ⟨rfl, Iff.rfl, fun _ => rfl⟩

variable {s' : State}

variable {s : State}

theorem Untouched.setRun {t : TaskId} (h : Untouched s s' t) (r : RunId) (run : Run) :
    Untouched s (s'.setRun r run) t :=
  ⟨h.completed, h.idle, h.still⟩

theorem Scheduled.frame {r : RunId} {run : Run} (h : Scheduled s r run)
    (hsame : ∀ id, Untouched s s' ⟨r, id⟩) : Scheduled s' r run := by
  have hresults : s'.results r run.program = s.results r run.program := by
    unfold State.results
    exact List.map_congr_left fun instruction _ => by rw [(hsame instruction.id).completed]
  refine ⟨h.accepted, h.pendingNodup, fun id hid => ?_, h.activeNodup, fun id hid => ?_,
    h.capacity, fun id hid => ?_, fun id hid => ?_, fun id hid => ?_,
    fun id instruction hid hby d hd => ?_, fun id result hres hid => ?_, h.scanning,
    fun rest hloop => ?_, h.racing, fun result hloop => ?_⟩
  · obtain ⟨hby, hidle, hnone⟩ := h.pending id hid
    exact ⟨hby, (hsame id).idle.2 hidle, (hsame id).completed.trans hnone⟩
  · exact fun hidle => h.active id hid ((hsame id).idle.1 hidle)
  · rw [(hsame id).completed]
    exact h.covered id hid
  · rw [(hsame id).completed]
    exact h.started id fun hidle => hid ((hsame id).idle.2 hidle)
  · rw [(hsame id).completed] at hid
    rw [(hsame id).still hid]
    exact h.done id hid
  · rw [(hsame (.text d)).completed]
    exact h.dependencies id instruction (fun hidle => hid ((hsame id).idle.2 hidle)) hby d hd
  · rw [(hsame id).completed] at hres
    exact h.unstarted id result hres ((hsame id).idle.1 hid)
  · refine (h.blocked rest hloop).imp id fun hall i hi hrest => ?_
    obtain ⟨instruction, hby, d, hd, hnone⟩ := hall i hi hrest
    exact ⟨instruction, hby, d, hd, (hsame (.text d)).completed.trans hnone⟩
  · rw [hresults]
    exact h.settled result hloop

/-- A step that changes one run, and of the others only what does not show. -/
theorem Schedules.update (h : Schedules s) {r : RunId} {run' : Run}
    (hruns : ∀ r' : RunId, s'.runs[r']? = if r' = r then some run' else s.runs[r']?)
    (hother : ∀ t, t.run ≠ r → Untouched s s' t) (hnew : Scheduled s' r run') : Schedules s' := by
  constructor
  · intro r' run hrun
    rw [hruns] at hrun
    split at hrun
    · rename_i heq
      obtain rfl := Option.some.inj hrun
      exact heq ▸ hnew
    · rename_i hne
      exact (h.runs r' run hrun).frame fun id => hother ⟨r', id⟩ hne
  · intro t ht
    rw [hruns]
    split
    · exact ⟨run', rfl⟩
    · rename_i hne
      rw [(hother t hne).completed] at ht
      exact h.known t ht

/-- A step that changes no run and completes nothing. -/
theorem Schedules.frame (h : Schedules s) (hruns : s'.runs = s.runs)
    (hsame : ∀ t, Untouched s s' t) : Schedules s' := by
  constructor
  · intro r run hrun
    rw [hruns] at hrun
    exact (h.runs r run hrun).frame fun id => hsame ⟨r, id⟩
  · intro t ht
    rw [hruns]
    rw [(hsame t).completed] at ht
    exact h.known t ht

/-! ## Steps of the loop -/

section Steps

variable {host : PipelineHost} {s : State} {r : RunId} {run : Run} {id : InstructionId}

/-- A task that holds resources or waits for them is not completed. -/
theorem Scheduled.completed_none (h : Scheduled s r run)
    (hown : (s.phase ⟨r, id⟩).own = true) (hnot : ∀ result, s.phase ⟨r, id⟩ ≠ .resolved result) :
    s.completed ⟨r, id⟩ = none := by
  by_contra hne
  rcases h.done id hne with hidle | ⟨owner, hjoined⟩ | ⟨result, hresolved⟩
  · rw [hidle] at hown
    cases hown
  · rw [hjoined] at hown
    cases hown
  · exact hnot result hresolved

variable {instruction : Instruction}

variable {program : Program}

theorem byId_mem (h : byId program id = some instruction) :
    instruction ∈ program.instructions ∧ instruction.id = id := by
  unfold byId at h
  have hmem := List.mem_reverse.1 (List.mem_of_find?_eq_some h)
  have hid : instruction.id = id := by simpa using List.find?_some h
  exact ⟨hmem, hid⟩

theorem byId_exists (h : id ∈ instructionIds program) :
    ∃ instruction, byId program id = some instruction := by
  obtain ⟨instruction, hmem, rfl⟩ := List.mem_map.1 h
  cases hby : byId program instruction.id with
  | some found => exact ⟨found, rfl⟩
  | none =>
    have hnot := List.find?_eq_none.1 hby instruction (List.mem_reverse.2 hmem)
    exact absurd (decide_eq_true rfl) hnot

/-- A run whose instructions wait for each other cannot have an accepted program. -/
theorem Scheduled.not_stuck (h : Scheduled s r run) (hloop : run.loop = .scanning [] false)
    (hactive : run.active = []) (hpending : run.pending ≠ []) : False := by
  have hblocked := (h.blocked [] hloop).resolve_left (fun hne => hne hactive)
  obtain ⟨rank, hrank⟩ := h.accepted.exists_rank
  -- among the pending instructions with least rank there is none
  have hnone : ∀ (n : Nat) (id : InstructionId), id ∈ run.pending → rank id = n → False := by
    intro n
    induction n using Nat.strong_induction_on with
    | _ n ih =>
      intro id hid hn
      obtain ⟨instruction, hby, d, hd, hd_none⟩ := hblocked id hid List.not_mem_nil
      obtain ⟨hmem, hid'⟩ := byId_mem hby
      have hlt := hrank instruction hmem d hd
      rw [hid', hn] at hlt
      obtain ⟨dependency, hdmem, hdid⟩ := h.accepted.dependency_declared hmem hd
      have hcovered := h.covered (.text d) (List.mem_map.2 ⟨dependency, hdmem, hdid⟩)
      rw [hactive, hd_none] at hcovered
      rcases hcovered with hdp | hda | hdc
      · exact ih _ hlt (.text d) hdp rfl
      · cases hda
      · exact hdc rfl
  obtain ⟨id, hid⟩ := List.exists_mem_of_ne_nil _ hpending
  exact hnone _ id hid rfl

/-- The same run at another place of its loop. -/
theorem Scheduled.withLoop (h : Scheduled s r run) (loop : Loop)
    (hscanning : ∀ rest progressed, loop = .scanning rest progressed →
      rest.Nodup ∧ ∀ id ∈ rest, id ∈ run.pending)
    (hblocked : ∀ rest, loop = .scanning rest false → run.active ≠ [] ∨
      ∀ id ∈ run.pending, id ∉ rest → ∃ instruction, byId run.program id = some instruction ∧
        ∃ d ∈ instruction.dependsOn, s.completed ⟨r, .text d⟩ = none)
    (hracing : loop = .racing → run.active ≠ [])
    (hsettled : ∀ result, loop = .settled result → run.pending = [] ∧ run.active = [] ∧
      result = ⟨finalStatus (s.results r run.program), s.results r run.program⟩) :
    Scheduled s r { run with loop := loop } :=
  ⟨h.accepted, h.pendingNodup, h.pending, h.activeNodup, h.active, h.capacity, h.covered,
    h.started, h.done, h.dependencies, h.unstarted, hscanning, hblocked, hracing, hsettled⟩

theorem Schedules.withLoop (h : Schedules s) (hrun : s.runs[r]? = some run) {run' : Run}
    (hnew : Scheduled s r run') : Schedules (s.setRun r run') :=
  h.update (fun _ => State.getElem?_setRun hrun) (fun _ _ => ⟨rfl, Iff.rfl, fun _ => rfl⟩)
    (hnew.frame fun _ => ⟨rfl, Iff.rfl, fun _ => rfl⟩)

/-- A pending instruction is completed without a start. -/
theorem Scheduled.scanned (h : Scheduled s r run)
    {rest : List InstructionId} {progressed : Bool}
    (hloop : run.loop = .scanning (id :: rest) progressed) {result : InstructionResult}
    (hresult : result.unsuccessful) :
    Scheduled (s.finish ⟨r, id⟩ result) r (run.scanned id rest) := by
  obtain ⟨hnodup, hsub⟩ := h.scanning _ _ hloop
  have hid : id ∈ run.pending := hsub id List.mem_cons_self
  obtain ⟨hby, hidle, hnone⟩ := h.pending id hid
  have hself : (s.finish ⟨r, id⟩ result).completed ⟨r, id⟩ = some result := if_pos rfl
  have hsame : ∀ j, j ≠ id → (s.finish ⟨r, id⟩ result).completed ⟨r, j⟩ = s.completed ⟨r, j⟩ := by
    intro j hj
    exact if_neg fun heq => hj (congrArg TaskId.id heq)
  have hkeep : ∀ j res, s.completed ⟨r, j⟩ = some res →
      (s.finish ⟨r, id⟩ result).completed ⟨r, j⟩ = some res := by
    intro j res hres
    have hj : j ≠ id := by
      rintro rfl
      rw [hnone] at hres
      cases hres
    exact (hsame j hj).trans hres
  have hmem : ∀ j, j ∈ run.pending.erase id ↔ j ≠ id ∧ j ∈ run.pending :=
    fun j => h.pendingNodup.mem_erase_iff
  refine ⟨h.accepted, h.pendingNodup.erase id, fun j hj => ?_, h.activeNodup, h.active,
    h.capacity, fun j hj => ?_, fun j hj => ?_, fun j hj => ?_,
    fun j instruction hj hbyj d hd => ?_, fun j res hres hj => ?_, fun rest' p hscan => ?_,
    fun rest' hscan => ?_, fun hrace => ?_, fun res hset => ?_⟩
  · obtain ⟨hne, hj⟩ := (hmem j).1 hj
    obtain ⟨hbyj, hidlej, hnonej⟩ := h.pending j hj
    exact ⟨hbyj, hidlej, (hsame j hne).trans hnonej⟩
  · by_cases hne : j = id
    · refine .inr (.inr ?_)
      rw [hne, hself]
      exact Option.some_ne_none _
    · rw [hsame j hne]
      exact (h.covered j hj).imp_left fun hp => (hmem j).2 ⟨hne, hp⟩
  · have hne : j ≠ id := by
      rintro rfl
      exact hj hidle
    rw [hsame j hne]
    exact h.started j hj
  · by_cases hne : j = id
    · rw [hne]
      exact .inl hidle
    · rw [hsame j hne] at hj
      exact h.done j hj
  · obtain ⟨res, hres, hok⟩ := h.dependencies j instruction hj hbyj d hd
    exact ⟨res, hkeep _ res hres, hok⟩
  · by_cases hne : j = id
    · rw [hne, hself, Option.some.injEq] at hres
      exact hres ▸ hresult
    · rw [hsame j hne] at hres
      exact h.unstarted j res hres hj
  · obtain ⟨rfl, -⟩ := Loop.scanning.inj hscan
    obtain ⟨hfresh, hrest⟩ := List.nodup_cons.1 hnodup
    refine ⟨hrest, fun j hj => (hmem j).2 ⟨?_, hsub j (List.mem_cons_of_mem _ hj)⟩⟩
    rintro rfl
    exact hfresh hj
  · obtain ⟨-, hp⟩ := Loop.scanning.inj hscan
    cases hp
  · cases hrace
  · cases hset

theorem succeeded_of_failedDependency
    (hready : ∀ d ∈ instruction.dependsOn, s.completed ⟨r, .text d⟩ ≠ none)
    (hfailed : failedDependency s r instruction = none) {d : String}
    (hd : d ∈ instruction.dependsOn) :
    ∃ result, s.completed ⟨r, .text d⟩ = some result ∧ dependencySucceeded result = true := by
  obtain ⟨result, hresult⟩ := Option.ne_none_iff_exists'.1 (hready d hd)
  refine ⟨result, hresult, ?_⟩
  have hnot := List.find?_eq_none.1 hfailed d hd
  simpa [hresult] using hnot

/-- A pending instruction begins. -/
theorem Scheduled.started_of (h : Scheduled s r run) {s' : State}
    {rest : List InstructionId} {progressed : Bool}
    (hloop : run.loop = .scanning (id :: rest) progressed) (hroom : run.active.length < run.limit)
    (hby : byId run.program id = some instruction)
    (hready : ∀ d ∈ instruction.dependsOn, s.completed ⟨r, .text d⟩ ≠ none)
    (hfailed : failedDependency s r instruction = none) (hcompleted : s'.completed = s.completed)
    (hbegun : s'.phase ⟨r, id⟩ ≠ .idle) (hother : ∀ j, j ≠ id → Untouched s s' ⟨r, j⟩) :
    Scheduled s' r (run.started id rest) := by
  obtain ⟨hnodup, hsub⟩ := h.scanning _ _ hloop
  have hid : id ∈ run.pending := hsub id List.mem_cons_self
  obtain ⟨-, hidle, hnone⟩ := h.pending id hid
  have hmem : ∀ j, j ∈ run.pending.erase id ↔ j ≠ id ∧ j ∈ run.pending :=
    fun j => h.pendingNodup.mem_erase_iff
  have hfresh : id ∉ run.active := fun hactive => h.active id hactive hidle
  refine ⟨h.accepted, h.pendingNodup.erase id, fun j hj => ?_, ?_, fun j hj => ?_, ?_,
    fun j hj => ?_, fun j hj => ?_, fun j hj => ?_, fun j found hj hbyj d hd => ?_,
    fun j res hres hj => ?_, fun rest' p hscan => ?_, fun rest' hscan => ?_, fun hrace => ?_,
    fun res hset => ?_⟩
  · obtain ⟨hne, hj⟩ := (hmem j).1 hj
    obtain ⟨hbyj, hidlej, hnonej⟩ := h.pending j hj
    exact ⟨hbyj, (hother j hne).idle.2 hidlej, by rw [hcompleted, hnonej]⟩
  · show (run.active ++ [id]).Nodup
    rw [List.nodup_append]
    refine ⟨h.activeNodup, by simp, fun a ha b hb hab => ?_⟩
    rw [List.mem_singleton] at hb
    exact hfresh (hb ▸ hab ▸ ha)
  · rcases List.mem_append.1 hj with hj | hj
    · have hne : j ≠ id := fun heq => hfresh (heq ▸ hj)
      exact fun hidlej => h.active j hj ((hother j hne).idle.1 hidlej)
    · exact (List.mem_singleton.1 hj) ▸ hbegun
  · show (run.active ++ [id]).length ≤ run.limit
    rw [List.length_append, List.length_singleton]
    exact hroom
  · rw [hcompleted]
    by_cases hne : j = id
    · exact .inr (.inl (by rw [hne]; exact List.mem_append_right _ List.mem_cons_self))
    · rcases h.covered j hj with hp | ha | hc
      · exact .inl ((hmem j).2 ⟨hne, hp⟩)
      · exact .inr (.inl (List.mem_append_left _ ha))
      · exact .inr (.inr hc)
  · rw [hcompleted]
    by_cases hne : j = id
    · exact .inl (by rw [hne]; exact List.mem_append_right _ List.mem_cons_self)
    · exact (h.started j fun hidlej => hj ((hother j hne).idle.2 hidlej)).imp_left
        (List.mem_append_left _)
  · rw [hcompleted] at hj
    have hne : j ≠ id := by
      rintro rfl
      exact hj hnone
    rw [(hother j hne).still hj]
    exact h.done j hj
  · rw [hcompleted]
    by_cases hne : j = id
    · have hbyj' : byId run.program id = some found := hne ▸ hbyj
      rw [hby, Option.some.injEq] at hbyj'
      exact succeeded_of_failedDependency hready hfailed (hbyj' ▸ hd)
    · exact h.dependencies j found (fun hidlej => hj ((hother j hne).idle.2 hidlej)) hbyj d hd
  · rw [hcompleted] at hres
    have hne : j ≠ id := by
      rintro rfl
      rw [hnone] at hres
      cases hres
    exact h.unstarted j res hres ((hother j hne).idle.1 hj)
  · obtain ⟨rfl, -⟩ := Loop.scanning.inj hscan
    obtain ⟨hnot, hrest⟩ := List.nodup_cons.1 hnodup
    refine ⟨hrest, fun j hj => (hmem j).2 ⟨?_, hsub j (List.mem_cons_of_mem _ hj)⟩⟩
    rintro rfl
    exact hnot hj
  · obtain ⟨-, hp⟩ := Loop.scanning.inj hscan
    cases hp
  · cases hrace
  · cases hset

/-- The result of a begun instruction arrives. -/
theorem Scheduled.delivered (h : Scheduled s r run)
    (hbegun : (∃ owner, s.phase ⟨r, id⟩ = .joined owner) ∨
      ∃ result, s.phase ⟨r, id⟩ = .resolved result)
    (hnone : s.completed ⟨r, id⟩ = none) (result : InstructionResult) :
    Scheduled (s.finish ⟨r, id⟩ result) r run := by
  have hnot : s.phase ⟨r, id⟩ ≠ .idle := by
    intro hidle
    rcases hbegun with ⟨owner, heq⟩ | ⟨res, heq⟩ <;>
    · rw [hidle] at heq
      cases heq
  have hactive : id ∈ run.active := (h.started id hnot).resolve_right fun hne => hne hnone
  have hne_nil : run.active ≠ [] := List.ne_nil_of_mem hactive
  have hself : (s.finish ⟨r, id⟩ result).completed ⟨r, id⟩ = some result := if_pos rfl
  have hsame : ∀ j, j ≠ id → (s.finish ⟨r, id⟩ result).completed ⟨r, j⟩ = s.completed ⟨r, j⟩ := by
    intro j hj
    exact if_neg fun heq => hj (congrArg TaskId.id heq)
  have hmore : ∀ j, s.completed ⟨r, j⟩ ≠ none →
      (s.finish ⟨r, id⟩ result).completed ⟨r, j⟩ = s.completed ⟨r, j⟩ := by
    intro j hj
    refine hsame j ?_
    rintro rfl
    exact hj hnone
  refine ⟨h.accepted, h.pendingNodup, fun j hj => ?_, h.activeNodup, h.active, h.capacity,
    fun j hj => ?_, fun j hj => ?_, fun j hj => ?_, fun j instruction hj hby d hd => ?_,
    fun j res hres hj => ?_, h.scanning, fun _ _ => .inl hne_nil, h.racing, fun res hset => ?_⟩
  · obtain ⟨hby, hidle, hnonej⟩ := h.pending j hj
    have hne : j ≠ id := by
      rintro rfl
      exact hnot hidle
    exact ⟨hby, hidle, (hsame j hne).trans hnonej⟩
  · refine (h.covered j hj).imp_right fun hrest => hrest.imp_right fun hc => ?_
    rwa [hmore j hc]
  · refine (h.started j hj).imp_right fun hc => ?_
    rwa [hmore j hc]
  · by_cases hne : j = id
    · rw [hne]
      exact .inr hbegun
    · rw [hsame j hne] at hj
      exact h.done j hj
  · obtain ⟨res, hres, hok⟩ := h.dependencies j instruction hj hby d hd
    refine ⟨res, ?_, hok⟩
    rw [hmore _ (by rw [hres]; exact Option.some_ne_none _), hres]
  · have hne : j ≠ id := by
      rintro rfl
      exact hnot hj
    rw [hsame j hne] at hres
    exact h.unstarted j res hres hj
  · exact absurd (h.settled res hset).2.1 hne_nil

/-- What is completed is no longer active. -/
theorem Scheduled.woken (h : Scheduled s r run) :
    Scheduled s r { run with
      active := run.active.filter fun id => decide (s.completed ⟨r, id⟩ = none)
      loop := .ready } := by
  have hmem : ∀ j, j ∈ (run.active.filter fun id => decide (s.completed ⟨r, id⟩ = none)) ↔
      j ∈ run.active ∧ s.completed ⟨r, j⟩ = none := by
    intro j
    simp
  have hor : ∀ j, j ∈ run.active ∨ s.completed ⟨r, j⟩ ≠ none →
      j ∈ (run.active.filter fun id => decide (s.completed ⟨r, id⟩ = none)) ∨
        s.completed ⟨r, j⟩ ≠ none := by
    intro j hj
    by_cases hnone : s.completed ⟨r, j⟩ = none
    · exact .inl ((hmem j).2 ⟨hj.resolve_right (fun hne => hne hnone), hnone⟩)
    · exact .inr hnone
  refine ⟨h.accepted, h.pendingNodup, h.pending, h.activeNodup.filter _, fun j hj => ?_, ?_,
    fun j hj => (h.covered j hj).imp_right (hor j), fun j hj => hor j (h.started j hj), h.done,
    h.dependencies, h.unstarted, fun rest p hscan => ?_, fun rest hscan => ?_, fun hrace => ?_,
    fun res hset => ?_⟩
  · exact h.active j ((hmem j).1 hj).1
  · exact (List.length_filter_le _ _).trans h.capacity
  · cases hscan
  · cases hscan
  · cases hrace
  · cases hset

/-! ## Cancelling what is pending -/

theorem mem_cancelledPending {e : TaskId × InstructionResult} :
    e ∈ cancelledPending r run ↔ ∃ id ∈ run.pending, ∃ instruction,
      byId run.program id = some instruction ∧ e = (⟨r, id⟩, abortOutcome instruction) := by
  simp only [cancelledPending, List.mem_filterMap, Option.map_eq_some_iff]
  constructor
  · rintro ⟨id, hid, instruction, hby, rfl⟩
    exact ⟨id, hid, instruction, hby, rfl⟩
  · rintro ⟨id, hid, instruction, hby, rfl⟩
    exact ⟨id, hid, instruction, hby, rfl⟩

theorem cancelPending_completed (s : State) (r : RunId) (run : Run) (u : TaskId) :
    (s.cancelPending r run).completed u =
      (((cancelledPending r run).find? fun e => decide (e.1 = u)).map Prod.snd).or
        (s.completed u) := rfl

theorem cancelPending_of_pending (hid : id ∈ run.pending)
    (hby : byId run.program id = some instruction) :
    (s.cancelPending r run).completed ⟨r, id⟩ = some (abortOutcome instruction) := by
  rw [cancelPending_completed]
  cases hfind : (cancelledPending r run).find? fun e => decide (e.1 = (⟨r, id⟩ : TaskId)) with
  | none =>
    have hmem : (⟨r, id⟩, abortOutcome instruction) ∈ cancelledPending r run :=
      mem_cancelledPending.2 ⟨id, hid, instruction, hby, rfl⟩
    have hnot := List.find?_eq_none.1 hfind _ hmem
    exact absurd (decide_eq_true rfl) hnot
  | some =>
    obtain ⟨j, -, found, hbyj, rfl⟩ := mem_cancelledPending.1 (List.mem_of_find?_eq_some hfind)
    have hj : (⟨r, j⟩ : TaskId) = ⟨r, id⟩ := by simpa using List.find?_some hfind
    obtain rfl : j = id := congrArg TaskId.id hj
    obtain rfl : instruction = found := Option.some.inj (hby.symm.trans hbyj)
    rfl

theorem cancelPending_of_not_pending {u : TaskId} (hu : u.run ≠ r ∨ u.id ∉ run.pending) :
    (s.cancelPending r run).completed u = s.completed u := by
  rw [cancelPending_completed]
  have hfind : ((cancelledPending r run).find? fun e => decide (e.1 = u)) = none := by
    rw [List.find?_eq_none]
    intro e he heq
    obtain ⟨j, hj, found, -, rfl⟩ := mem_cancelledPending.1 he
    obtain rfl : (⟨r, j⟩ : TaskId) = u := by simpa using heq
    exact hu.elim (fun hne => hne rfl) fun hnot => hnot hj
  rw [hfind]
  rfl

theorem Scheduled.cancelled (h : Scheduled s r run) :
    Scheduled (s.cancelPending r run) r { run with pending := [], loop := .scanning [] false } := by
  have hdone : ∀ j ∈ run.pending, ∃ instruction, byId run.program j = some instruction ∧
      (s.cancelPending r run).completed ⟨r, j⟩ = some (abortOutcome instruction) := by
    intro j hj
    obtain ⟨⟨instruction, hby⟩, -, -⟩ := h.pending j hj
    exact ⟨instruction, hby, cancelPending_of_pending hj hby⟩
  have hsame : ∀ j, j ∉ run.pending →
      (s.cancelPending r run).completed ⟨r, j⟩ = s.completed ⟨r, j⟩ :=
    fun j hj => cancelPending_of_not_pending (.inr hj)
  have hmore : ∀ j, s.completed ⟨r, j⟩ ≠ none →
      (s.cancelPending r run).completed ⟨r, j⟩ = s.completed ⟨r, j⟩ :=
    fun j hj => hsame j fun hp => hj (h.pending j hp).2.2
  refine ⟨h.accepted, List.nodup_nil, fun j hj => ?_, h.activeNodup, h.active, h.capacity,
    fun j hj => ?_, fun j hj => ?_, fun j hj => ?_, fun j instruction hj hby d hd => ?_,
    fun j res hres hj => ?_, fun rest p hscan => ?_, fun _ _ => ?_, fun hrace => ?_,
    fun res hset => ?_⟩
  · cases hj
  · by_cases hp : j ∈ run.pending
    · obtain ⟨instruction, -, hcompleted⟩ := hdone j hp
      exact .inr (.inr (by rw [hcompleted]; exact Option.some_ne_none _))
    · rw [hsame j hp]
      exact .inr ((h.covered j hj).resolve_left hp)
  · refine (h.started j hj).imp_right fun hc => ?_
    rwa [hmore j hc]
  · by_cases hp : j ∈ run.pending
    · exact .inl (h.pending j hp).2.1
    · rw [hsame j hp] at hj
      exact h.done j hj
  · obtain ⟨res, hres, hok⟩ := h.dependencies j instruction hj hby d hd
    refine ⟨res, ?_, hok⟩
    rw [hmore _ (by rw [hres]; exact Option.some_ne_none _), hres]
  · by_cases hp : j ∈ run.pending
    · obtain ⟨instruction, -, hcompleted⟩ := hdone j hp
      rw [hcompleted, Option.some.injEq] at hres
      exact .inr (.inl (by rw [← hres]; rfl))
    · rw [hsame j hp] at hres
      exact h.unstarted j res hres hj
  · obtain ⟨rfl, -⟩ := Loop.scanning.inj hscan
    exact ⟨List.nodup_nil, fun j hj => by cases hj⟩
  · exact .inr fun j hj => by cases hj
  · cases hrace
  · cases hset

/-! ## New runs -/

theorem Scheduled.launch {requested : Option Nat} {checks aborted : Bool}
    (haccepted : Accepted program) (hidle : ∀ id, s.phase ⟨r, id⟩ = .idle)
    (hnone : ∀ id, s.completed ⟨r, id⟩ = none) :
    Scheduled s r (Run.launch program requested checks aborted) := by
  refine ⟨haccepted, nodup_eraseDups _, fun id hid => ?_, List.nodup_nil, fun id hid => ?_,
    Nat.zero_le _, fun id hid => ?_, fun id hid => ?_, fun id hid => ?_, fun id _ hid => ?_,
    fun id res hres => ?_, fun rest p hscan => ?_, fun rest hscan => ?_, fun hrace => ?_,
    fun res hset => ?_⟩
  · exact ⟨byId_exists (List.mem_eraseDups.1 hid), hidle id, hnone id⟩
  · cases hid
  · exact .inl (List.mem_eraseDups.2 hid)
  · exact absurd (hidle id) hid
  · exact absurd (hnone id) hid
  · exact absurd (hidle id) hid
  · rw [hnone] at hres
    cases hres
  · cases hscan
  · cases hscan
  · cases hrace
  · cases hset

end Steps

/-! ## Every step -/

section

variable {host : PipelineHost} {s s' : State}

/-- Tasks that move on with their resources, or get them, do not show in the schedules. -/
theorem Schedules.untouched (h : Schedules s) (hc : Coordinated host s) {u : TaskId}
    (hcompleted : s'.completed u = s.completed u)
    (hphase : s'.phase u = s.phase u ∨ ((s.phase u).own = true ∧
      (∀ result, s.phase u ≠ .resolved result) ∧ s'.phase u ≠ .idle)) : Untouched s s' u := by
  rcases hphase with hsame | ⟨hown, hnot, hmoved⟩
  · exact ⟨hcompleted, by rw [hsame], fun _ => hsame⟩
  · have hbegun := Phase.ne_idle_of_own hown
    obtain ⟨instruction, htask⟩ := hc.task u hbegun
    obtain ⟨run, hrun, -⟩ := Option.bind_eq_some_iff.1 htask
    have hnone : s.completed u = none := (h.runs u.run run hrun).completed_none hown hnot
    exact ⟨hcompleted, iff_of_false hmoved hbegun, fun hne => absurd hnone hne⟩

variable {t : TaskId}

theorem Schedules.advance (h : Schedules s) (hc : Coordinated host s) {p : Phase}
    (hown : (s.phase t).own = true) (hnot : ∀ result, s.phase t ≠ .resolved result)
    (hp : p.running = true) (hruns : s'.runs = s.runs) (hcompleted : s'.completed = s.completed)
    (hphase : s'.phase = (s.setPhase t p).phase) : Schedules s' := by
  refine h.frame hruns fun u => h.untouched hc (by rw [hcompleted]) ?_
  rw [hphase]
  by_cases hu : u = t
  · subst hu
    refine .inr ⟨hown, hnot, ?_⟩
    rw [show (s.setPhase u p).phase u = p from if_pos rfl]
    rintro rfl
    cases hp
  · exact .inl (if_neg hu)

/-- A scan meets idle tasks only. -/
theorem Schedules.idle_of_scanning (h : Schedules s) (r : RunId) (run : Run) (id : InstructionId)
    (rest : List InstructionId) (progressed : Bool) (hrun : s.runs[r]? = some run)
    (hloop : run.loop = .scanning (id :: rest) progressed) : s.phase ⟨r, id⟩ = .idle := by
  have hr := h.runs r run hrun
  exact (hr.pending id ((hr.scanning _ _ hloop).2 id List.mem_cons_self)).2.1

theorem untouched_finish (s : State) {u : TaskId} (result : InstructionResult) (hu : u ≠ t) :
    Untouched s (s.finish t result) u :=
  ⟨if_neg hu, Iff.rfl, fun _ => rfl⟩

theorem Schedules.finish (h : Schedules s) {r : RunId} {run run' : Run} {id : InstructionId}
    {result : InstructionResult} (hrun : s.runs[r]? = some run)
    (hnew : Scheduled (s.finish ⟨r, id⟩ result) r run') :
    Schedules ((s.finish ⟨r, id⟩ result).setRun r run') := by
  refine h.update (fun r' => ?_) (fun u hu => ?_)
    (hnew.frame fun j => (Untouched.refl _ ⟨r, j⟩).setRun r run')
  · exact State.getElem?_setRun (s := s.finish ⟨r, id⟩ result) hrun
  · refine (untouched_finish s result ?_).setRun r run'
    rintro rfl
    exact hu rfl

theorem Schedules.delivered (h : Schedules s) {run : Run} {result : InstructionResult}
    (hrun : s.runs[t.run]? = some run)
    (hnew : Scheduled (s.finish ⟨t.run, t.id⟩ result) t.run run) :
    Schedules (s.finish t result) := by
  refine h.update (fun r => ?_) (fun u hu => untouched_finish s result ?_) hnew
  · show s.runs[r]? = _
    split
    · rename_i heq
      rw [heq, hrun]
    · rfl
  · rintro rfl
    exact hu rfl

variable (host s t) in
theorem startOwn_frame (run : Run) (instruction : Instruction) (rest : List InstructionId) :
    (s.startOwn host t run instruction rest).runs = s.runs.set t.run (run.started t.id rest) ∧
      (s.startOwn host t run instruction rest).completed = s.completed ∧
      (s.startOwn host t run instruction rest).commitQueue = s.commitQueue := by
  unfold State.startOwn
  simp only
  split <;> exact ⟨rfl, rfl, rfl⟩

/-- The tasks of other runs that `startOwn` moves are those that get their resources. -/
theorem Schedules.startOwn (h : Schedules s) (hc : Coordinated host s) (run : Run)
    (instruction : Instruction) (rest : List InstructionId) (hidle : s.phase t = .idle) :
    (s.startOwn host t run instruction rest).phase t ≠ .idle ∧
      ∀ u, u ≠ t → Untouched s (s.startOwn host t run instruction rest) u := by
  unfold State.startOwn
  simp only
  split
  · refine ⟨?_, fun u hu => h.untouched hc rfl (.inl (if_neg hu))⟩
    show (if t = t then Phase.resolved _ else _) ≠ .idle
    rw [if_pos rfl]
    exact Phase.noConfusion
  · have hentered := own_of_entered s t (Locks.acquire s.cost s.locks t).1
    refine ⟨Phase.ne_idle_of_own hentered, fun u hu => h.untouched hc rfl ?_⟩
    show (if u ∈ (Locks.acquire s.cost s.locks t).1 then Phase.granted else
      if u = t then .waiting else s.phase u) = s.phase u ∨ _
    by_cases hgranted : u ∈ (Locks.acquire s.cost s.locks t).1
    · have hwas : s.phase u = .waiting :=
        (if_neg hu).symm.trans (hc.acquired_waiting hidle u hgranted)
      refine .inr ⟨by rw [hwas]; rfl, fun result => by rw [hwas]; exact Phase.noConfusion, ?_⟩
      show (if u ∈ (Locks.acquire s.cost s.locks t).1 then Phase.granted else _) ≠ .idle
      rw [if_pos hgranted]
      exact Phase.noConfusion
    · exact .inl (by rw [if_neg hgranted, if_neg hu])

/-- The schedules are kept by every step. -/
theorem Schedules.step {l : Label} (h : Schedules s) (hc : Coordinated host s)
    (hstep : Step host s l s') : Schedules s' := by
  cases hstep with
  | launch program requested checks aborted haccepted =>
    have hnew : s.runs[s.runs.length]? = none := List.getElem?_eq_none (Nat.le_refl _)
    have hidle : ∀ id, s.phase ⟨s.runs.length, id⟩ = .idle := by
      intro id
      by_contra hne
      obtain ⟨instruction, htask⟩ := hc.task _ hne
      simp [State.task?] at htask
    have hnone : ∀ id, s.completed ⟨s.runs.length, id⟩ = none := by
      intro id
      by_contra hne
      obtain ⟨run, hrun⟩ := h.known _ hne
      rw [hnew] at hrun
      cases hrun
    have hlaunched : Scheduled s s.runs.length (Run.launch program requested checks aborted) :=
      .launch haccepted hidle hnone
    refine h.update (fun r => ?_) (fun u _ => ⟨rfl, Iff.rfl, fun _ => rfl⟩)
      (hlaunched.frame fun id => ⟨rfl, Iff.rfl, fun _ => rfl⟩)
    show (s.runs ++ [_])[r]? = _
    rw [List.getElem?_append]
    by_cases hr : r = s.runs.length
    · subst hr
      simp
    · rw [if_neg hr]
      split
      · rfl
      · rename_i hge
        have hlt : s.runs.length < r := Nat.lt_of_le_of_ne (Nat.not_lt.1 hge) (Ne.symm hr)
        rw [List.getElem?_eq_none (Nat.sub_pos_of_lt hlt), List.getElem?_eq_none (Nat.le_of_lt hlt)]
  | abort r run hrun =>
    have hr := h.runs r run hrun
    have haborted : Schedules (s.setRun r { run with aborted := true }) := by
      refine h.withLoop hrun ?_
      exact ⟨hr.accepted, hr.pendingNodup, hr.pending, hr.activeNodup, hr.active, hr.capacity,
        hr.covered, hr.started, hr.done, hr.dependencies, hr.unstarted, hr.scanning, hr.blocked,
        hr.racing, hr.settled⟩
    exact haborted.frame rfl fun u => ⟨rfl, Iff.rfl, fun _ => rfl⟩
  | iterate r run hrun hloop hmore hnot =>
    have hr := h.runs r run hrun
    refine h.withLoop hrun (hr.withLoop _ ?_ ?_ ?_ ?_)
    · rintro rest progressed ⟨⟩
      exact ⟨hr.pendingNodup, fun id hid => hid⟩
    · rintro rest ⟨⟩
      exact .inr fun id hid hnot => absurd hid hnot
    · exact fun heq => Loop.noConfusion heq
    · exact fun result heq => Loop.noConfusion heq
  | cancel r run hrun =>
    have hr := (h.runs r run hrun).cancelled
    refine h.update (fun r' => ?_) (fun u hu => ?_)
      (hr.frame fun id => (Untouched.refl _ ⟨r, id⟩).setRun r _)
    · exact State.getElem?_setRun (s := s.cancelPending r run) hrun
    · exact ⟨cancelPending_of_not_pending (.inl hu), Iff.rfl, fun _ => rfl⟩
  | finish r run hrun hloop hpending hactive =>
    have hr := h.runs r run hrun
    refine h.withLoop hrun (hr.withLoop _ ?_ ?_ ?_ ?_)
    · exact fun rest progressed heq => Loop.noConfusion heq
    · exact fun rest heq => Loop.noConfusion heq
    · exact fun heq => Loop.noConfusion heq
    · rintro result ⟨⟩
      exact ⟨hpending, hactive, rfl⟩
  | full r run id rest progressed hrun hloop hfull =>
    have hr := h.runs r run hrun
    refine h.withLoop hrun (hr.withLoop _ ?_ ?_ ?_ ?_)
    · rintro rest' progressed' ⟨⟩
      exact ⟨List.nodup_nil, fun id hid => absurd hid List.not_mem_nil⟩
    · rintro rest' -
      -- the limit is never zero
      refine .inl fun hnil => ?_
      rw [hnil] at hfull
      exact absurd hfull (Nat.not_le.2 (Nat.le_max_left 1 _))
    · exact fun heq => Loop.noConfusion heq
    · exact fun result heq => Loop.noConfusion heq
  | blocked r run id rest progressed instruction hrun hloop hroom hby hblocked =>
    have hr := h.runs r run hrun
    obtain ⟨hnodup, hsub⟩ := hr.scanning _ _ hloop
    refine h.withLoop hrun (hr.withLoop _ ?_ ?_ ?_ ?_)
    · rintro rest' progressed' ⟨⟩
      exact ⟨(List.nodup_cons.1 hnodup).2, fun j hj => hsub j (List.mem_cons_of_mem _ hj)⟩
    · intro rest' heq
      obtain ⟨rfl, rfl⟩ := Loop.scanning.inj heq
      refine (hr.blocked _ hloop).imp_right fun hall j hj hnot => ?_
      by_cases hji : j = id
      · exact ⟨instruction, hji ▸ hby, hblocked⟩
      · refine hall j hj fun hmem => ?_
        rcases List.mem_cons.1 hmem with heq | hmem
        · exact hji heq
        · exact hnot hmem
    · exact fun heq => Loop.noConfusion heq
    · exact fun result heq => Loop.noConfusion heq
  | skip r run id rest progressed instruction d hrun hloop =>
    exact h.finish hrun ((h.runs r run hrun).scanned hloop (.inl rfl))
  | conflict r run id rest progressed instruction fingerprint owner hrun hloop =>
      have hr : Scheduled (s.record [.conflicted ⟨r, id⟩ owner]) r run :=
        (h.runs r run hrun).frame fun j => ⟨rfl, Iff.rfl, fun _ => rfl⟩
      have hrecorded : Schedules (s.record [.conflicted ⟨r, id⟩ owner]) :=
        h.frame rfl fun u => ⟨rfl, Iff.rfl, fun _ => rfl⟩
      exact hrecorded.finish hrun (hr.scanned hloop (.inr (.inr rfl)))
  | join r run id rest progressed instruction owner hrun hloop hroom hby hready hfailed =>
    have hne : ∀ u : TaskId, u ≠ ⟨r, id⟩ → Untouched s
        (((s.setPhase ⟨r, id⟩ (.joined owner)).record [.joined ⟨r, id⟩ owner]).setRun r
          (run.started id rest)) u :=
      fun u hu => h.untouched hc rfl (.inl (if_neg hu))
    refine h.update (fun r' => ?_) (fun u hu => hne u ?_)
      ((h.runs r run hrun).started_of hloop hroom hby hready hfailed rfl ?_ fun j hj => hne _ ?_)
    · exact State.getElem?_setRun (s := (s.setPhase ⟨r, id⟩ (.joined owner)).record _) hrun
    · rintro rfl
      exact hu rfl
    · show (if (⟨r, id⟩ : TaskId) = ⟨r, id⟩ then Phase.joined owner else _) ≠ .idle
      rw [if_pos rfl]
      exact Phase.noConfusion
    · exact fun heq => hj (congrArg TaskId.id heq)
  | own r run id rest progressed instruction hrun hloop hroom hby hready hfailed =>
    have hidle := h.idle_of_scanning r run id rest progressed hrun hloop
    obtain ⟨hbegun, hne⟩ := h.startOwn hc run instruction rest hidle
    obtain ⟨hruns, hcompleted, -⟩ := startOwn_frame host s ⟨r, id⟩ run instruction rest
    refine h.update (fun r' => ?_) (fun u hu => hne u ?_)
      ((h.runs r run hrun).started_of hloop hroom hby hready hfailed hcompleted hbegun
        fun j hj => hne _ ?_)
    · rw [hruns]
      exact State.getElem?_setRun hrun
    · rintro rfl
      exact hu rfl
    · exact fun heq => hj (congrArg TaskId.id heq)
  | race r run progressed hrun hloop hactive =>
    refine h.withLoop hrun ((h.runs r run hrun).withLoop _ ?_ ?_ ?_ ?_)
    · exact fun rest progressed heq => Loop.noConfusion heq
    · exact fun rest heq => Loop.noConfusion heq
    · exact fun _ => hactive
    · exact fun result heq => Loop.noConfusion heq
  | again r run progressed hrun =>
    refine h.withLoop hrun ((h.runs r run hrun).withLoop _ ?_ ?_ ?_ ?_)
    · exact fun rest progressed heq => Loop.noConfusion heq
    · exact fun rest heq => Loop.noConfusion heq
    · exact fun heq => Loop.noConfusion heq
    · exact fun result heq => Loop.noConfusion heq
  | stuck r run hrun hloop hactive hpending =>
    exact absurd hpending fun hne => (h.runs r run hrun).not_stuck hloop hactive hne
  | wake r run id hrun => exact h.withLoop hrun (h.runs r run hrun).woken
  | enqueue t instruction hphase =>
    refine h.frame rfl fun u => h.untouched hc rfl ?_
    by_cases hu : u = t
    · subst hu
      refine .inr ⟨by rw [hphase]; rfl, fun result => by rw [hphase]; exact Phase.noConfusion,
        ?_⟩
      show (if u = u then Phase.queued else _) ≠ .idle
      rw [if_pos rfl]
      exact Phase.noConfusion
    · exact .inl (if_neg hu)
  | resume _ _ _ hphase | turn _ _ _ hphase =>
    exact h.advance hc (by rw [hphase]; rfl)
      (fun result => by rw [hphase]; exact Phase.noConfusion) (runBody_running ..) rfl rfl rfl
  | answer t run instruction index answer hphase =>
    exact h.advance hc (by rw [hphase]; rfl)
      (fun result => by rw [hphase]; exact Phase.noConfusion) (afterAnswer_running ..) rfl rfl rfl
  | settle t run instruction answer hphase =>
    exact h.advance hc (p := .returned (executed instruction answer)) (by rw [hphase]; rfl)
      (fun result => by rw [hphase]; exact Phase.noConfusion) rfl rfl rfl rfl
  | leaveQueue | forget =>
    exact h.frame rfl fun u => ⟨rfl, Iff.rfl, fun _ => rfl⟩
  | release t result hphase =>
    refine h.frame rfl fun u => h.untouched hc rfl ?_
    show (if u ∈ (Locks.release s.cost s.locks t).1 then Phase.granted else
      if u = t then .resolved result else s.phase u) = s.phase u ∨ _ ∧ _ ∧
      (if u ∈ (Locks.release s.cost s.locks t).1 then Phase.granted else
        if u = t then .resolved result else s.phase u) ≠ .idle
    by_cases hgranted : u ∈ (Locks.release s.cost s.locks t).1
    · have hwas : s.phase u = .waiting := (hc.released_waiting hphase u hgranted).2
      rw [if_pos hgranted, hwas]
      exact .inr ⟨rfl, fun _ => Phase.noConfusion, Phase.noConfusion⟩
    · rw [if_neg hgranted]
      by_cases hu : u = t
      · rw [if_pos hu, hu, hphase]
        exact .inr ⟨rfl, fun _ => Phase.noConfusion, Phase.noConfusion⟩
      · exact .inl (if_neg hu)
  | deliver t result hphase hnone =>
    obtain ⟨instruction, htask⟩ := hc.task t (by rw [hphase]; exact Phase.noConfusion)
    obtain ⟨run, hrun, -⟩ := Option.bind_eq_some_iff.1 htask
    have hr := (h.runs t.run run hrun).delivered (.inr ⟨result, hphase⟩) hnone result
    exact h.delivered hrun hr
  | deliverJoined t owner result hphase howner hnone =>
    obtain ⟨instruction, htask⟩ := hc.task t (by rw [hphase]; exact Phase.noConfusion)
    obtain ⟨run, hrun, -⟩ := Option.bind_eq_some_iff.1 htask
    have hr := (h.runs t.run run hrun).delivered (.inl ⟨owner, hphase⟩) hnone
      { result with id := t.id, joined := true }
    exact h.delivered hrun hr

/-! ## Every run -/

structure Invariant (host : PipelineHost) (s : State) : Prop where
  coordinated : Coordinated host s
  schedules : Schedules s

theorem Invariant.start : Invariant host .start := ⟨.start, .start⟩

theorem Invariant.step {l : Label} (h : Invariant host s) (hstep : Step host s l s') :
    Invariant host s' :=
  ⟨h.coordinated.step hstep h.schedules.idle_of_scanning, h.schedules.step h.coordinated hstep⟩

end

end XioFlow.Pipeline
