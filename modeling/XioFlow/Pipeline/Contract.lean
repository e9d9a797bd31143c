/-
  XioFlow.Pipeline.Contract

  What the scheduler owes to the programs it runs, and when it keeps it.

  `validateProgram` checks the ids of instructions only where they are strings.
  Two instructions with one id that is not a string are accepted as two, and
  scheduled as one.
-/

import XioFlow.Pipeline.Progress

namespace XioFlow.Pipeline

open Lib

/-! ## The contract -/

/-- The ids of a run whose results were given, in this order. -/
def givenIds (r : RunId) (log : List Event) : List InstructionId :=
  log.filterMap fun e =>
    match e with
    | .finished t _ => if t.run = r then some t.id else none
    | _ => none

structure RunContract (s : State) (r : RunId) (run : Run) : Prop where
  /-- A run settles with the results of its instructions, each given once. -/
  settled : ∀ result, run.loop = .settled result → result.status ≠ .rejected ∧
    List.Forall₂ (fun instruction given => given.id = instruction.id ∧
      .finished ⟨r, instruction.id⟩ given ∈ s.log) run.program.instructions result.results ∧
    (givenIds r s.log).Perm (instructionIds run.program)
  limited : ∀ requested, run.requested = some requested → 0 < requested →
    run.active.length ≤ requested ∧
    ∀ ids : List InstructionId, ids.Nodup →
      (∀ id ∈ ids, s.phase ⟨r, id⟩ ≠ .idle ∧ s.completed ⟨r, id⟩ = none) → ids.length ≤ requested
  /-- Nothing is executed or joined for an instruction one of whose dependencies did not
      succeed. -/
  dependents : ∀ instruction ∈ run.program.instructions, ∀ d ∈ instruction.dependsOn, ∀ result,
    .finished ⟨r, .text d⟩ result ∈ s.log → dependencySucceeded result = false →
      .called ⟨r, instruction.id⟩ ∉ s.log ∧ s.phase ⟨r, instruction.id⟩ = .idle ∧
      ∀ given, .finished ⟨r, instruction.id⟩ given ∈ s.log → given.unsuccessful

structure ScheduleContract (host : PipelineHost) (s : State) : Prop where
  runs : ∀ (r : RunId) (run : Run), s.runs[r]? = some run → RunContract s r run
  calls : ∀ before t after, s.log = before ++ .called t :: after → CallJustified s before t
  exclusive : ∀ t u resource, s.phase t = .executing → s.phase u = .executing →
    resource ∈ s.cost t → resource ∈ s.cost u → t = u
  /-- While a run has not settled, something goes on. -/
  live : ∀ (r : RunId) (run : Run), s.runs[r]? = some run →
    (∀ result, run.loop ≠ .settled result) → Enabled host s
  /-- Without new runs only finitely much can go on. -/
  finite : ∃ bound, ∀ ls s', Trace (Guarded (fun _ l => l.launches = false) (Step host)) s ls s' →
    ls.length ≤ bound

/-! ## Programs whose instructions have different ids -/

/-- A program that is launched has no two instructions with one id. -/
def DistinctIds : Label → Prop
  | .launch program _ _ _ => (instructionIds program).Nodup
  | _ => True

theorem byId_of_nodup {program : Program} (hnodup : (instructionIds program).Nodup)
    {instruction : Instruction} (hmem : instruction ∈ program.instructions) :
    byId program instruction.id = some instruction := by
  obtain ⟨found, hby⟩ := byId_exists (List.mem_map.2 ⟨instruction, hmem, rfl⟩)
  obtain ⟨hfound, hid⟩ := byId_mem hby
  rw [hby, List.inj_on_of_nodup_map hnodup hfound hmem hid]

/-- The runs of a state have programs with different ids. -/
def DistinctRuns (s : State) : Prop :=
  ∀ program ∈ s.runs.map Run.program, (instructionIds program).Nodup

theorem finalStatus_ne_rejected (results : List InstructionResult) :
    finalStatus results ≠ .rejected := by
  unfold finalStatus
  split
  · exact PipelineStatus.noConfusion
  · split
    · exact PipelineStatus.noConfusion
    · split <;> exact PipelineStatus.noConfusion

section

variable {host : PipelineHost} {s s' : State}

variable {r : RunId}

theorem mem_givenIds {id : InstructionId} :
    id ∈ givenIds r s.log ↔ ∃ result, .finished ⟨r, id⟩ result ∈ s.log := by
  unfold givenIds
  rw [List.mem_filterMap]
  constructor
  · rintro ⟨e, he, hid⟩
    cases e with
    | finished t result =>
      obtain ⟨tr, ti⟩ := t
      by_cases hr : tr = r
      · simp only [hr, if_true, Option.some.injEq] at hid
        exact ⟨result, hr ▸ hid ▸ he⟩
      · simp [hr] at hid
    | called | answered | aborted | conflicted | joined | cut => cases hid
  · rintro ⟨result, hmem⟩
    exact ⟨_, hmem, by simp⟩

/-- No result is given twice. -/
theorem History.givenIds_nodup (h : History s) (r : RunId) : (givenIds r s.log).Nodup := by
  refine Chronicle.nodup (h.justified.mono fun before e he id hid hmem => ?_)
  obtain ⟨e', he', hid'⟩ := List.mem_filterMap.1 hmem
  cases e with
  | finished t =>
    cases e' with
    | finished t' result' =>
      simp only [Option.ite_none_right_eq_some, Option.some.injEq] at hid hid'
      have heq : t' = t := by
        obtain ⟨tr, ti⟩ := t
        obtain ⟨tr', ti'⟩ := t'
        simp_all
      exact he result' (heq ▸ he')
    | called | answered | aborted | conflicted | joined | cut => cases hid'
  | called | answered | aborted | conflicted | joined | cut => cases hid

/-- The results of a settled run. -/
theorem settled_results (hi : Invariant host s) (hh : History s) {run : Run}
    (hrun : s.runs[r]? = some run) (hnodup : (instructionIds run.program).Nodup)
    {result : PipelineRunResult} (hloop : run.loop = .settled result) :
    List.Forall₂ (fun instruction given => given.id = instruction.id ∧
      .finished ⟨r, instruction.id⟩ given ∈ s.log) run.program.instructions result.results ∧
    (givenIds r s.log).Perm (instructionIds run.program) := by
  have hr := hi.schedules.runs r run hrun
  obtain ⟨hpending, hactive, rfl⟩ := hr.settled result hloop
  have hcompleted : ∀ id ∈ instructionIds run.program,
      ∃ given, s.completed ⟨r, id⟩ = some given := by
    intro id hid
    rcases hr.covered id hid with hp | ha | hc
    · rw [hpending] at hp
      cases hp
    · rw [hactive] at ha
      cases ha
    · exact Option.ne_none_iff_exists'.1 hc
  constructor
  · show List.Forall₂ _ run.program.instructions (s.results r run.program)
    unfold State.results
    rw [List.forall₂_map_right_iff, List.forall₂_same]
    intro instruction hmem
    obtain ⟨given, hgiven⟩ := hcompleted instruction.id (List.mem_map.2 ⟨instruction, hmem, rfl⟩)
    rw [hgiven]
    exact ⟨(hh.given _ given hgiven).1, (hh.finished _ given).2 hgiven⟩
  · rw [List.perm_ext_iff_of_nodup (hh.givenIds_nodup r) hnodup]
    intro id
    rw [mem_givenIds]
    constructor
    · rintro ⟨given, hgiven⟩
      obtain ⟨-, instruction, htask⟩ := hh.given _ given ((hh.finished _ given).1 hgiven)
      obtain ⟨hmem, hid⟩ := byId_mem ((State.task?_eq (s := s) (t := ⟨r, id⟩) hrun).symm.trans htask)
      exact List.mem_map.2 ⟨instruction, hmem, hid⟩
    · intro hid
      obtain ⟨given, hgiven⟩ := hcompleted id hid
      exact ⟨given, (hh.finished _ given).2 hgiven⟩

theorem runContract (hi : Invariant host s) (hh : History s) {run : Run}
    (hrun : s.runs[r]? = some run) (hnodup : (instructionIds run.program).Nodup) :
    RunContract s r run := by
  have hr := hi.schedules.runs r run hrun
  have hlimit : ∀ requested, run.requested = some requested → 0 < requested →
      run.limit ≤ requested := by
    intro requested hrequested hpos
    unfold Run.limit
    rw [hrequested, Option.getD_some]
    omega
  refine ⟨fun result hloop => ?_, fun requested hrequested hpos => ?_,
    fun instruction hmem d hd result hresult hfailed => ?_⟩
  · obtain ⟨-, -, hresult⟩ := hr.settled result hloop
    refine ⟨?_, settled_results hi hh hrun hnodup hloop⟩
    rw [hresult]
    exact finalStatus_ne_rejected _
  · have hle := hlimit requested hrequested hpos
    refine ⟨hr.capacity.trans hle, fun ids hids hbegun => ?_⟩
    have hsub : ids ⊆ run.active := by
      intro id hid
      obtain ⟨hphase, hnone⟩ := hbegun id hid
      exact (hr.started id hphase).resolve_right fun hne => hne hnone
    exact (hids.subperm hsub).length_le.trans (hr.capacity.trans hle)
  · have hidle : s.phase ⟨r, instruction.id⟩ = .idle := by
      by_contra hbegun
      obtain ⟨given, hgiven, hok⟩ := hr.dependencies _ instruction hbegun
        (byId_of_nodup hnodup hmem) d hd
      rw [hh.finished, hgiven, Option.some.injEq] at hresult
      rw [← hresult, hok] at hfailed
      cases hfailed
    refine ⟨fun hcalled => ?_, hidle, fun given hgiven => ?_⟩
    · have hpast := hh.called _ hcalled
      rw [hidle] at hpast
      cases hpast
    · exact hr.unstarted _ given ((hh.finished _ given).1 hgiven) hidle

/-! ## Every run -/

/-- The invariants of all runs. -/
structure Kept (host : PipelineHost) (s : State) : Prop where
  invariant : Invariant host s
  history : History s

theorem Kept.start : Kept host .start := ⟨.start, .start⟩

theorem Kept.step {l : Label} (h : Kept host s) (hstep : Step host s l s') : Kept host s' :=
  ⟨h.invariant.step hstep, h.history.step h.invariant hstep⟩

theorem Kept.scheduleContract (h : Kept host s) (hdistinct : DistinctRuns s) :
    ScheduleContract host s := by
  refine ⟨fun r run hrun => ?_, fun before t after hlog => ?_,
    fun t u resource ht hu hresource hresource' => ?_,
    fun r run hrun hnot => h.invariant.enabled hrun hnot, s.remaining host, fun ls s' htrace => ?_⟩
  · have hmem : run.program ∈ s.runs.map Run.program :=
      List.mem_map.2 ⟨run, List.mem_of_getElem? hrun, rfl⟩
    exact runContract h.invariant h.history hrun (hdistinct _ hmem)
  · exact h.history.justified before (.called t) after hlog
  · exact h.invariant.coordinated.locks.exclusive.unique t u resource (by rw [ht]; rfl)
      (by rw [hu]; rfl) hresource hresource'
  · refine htrace.length_le (I := Kept host) (fun s l s' hs hstep => ?_) h
    exact ⟨hs.step hstep.2, remaining_step hs.invariant hs.history hstep.2 hstep.1⟩

theorem DistinctRuns.step {l : Label} (h : DistinctRuns s) (hl : DistinctIds l)
    (hstep : Step host s l s') : DistinctRuns s' := by
  by_cases hlaunch : l.launches = false
  · have hprograms := hstep.samePrograms hlaunch
    unfold SamePrograms at hprograms
    unfold DistinctRuns
    rw [hprograms]
    exact h
  · cases hstep with
    | launch =>
      intro other hother
      rcases List.mem_append.1 (List.map_append ▸ hother) with hold | hnew
      · exact h other hold
      · rw [List.map_singleton, List.mem_singleton] at hnew
        exact hnew ▸ hl
    | _ => exact absurd rfl hlaunch

/-- When no program has two instructions with one id, the schedule is as promised: in every state
    that any number of programs, executors, checkers and aborts lead to. -/
theorem schedule_respected (host : PipelineHost) {ls : List Label} {s : State}
    (h : Trace (Guarded (fun _ => DistinctIds) (Step host)) .start ls s) :
    ScheduleContract host s := by
  have hinvariant : Kept host s ∧ DistinctRuns s := by
    refine h.invariant (I := fun s => Kept host s ∧ DistinctRuns s) (fun s l s' hs hstep => ?_)
      ⟨.start, fun program hmem => by cases hmem⟩
    exact ⟨hs.1.step hstep.2, hs.2.step hstep.1 hstep.2⟩
  exact hinvariant.1.scheduleContract hinvariant.2

end

/-! ## A run to its end -/

def sampleHost : PipelineHost where
  digest := fun input => input.programId ++ " " ++ input.instruction.op.text
  otherIdText := fun _ => "7"

def statFile : Program where
  isa := "1.0"
  requestId := "request"
  programId := "program"
  instructions := [{ id := .text "stat", op := .fsStat }]

/-- Two instructions, the second after the first. -/
def statTwice : Program :=
  { statFile with instructions := [{ id := .text "stat", op := .fsStat },
      { id := .text "again", op := .fsStat, dependsOn := ["stat"] }] }

theorem statTwice_respected : ∃ ls s, Trace (Guarded (fun _ => DistinctIds) (Step sampleHost))
    .start ls s ∧ (∃ result, s.runs.map Run.loop = [.settled result] ∧ result.results.length = 2) ∧
    ScheduleContract sampleHost s := by
  have hrun : ∃ ls s, Trace (Guarded (fun _ => DistinctIds) (Step sampleHost)) .start ls s ∧
      ∃ result, s.runs.map Run.loop = [.settled result] ∧ result.results.length = 2 := by
    refine ⟨_, _, Trace.guard (.cons (.launch _ statTwice (some 2) false false (by decide)) <|
      .cons (.iterate _ 0 _ rfl rfl (by decide) rfl) <|
      .cons (.own _ 0 _ (.text "stat") [.text "again"] false _ rfl rfl (by decide) rfl (by decide)
        rfl rfl) <|
      -- the second waits for the first
      .cons (.blocked _ 0 _ (.text "again") [] _ _ rfl rfl (by decide) rfl (by decide)) <|
      .cons (.race _ 0 _ true rfl rfl (by decide)) <|
      .cons (.resume _ ⟨0, .text "stat"⟩ _ _ rfl rfl rfl rfl) <|
      .cons (.settle _ ⟨0, .text "stat"⟩ _ _ (.ok { status := .succeeded }) rfl rfl rfl) <|
      .cons (.release _ ⟨0, .text "stat"⟩ _ rfl List.not_mem_nil) <|
      .cons (.deliver _ ⟨0, .text "stat"⟩ _ rfl rfl) <|
      .cons (.wake _ 0 _ (.text "stat") rfl rfl (by decide) (by decide)) <|
      .cons (.iterate _ 0 _ rfl rfl (by decide) rfl) <|
      .cons (.own _ 0 _ (.text "again") [] false _ rfl rfl (by decide) rfl (by decide) rfl rfl) <|
      .cons (.race _ 0 _ true rfl rfl (by decide)) <|
      .cons (.resume _ ⟨0, .text "again"⟩ _ _ rfl rfl rfl rfl) <|
      .cons (.settle _ ⟨0, .text "again"⟩ _ _ (.ok { status := .succeeded }) rfl rfl rfl) <|
      .cons (.release _ ⟨0, .text "again"⟩ _ rfl List.not_mem_nil) <|
      .cons (.deliver _ ⟨0, .text "again"⟩ _ rfl rfl) <|
      .cons (.wake _ 0 _ (.text "again") rfl rfl (by decide) (by decide)) <|
      .cons (.finish _ 0 _ rfl rfl rfl rfl) <| .nil _) (fun l hl => ?_), _, rfl, rfl⟩
    simp only [List.mem_cons, List.not_mem_nil, or_false] at hl
    rcases hl with rfl | rfl | rfl | rfl | rfl | rfl | rfl | rfl | rfl | rfl | rfl | rfl | rfl | rfl |
      rfl | rfl | rfl | rfl | rfl <;>
      simp [DistinctIds, instructionIds, statTwice, statFile]
  obtain ⟨ls, s, htrace, hsettled⟩ := hrun
  exact ⟨ls, s, htrace, hsettled, schedule_respected sampleHost htrace⟩

/-! ## Two instructions under one id -/

/-- Both have the number 7 for an id, which is no string and therefore not compared. -/
def sevenTwice : Program where
  isa := "1.0"
  requestId := "request"
  programId := "program"
  instructions := [{ id := .number 7, op := .fsStat }, { id := .number 7, op := .fsRead }]

/-- The second instruction is executed, the first one never. -/
theorem one_of_two_executed : ∃ ls s, Trace (Step sampleHost) .start ls s ∧
    ¬ ScheduleContract sampleHost s := by
  refine ⟨_, _, .cons (.launch _ sevenTwice none false false (by decide)) <|
    .cons (.iterate _ 0 _ rfl rfl (by decide) rfl) <|
    .cons (.own _ 0 _ (.number 7) [] false _ rfl rfl (by decide) rfl (by decide) rfl rfl) <|
    .cons (.race _ 0 _ true rfl rfl (by decide)) <|
    .cons (.resume _ ⟨0, .number 7⟩ _ _ rfl rfl rfl rfl) <|
    .cons (.settle _ ⟨0, .number 7⟩ _ _ (.ok { status := .succeeded }) rfl rfl rfl) <|
    .cons (.release _ ⟨0, .number 7⟩ _ rfl List.not_mem_nil) <|
    .cons (.deliver _ ⟨0, .number 7⟩ _ rfl rfl) <|
    .cons (.wake _ 0 _ (.number 7) rfl rfl (by decide) (by decide)) <|
    .cons (.finish _ 0 _ rfl rfl rfl rfl) <| .nil _, fun hcontract => ?_⟩
  -- one result was given for two instructions
  obtain ⟨-, -, hgiven⟩ := (hcontract.runs 0 _ rfl).settled _ rfl
  have hlength := hgiven.length_eq
  exact absurd hlength (by decide)

end XioFlow.Pipeline
