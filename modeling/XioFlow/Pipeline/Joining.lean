/-
  XioFlow.Pipeline.Joining

  What runs on one coordinator see of each other: instructions that join one
  in flight, or are refused because of one.

  The key of an instruction is its opId or a text made of two ids with a colon
  between them, and all three may contain colons.  A joined instruction takes
  over whatever the other one's promise yields.
-/

import XioFlow.Pipeline.Contract

namespace XioFlow.Pipeline

open Lib

/-! ## Names and contents of instructions -/

/-- The program and the instruction of a task. -/
def State.work? (s : State) (t : TaskId) : Option (Program × Instruction) :=
  (s.runs[t.run]?).bind fun run => (byId run.program t.id).map fun instruction =>
    (run.program, instruction)

/-- The same explicit opId, or the same id in the same program. -/
def SameWork (a b : Program × Instruction) : Prop :=
  (∃ opId, a.2.opId = some opId ∧ b.2.opId = some opId) ∨
    (a.1.programId = b.1.programId ∧ a.2.id = b.2.id)

/-- What an instruction's fingerprint is taken of. -/
def contentOf (work : Program × Instruction) : FingerprintInput := fingerprintInput work.1 work.2

/-- The result was given because of an abort: the task was cut off, or the one it joined. -/
def CancelledByAbort (s : State) (t : TaskId) (result : InstructionResult) : Prop :=
  result.status = .cancelled ∧
    (.cut t ∈ s.log ∨ ∃ owner, .joined t owner ∈ s.log ∧ .cut owner ∈ s.log)

structure JoinContract (s : State) : Prop where
  /-- An instruction is refused only because of one with its name and other content. -/
  conflicts : ∀ t owner, .conflicted t owner ∈ s.log → t ≠ owner ∧
    ∃ a b, s.work? t = some a ∧ s.work? owner = some b ∧ SameWork a b ∧ contentOf a ≠ contentOf b
  refused : ∀ t result message, .finished t result ∈ s.log → s.phase t = .idle →
    result.outcome.error = some (errorOf "op_id_conflict" message) →
      ∃ owner, .conflicted t owner ∈ s.log
  /-- An instruction is joined only to one with its content. -/
  joins : ∀ t owner, .joined t owner ∈ s.log → t ≠ owner ∧
    ∃ a b, s.work? t = some a ∧ s.work? owner = some b ∧ contentOf a = contentOf b
  flagged : ∀ t result, .finished t result ∈ s.log → result.joined = true →
    ∃ owner, .joined t owner ∈ s.log
  aborts : ∀ t result, .finished t result ∈ s.log → CancelledByAbort s t result →
    s.AbortedRun t.run

/-! ## Conditions on the steps -/

section Conditions

variable (host : PipelineHost)

/-- The text of an instruction's ids. -/
def idKey (work : Program × Instruction) : String :=
  work.1.programId ++ ":" ++ idText host work.2.id

/-- The texts of two instructions, where one has no opId, are equal in the same program and id
    only. -/
def TextsApart (a b : Program × Instruction) : Prop :=
  match a.2.opId, b.2.opId with
  | some _, some _ => True
  | some opId, none => opId = idKey host b → a.1.programId = b.1.programId ∧ a.2.id = b.2.id
  | none, some opId => opId = idKey host a → a.1.programId = b.1.programId ∧ a.2.id = b.2.id
  | none, none =>
    idKey host a = idKey host b → a.1.programId = b.1.programId ∧ a.2.id = b.2.id

/-- The scan of a run starts an instruction. -/
structure Starts (s : State) (r : RunId) (run : Run) (instruction : Instruction) : Prop where
  running : s.runs[r]? = some run
  room : run.active.length < run.limit
  scanned : ∃ id rest progressed, run.loop = .scanning (id :: rest) progressed ∧
    byId run.program id = some instruction
  ready : ∀ d ∈ instruction.dependsOn, s.completed ⟨r, .text d⟩ ≠ none
  succeeded : failedDependency s r instruction = none

/-- An instruction that starts has not the text of another one in flight. -/
def NamesApart (s : State) (l : Label) : Prop :=
  ∀ r run instruction key fingerprint owner other, l = .scan r → Starts s r run instruction →
    s.inFlight key = some (fingerprint, owner) → s.work? owner = some other →
      TextsApart host (run.program, instruction) other

/-- An abort meets no unfinished instruction that a run going on has joined, and of an aborted
    run nothing unfinished or cut off is joined. -/
structure AbortsAlone (s : State) (l : Label) : Prop where
  abort : ∀ t owner, l = .abort owner.run → s.phase t = .joined owner →
    (s.phase owner).result? = none → t.run = owner.run ∨ s.AbortedRun t.run
  joining : ∀ r run instruction key owner, l = .scan r → Starts s r run instruction →
    s.inFlight key = some (instructionFingerprint host run.program instruction, owner) →
      s.AbortedRun owner.run → (s.phase owner).result? = none ∨ .cut owner ∈ s.log →
        run.aborted = true

def JoinsApart (s : State) (l : Label) : Prop := NamesApart host s l ∧ AbortsAlone host s l

/-- The digests of different instructions that were launched differ. -/
def CollisionFree (s : State) : Prop :=
  ∀ p ∈ s.runs.map Run.program, ∀ q ∈ s.runs.map Run.program, ∀ i ∈ p.instructions,
    ∀ j ∈ q.instructions, host.digest (contentOf (p, i)) = host.digest (contentOf (q, j)) →
      contentOf (p, i) = contentOf (q, j)

end Conditions

/-! ## The invariant -/

structure Joinings (host : PipelineHost) (s : State) : Prop where
  joined : ∀ t owner, .joined t owner ∈ s.log ↔ s.phase t = .joined owner
  same : ∀ t owner, .joined t owner ∈ s.log → t ≠ owner ∧ ∃ a b, s.work? t = some a ∧
    s.work? owner = some b ∧ host.digest (contentOf a) = host.digest (contentOf b)
  conflicted : ∀ t owner, .conflicted t owner ∈ s.log → t ≠ owner ∧ ∃ a b, s.work? t = some a ∧
    s.work? owner = some b ∧ SameWork a b ∧ contentOf a ≠ contentOf b
  cut : ∀ t, .cut t ∈ s.log → s.AbortedRun t.run
  alone : ∀ t owner, s.phase t = .joined owner → .cut owner ∈ s.log → s.AbortedRun t.run
  /-- Who has joined an unfinished instruction of an aborted run is aborted too. -/
  going : ∀ t owner, s.phase t = .joined owner → s.AbortedRun owner.run →
    (s.phase owner).result? = none → s.AbortedRun t.run
  promised : ∀ t result, (s.phase t).result? = some result → result.joined = false
  flagged : ∀ t result, s.completed t = some result → result.joined = true →
    ∃ owner, s.phase t = .joined owner
  refused : ∀ t result message, s.completed t = some result → s.phase t = .idle →
    result.outcome.error = some (errorOf "op_id_conflict" message) →
      ∃ owner, .conflicted t owner ∈ s.log

variable {host : PipelineHost} {s s' : State}

theorem Joinings.start : Joinings host .start := by
  refine ⟨?_, ?_, ?_, ?_, ?_, ?_, ?_, ?_, ?_⟩ <;> simp [State.start, Phase.result?]

variable {t : TaskId} {p : Phase}

theorem work?_keep (hkeep : KeepsPrograms s s') {work : Program × Instruction}
    (h : s.work? t = some work) : s'.work? t = some work := by
  obtain ⟨run, hrun, hwork⟩ := Option.bind_eq_some_iff.1 h
  obtain ⟨run', hrun', hprogram⟩ := hkeep t.run run hrun
  unfold State.work?
  rw [hrun', Option.bind_some, hprogram]
  exact hwork

variable {run : Run}

theorem work?_eq {instruction : Instruction} (hrun : s.runs[t.run]? = some run)
    (hby : byId run.program t.id = some instruction) :
    s.work? t = some (run.program, instruction) := by
  unfold State.work?
  rw [hrun, Option.bind_some, hby]
  rfl

theorem work?_mem {work : Program × Instruction} (hwork : s.work? t = some work) :
    work.1 ∈ s.runs.map Run.program ∧ work.2 ∈ work.1.instructions := by
  obtain ⟨run, hrun, hfound⟩ := Option.bind_eq_some_iff.1 hwork
  obtain ⟨instruction, hby, rfl⟩ := Option.map_eq_some_iff.1 hfound
  exact ⟨List.mem_map.2 ⟨run, List.mem_of_getElem? hrun, rfl⟩, (byId_mem hby).1⟩

/-- A step adds events to the log and moves tasks accordingly. -/
theorem Joinings.extend (h : Joinings host s) (events : List Event) (hkeep : KeepsPrograms s s')
    (hlog : s'.log = s.log ++ events) (haborted : ∀ r, s.AbortedRun r → s'.AbortedRun r)
    (hjoined : ∀ t owner, s'.phase t = .joined owner ↔
      s.phase t = .joined owner ∨ .joined t owner ∈ events)
    (hsame : ∀ t owner, .joined t owner ∈ events → t ≠ owner ∧ ∃ a b, s'.work? t = some a ∧
      s'.work? owner = some b ∧ host.digest (contentOf a) = host.digest (contentOf b))
    (hconflicted : ∀ t owner, .conflicted t owner ∈ events → t ≠ owner ∧ ∃ a b,
      s'.work? t = some a ∧ s'.work? owner = some b ∧ SameWork a b ∧ contentOf a ≠ contentOf b)
    (hcut : ∀ t, .cut t ∈ events → s'.AbortedRun t.run ∧
      ∀ u, s'.phase u = .joined t → s'.AbortedRun u.run)
    (halone : ∀ t owner, .joined t owner ∈ events → .cut owner ∈ s.log → s'.AbortedRun t.run)
    (hgoing : ∀ t owner, s'.phase t = .joined owner → s'.AbortedRun owner.run →
      (s'.phase owner).result? = none → s'.AbortedRun t.run)
    (hpromised : ∀ t result, (s'.phase t).result? = some result →
      (s.phase t).result? = some result ∨ result.joined = false)
    (hgiven : ∀ t result, s'.completed t = some result →
      (s.completed t = some result ∧ (s'.phase t = .idle → s.phase t = .idle)) ∨
      ((result.joined = true → ∃ owner, s'.phase t = .joined owner) ∧
        ∀ message, s'.phase t = .idle →
          result.outcome.error = some (errorOf "op_id_conflict" message) →
            ∃ owner, .conflicted t owner ∈ s'.log)) : Joinings host s' := by
  have hold : ∀ e ∈ s.log, e ∈ s'.log := by
    intro e he
    rw [hlog]
    exact List.mem_append_left _ he
  refine ⟨fun t owner => ?_, fun t owner ht => ?_, fun t owner ht => ?_, fun t ht => ?_,
    fun t owner ht hcutOwner => ?_, hgoing, fun t result ht => ?_, fun t result ht hflag => ?_,
    fun t result message ht hidle herror => ?_⟩
  · rw [hlog, List.mem_append, h.joined, hjoined]
  · rw [hlog, List.mem_append] at ht
    rcases ht with ht | ht
    · obtain ⟨hne, a, b, ha, hb, hdigest⟩ := h.same t owner ht
      exact ⟨hne, a, b, work?_keep hkeep ha, work?_keep hkeep hb, hdigest⟩
    · exact hsame t owner ht
  · rw [hlog, List.mem_append] at ht
    rcases ht with ht | ht
    · obtain ⟨hne, a, b, ha, hb, hrest⟩ := h.conflicted t owner ht
      exact ⟨hne, a, b, work?_keep hkeep ha, work?_keep hkeep hb, hrest⟩
    · exact hconflicted t owner ht
  · rw [hlog, List.mem_append] at ht
    exact ht.elim (fun ht => haborted _ (h.cut t ht)) fun ht => (hcut t ht).1
  · rw [hlog, List.mem_append] at hcutOwner
    rcases hcutOwner with hearlier | hnow
    · rcases (hjoined t owner).1 ht with ht | ht
      · exact haborted _ (h.alone t owner ht hearlier)
      · exact halone t owner ht hearlier
    · exact (hcut owner hnow).2 t ht
  · exact (hpromised t result ht).elim (h.promised t result) id
  · rcases hgiven t result ht with ⟨hres, -⟩ | ⟨hnew, -⟩
    · obtain ⟨owner, howner⟩ := h.flagged t result hres hflag
      exact ⟨owner, (hjoined t owner).2 (.inl howner)⟩
    · exact hnew hflag
  · rcases hgiven t result ht with ⟨hres, hback⟩ | ⟨-, hnew⟩
    · obtain ⟨owner, howner⟩ := h.refused t result message hres (hback hidle) herror
      exact ⟨owner, hold _ howner⟩
    · exact hnew message hidle herror

/-- Nobody joins and no run is aborted, and a task with a result keeps it. -/
theorem Joinings.goesOn (h : Joinings host s) (haborted : ∀ r, s'.AbortedRun r ↔ s.AbortedRun r)
    (hjoined : ∀ t owner, s'.phase t = .joined owner → s.phase t = .joined owner)
    (hopen : ∀ t, (s'.phase t).result? = none → (s.phase t).result? = none) (t owner : TaskId)
    (ht : s'.phase t = .joined owner) (howner : s'.AbortedRun owner.run)
    (hnone : (s'.phase owner).result? = none) : s'.AbortedRun t.run :=
  (haborted _).2 (h.going t owner (hjoined t owner ht) ((haborted _).1 howner)
    (hopen owner hnone))

/-- Events on which joins do not depend. -/
def Event.unshared : Event → Bool
  | called _ | answered .. | aborted _ | finished .. => true
  | conflicted .. | joined .. | cut _ => false

/-- No result is given, and nobody joins, is refused or cut off. -/
theorem Joinings.frame (h : Joinings host s) (events : List Event) (hkeep : KeepsPrograms s s')
    (hlog : s'.log = s.log ++ events) (hunshared : ∀ e ∈ events, e.unshared = true)
    (haborted : ∀ r, s.AbortedRun r → s'.AbortedRun r)
    (hjoined : ∀ t owner, s'.phase t = .joined owner ↔ s.phase t = .joined owner)
    (hgoing : ∀ t owner, s'.phase t = .joined owner → s'.AbortedRun owner.run →
      (s'.phase owner).result? = none → s'.AbortedRun t.run)
    (hidle : ∀ t, s'.phase t = .idle → s.phase t = .idle)
    (hpromised : ∀ t result, (s'.phase t).result? = some result →
      (s.phase t).result? = some result ∨ result.joined = false)
    (hcompleted : s'.completed = s.completed) : Joinings host s' := by
  have hnot : ∀ e, e.unshared = false → e ∉ events := by
    intro e he hmem
    rw [hunshared e hmem] at he
    cases he
  refine h.extend _ hkeep hlog haborted (fun t owner => ?_) (fun t owner ht => ?_)
    (fun t owner ht => ?_) (fun t ht => ?_) (fun t owner ht => ?_) hgoing hpromised
    fun t result ht => .inl ⟨by rw [← hcompleted, ht], hidle t⟩
  · rw [hjoined]
    exact (or_iff_left (hnot (.joined t owner) rfl)).symm
  · exact absurd ht (hnot _ rfl)
  · exact absurd ht (hnot _ rfl)
  · exact absurd ht (hnot _ rfl)
  · exact absurd ht (hnot _ rfl)

variable {r : RunId}

/-- A run begins or is aborted. -/
theorem Joinings.abort (h : Joinings host s) (r : RunId) (aborted : Bool)
    (hkeep : KeepsPrograms s s') (hlog : s'.log = s.log ++ if aborted then [.aborted r] else [])
    (hcompleted : s'.completed = s.completed) (hphase : s'.phase = s.phase)
    (haborted : ∀ r', s'.AbortedRun r' ↔ s.AbortedRun r' ∨ (r' = r ∧ aborted = true))
    (hmet : ∀ t owner, owner.run = r → s.phase t = .joined owner →
      (s.phase owner).result? = none → t.run = r ∨ s.AbortedRun t.run) : Joinings host s' := by
  refine h.frame _ hkeep hlog (fun e he => ?_) (fun r' ha => (haborted r').2 (.inl ha))
    (fun t owner => by rw [hphase]) (fun t owner ht howner hnone => ?_)
    (fun t ht => by rwa [hphase] at ht) (fun t result ht => .inl (by rwa [hphase] at ht)) hcompleted
  · cases aborted with
    | false => cases he
    | true =>
      obtain rfl := List.mem_singleton.1 he
      rfl
  · rw [hphase] at ht hnone
    refine (haborted t.run).2 ?_
    rcases (haborted owner.run).1 howner with hold | ⟨hrun, hnow⟩
    · exact .inl (h.going t owner ht hold hnone)
    · exact (hmet t owner hrun ht hnone).symm.imp_right fun htr => ⟨htr, hnow⟩

/-- A run goes on in its loop. -/
theorem Joinings.withRun (h : Joinings host s) {run' : Run} (hrun : s.runs[r]? = some run)
    (hprogram : run'.program = run.program) (haborted : run'.aborted = run.aborted) :
    Joinings host (s.setRun r run') := by
  have hsame := abortedRun_setRun hrun haborted
  exact h.frame [] (keepsPrograms_setRun hrun hprogram) (List.append_nil _).symm
    (fun _ he => by cases he) (fun r' => (hsame r').2) (fun _ _ => Iff.rfl)
    (h.goesOn hsame (fun _ _ ht => ht) fun _ ht => ht) (fun _ h => h) (fun _ _ h => .inl h) rfl

/-- A result is given to a task. -/
theorem Joinings.finish (h : Joinings host s) (t : TaskId) (result : InstructionResult)
    (events : List Event) (hevents : ∀ e ∈ events, ∃ owner, e = .conflicted t owner)
    (hconflicted : ∀ owner, .conflicted t owner ∈ events → t ≠ owner ∧ ∃ a b, s.work? t = some a ∧
      s.work? owner = some b ∧ SameWork a b ∧ contentOf a ≠ contentOf b)
    (hflag : result.joined = true → ∃ owner, s.phase t = .joined owner)
    (hrefused : s.phase t = .idle → ∀ message,
      result.outcome.error = some (errorOf "op_id_conflict" message) → events ≠ []) :
    Joinings host ((s.record events).finish t result) := by
  have hlog : ((s.record events).finish t result).log =
      s.log ++ (events ++ [.finished t result]) := List.append_assoc _ _ _
  have hmem : ∀ e, e ∈ events ++ [Event.finished t result] →
      (∃ owner, e = .conflicted t owner ∧ e ∈ events) ∨ e = .finished t result := by
    intro e he
    rcases List.mem_append.1 he with he | he
    · obtain ⟨owner, heq⟩ := hevents e he
      exact .inl ⟨owner, heq, he⟩
    · exact .inr (List.mem_singleton.1 he)
  refine h.extend _ (keepsPrograms_of_runs rfl) hlog (fun _ ha => ha) (fun u owner => ?_)
    (fun u owner hu => ?_) (fun u owner hu => ?_) (fun u hu => ?_) (fun u owner hu => ?_)
    h.going (fun u res hu => .inl hu) fun u res hu => ?_
  · refine ⟨.inl, fun hor => hor.resolve_right fun hin => ?_⟩
    rcases hmem _ hin with ⟨_, heq, -⟩ | heq <;> cases heq
  · rcases hmem _ hu with ⟨_, heq, -⟩ | heq <;> cases heq
  · rcases hmem _ hu with ⟨_, heq, hin⟩ | heq
    · obtain ⟨rfl, rfl⟩ := Event.conflicted.inj heq
      exact hconflicted owner hin
    · cases heq
  · rcases hmem _ hu with ⟨_, heq, -⟩ | heq <;> cases heq
  · rcases hmem _ hu with ⟨_, heq, -⟩ | heq <;> cases heq
  · have hcompleted : ((s.record events).finish t result).completed u =
        if u = t then some result else s.completed u := rfl
    rw [hcompleted] at hu
    by_cases hut : u = t
    · rw [if_pos hut] at hu
      obtain rfl := Option.some.inj hu
      subst hut
      refine .inr ⟨hflag, fun message hidle herror => ?_⟩
      obtain ⟨e, he⟩ := List.exists_mem_of_ne_nil _ (hrefused hidle message herror)
      obtain ⟨owner, rfl⟩ := hevents e he
      refine ⟨owner, ?_⟩
      rw [hlog]
      exact List.mem_append_right _ (List.mem_append_left _ he)
    · rw [if_neg hut] at hu
      exact .inl ⟨hu, id⟩

/-- What is pending is cancelled. -/
theorem Joinings.cancelPending (h : Joinings host s) (hc : Coordinated host s)
    (hrun : s.runs[r]? = some run) (haborted : run.aborted = true) (hr : Scheduled s r run) :
    Joinings host (s.cancelPending r run) := by
  have hmem : ∀ e, e ∈ ((cancelledPending r run).flatMap fun c =>
      [Event.finished c.1 c.2, .cut c.1]) →
      ∃ id ∈ run.pending, (∃ result, e = .finished ⟨r, id⟩ result) ∨ e = .cut ⟨r, id⟩ := by
    intro e he
    obtain ⟨c, hcancelled, hin⟩ := List.mem_flatMap.1 he
    obtain ⟨id, hid, instruction, -, rfl⟩ := mem_cancelledPending.1 hcancelled
    rcases List.mem_cons.1 hin with heq | hin
    · exact ⟨id, hid, .inl ⟨_, heq⟩⟩
    · exact ⟨id, hid, .inr (List.mem_singleton.1 hin)⟩
  refine h.extend _ (keepsPrograms_of_runs rfl) rfl (fun _ ha => ha) (fun u owner => ?_)
    (fun u owner hu => ?_) (fun u owner hu => ?_) (fun u hu => ?_) (fun u owner hu => ?_)
    h.going (fun u res hu => .inl hu) fun u res hu => ?_
  · refine ⟨.inl, fun hor => hor.resolve_right fun hin => ?_⟩
    obtain ⟨_, -, ⟨_, heq⟩ | heq⟩ := hmem _ hin <;> cases heq
  · obtain ⟨_, -, ⟨_, heq⟩ | heq⟩ := hmem _ hu <;> cases heq
  · obtain ⟨_, -, ⟨_, heq⟩ | heq⟩ := hmem _ hu <;> cases heq
  · obtain ⟨id, hid, ⟨_, heq⟩ | heq⟩ := hmem _ hu
    · cases heq
    · -- nobody has joined a task that has not begun
      obtain rfl := Event.cut.inj heq
      refine ⟨⟨run, hrun, haborted⟩, fun v hv => ?_⟩
      have hown := hc.joins v _ hv
      rw [(hr.pending id hid).2.1] at hown
      cases hown
  · obtain ⟨_, -, ⟨_, heq⟩ | heq⟩ := hmem _ hu <;> cases heq
  · by_cases hpending : u.run = r ∧ u.id ∈ run.pending
    · obtain ⟨ur, id⟩ := u
      obtain ⟨rfl, hid⟩ : ur = r ∧ id ∈ run.pending := hpending
      obtain ⟨⟨instruction, hby⟩, -, -⟩ := hr.pending id hid
      rw [cancelPending_of_pending hid hby] at hu
      obtain rfl := Option.some.inj hu
      refine .inr ⟨fun hflag => Bool.noConfusion hflag, fun message _ herror => ?_⟩
      simp [abortOutcome, resultOf, errorOf] at herror
    · rw [not_and_or] at hpending
      rw [cancelPending_of_not_pending hpending] at hu
      exact .inl ⟨hu, id⟩

/-- A task without a result goes on in its body; if an abort cancels it, those who have joined
    it are aborted too. -/
theorem Joinings.body (h : Joinings host s) (hrun : s.runs[t.run]? = some run)
    (hnot : ∀ owner, s.phase t ≠ .joined owner) (hp : p.own = true)
    (hresult : ∀ result, p.result? = some result → result.joined = false) {events : List Event}
    (hevents : ∀ e ∈ events, e = .called t ∨ (e = .cut t ∧ run.aborted = true))
    (hopen : p.result? = none ∨ .cut t ∈ events → (s.phase t).result? = none) :
    Joinings host ((s.setPhase t p).record events) := by
  have hphase : ∀ u, ((s.setPhase t p).record events).phase u = if u = t then p else s.phase u :=
    fun u => rfl
  have hjoined : ∀ u owner, ((s.setPhase t p).record events).phase u = .joined owner ↔
      s.phase u = .joined owner := by
    intro u owner
    rw [hphase]
    by_cases hut : u = t
    · rw [if_pos hut, hut]
      refine iff_of_false (fun heq => ?_) (hnot owner)
      rw [heq] at hp
      cases hp
    · rw [if_neg hut]
  refine h.extend events (keepsPrograms_of_runs rfl) rfl (fun _ ha => ha)
    (fun u owner => ?_) (fun u owner hu => ?_) (fun u owner hu => ?_) (fun u hu => ?_)
    (fun u owner hu => ?_) (h.goesOn (fun _ => Iff.rfl) (fun u owner => (hjoined u owner).1)
      fun u hu => ?_) (fun u res hu => ?_) fun u res hu => .inl ⟨hu, fun hidle => ?_⟩
  · rw [hjoined]
    refine ⟨.inl, fun hor => hor.resolve_right fun hin => ?_⟩
    rcases hevents _ hin with heq | ⟨heq, -⟩ <;> cases heq
  · rcases hevents _ hu with heq | ⟨heq, -⟩ <;> cases heq
  · rcases hevents _ hu with heq | ⟨heq, -⟩ <;> cases heq
  · rcases hevents _ hu with heq | ⟨heq, haborted⟩
    · cases heq
    · obtain rfl := Event.cut.inj heq
      have hrunAborted : s.AbortedRun u.run := ⟨run, hrun, haborted⟩
      exact ⟨hrunAborted, fun v hv =>
        h.going v u ((hjoined v u).1 hv) hrunAborted (hopen (.inr hu))⟩
  · rcases hevents _ hu with heq | ⟨heq, -⟩ <;> cases heq
  · rw [hphase] at hu
    split at hu
    · rename_i hut
      rw [hut]
      exact hopen (.inl hu)
    · exact hu
  · rw [hphase] at hu
    split at hu
    · exact .inr (hresult res hu)
    · exact .inl hu
  · rw [hphase] at hidle
    split at hidle
    · rw [hidle] at hp
      cases hp
    · exact hidle

theorem record_nil (s : State) : s.record [] = s := by
  show { s with log := s.log ++ [] } = s
  rw [List.append_nil]

theorem mem_phaseEvents {e : Event} (he : e ∈ phaseEvents t run p) :
    e = .called t ∨ (e = .cut t ∧ run.aborted = true) := by
  unfold phaseEvents at he
  split at he
  · exact .inl (List.mem_singleton.1 he)
  · split at he
    · rename_i hboth
      exact .inr ⟨List.mem_singleton.1 he, hboth.1⟩
    · cases he
  · cases he

theorem Joinings.congr (h : Joinings host s) (hruns : s'.runs = s.runs) (hlog : s'.log = s.log)
    (hcompleted : s'.completed = s.completed) (hphase : s'.phase = s.phase) :
    Joinings host s' := by
  have hsame : ∀ r, s'.AbortedRun r ↔ s.AbortedRun r := by
    intro r
    unfold State.AbortedRun
    rw [hruns]
  exact h.frame [] (keepsPrograms_of_runs hruns) (by rw [hlog, List.append_nil])
    (fun _ he => by cases he) (fun r => (hsame r).2) (fun u owner => by rw [hphase])
    (h.goesOn hsame (fun u owner hu => by rwa [hphase] at hu) fun u hu => by rwa [hphase] at hu)
    (fun u hu => by rwa [hphase] at hu) (fun u res hu => .inl (by rwa [hphase] at hu)) hcompleted

/-- A task moves on without a word to the others. -/
theorem Joinings.setPhase (h : Joinings host s) (hrun : s.runs[t.run]? = some run)
    (hnot : ∀ owner, s.phase t ≠ .joined owner) (hp : p.own = true)
    (hresult : ∀ result, p.result? = some result → result.joined = false)
    (hopen : p.result? = none → (s.phase t).result? = none) :
    Joinings host (s.setPhase t p) := by
  have hmoved : Joinings host ((s.setPhase t p).record []) :=
    h.body hrun hnot hp hresult (fun e he => by cases he) fun hcut =>
      hopen (hcut.resolve_right List.not_mem_nil)
  rwa [record_nil] at hmoved

theorem Joinings.grant (h : Joinings host s) {granted : List TaskId}
    (hwas : ∀ u ∈ granted, s.phase u = .waiting) : Joinings host (s.grant granted) := by
  have hphase : ∀ u, (s.grant granted).phase u =
      if u ∈ granted then .granted else s.phase u := fun u => rfl
  have hjoined : ∀ u owner, (s.grant granted).phase u = .joined owner ↔
      s.phase u = .joined owner := by
    intro u owner
    rw [hphase]
    by_cases hu : u ∈ granted
    · rw [if_pos hu, hwas u hu]
      exact iff_of_false Phase.noConfusion Phase.noConfusion
    · rw [if_neg hu]
  refine h.frame [] (keepsPrograms_of_runs rfl) (List.append_nil _).symm
    (fun _ he => by cases he) (fun _ ha => ha) hjoined (h.goesOn (fun _ => Iff.rfl)
      (fun u owner => (hjoined u owner).1) fun u hu => ?_) (fun u hu => ?_) (fun u res hu => ?_) rfl
  · rw [hphase] at hu
    split at hu
    · rename_i hin
      rw [hwas u hin]
      rfl
    · exact hu
  · rw [hphase] at hu
    split at hu
    · cases hu
    · exact hu
  · rw [hphase] at hu
    split at hu
    · cases hu
    · exact .inl hu

/-- An instruction joins one in flight with its fingerprint. -/
theorem Joinings.join (h : Joinings host s) (hc : Coordinated host s) {owner : TaskId}
    {instruction : Instruction} (hrun : s.runs[t.run]? = some run)
    (hby : byId run.program t.id = some instruction) (hidle : s.phase t = .idle)
    (hflight : s.inFlight (joinKey host run.program instruction) =
      some (instructionFingerprint host run.program instruction, owner))
    (halone : s.AbortedRun owner.run → (s.phase owner).result? = none ∨ .cut owner ∈ s.log →
      run.aborted = true) :
    Joinings host ((s.setPhase t (.joined owner)).record [.joined t owner]) := by
  have hphase : ∀ u, ((s.setPhase t (.joined owner)).record [.joined t owner]).phase u =
      if u = t then .joined owner else s.phase u := fun u => rfl
  obtain ⟨hown, other, found, hother, hfound, -, hfingerprint⟩ := hc.flight _ _ _ hflight
  have hne : t ≠ owner := by
    rintro rfl
    rw [hidle] at hown
    cases hown
  refine h.extend [.joined t owner] (keepsPrograms_of_runs rfl) rfl (fun _ ha => ha)
    (fun u o => ?_) (fun u o hu => ?_) (fun u o hu => ?_) (fun u hu => ?_) (fun u o hu hcut => ?_)
    (fun u o hu ho hnone => ?_) (fun u res hu => ?_) fun u res hu => .inl ⟨hu, fun hidleu => ?_⟩
  · rw [hphase, List.mem_singleton, Event.joined.injEq]
    by_cases hut : u = t
    · rw [if_pos hut, hut, hidle, Phase.joined.injEq]
      simp [eq_comm]
    · rw [if_neg hut]
      simp [hut]
  · obtain ⟨rfl, rfl⟩ := Event.joined.inj (List.mem_singleton.1 hu)
    exact ⟨hne, _, _, work?_eq (s := s) hrun hby, work?_eq (s := s) hother hfound, hfingerprint⟩
  · simp at hu
  · simp at hu
  · obtain ⟨rfl, rfl⟩ := Event.joined.inj (List.mem_singleton.1 hu)
    exact ⟨run, hrun, halone (h.cut _ hcut) (.inr hcut)⟩
  · rw [hphase] at hu hnone
    have hopen : (s.phase o).result? = none := by
      split at hnone
      · rename_i hot
        rw [hot, hidle]
        rfl
      · exact hnone
    by_cases hut : u = t
    · rw [if_pos hut, Phase.joined.injEq] at hu
      subst hu hut
      exact ⟨run, hrun, halone ho (.inl hopen)⟩
    · rw [if_neg hut] at hu
      exact h.going u o hu ho hopen
  · rw [hphase] at hu
    split at hu
    · cases hu
    · exact .inl hu
  · rw [hphase] at hidleu
    split at hidleu
    · cases hidleu
    · exact hidleu

theorem sameWork_of_joinKey {a b : Program × Instruction} (hapart : TextsApart host a b)
    (hkey : joinKey host a.1 a.2 = joinKey host b.1 b.2) : SameWork a b := by
  unfold joinKey at hkey
  unfold TextsApart at hapart
  cases ha : a.2.opId with
  | some opId =>
    cases hb : b.2.opId with
    | some opId' =>
      rw [ha, hb] at hkey
      exact .inl ⟨opId, ha, hb.trans (congrArg some hkey.symm)⟩
    | none =>
      rw [ha, hb] at hkey hapart
      exact .inr (hapart hkey)
  | none =>
    cases hb : b.2.opId with
    | some opId =>
      rw [ha, hb] at hkey hapart
      exact .inr (hapart hkey.symm)
    | none =>
      rw [ha, hb] at hkey hapart
      exact .inr (hapart hkey)

/-- Joins are kept apart by every step that meets the conditions. -/
theorem Joinings.step {l : Label} (h : Joinings host s) (hi : Invariant host s)
    (happart : JoinsApart host s l) (hstep : Step host s l s') : Joinings host s' := by
  obtain ⟨hc, hs⟩ := hi
  obtain ⟨hnames, halone⟩ := happart
  cases hstep with
  | launch program requested checks aborted =>
    refine h.abort s.runs.length aborted (fun r run hrun => ⟨run, ?_, rfl⟩) rfl rfl rfl
      (abortedRun_launch rfl) fun t owner howner ht _ => ?_
    · show (s.runs ++ [_])[r]? = some run
      rw [List.getElem?_append_left (List.getElem?_eq_some_iff.1 hrun).1]
      exact hrun
    · -- a run that is only now launched has no instructions that anybody could have joined
      obtain ⟨instruction, htask⟩ := hc.task owner (Phase.ne_idle_of_own (hc.joins t owner ht))
      obtain ⟨run, hrun, -⟩ := Option.bind_eq_some_iff.1 htask
      rw [howner, List.getElem?_eq_none (le_refl _)] at hrun
      cases hrun
  | abort r run hrun =>
    have hkeep : KeepsPrograms s (s.setRun r { run with aborted := true }) :=
      keepsPrograms_setRun hrun rfl
    refine h.abort r true hkeep rfl rfl rfl (abortedRun_abort hrun) fun t owner howner ht hnone => ?_
    subst howner
    exact halone.abort t owner rfl ht hnone
  | iterate _ _ hrun | finish _ _ hrun | full _ _ _ _ _ hrun | blocked _ _ _ _ _ _ hrun =>
    exact h.withRun hrun rfl rfl
  | cancel r run hrun hloop hmore haborted =>
    exact (h.cancelPending hc hrun haborted (hs.runs r run hrun)).withRun
      (s := s.cancelPending r run) hrun rfl rfl
  | skip r run id rest progressed instruction d hrun =>
    have hskipped := h.finish ⟨r, id⟩ (skippedOutcome instruction d) []
      (fun e he => by cases he) (fun owner he => by cases he)
      (fun hflag => by cases hflag) fun _ message herror => by
        simp [skippedOutcome, resultOf, errorOf] at herror
    rw [record_nil] at hskipped
    exact hskipped.withRun (s := s.finish _ _) hrun rfl rfl
  | conflict r run id rest progressed instruction fingerprint owner hrun hloop hroom hby hready
      hfailed hflight hother =>
      have hstarts : Starts s r run instruction :=
        ⟨hrun, hroom, ⟨id, rest, progressed, hloop, hby⟩, hready, hfailed⟩
      obtain ⟨hown, run', found, hrun', hfound, hkey, hfingerprint⟩ := hc.flight _ _ _ hflight
      have hwork := work?_eq (s := s) hrun' hfound
      have hsame := sameWork_of_joinKey
        (hnames r run instruction _ fingerprint owner _ rfl hstarts hflight hwork) hkey
      have hidle := hs.idle_of_scanning r run id rest progressed hrun hloop
      have hgiven := h.finish ⟨r, id⟩
        (opIdConflict instruction (joinKey host run.program instruction))
        [.conflicted ⟨r, id⟩ owner]
        (fun e he => ⟨owner, List.mem_singleton.1 he⟩) (fun o ho => ?_)
        (fun hflag => by cases hflag) fun _ _ _ => List.cons_ne_nil _ _
      · exact hgiven.withRun (s := State.finish _ _ _) hrun rfl rfl
      · obtain ⟨-, rfl⟩ := Event.conflicted.inj (List.mem_singleton.1 ho)
        refine ⟨?_, _, _, work?_eq (t := ⟨r, id⟩) hrun hby, hwork, hsame, fun hcontent => ?_⟩
        · rintro rfl
          rw [hidle] at hown
          cases hown
        · exact hother (hfingerprint.trans (congrArg host.digest hcontent.symm))
  | join r run id rest progressed instruction owner hrun hloop hroom hby hready hfailed hflight =>
    have hidle := hs.idle_of_scanning r run id rest progressed hrun hloop
    have hstarts : Starts s r run instruction :=
      ⟨hrun, hroom, ⟨id, rest, progressed, hloop, hby⟩, hready, hfailed⟩
    have hjoined := h.join hc (t := ⟨r, id⟩) hrun hby hidle hflight
      (halone.joining r run instruction _ owner rfl hstarts hflight)
    exact hjoined.withRun (s := State.record _ _) hrun rfl rfl
  | own r run id rest progressed instruction hrun hloop =>
    have hidle := hs.idle_of_scanning r run id rest progressed hrun hloop
    have hnot : ∀ owner, s.phase ⟨r, id⟩ ≠ .joined owner := by
      intro owner
      rw [hidle]
      exact Phase.noConfusion
    unfold State.startOwn
    simp only
    split
    · rename_i haborted
      have hcut : Joinings host ((s.setPhase ⟨r, id⟩
          (.resolved (abortOutcome instruction))).record [.cut ⟨r, id⟩]) := by
        refine h.body (t := ⟨r, id⟩) hrun hnot rfl (fun result hp => ?_) (fun e he => ?_)
          fun _ => by rw [hidle]; rfl
        · obtain rfl := Option.some.inj hp
          rfl
        · exact .inr ⟨List.mem_singleton.1 he, haborted⟩
      have hset : Joinings host (State.setRun _ r (run.started id rest)) :=
        hcut.withRun hrun rfl rfl
      exact hset.congr rfl rfl rfl rfl
    · have hwaiting : Joinings host (s.setPhase ⟨r, id⟩ .waiting) :=
        h.setPhase (t := ⟨r, id⟩) hrun hnot rfl (fun result hp => by cases hp)
          fun _ => by rw [hidle]; rfl
      have hgranted := hwaiting.grant (hc.acquired_waiting hidle)
      have hset : Joinings host (State.setRun _ r (run.started id rest)) :=
        hgranted.withRun hrun rfl rfl
      exact hset.congr rfl rfl rfl rfl
  | race _ _ _ hrun | again _ _ _ hrun | stuck _ _ hrun | wake _ _ _ hrun =>
    exact h.withRun hrun rfl rfl
  | enqueue t instruction hphase htask =>
    obtain ⟨run, hrun, -⟩ := Option.bind_eq_some_iff.1 htask
    have hqueued : Joinings host (s.setPhase t .queued) :=
      h.setPhase hrun (fun owner => by rw [hphase]; exact Phase.noConfusion) rfl
        (fun result hp => by cases hp) fun _ => by rw [hphase]; rfl
    exact hqueued.congr rfl rfl rfl rfl
  | resume t run instruction hphase hrun hby hcommits =>
    refine h.body hrun (fun owner => by rw [hphase]; exact Phase.noConfusion)
      (Phase.own_of_inside (Phase.inside_of_running (runBody_running ..))) (fun result hp => ?_)
      (fun e he => mem_phaseEvents he) fun _ => by rw [hphase]; rfl
    obtain ⟨outcome, rfl⟩ := runBody_result hp
    rfl
  | turn t run instruction hphase hhead hrun hby =>
    refine h.body hrun (fun owner => by rw [hphase]; exact Phase.noConfusion)
      (Phase.own_of_inside (Phase.inside_of_running (runBody_running ..))) (fun result hp => ?_)
      (fun e he => mem_phaseEvents he) fun _ => by rw [hphase]; rfl
    obtain ⟨outcome, rfl⟩ := runBody_result hp
    rfl
  | answer t run instruction index answer hphase hrun hby =>
    have hrecorded : Joinings host (s.record (answerEvents t index answer)) := by
      refine h.frame _ (keepsPrograms_of_runs rfl) rfl (fun e he => ?_) (fun _ ha => ha)
        (fun _ _ => Iff.rfl) h.going (fun _ hu => hu) (fun _ _ hu => .inl hu) rfl
      cases answer with
      | ok =>
        obtain rfl := List.mem_singleton.1 he
        rfl
      | error => cases he
    have hnot : ∀ owner, (s.record (answerEvents t index answer)).phase t ≠ .joined owner := by
      intro owner
      show s.phase t ≠ _
      rw [hphase]
      exact Phase.noConfusion
    refine hrecorded.body hrun hnot
      (Phase.own_of_inside (Phase.inside_of_running (afterAnswer_running ..)))
      (fun result hp => ?_) (fun e he => mem_phaseEvents he) fun _ => ?_
    · obtain ⟨outcome, rfl⟩ := afterAnswer_result hp
      rfl
    · show (s.phase t).result? = none
      rw [hphase]
      rfl
  | settle t run instruction answer hphase hrun hby =>
    refine h.body hrun (fun owner => by rw [hphase]; exact Phase.noConfusion) rfl
      (fun result hp => ?_) (fun e he => mem_phaseEvents he) fun _ => by rw [hphase]; rfl
    obtain ⟨outcome, heq⟩ := executed_result instruction answer
    obtain rfl := Option.some.inj hp
    rw [heq]
    rfl
  | leaveQueue | forget => exact h.congr rfl rfl rfl rfl
  | release t result hphase =>
    obtain ⟨instruction, htask⟩ := hc.task t (by rw [hphase]; exact Phase.noConfusion)
    obtain ⟨run, hrun, -⟩ := Option.bind_eq_some_iff.1 htask
    have hresolved : Joinings host (s.setPhase t (.resolved result)) := by
      refine h.setPhase hrun (fun owner => by rw [hphase]; exact Phase.noConfusion) rfl
        (fun res hp => ?_) fun hp => by cases hp
      exact h.promised t res (by rw [hphase]; exact hp)
    have hgranted := hresolved.grant fun u hu => by
      obtain ⟨hne, hwas⟩ := hc.released_waiting hphase u hu
      exact (if_neg hne).trans hwas
    exact hgranted.congr rfl rfl rfl rfl
  | deliver t result hphase =>
    have hgiven := h.finish t result [] (fun e he => by cases he)
      (fun owner he => by cases he) (fun hflag => ?_) fun hidle => ?_
    · rw [record_nil] at hgiven
      exact hgiven
    · rw [h.promised t result (by rw [hphase]; rfl)] at hflag
      cases hflag
    · rw [hphase] at hidle
      cases hidle
  | deliverJoined t owner result hphase =>
    have hgiven := h.finish t { result with id := t.id, joined := true } []
      (fun e he => by cases he) (fun owner he => by cases he)
      (fun _ => ⟨owner, hphase⟩) fun hidle => ?_
    · rw [record_nil] at hgiven
      exact hgiven
    · rw [hphase] at hidle
      cases hidle

/-! ## Every run -/

theorem Joinings.joinContract (h : Joinings host s) (hh : History s)
    (hdigest : CollisionFree host s) : JoinContract s := by
  refine ⟨h.conflicted, fun t result message ht hidle herror => ?_, fun t owner ht => ?_,
    fun t result ht hflag => ?_, fun t result ht hcancelled => ?_⟩
  · exact h.refused t result message ((hh.finished t result).1 ht) hidle herror
  · obtain ⟨hne, a, b, ha, hb, hequal⟩ := h.same t owner ht
    obtain ⟨hp, hi⟩ := work?_mem ha
    obtain ⟨hq, hj⟩ := work?_mem hb
    exact ⟨hne, a, b, ha, hb, hdigest _ hp _ hq _ hi _ hj hequal⟩
  · obtain ⟨owner, howner⟩ := h.flagged t result ((hh.finished t result).1 ht) hflag
    exact ⟨owner, (h.joined t owner).2 howner⟩
  · obtain ⟨-, hcut | ⟨owner, hjoined, hcut⟩⟩ := hcancelled
    · exact h.cut t hcut
    · exact h.alone t owner ((h.joined t owner).1 hjoined) hcut

/-- Where the texts of instructions in flight tell works apart, and aborts meet nobody who
    joined, runs on one coordinator share only the same work and keep their aborts to
    themselves. -/
theorem joins_apart (host : PipelineHost) {ls : List Label} {s : State}
    (h : Trace (Guarded (JoinsApart host) (Step host)) .start ls s)
    (hdigest : CollisionFree host s) : JoinContract s := by
  have hkept : Kept host s ∧ Joinings host s := by
    refine h.invariant (I := fun s => Kept host s ∧ Joinings host s) (fun s l s' hs hstep => ?_)
      ⟨.start, .start⟩
    exact ⟨hs.1.step hstep.2, hs.2.step hs.1.invariant hstep.1 hstep.2⟩
  exact hkept.2.joinContract hkept.1.history hdigest

/-! ## Programs that meet the conditions -/

/-- The texts of all instructions of the programs are apart. -/
def KeysApart (host : PipelineHost) (programs : List Program) : Prop :=
  ∀ p ∈ programs, ∀ q ∈ programs, ∀ i ∈ p.instructions, ∀ j ∈ q.instructions,
    TextsApart host (p, i) (q, j)

theorem namesApart_of_keysApart (hkeys : KeysApart host (s.runs.map Run.program)) (l : Label) :
    NamesApart host s l := by
  intro r run instruction key fingerprint owner other _ hstarts _ hother
  obtain ⟨id, rest, progressed, -, hby⟩ := hstarts.scanned
  obtain ⟨hprogram, hmem⟩ := work?_mem hother
  exact hkeys _ (List.mem_map.2 ⟨run, List.mem_of_getElem? hstarts.running, rfl⟩) _ hprogram _
    (byId_mem hby).1 _ hmem

/-- Nobody aborts. -/
def Label.calm : Label → Bool
  | launch _ _ _ aborted => !aborted
  | abort _ => false
  | _ => true

def Calm (s : State) : Prop := ∀ given ∈ s.runs.map Run.given, given.2 = false

theorem Calm.not_aborted (h : Calm s) (r : RunId) : ¬ s.AbortedRun r := by
  rintro ⟨run, hrun, haborted⟩
  have hcalm := h run.given (List.mem_map.2 ⟨run, List.mem_of_getElem? hrun, rfl⟩)
  rw [show run.given.2 = run.aborted from rfl, haborted] at hcalm
  cases hcalm

theorem Calm.step {l : Label} (h : Calm s) (hl : l.calm = true) (hstep : Step host s l s') :
    Calm s' := by
  by_cases hinternal : l.internal = true
  · unfold Calm
    rw [hstep.given hinternal]
    exact h
  · cases hstep with
    | launch program requested checks aborted haccepted =>
      intro given hgiven
      rcases List.mem_append.1 (List.map_append ▸ hgiven) with hold | hnew
      · exact h given hold
      · rw [List.map_singleton, List.mem_singleton] at hnew
        rw [hnew]
        have hcalm : (!aborted) = true := hl
        rwa [Bool.not_eq_true'] at hcalm
    | abort => cases hl
    | _ => exact absurd rfl hinternal

theorem Calm.abortsAlone (h : Calm s) {l : Label} (hl : l.calm = true) : AbortsAlone host s l := by
  constructor
  · rintro t owner rfl
    cases hl
  · intro r run instruction key owner _ _ _ haborted
    exact absurd haborted (h.not_aborted owner.run)

/-- Without aborts, and with programs whose keys tell works apart, the conditions are met. -/
theorem guard_of_calm {ls : List Label} (h : Trace (Step host) s ls s') (hk : Kept host s)
    (hj : Joinings host s) (hcalm : Calm s) (hls : ∀ l ∈ ls, l.calm = true)
    (hkeys : KeysApart host (s'.runs.map Run.program)) :
    Trace (Guarded (JoinsApart host) (Step host)) s ls s' := by
  induction h with
  | nil s => exact .nil s
  | cons head tail ih =>
    rename_i s₀ s₁ s₂ l ls
    have hl := hls l List.mem_cons_self
    have hgrows : ∀ {a b : State} {l : Label}, Step host a l b →
        a.runs.map Run.program ⊆ b.runs.map Run.program := by
      intro a b l hstep
      by_cases hlaunch : l.launches = false
      · rw [hstep.samePrograms hlaunch]
        exact List.Subset.refl _
      · cases hstep with
        | launch program requested checks aborted haccepted =>
          show _ ⊆ (a.runs ++ [_]).map Run.program
          rw [List.map_append]
          exact List.subset_append_left _ _
        | _ => exact absurd rfl hlaunch
    have hsub : s₀.runs.map Run.program ⊆ s₂.runs.map Run.program :=
      (Trace.cons head tail).relates (R := fun a b : State =>
        a.runs.map Run.program ⊆ b.runs.map Run.program) (fun _ => List.Subset.refl _)
        (fun _ _ _ => List.Subset.trans) fun _ _ _ hstep => hgrows hstep
    have hnow : KeysApart host (s₀.runs.map Run.program) :=
      fun p hp q hq => hkeys p (hsub hp) q (hsub hq)
    have happart : JoinsApart host s₀ l :=
      ⟨namesApart_of_keysApart hnow l, hcalm.abortsAlone hl⟩
    exact .cons ⟨happart, head⟩ (ih (hk.step head) (hj.step hk.invariant happart head)
      (hcalm.step hl head) (fun l hl => hls l (List.mem_cons_of_mem _ hl)) hkeys)

/-! ## Two callers of one program -/

theorem stat_joined : ∃ ls s, Trace (Guarded (JoinsApart sampleHost) (Step sampleHost)) .start ls s ∧
    (s.completed ⟨1, .text "stat"⟩).map InstructionResult.joined = some true ∧
    JoinContract s := by
  have hrun : ∃ ls s, Trace (Step sampleHost) .start ls s ∧ (∀ l ∈ ls, l.calm = true) ∧
      s.runs.map Run.program = [statFile, statFile] ∧
      (s.completed ⟨1, .text "stat"⟩).map InstructionResult.joined = some true := by
    refine ⟨_, _, .cons (.launch _ statFile none false false (by decide)) <|
      .cons (.launch _ statFile none false false (by decide)) <|
      .cons (.iterate _ 0 _ rfl rfl (by decide) rfl) <|
      .cons (.own _ 0 _ (.text "stat") [] false _ rfl rfl (by decide) rfl (by decide) rfl rfl) <|
      .cons (.iterate _ 1 _ rfl rfl (by decide) rfl) <|
      .cons (.join _ 1 _ (.text "stat") [] false _ ⟨0, .text "stat"⟩ rfl rfl (by decide) rfl
        (by decide) rfl rfl) <|
      .cons (.resume _ ⟨0, .text "stat"⟩ _ _ rfl rfl rfl rfl) <|
      .cons (.settle _ ⟨0, .text "stat"⟩ _ _ (.ok { status := .succeeded }) rfl rfl rfl) <|
      .cons (.release _ ⟨0, .text "stat"⟩ _ rfl List.not_mem_nil) <|
      .cons (.deliverJoined _ ⟨1, .text "stat"⟩ ⟨0, .text "stat"⟩ _ rfl rfl rfl) <| .nil _,
      fun l hl => ?_, rfl, rfl⟩
    simp only [List.mem_cons, List.not_mem_nil, or_false] at hl
    rcases hl with rfl | rfl | rfl | rfl | rfl | rfl | rfl | rfl | rfl | rfl <;> rfl
  obtain ⟨ls, s, htrace, hls, hprograms, hjoined⟩ := hrun
  have hkeys : KeysApart sampleHost (s.runs.map Run.program) := by
    rw [hprograms]
    intro p hp q hq i hi j hj
    simp only [List.mem_cons, List.not_mem_nil, or_false, or_self] at hp hq
    subst hp hq
    simp only [statFile, List.mem_singleton] at hi hj
    rw [hi, hj]
    exact fun _ => ⟨rfl, rfl⟩
  have hdigest : CollisionFree sampleHost s := by
    unfold CollisionFree
    rw [hprograms]
    intro p hp q hq i hi j hj _
    simp only [List.mem_cons, List.not_mem_nil, or_false, or_self] at hp hq
    subst hp hq
    simp only [statFile, List.mem_singleton] at hi hj
    rw [hi, hj]
  have hguarded := guard_of_calm htrace .start .start (fun given hgiven => by cases hgiven) hls hkeys
  exact ⟨ls, s, hguarded, hjoined, joins_apart sampleHost hguarded hdigest⟩

/-! ## Colons in ids, and an abort that travels -/

/-- The key of `c` in the program `a:b` is the key of `b:c` in the program `a`. -/
def statOfAB : Program :=
  { statFile with programId := "a:b", instructions := [{ id := .text "c", op := .fsStat }] }

def readOfA : Program :=
  { statFile with programId := "a", instructions := [{ id := .text "b:c", op := .fsRead }] }

theorem refused_and_cancelled :
    (∃ ls s, Trace (Step sampleHost) .start ls s ∧ CollisionFree sampleHost s ∧
      .conflicted ⟨1, .text "b:c"⟩ ⟨0, .text "c"⟩ ∈ s.log ∧ ¬ JoinContract s) ∧
    ∃ ls s, Trace (Step sampleHost) .start ls s ∧ CollisionFree sampleHost s ∧
      ¬ s.AbortedRun 1 ∧ ¬ JoinContract s := by
  constructor
  · refine ⟨_, _, .cons (.launch _ statOfAB none false false (by decide)) <|
      .cons (.launch _ readOfA none false false (by decide)) <|
      .cons (.iterate _ 0 _ rfl rfl (by decide) rfl) <|
      .cons (.own _ 0 _ (.text "c") [] false _ rfl rfl (by decide) rfl (by decide) rfl rfl) <|
      .cons (.iterate _ 1 _ rfl rfl (by decide) rfl) <|
      .cons (.conflict _ 1 _ (.text "b:c") [] false _ _ ⟨0, .text "c"⟩ rfl rfl (by decide) rfl
        (by decide) rfl rfl (by decide)) <| .nil _, ?_, by decide, fun hcontract => ?_⟩
    · intro p hp q hq i hi j hj heq
      have hp' : p ∈ [statOfAB, readOfA] := hp
      have hq' : q ∈ [statOfAB, readOfA] := hq
      revert p q i j
      decide
    · obtain ⟨-, a, b, ha, hb, hsame, -⟩ :=
        hcontract.conflicts ⟨1, .text "b:c"⟩ ⟨0, .text "c"⟩ (by decide)
      obtain rfl := Option.some.inj (ha : some _ = some a)
      obtain rfl := Option.some.inj (hb : some _ = some b)
      rcases hsame with ⟨opId, hopId, -⟩ | ⟨hprogram, -⟩
      · cases hopId
      · exact absurd hprogram (by decide)
  · refine ⟨_, _, .cons (.launch _ statFile none false false (by decide)) <|
      .cons (.launch _ statFile none false false (by decide)) <|
      .cons (.iterate _ 0 _ rfl rfl (by decide) rfl) <|
      .cons (.own _ 0 _ (.text "stat") [] false _ rfl rfl (by decide) rfl (by decide) rfl rfl) <|
      .cons (.iterate _ 1 _ rfl rfl (by decide) rfl) <|
      .cons (.join _ 1 _ (.text "stat") [] false _ ⟨0, .text "stat"⟩ rfl rfl (by decide) rfl
        (by decide) rfl rfl) <|
      .cons (.abort _ 0 _ rfl rfl) <|
      .cons (.resume _ ⟨0, .text "stat"⟩ _ _ rfl rfl rfl rfl) <|
      .cons (.release _ ⟨0, .text "stat"⟩ _ rfl List.not_mem_nil) <|
      .cons (.deliverJoined _ ⟨1, .text "stat"⟩ ⟨0, .text "stat"⟩ _ rfl rfl rfl) <| .nil _,
      ?_, ?_, fun hcontract => ?_⟩
    · intro p hp q hq i hi j hj heq
      have hp' : p ∈ [statFile, statFile] := hp
      have hq' : q ∈ [statFile, statFile] := hq
      revert p q i j
      decide
    · rintro ⟨run, hrun, haborted⟩
      obtain rfl := Option.some.inj hrun
      cases haborted
    · obtain ⟨run, hrun, haborted⟩ := hcontract.aborts ⟨1, .text "stat"⟩ _
        (List.mem_append_right _ List.mem_cons_self)
        ⟨rfl, .inr ⟨⟨0, .text "stat"⟩, by decide, by decide⟩⟩
      obtain rfl := Option.some.inj hrun
      cases haborted

end XioFlow.Pipeline
