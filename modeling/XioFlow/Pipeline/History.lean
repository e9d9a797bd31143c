/-
  XioFlow.Pipeline.History

  The invariant of the log: results are given once, and the executor is called
  once, before an abort, after the dependencies succeeded and with the
  preconditions found valid.
-/

import XioFlow.Lib.Chronicle
import XioFlow.Pipeline.Schedule

namespace XioFlow.Pipeline

open Lib

/-! ## What justifies an event -/

/-- The log says that a precondition was met. -/
def Checked (before : List Event) (t : TaskId) (index : Nat) : Precondition → Prop
  | .instructionStatus instruction status =>
    ∃ result, .finished ⟨t.run, .text instruction⟩ result ∈ before ∧ result.status = status
  | .external _ _ => .answered t index .valid ∈ before

structure CallJustified (s : State) (before : List Event) (t : TaskId) : Prop where
  first : .called t ∉ before
  notAborted : .aborted t.run ∉ before
  instruction : ∃ instruction, s.task? t = some instruction ∧
    (∀ d ∈ instruction.dependsOn, ∃ result, .finished ⟨t.run, .text d⟩ result ∈ before ∧
      dependencySucceeded result = true) ∧
    ∀ index condition, instruction.precondition[index]? = some condition →
      Checked before t index condition

/-- The executor is called with justification, and a result is given once. -/
def EventJustified (s : State) (before : List Event) : Event → Prop
  | .called t => CallJustified s before t
  | .finished t _ => ∀ result, .finished t result ∉ before
  | _ => True

def State.AbortedRun (s : State) (r : RunId) : Prop :=
  ∃ run, s.runs[r]? = some run ∧ run.aborted = true

/-- The executor of the task may have been called. -/
def Phase.past : Phase → Bool
  | executing | returned _ | resolved _ => true
  | idle | joined _ | waiting | granted | queued | checking _ => false

/-- The result that the promise of a task holds. -/
def Phase.result? : Phase → Option InstructionResult
  | returned result | resolved result => some result
  | _ => none

/-- The preconditions before the one the checker has were met. -/
def CheckedUpTo (s : State) (t : TaskId) (index : Nat) : Prop :=
  ∃ instruction kind fields, s.task? t = some instruction ∧
    instruction.precondition[index]? = some (.external kind fields) ∧
    ∀ j condition, j < index → instruction.precondition[j]? = some condition →
      Checked s.log t j condition

structure History (s : State) : Prop where
  finished : ∀ t result, .finished t result ∈ s.log ↔ s.completed t = some result
  aborted : ∀ r, .aborted r ∈ s.log ↔ s.AbortedRun r
  called : ∀ t, .called t ∈ s.log → (s.phase t).past = true
  checking : ∀ t index, s.phase t = .checking index → CheckedUpTo s t index
  justified : Chronicle (EventJustified s) s.log
  promised : ∀ t result, (s.phase t).result? = some result → result.id = t.id
  given : ∀ t result, s.completed t = some result →
    result.id = t.id ∧ ∃ instruction, s.task? t = some instruction

theorem History.start : History .start := by
  refine ⟨?_, ?_, ?_, ?_, Chronicle.nil, ?_, ?_⟩ <;>
    simp [State.start, State.AbortedRun, Phase.result?]

theorem Checked.mono {before before' : List Event} {t : TaskId} {index : Nat}
    {condition : Precondition} (h : Checked before t index condition) (hsub : before ⊆ before') :
    Checked before' t index condition := by
  cases condition with
  | instructionStatus =>
    obtain ⟨result, hresult, hstatus⟩ := h
    exact ⟨result, hsub hresult, hstatus⟩
  | external => exact hsub h

theorem EventJustified.keep {s s' : State} (hkeep : KeepsPrograms s s') {before : List Event}
    {e : Event} (h : EventJustified s before e) : EventJustified s' before e := by
  cases e with
  | called =>
    obtain ⟨hfirst, hnot, instruction, htask, hrest⟩ := h
    exact ⟨hfirst, hnot, instruction, task?_keep hkeep htask, hrest⟩
  | finished => exact h
  | answered | aborted | conflicted | joined | cut => trivial

/-! ## Steps -/

section Steps

variable {s s' : State}

/-- A step adds events to the log, in accordance with what else it does. -/
theorem History.extend (h : History s) (events : List Event) (hkeep : KeepsPrograms s s')
    (hlog : s'.log = s.log ++ events)
    (hfinished : ∀ t result, s'.completed t = some result ↔
      s.completed t = some result ∨ .finished t result ∈ events)
    (haborted : ∀ r, s'.AbortedRun r ↔ s.AbortedRun r ∨ .aborted r ∈ events)
    (hcalled : ∀ t, (s.phase t).past = true ∨ .called t ∈ events → (s'.phase t).past = true)
    (hchecking : ∀ t index, s'.phase t = .checking index →
      s.phase t = .checking index ∨ CheckedUpTo s' t index)
    (hjustified : ∀ before e after, events = before ++ e :: after →
      EventJustified s' (s.log ++ before) e)
    (hpromised : ∀ t result, (s'.phase t).result? = some result →
      (s.phase t).result? = some result ∨ result.id = t.id)
    (hgiven : ∀ t result, .finished t result ∈ events →
      result.id = t.id ∧ ∃ instruction, s'.task? t = some instruction) : History s' := by
  refine ⟨fun t result => ?_, fun r => ?_, fun t ht => ?_, fun t index ht => ?_, ?_,
    fun t result ht => ?_, fun t result ht => ?_⟩
  · rw [hlog, List.mem_append, h.finished, hfinished]
  · rw [hlog, List.mem_append, h.aborted, haborted]
  · rw [hlog, List.mem_append] at ht
    exact hcalled t (ht.imp_left (h.called t))
  · rcases hchecking t index ht with hold | hnew
    · obtain ⟨instruction, kind, fields, htask, hindex, hall⟩ := h.checking t index hold
      refine ⟨instruction, kind, fields, task?_keep hkeep htask, hindex, fun j c hj hc => ?_⟩
      rw [hlog]
      exact (hall j c hj hc).mono (List.subset_append_left _ _)
    · exact hnew
  · rw [hlog]
    exact (h.justified.mono fun _ _ he => he.keep hkeep).append hjustified
  · exact (hpromised t result ht).elim (h.promised t result) id
  · rcases (hfinished t result).1 ht with hold | hnew
    · obtain ⟨hid, instruction, htask⟩ := h.given t result hold
      exact ⟨hid, instruction, task?_keep hkeep htask⟩
    · exact hgiven t result hnew

/-- Steps that give no result and do not touch the bodies of the tasks. -/
theorem History.frame (h : History s) (hkeep : KeepsPrograms s s') (hlog : s'.log = s.log)
    (hcompleted : s'.completed = s.completed) (haborted : ∀ r, s'.AbortedRun r ↔ s.AbortedRun r)
    (hpast : ∀ t, (s.phase t).past = true → (s'.phase t).past = true)
    (hchecking : ∀ t index, s'.phase t = .checking index → s.phase t = .checking index)
    (hpromised : ∀ t result, (s'.phase t).result? = some result →
      (s.phase t).result? = some result) : History s' := by
  refine h.extend [] hkeep (by rw [hlog, List.append_nil]) (fun t result => ?_)
    (fun r => ?_) (fun t ht => ?_) (fun t index ht => .inl (hchecking t index ht)) ?_
    (fun t result ht => .inl (hpromised t result ht)) ?_
  · rw [hcompleted]
    simp
  · rw [haborted]
    simp
  · exact hpast t (ht.resolve_right List.not_mem_nil)
  · intro before e after heq
    simp at heq
  · intro t result ht
    cases ht

variable {r : RunId} {instruction : Instruction} {run : Run}

theorem abortedRun_setRun {run' : Run} (hrun : s.runs[r]? = some run)
    (haborted : run'.aborted = run.aborted) (r' : RunId) :
    (s.setRun r run').AbortedRun r' ↔ s.AbortedRun r' := by
  unfold State.AbortedRun
  rw [State.getElem?_setRun hrun]
  by_cases hr : r' = r
  · subst hr
    rw [if_pos rfl, hrun]
    simp [haborted]
  · rw [if_neg hr]

theorem getElem?_launch (program : Program) (requested : Option Nat) (checks aborted : Bool)
    (r : Nat) : (s.runs ++ [Run.launch program requested checks aborted])[r]? =
      if r = s.runs.length then some (Run.launch program requested checks aborted)
      else s.runs[r]? := by
  by_cases hr : r = s.runs.length
  · simp [hr]
  · rw [if_neg hr, List.getElem?_append]
    split
    · rfl
    · rename_i hge
      rw [List.getElem?_eq_none (by simp; omega), List.getElem?_eq_none (by omega)]

theorem abortedRun_launch {program : Program} {requested : Option Nat} {checks aborted : Bool}
    (hruns : s'.runs = s.runs ++ [Run.launch program requested checks aborted]) (r : RunId) :
    s'.AbortedRun r ↔ s.AbortedRun r ∨ (r = s.runs.length ∧ aborted = true) := by
  unfold State.AbortedRun
  rw [hruns, getElem?_launch]
  by_cases hr : r = s.runs.length
  · subst hr
    simp [Run.launch]
  · rw [if_neg hr]
    simp [hr]

theorem abortedRun_abort (hrun : s.runs[r]? = some run) (r' : RunId) :
    (s.setRun r { run with aborted := true }).AbortedRun r' ↔
      s.AbortedRun r' ∨ (r' = r ∧ true = true) := by
  unfold State.AbortedRun
  rw [State.getElem?_setRun hrun]
  by_cases hr : r' = r
  · subst hr
    simp
  · rw [if_neg hr]
    simp [hr]

/-- A run goes on in its loop. -/
theorem History.withRun (h : History s) {run' : Run} (hrun : s.runs[r]? = some run)
    (hprogram : run'.program = run.program) (haborted : run'.aborted = run.aborted) :
    History (s.setRun r run') :=
  h.frame (keepsPrograms_setRun hrun hprogram) rfl rfl (abortedRun_setRun hrun haborted)
    (fun _ ht => ht) (fun _ _ ht => ht) fun _ _ ht => ht

/-- The events on which nothing else depends. -/
def Event.remark : Event → Bool
  | answered .. | conflicted .. | joined .. | cut _ => true
  | called _ | aborted _ | finished .. => false

theorem History.record (h : History s) (events : List Event)
    (hremarks : ∀ e ∈ events, e.remark = true) : History (s.record events) := by
  have hnot : ∀ e, e.remark = false → e ∉ events := by
    intro e he hmem
    rw [hremarks e hmem] at he
    cases he
  refine h.extend _ (keepsPrograms_of_runs rfl) rfl (fun t result => ?_) (fun r => ?_)
    (fun t ht => ?_) (fun t index ht => .inl ht) (fun before e after heq => ?_)
    (fun t result ht => .inl ht) fun t result ht => ?_
  · have hnone := hnot (.finished t result) rfl
    simp [State.record, hnone]
  · have hnone := hnot (.aborted r) rfl
    simp [State.record, State.AbortedRun, hnone]
  · exact ht.resolve_right (hnot _ rfl)
  · have hremark := hremarks e (by rw [heq]; simp)
    cases e with
    | called | finished => cases hremark
    | answered | aborted | conflicted | joined | cut => trivial
  · exact absurd ht (hnot _ rfl)

variable {t : TaskId} {result : InstructionResult} {index : Nat} {conditions : List Precondition}
  {p : Phase}

theorem History.finish (h : History s) (hnone : s.completed t = none) (hid : result.id = t.id)
    (htask : ∃ instruction, s.task? t = some instruction) : History (s.finish t result) := by
  have hcompleted : ∀ u, (s.finish t result).completed u =
      if u = t then some result else s.completed u := fun u => rfl
  refine h.extend [.finished t result] (keepsPrograms_of_runs rfl) rfl
    (fun u res => ?_) (fun r => ?_) (fun u hu => ?_) (fun u index hu => .inl hu)
    (fun before e after heq => ?_) (fun u res hu => .inl hu) fun u res hu => ?_
  · rw [hcompleted, List.mem_singleton, Event.finished.injEq]
    by_cases hut : u = t
    · rw [if_pos hut, hut, hnone]
      simp [eq_comm]
    · rw [if_neg hut]
      simp [hut]
  · simp [State.finish, State.AbortedRun]
  · exact hu.resolve_right (by simp)
  · obtain ⟨rfl, rfl, rfl⟩ : before = [] ∧ e = .finished t result ∧ after = [] := by
      cases before with
      | nil => simpa [eq_comm] using heq
      | cons => simp at heq
    intro res hmem
    rw [List.append_nil, h.finished, hnone] at hmem
    cases hmem
  · rw [List.mem_singleton, Event.finished.injEq] at hu
    obtain ⟨rfl, rfl⟩ := hu
    exact ⟨hid, htask⟩

/-! ## The body of a task -/

/-- The completed instructions have the status that the precondition asks for. -/
def StatusHolds (s : State) (r : RunId) : Precondition → Prop
  | .instructionStatus instruction status => s.statusOf r instruction = some status
  | .external _ _ => False

theorem StatusHolds.checked (h : History s) {condition : Precondition}
    (hholds : StatusHolds s t.run condition) : Checked s.log t index condition := by
  cases condition with
  | instructionStatus =>
    obtain ⟨result, hresult, hstatus⟩ := Option.map_eq_some_iff.1 hholds
    exact ⟨result, (h.finished _ _).2 hresult, hstatus⟩
  | external => exact hholds.elim

theorem checkFrom_executing
    (h : checkFrom s r run instruction index conditions = .executing) :
    run.aborted = false ∧ ∀ condition ∈ conditions, StatusHolds s r condition := by
  induction conditions generalizing index with
  | nil =>
    simp only [checkFrom] at h
    split at h
    · cases h
    · rename_i hnot
      exact ⟨Bool.eq_false_iff.2 hnot, fun c hc => absurd hc List.not_mem_nil⟩
  | cons condition conditions ih =>
    cases condition with
    | instructionStatus =>
      simp only [checkFrom] at h
      split at h
      · rename_i hstatus
        obtain ⟨hnot, hall⟩ := ih h
        refine ⟨hnot, fun c hc => ?_⟩
        rcases List.mem_cons.1 hc with rfl | hc
        · exact hstatus
        · exact hall c hc
      · cases h
    | external =>
      simp only [checkFrom] at h
      split at h <;> cases h

theorem checkFrom_checking {asked : Nat}
    (h : checkFrom s r run instruction index conditions = .checking asked) :
    ∃ n kind fields, asked = index + n ∧ conditions[n]? = some (.external kind fields) ∧
      ∀ condition ∈ conditions.take n, StatusHolds s r condition := by
  induction conditions generalizing index with
  | nil =>
    simp only [checkFrom] at h
    split at h <;> cases h
  | cons condition conditions ih =>
    cases condition with
    | instructionStatus =>
      simp only [checkFrom] at h
      split at h
      · rename_i hstatus
        obtain ⟨n, kind, fields, hasked, hn, hall⟩ := ih h
        refine ⟨n + 1, kind, fields, by omega, hn, fun c hc => ?_⟩
        rw [List.take_succ_cons] at hc
        rcases List.mem_cons.1 hc with rfl | hc
        · exact hstatus
        · exact hall c hc
      · cases h
    | external kind fields =>
      simp only [checkFrom] at h
      split at h
      · cases h
        exact ⟨0, kind, fields, rfl, rfl, fun c hc => absurd hc List.not_mem_nil⟩
      · cases h

/-- What the body of a task returns is a result of its instruction. -/
theorem checkFrom_result (hp : p = checkFrom s r run instruction index conditions)
    (h : p.result? = some result) : ∃ outcome, result = resultOf instruction outcome := by
  subst hp
  induction conditions generalizing index with
  | nil =>
    simp only [checkFrom] at h
    split at h <;> cases h
    exact ⟨_, rfl⟩
  | cons condition conditions ih =>
    cases condition with
    | instructionStatus =>
      simp only [checkFrom] at h
      split at h
      · exact ih h
      · cases h
        exact ⟨_, rfl⟩
    | external =>
      simp only [checkFrom] at h
      split at h <;> cases h
      exact ⟨_, rfl⟩

theorem runBody_result (h : (runBody s r run instruction).result? = some result) :
    ∃ outcome, result = resultOf instruction outcome := by
  unfold runBody at h
  split at h
  · exact ⟨_, (Option.some.inj h).symm⟩
  · exact checkFrom_result rfl h

theorem afterAnswer_result {answer : Except String PreconditionVerdict}
    (h : (afterAnswer s r run instruction index answer).result? = some result) :
    ∃ outcome, result = resultOf instruction outcome := by
  unfold afterAnswer at h
  split at h
  · exact checkFrom_result rfl h
  · exact ⟨_, (Option.some.inj h).symm⟩
  · exact ⟨_, (Option.some.inj h).symm⟩

theorem executed_result (instruction : Instruction) (answer : Except String Outcome) :
    ∃ outcome, executed instruction answer = resultOf instruction outcome := by
  cases answer <;> exact ⟨_, rfl⟩

/-- Of a state the body of a task reads only what is completed. -/
theorem checkFrom_record (events : List Event) (r : RunId) (run : Run) (instruction : Instruction)
    (conditions : List Precondition) (index : Nat) :
    checkFrom (s.record events) r run instruction index conditions =
      checkFrom s r run instruction index conditions := by
  induction conditions generalizing index with
  | nil => rfl
  | cons condition conditions ih =>
    cases condition with
    | instructionStatus =>
      simp only [checkFrom, ih]
      rfl
    | external => rfl

theorem afterAnswer_record (events : List Event) (r : RunId) (run : Run)
    (instruction : Instruction) (index : Nat) (answer : Except String PreconditionVerdict) :
    afterAnswer (s.record events) r run instruction index answer =
      afterAnswer s r run instruction index answer := by
  unfold afterAnswer
  simp only [checkFrom_record]

/-- The preconditions of an instruction before an index were met. -/
def CheckedBefore (s : State) (t : TaskId) (instruction : Instruction) (index : Nat) : Prop :=
  ∀ j condition, j < index → instruction.precondition[j]? = some condition →
    Checked s.log t j condition

theorem checked_of_drop (h : History s) {n : Nat} (hbefore : CheckedBefore s t instruction index)
    (hholds : ∀ condition ∈ (instruction.precondition.drop index).take n,
      StatusHolds s t.run condition) : CheckedBefore s t instruction (index + n) := by
  intro j condition hj hcondition
  by_cases hlt : j < index
  · exact hbefore j condition hlt hcondition
  · refine StatusHolds.checked h (hholds condition ?_)
    refine List.mem_of_getElem? (i := j - index) ?_
    rw [List.getElem?_take_of_lt (by omega), List.getElem?_drop,
      show index + (j - index) = j by omega]
    exact hcondition

theorem executing_checked (h : History s)
    (hbefore : CheckedBefore s t instruction index)
    (hphase : checkFrom s t.run run instruction index (instruction.precondition.drop index) =
      .executing) :
    run.aborted = false ∧ ∀ j condition, instruction.precondition[j]? = some condition →
      Checked s.log t j condition := by
  obtain ⟨hnot, hall⟩ := checkFrom_executing hphase
  refine ⟨hnot, fun j condition hcondition => ?_⟩
  have hlt : j < index + instruction.precondition.length := by
    have hbound := (List.getElem?_eq_some_iff.1 hcondition).1
    omega
  exact checked_of_drop h hbefore (fun c hc => hall c (List.mem_of_mem_take hc)) j condition hlt
    hcondition

theorem checking_checked (h : History s) {asked : Nat}
    (htask : s.task? t = some instruction) (hbefore : CheckedBefore s t instruction index)
    (hphase : checkFrom s t.run run instruction index (instruction.precondition.drop index) =
      .checking asked) : CheckedUpTo s t asked := by
  obtain ⟨n, kind, fields, rfl, hn, hall⟩ := checkFrom_checking hphase
  rw [List.getElem?_drop] at hn
  exact ⟨instruction, kind, fields, htask, hn, checked_of_drop h hbefore hall⟩

/-- A task that had its resources, or whose precondition was checked, goes on in its body. -/
theorem History.body (h : History s) (hs : Schedules s)
    (hrun : s.runs[t.run]? = some run) (hby : byId run.program t.id = some instruction)
    (hown : (s.phase t).own = true)
    (hpast : (s.phase t).past = true → p.past = true ∧ p ≠ .executing)
    (hexecuting : p = .executing → run.aborted = false ∧
      ∀ j condition, instruction.precondition[j]? = some condition → Checked s.log t j condition)
    (hchecking : ∀ index, p = .checking index → CheckedUpTo s t index)
    (hreturned : ∀ result, p.result? = some result →
      ∃ outcome, result = resultOf instruction outcome) : History (s.advance t run p) := by
  have hphase : ∀ u, (s.advance t run p).phase u = if u = t then p else s.phase u := fun u => rfl
  have hevents : ∀ e ∈ phaseEvents t run p, (e = .called t ∧ p = .executing) ∨ e = .cut t := by
    intro e he
    unfold phaseEvents at he
    split at he
    · exact .inl ⟨List.mem_singleton.1 he, rfl⟩
    · split at he
      · exact .inr (List.mem_singleton.1 he)
      · cases he
    · cases he
  refine h.extend _ (keepsPrograms_of_runs rfl) rfl (fun u res => ?_) (fun r => ?_) (fun u hu => ?_)
    (fun u index hu => ?_) (fun before e after heq => ?_) (fun u res hu => ?_) fun u res hu => ?_
  · refine ⟨.inl, fun hor => hor.resolve_right fun hmem => ?_⟩
    rcases hevents _ hmem with ⟨heq, -⟩ | heq <;> cases heq
  · refine ⟨.inl, fun hor => hor.resolve_right fun hmem => ?_⟩
    rcases hevents _ hmem with ⟨heq, -⟩ | heq <;> cases heq
  · rw [hphase]
    rcases hu with hu | hu
    · by_cases hut : u = t
      · rw [if_pos hut]
        exact (hpast (hut ▸ hu)).1
      · rwa [if_neg hut]
    · rcases hevents _ hu with ⟨heq, rfl⟩ | heq
      · rw [if_pos (Event.called.inj heq)]
        rfl
      · cases heq
  · rw [hphase] at hu
    by_cases hut : u = t
    · rw [if_pos hut] at hu
      obtain ⟨found, kind, fields, htask, hindex, hall⟩ := hchecking index hu
      refine .inr ⟨found, kind, fields, hut ▸ htask, hindex, fun j c hj hcond => ?_⟩
      rw [hut]
      exact (hall j c hj hcond).mono (List.subset_append_left _ _)
    · rw [if_neg hut] at hu
      exact .inl hu
  · rcases hevents e (by rw [heq]; simp) with ⟨rfl, hp⟩ | rfl
    · -- the executor is called: nothing comes before it among the new events
      obtain ⟨hnot, hall⟩ := hexecuting hp
      have hbefore : before = [] := by
        rw [hp] at heq
        cases before with
        | nil => rfl
        | cons => simp [phaseEvents] at heq
      rw [hbefore, List.append_nil]
      refine ⟨fun hcalled => ?_, fun haborted => ?_, instruction, ?_, fun d hd => ?_, hall⟩
      · exact (hpast (h.called t hcalled)).2 hp
      · obtain ⟨run', hrun', haborted'⟩ := (h.aborted t.run).1 haborted
        obtain rfl := Option.some.inj (hrun.symm.trans hrun')
        rw [hnot] at haborted'
        cases haborted'
      · exact (State.task?_eq (s := s) hrun).trans hby
      · obtain ⟨result, hresult, hok⟩ := (hs.runs t.run run hrun).dependencies t.id instruction
          (Phase.ne_idle_of_own hown) hby d hd
        exact ⟨result, (h.finished _ _).2 hresult, hok⟩
    · trivial
  · rw [hphase] at hu
    by_cases hut : u = t
    · rw [if_pos hut] at hu
      obtain ⟨outcome, rfl⟩ := hreturned res hu
      exact .inr ((byId_mem hby).2.trans (congrArg TaskId.id hut.symm))
    · rw [if_neg hut] at hu
      exact .inl hu
  · rcases hevents _ hu with ⟨heq, -⟩ | heq <;> cases heq

theorem History.runBody (h : History s) (hs : Schedules s)
    (hrun : s.runs[t.run]? = some run) (hby : byId run.program t.id = some instruction)
    (hown : (s.phase t).own = true) (hpast : (s.phase t).past = false) :
    History (s.advance t run (runBody s t.run run instruction)) := by
  have htask : s.task? t = some instruction := (State.task?_eq hrun).trans hby
  have hnothing : CheckedBefore s t instruction 0 := fun j c hj => absurd hj (Nat.not_lt_zero j)
  have hphase : Pipeline.runBody s t.run run instruction = .returned (abortOutcome instruction) ∨
      Pipeline.runBody s t.run run instruction =
        checkFrom s t.run run instruction 0 (instruction.precondition.drop 0) := by
    unfold Pipeline.runBody
    split
    · exact .inl rfl
    · exact .inr rfl
  refine h.body hs hrun hby hown (fun htrue => ?_) (fun hp => ?_) (fun index hp => ?_)
    fun result hp => runBody_result hp
  · rw [hpast] at htrue
    cases htrue
  · rcases hphase with heq | heq
    · rw [heq] at hp
      cases hp
    · exact executing_checked h hnothing (heq.symm.trans hp)
  · rcases hphase with heq | heq
    · rw [heq] at hp
      cases hp
    · exact checking_checked h htask hnothing (heq.symm.trans hp)

theorem History.afterAnswer (h : History s) (hs : Schedules s)
    {answer : Except String PreconditionVerdict} (hrun : s.runs[t.run]? = some run)
    (hby : byId run.program t.id = some instruction) (hphase : s.phase t = .checking index)
    (hanswered : answer = .ok .valid → .answered t index .valid ∈ s.log) :
    History (s.advance t run (afterAnswer s t.run run instruction index answer)) := by
  have htask : s.task? t = some instruction := (State.task?_eq hrun).trans hby
  have hcases : (answer = .ok .valid ∧ Pipeline.afterAnswer s t.run run instruction index answer =
        checkFrom s t.run run instruction (index + 1)
          (instruction.precondition.drop (index + 1))) ∨
      ∃ result, Pipeline.afterAnswer s t.run run instruction index answer = .returned result := by
    unfold Pipeline.afterAnswer
    split
    · exact .inl ⟨rfl, rfl⟩
    · exact .inr ⟨_, rfl⟩
    · exact .inr ⟨_, rfl⟩
  -- after a valid answer all preconditions up to the one asked about were met
  have hbefore : answer = .ok .valid → CheckedBefore s t instruction (index + 1) := by
    intro hvalid j condition hj hcondition
    obtain ⟨found, kind, fields, hfound, hindex, hall⟩ := h.checking t index hphase
    obtain rfl := Option.some.inj (htask.symm.trans hfound)
    rcases Nat.lt_succ_iff_lt_or_eq.1 hj with hlt | rfl
    · exact hall j condition hlt hcondition
    · obtain rfl := Option.some.inj (hindex.symm.trans hcondition)
      exact hanswered hvalid
  refine h.body hs hrun hby (by rw [hphase]; rfl) (fun htrue => ?_) (fun hp => ?_)
    (fun asked hp => ?_) fun result hp => afterAnswer_result hp
  · rw [hphase] at htrue
    cases htrue
  · rcases hcases with ⟨hvalid, heq⟩ | ⟨res, heq⟩
    · exact executing_checked h (hbefore hvalid) (heq.symm.trans hp)
    · rw [heq] at hp
      cases hp
  · rcases hcases with ⟨hvalid, heq⟩ | ⟨res, heq⟩
    · exact checking_checked h htask (hbefore hvalid) (heq.symm.trans hp)
    · rw [heq] at hp
      cases hp

/-! ## Other steps -/

/-- Results given one after the other, to different tasks, are given once. -/
theorem finished_once (before : List Event) {given : List (TaskId × InstructionResult)}
    (hnodup : (given.map Prod.fst).Nodup)
    (hfresh : ∀ e ∈ given, ∀ result, .finished e.1 result ∉ before) :
    Chronicle (fun earlier e => EventJustified s (before ++ earlier) e)
      (given.flatMap fun e => [.finished e.1 e.2, .cut e.1]) := by
  induction given using List.reverseRecOn with
  | nil => exact Chronicle.nil
  | append_singleton given e ih =>
    rw [List.map_append, List.nodup_append] at hnodup
    obtain ⟨hold, -, hdisjoint⟩ := hnodup
    have hearlier : ∀ result, Event.finished e.1 result ∉
        given.flatMap fun e => [Event.finished e.1 e.2, .cut e.1] := by
      intro result hmem
      obtain ⟨e', he', hin⟩ := List.mem_flatMap.1 hmem
      have heq : e.1 = e'.1 := by simpa using (by simpa using hin : _ ∧ _).1
      exact hdisjoint e'.1 (List.mem_map.2 ⟨e', he', rfl⟩) e.1 (by simp) heq.symm
    rw [List.flatMap_append]
    refine (ih hold fun e' he' => hfresh e' (List.mem_append_left _ he')).append ?_
    intro earlier e' after heq
    rw [List.flatMap_singleton] at heq
    cases earlier with
    | nil =>
      obtain ⟨rfl, -⟩ := List.cons.inj heq
      intro result hmem
      rw [List.append_nil] at hmem
      rcases List.mem_append.1 hmem with hmem | hmem
      · exact hfresh e (by simp) result hmem
      · exact hearlier result hmem
    | cons first earlier =>
      obtain ⟨-, heq⟩ := List.cons.inj heq
      cases earlier with
      | nil =>
        obtain ⟨rfl, -⟩ := List.cons.inj heq
        trivial
      | cons => simp at heq

theorem History.cancelPending (h : History s) (hrun : s.runs[r]? = some run)
    (hr : Scheduled s r run) : History (s.cancelPending r run) := by
  have hfinished : ∀ t result, Event.finished t result ∈
      ((cancelledPending r run).flatMap fun e => [Event.finished e.1 e.2, .cut e.1]) ↔
        (t, result) ∈ cancelledPending r run := by
    intro t result
    rw [List.mem_flatMap]
    constructor
    · rintro ⟨e, he, hin⟩
      obtain ⟨rfl, rfl⟩ : t = e.1 ∧ result = e.2 := by simpa using hin
      exact he
    · exact fun he => ⟨_, he, by simp⟩
  have hfresh : ∀ e ∈ cancelledPending r run, s.completed e.1 = none := by
    intro e he
    obtain ⟨id, hid, instruction, -, rfl⟩ := mem_cancelledPending.1 he
    exact (hr.pending id hid).2.2
  refine h.extend _ (keepsPrograms_of_runs rfl) rfl (fun t result => ?_) (fun r' => ?_)
    (fun t ht => ?_) (fun t index ht => .inl ht) (fun before e after heq => ?_)
    (fun t result ht => .inl ht) fun t result ht => ?_
  · rw [hfinished, mem_cancelledPending]
    by_cases hpending : t.run = r ∧ t.id ∈ run.pending
    · obtain ⟨tr, id⟩ := t
      obtain ⟨rfl, hid⟩ : tr = r ∧ id ∈ run.pending := hpending
      obtain ⟨⟨instruction, hby⟩, -, hnone⟩ := hr.pending _ hid
      rw [cancelPending_of_pending hid hby, hnone]
      constructor
      · intro heq
        obtain rfl := Option.some.inj heq
        exact .inr ⟨_, hid, instruction, hby, rfl⟩
      · rintro (heq | ⟨j, -, found, hbyj, heq⟩)
        · cases heq
        · obtain ⟨ht, rfl⟩ := Prod.mk.inj heq
          obtain rfl : id = j := congrArg TaskId.id ht
          rw [Option.some.inj (hby.symm.trans hbyj)]
    · rw [not_and_or] at hpending
      rw [cancelPending_of_not_pending hpending]
      refine ⟨.inl, fun hor => hor.resolve_right ?_⟩
      rintro ⟨j, hj, found, -, heq⟩
      obtain ⟨rfl, -⟩ := Prod.mk.inj heq
      exact hpending.elim (fun hne => hne rfl) fun hnot => hnot hj
  · refine ⟨.inl, fun hor => hor.resolve_right fun hmem => ?_⟩
    obtain ⟨e, -, hin⟩ := List.mem_flatMap.1 hmem
    simp at hin
  · refine ht.resolve_right fun hmem => ?_
    obtain ⟨e, -, hin⟩ := List.mem_flatMap.1 hmem
    simp at hin
  · have hnodup : ((cancelledPending r run).map Prod.fst).Nodup := by
      unfold cancelledPending
      rw [List.map_filterMap]
      refine hr.pendingNodup.filterMap fun a a' b hb hb' => ?_
      have ha : b.id = a := by
        obtain ⟨e, he, rfl⟩ := Option.map_eq_some_iff.1 hb
        obtain ⟨instruction, -, rfl⟩ := Option.map_eq_some_iff.1 he
        rfl
      have ha' : b.id = a' := by
        obtain ⟨e, he, rfl⟩ := Option.map_eq_some_iff.1 hb'
        obtain ⟨instruction, -, rfl⟩ := Option.map_eq_some_iff.1 he
        rfl
      exact ha.symm.trans ha'
    refine finished_once s.log hnodup (fun e he result hmem => ?_) before e after heq
    rw [h.finished, hfresh e he] at hmem
    cases hmem
  · obtain ⟨id, -, instruction, hby, heq⟩ := mem_cancelledPending.1 ((hfinished t result).1 ht)
    obtain ⟨rfl, rfl⟩ := Prod.mk.inj heq
    exact ⟨(byId_mem hby).2, instruction, (State.task?_eq (s := s) hrun).trans hby⟩

/-- The coordinator's own fields do not matter to the log. -/
theorem History.congr (h : History s) (hruns : s'.runs = s.runs) (hlog : s'.log = s.log)
    (hcompleted : s'.completed = s.completed) (hphase : s'.phase = s.phase) : History s' := by
  refine h.frame (keepsPrograms_of_runs hruns) hlog hcompleted (fun r => ?_) (fun t ht => ?_)
    (fun t index ht => ?_) fun t result ht => ?_
  · unfold State.AbortedRun
    rw [hruns]
  · rwa [hphase]
  · rwa [hphase] at ht
  · rwa [hphase] at ht

theorem History.setPhase (h : History s) (hpast : (s.phase t).past = true → p.past = true)
    (hnot : ∀ index, p ≠ .checking index)
    (hid : ∀ result, p.result? = some result → result.id = t.id) : History (s.setPhase t p) := by
  have hphase : ∀ u, (s.setPhase t p).phase u = if u = t then p else s.phase u := fun u => rfl
  refine h.extend [] (keepsPrograms_of_runs rfl) (List.append_nil _).symm
    (fun u result => by simp [State.setPhase]) (fun r => by simp [State.setPhase, State.AbortedRun])
    (fun u hu => ?_) (fun u index hu => ?_) (fun before e after heq => by simp at heq)
    (fun u result hu => ?_) fun u result hu => absurd hu List.not_mem_nil
  · have hold := hu.resolve_right List.not_mem_nil
    rw [hphase]
    split
    · rename_i heq
      exact hpast (heq ▸ hold)
    · exact hold
  · rw [hphase] at hu
    split at hu
    · exact absurd hu (hnot index)
    · exact .inl hu
  · rw [hphase] at hu
    split at hu
    · rename_i heq
      exact .inr (heq ▸ hid result hu)
    · exact .inl hu

theorem History.grant (h : History s) {granted : List TaskId}
    (hwas : ∀ u ∈ granted, s.phase u = .waiting) : History (s.grant granted) := by
  have hphase : ∀ u, (s.grant granted).phase u =
      if u ∈ granted then .granted else s.phase u := fun u => rfl
  refine h.frame (keepsPrograms_of_runs rfl) rfl rfl (fun r => Iff.rfl) (fun u hu => ?_)
    (fun u index hu => ?_) fun u result hu => ?_
  · have hnot : u ∉ granted := by
      intro hmem
      rw [hwas u hmem] at hu
      cases hu
    rwa [hphase, if_neg hnot]
  · rw [hphase] at hu
    split at hu
    · cases hu
    · exact hu
  · rw [hphase] at hu
    split at hu
    · cases hu
    · exact hu

/-- A run begins or is aborted: of the log only its abort can be new. -/
theorem History.abort (h : History s) (r : RunId) (aborted : Bool) (hkeep : KeepsPrograms s s')
    (hlog : s'.log = s.log ++ if aborted then [.aborted r] else [])
    (hcompleted : s'.completed = s.completed) (hphase : s'.phase = s.phase)
    (haborted : ∀ r', s'.AbortedRun r' ↔ s.AbortedRun r' ∨ (r' = r ∧ aborted = true)) :
    History s' := by
  refine h.extend _ hkeep hlog (fun t result => ?_) (fun r' => ?_) (fun t ht => ?_)
    (fun t index ht => ?_) (fun before e after heq => ?_) (fun t result ht => ?_)
    fun t result ht => ?_
  · rw [hcompleted]
    cases aborted <;> simp
  · rw [haborted]
    cases aborted <;> simp
  · rw [hphase]
    refine ht.resolve_right ?_
    cases aborted <;> simp
  · rw [hphase] at ht
    exact .inl ht
  · have hmem : e ∈ (if aborted then [Event.aborted r] else []) := by rw [heq]; simp
    obtain rfl : e = .aborted r := by
      cases aborted <;> simp at hmem
      exact hmem
    trivial
  · rw [hphase] at ht
    exact .inl ht
  · cases aborted <;> simp at ht

/-- The log's invariant is kept by every step. -/
theorem History.step {host : PipelineHost} {l : Label} (h : History s) (hi : Invariant host s)
    (hstep : Step host s l s') : History s' := by
  obtain ⟨hc, hs⟩ := hi
  cases hstep with
  | launch program requested checks aborted =>
    refine h.abort s.runs.length aborted (fun r run hrun => ⟨run, ?_, rfl⟩)
      rfl rfl rfl (abortedRun_launch rfl)
    show (s.runs ++ [_])[r]? = some run
    rw [List.getElem?_append_left (List.getElem?_eq_some_iff.1 hrun).1]
    exact hrun
  | abort r run hrun =>
    have hkeep : KeepsPrograms s (s.setRun r { run with aborted := true }) :=
      keepsPrograms_setRun hrun rfl
    exact h.abort r true hkeep rfl rfl rfl (abortedRun_abort hrun)
  | iterate _ _ hrun | finish _ _ hrun | full _ _ _ _ _ hrun | blocked _ _ _ _ _ _ hrun
  | race _ _ _ hrun | again _ _ _ hrun | stuck _ _ hrun | wake _ _ _ hrun =>
    exact h.withRun hrun rfl rfl
  | cancel r run hrun =>
    exact (h.cancelPending hrun (hs.runs r run hrun)).withRun (s := s.cancelPending r run) hrun rfl rfl
  | skip r run id rest progressed instruction d hrun hloop hroom hby =>
    obtain ⟨-, -, hnone⟩ := (hs.runs r run hrun).pending id
      (((hs.runs r run hrun).scanning _ _ hloop).2 id List.mem_cons_self)
    have htask : s.task? ⟨r, id⟩ = some instruction := (State.task?_eq hrun).trans hby
    exact (h.finish hnone (byId_mem hby).2 ⟨instruction, htask⟩).withRun (s := s.finish _ _) hrun
      rfl rfl
  | conflict r run id rest progressed instruction fingerprint owner hrun hloop hroom hby =>
      obtain ⟨-, -, hnone⟩ := (hs.runs r run hrun).pending id
        (((hs.runs r run hrun).scanning _ _ hloop).2 id List.mem_cons_self)
      have hrecorded : History (s.record [.conflicted ⟨r, id⟩ owner]) :=
        h.record _ (by simp [Event.remark])
      have htask : s.task? ⟨r, id⟩ = some instruction := (State.task?_eq hrun).trans hby
      exact (hrecorded.finish hnone (byId_mem hby).2 ⟨instruction, htask⟩).withRun
        (s := State.finish _ _ _) hrun rfl rfl
  | join r run id rest progressed instruction owner hrun hloop =>
    have hidle := hs.idle_of_scanning r run id rest progressed hrun hloop
    have hjoined : History (s.setPhase ⟨r, id⟩ (.joined owner)) := by
      refine h.setPhase (fun ht => ?_) (fun _ => Phase.noConfusion) fun result hp => ?_
      · rw [hidle] at ht
        cases ht
      · cases hp
    have hrecorded := hjoined.record [.joined ⟨r, id⟩ owner] (by simp [Event.remark])
    exact hrecorded.withRun (s := State.record _ _) hrun rfl rfl
  | own r run id rest progressed instruction hrun hloop hroom hby =>
    have hidle := hs.idle_of_scanning r run id rest progressed hrun hloop
    have hpast : ∀ p : Phase, (s.phase ⟨r, id⟩).past = true → p.past = true := by
      intro p ht
      rw [hidle] at ht
      cases ht
    unfold State.startOwn
    simp only
    split
    · have hresolved : History (s.setPhase ⟨r, id⟩ (.resolved (abortOutcome instruction))) := by
        refine h.setPhase (hpast _) (fun _ => Phase.noConfusion) fun result hp => ?_
        exact (Option.some.inj hp) ▸ (byId_mem hby).2
      have hrecorded := hresolved.record [.cut ⟨r, id⟩] (by simp [Event.remark])
      have hset : History (State.setRun _ r (run.started id rest)) :=
        hrecorded.withRun hrun rfl rfl
      exact hset.congr rfl rfl rfl rfl
    · have hwaiting : History (s.setPhase ⟨r, id⟩ .waiting) :=
        h.setPhase (hpast _) (fun _ => Phase.noConfusion) fun result hp => by cases hp
      have hgranted := hwaiting.grant (hc.acquired_waiting hidle)
      have hset : History (State.setRun _ r (run.started id rest)) :=
        hgranted.withRun hrun rfl rfl
      exact hset.congr rfl rfl rfl rfl
  | enqueue t instruction hphase =>
    have hqueued : History (s.setPhase t .queued) := by
      refine h.setPhase (fun ht => ?_) (fun _ => Phase.noConfusion) fun result hp => ?_
      · rw [hphase] at ht
        cases ht
      · cases hp
    exact hqueued.congr rfl rfl rfl rfl
  | resume _ _ _ hphase hrun hby | turn _ _ _ hphase _ hrun hby =>
    exact h.runBody hs hrun hby (by rw [hphase]; rfl) (by rw [hphase]; rfl)
  | answer t run instruction index answer hphase hrun hby =>
    have hrecorded : History (s.record (answerEvents t index answer)) :=
      h.record _ (by cases answer <;> simp [answerEvents, Event.remark])
    have hschedules : Schedules (s.record (answerEvents t index answer)) :=
      hs.frame rfl fun u => ⟨rfl, Iff.rfl, fun _ => rfl⟩
    rw [← afterAnswer_record (answerEvents t index answer)]
    refine hrecorded.afterAnswer hschedules hrun hby hphase fun hvalid => ?_
    subst hvalid
    exact List.mem_append_right _ List.mem_cons_self
  | settle t run instruction answer hphase hrun hby =>
    refine h.body hs hrun hby (by rw [hphase]; rfl) (fun _ => ⟨rfl, Phase.noConfusion⟩)
      (fun hp => by cases hp) (fun index hp => by cases hp) fun result hp => ?_
    obtain rfl := Option.some.inj hp
    exact executed_result instruction answer
  | leaveQueue | forget => exact h.congr rfl rfl rfl rfl
  | release t result hphase =>
    have hresolved : History (s.setPhase t (.resolved result)) := by
      refine h.setPhase (fun _ => rfl) (fun _ => Phase.noConfusion) fun res hp => ?_
      exact h.promised t res (by rw [hphase]; exact hp)
    have hgranted := hresolved.grant fun u hu => by
      obtain ⟨hne, hwas⟩ := hc.released_waiting hphase u hu
      exact (if_neg hne).trans hwas
    exact hgranted.congr rfl rfl rfl rfl
  | deliver t result hphase hnone =>
    exact h.finish hnone (h.promised t result (by rw [hphase]; rfl))
      (hc.task t (by rw [hphase]; exact Phase.noConfusion))
  | deliverJoined t owner result hphase howner hnone =>
    exact h.finish hnone rfl (hc.task t (by rw [hphase]; exact Phase.noConfusion))

end Steps
end XioFlow.Pipeline
