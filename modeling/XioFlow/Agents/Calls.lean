/-
  XioFlow.Agents.Calls

  What the log holds of an agent after a record about it, and what a
  restoration records.
-/

import XioFlow.Agents.Scheduling
import XioFlow.Lib.Outcome

namespace XioFlow.Agents

open Lib

/-! ## Records -/

namespace AgentLog

/-- A projection keeps everything but the data bodies. -/
theorem project_eq (transition : AgentTransition) (given : AgentState) (ref : Option Nat)
    (l : AgentLog) : ∃ input checkpoint,
      l.project transition given ref = { given with input, checkpoint } := by
  unfold project
  split
  · exact ⟨_, _, rfl⟩
  · exact ⟨_, _, rfl⟩
  · exact ⟨_, _, rfl⟩
  · exact ⟨_, _, rfl⟩
  · exact ⟨given.input, given.checkpoint, rfl⟩

@[simp] theorem project_id (transition : AgentTransition) (given : AgentState) (ref : Option Nat)
    (l : AgentLog) : (l.project transition given ref).id = given.id := by
  obtain ⟨input, checkpoint, heq⟩ := l.project_eq transition given ref
  rw [heq]

section Record

variable (transition : AgentTransition) (given : AgentState) (ref : Option Nat) (l : AgentLog)

/-- The event of a record. -/
def recorded : AgentEvent :=
  ⟨l.seq + 1, transition, given, ref, l.project transition given ref⟩

@[simp] theorem record_journal :
    (l.record transition given ref).journal = l.recorded transition given ref :: l.journal := rfl

theorem latest_record_self :
    (l.record transition given ref).latest given.id = some (l.recorded transition given ref) := by
  unfold latest
  rw [record_journal, List.find?_cons_of_pos]
  show decide ((l.project transition given ref).id = given.id) = true
  rw [project_id]
  exact decide_eq_true rfl

theorem get_record_self : (l.record transition given ref).get given.id =
    some (l.project transition given ref) := by
  unfold get
  rw [latest_record_self]
  rfl

end Record

theorem get_id {id : String} {l : AgentLog} {state : AgentState} (h : l.get id = some state) :
    state.id = id := by
  unfold get latest at h
  obtain ⟨event, hevent, rfl⟩ := Option.map_eq_some_iff.1 h
  have hfound := List.find?_some hevent
  exact of_decide_eq_true hfound

end AgentLog

/-! ## Restoration -/

namespace AgentRuntime

variable {s s' : AgentRuntime} {id : String} {state : AgentState}

/-- An agent after its restoration. -/
def restoredState (state : AgentState) (checkpoint : Json) (workspace : Option AgentWorkspace) :
    AgentState :=
  { state with
    checkpoint
    workspace := workspace.orElse fun _ => state.workspace
    status := .paused
    pauseRequested := false
    reason := some "restored"
    error := none }

/-- What a restoration that goes through records. -/
theorem commitRestore_ok {seq : Nat} {workspace : Option AgentWorkspace}
    (h : s.commitRestore state seq workspace = .ok s') :
    (∀ w, workspace = some w → s.log.assertWorkspace w state.runId state.id = .ok ()) ∧
      ∃ checkpoint, s' = { s with
        log := s.log.record .restored (restoredState state checkpoint workspace) (some seq) } := by
  unfold commitRestore at h
  split at h
  · cases h
  · rename_i saved hsaved
    obtain ⟨-, h⟩ := except_seq_ok_iff.1 h
    cases workspace with
    | none =>
      obtain rfl := Except.ok.inj h
      exact ⟨fun w hsome => (nomatch hsome), saved.state.checkpoint, rfl⟩
    | some w =>
      obtain ⟨hfree, h⟩ := except_seq_ok_iff.1 h
      obtain rfl := Except.ok.inj h
      refine ⟨fun w' hsome => ?_, saved.state.checkpoint, rfl⟩
      obtain rfl := Option.some.inj hsome
      exact hfree

end AgentRuntime

end XioFlow.Agents
