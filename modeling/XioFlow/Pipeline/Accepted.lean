/-
  XioFlow.Pipeline.Accepted

  What an accepted program gives the scheduler: every dependency is the id of
  an instruction, and no instruction waits for itself, however indirectly.
-/

import XioFlow.Pipeline.Program

namespace XioFlow.Pipeline

open Lib

/-! ## The parts of the validation -/

theorem accepted_iff {program : Program} :
    Accepted program ↔
      (0 < program.instructions.length ∧ program.instructions.length ≤ 256) ∧
      allInstructionIssues [] program.instructions.zipIdx = [] ∧
      (∀ e ∈ program.instructions.zipIdx, referenceIssues (checkedIds program) e.1 e.2 = []) ∧
      detectCycles program = [] := by
  unfold Accepted validateProgram
  simp only [List.append_eq_nil_iff, List.flatMap_eq_nil_iff]
  have hcount : (if program.instructions.length = 0 then
        [(⟨.invalidValue, "instructions", "must contain at least one instruction"⟩ :
          ValidationIssue)]
      else if 256 < program.instructions.length then
        [⟨.invalidValue, "instructions", "must contain at most 256 instructions"⟩]
      else []) = [] ↔ 0 < program.instructions.length ∧ program.instructions.length ≤ 256 := by
    split
    · simp_all
    · split
      · simp; omega
      · simp; omega
  rw [hcount]
  tauto

variable {index : Nat}

/-- Every instruction passed its checks, after those before it. -/
theorem instructionIssues_of_all {rest earlier : List (Instruction × Nat)}
    (h : allInstructionIssues earlier rest = []) {before after : List (Instruction × Nat)}
    {instruction : Instruction} (hsplit : rest = before ++ (instruction, index) :: after) :
    instructionIssues (earlier ++ before) instruction index = [] := by
  induction before generalizing rest earlier with
  | nil =>
    subst hsplit
    rw [List.append_nil]
    exact (List.append_eq_nil_iff.1 h).1
  | cons e before ih =>
    subst hsplit
    have hrest := (List.append_eq_nil_iff.1 h).2
    have := ih hrest rfl
    rwa [List.append_assoc] at this

theorem mem_zipIdx {α : Type} {l : List α} {a : α} {i : Nat} (h : l[i]? = some a) :
    (a, i) ∈ l.zipIdx := List.mem_zipIdx_iff_getElem?.2 h

theorem idIssues_eq_nil {earlier : List String} {id : InstructionId}
    (h : idIssues earlier index id = []) :
    checkedId index id ∉ earlier ∧ ∀ s, id = .text s → idPattern s = true := by
  unfold idIssues at h
  simp only at h
  split at h
  · exact absurd (List.append_eq_nil_iff.1 h).2 (List.cons_ne_nil _ _)
  · rename_i hfresh
    refine ⟨hfresh, fun s hs => ?_⟩
    subst hs
    by_contra hpattern
    simp [hpattern] at h

theorem dependencyIssues_eq_nil {dependsOn : List String}
    (h : dependencyIssues index dependsOn = []) : ∀ d ∈ dependsOn, idPattern d = true := by
  intro d hd
  obtain ⟨i, hi⟩ := List.mem_iff_getElem?.1 hd
  have hmem : (d, i) ∈ dependsOn.zipIdx := mem_zipIdx hi
  have hitem := List.flatMap_eq_nil_iff.1 (List.append_eq_nil_iff.1 h).2 (d, i) hmem
  by_contra hpattern
  simp [hpattern] at hitem

theorem referenceIssues_eq_nil {ids : List String} {instruction : Instruction}
    (h : referenceIssues ids instruction index = []) : ∀ d ∈ instruction.dependsOn, d ∈ ids := by
  intro d hd
  have hnone := List.filter_eq_nil_iff.1 (List.map_eq_nil_iff.1 h) d hd
  simpa using hnone

/-! ## Ids -/

theorem idPattern_hash (rest : String) : idPattern ("#" ++ rest) = false := by
  have hchars : ("#" ++ rest).toList = '#' :: rest.toList := by
    rw [String.toList_append]
    rfl
  simp only [idPattern, matchesName, hchars]
  rfl

/-- A reference that has the shape of an id can only mean an instruction with that id. -/
theorem id_of_checkedId {id : InstructionId} {d : String} (hd : idPattern d = true)
    (h : checkedId index id = d) : id = .text d := by
  subst h
  have hhash : ∀ position, idPattern ("#" ++ indexText position) ≠ true := by
    intro position heq
    rw [idPattern_hash] at heq
    cases heq
  cases id with
  | text s =>
    by_cases hs : idPattern s = true
    · simp [checkedId, hs]
    · rw [checkedId, if_neg hs] at hd
      exact absurd hd (hhash index)
  | number | bool | null | object => exact absurd hd (hhash index)

namespace Accepted

variable {program : Program} (h : Accepted program)
include h

variable {instruction : Instruction} {d : String}

theorem instructionIssues {before after : List (Instruction × Nat)} {index : Nat}
    (hsplit : program.instructions.zipIdx = before ++ (instruction, index) :: after) :
    idIssues (before.map fun e => checkedId e.2 e.1.id) index instruction.id = [] ∧
      dependencyIssues index instruction.dependsOn = [] := by
  have hall := instructionIssues_of_all (accepted_iff.1 h).2.1 hsplit
  rw [List.nil_append] at hall
  have hfirst := (List.append_eq_nil_iff.1 hall).1
  exact List.append_eq_nil_iff.1 hfirst

theorem nodup_checkedIds : (checkedIds program).Nodup := by
  have hprefixes : ∀ (rest before : List (Instruction × Nat)),
      program.instructions.zipIdx = before ++ rest →
      (before.map fun e => checkedId e.2 e.1.id).Nodup →
      ((before ++ rest).map fun e => checkedId e.2 e.1.id).Nodup := by
    intro rest
    induction rest with
    | nil =>
      intro before _ hnodup
      rwa [List.append_nil]
    | cons e rest ih =>
      intro before hsplit hnodup
      have hfresh := (idIssues_eq_nil (h.instructionIssues hsplit).1).1
      have hcons : before ++ e :: rest = (before ++ [e]) ++ rest := by simp
      rw [hcons]
      refine ih (before ++ [e]) (hsplit.trans hcons) ?_
      rw [List.map_append, List.nodup_append]
      refine ⟨hnodup, by simp, fun a ha b hb hab => ?_⟩
      rw [List.map_cons, List.map_nil, List.mem_singleton] at hb
      exact hfresh (hb ▸ hab ▸ ha)
  exact hprefixes _ [] rfl List.nodup_nil

theorem dependsOn_pattern (hmem : instruction ∈ program.instructions)
    (hd : d ∈ instruction.dependsOn) : idPattern d = true := by
  obtain ⟨i, hi⟩ := List.mem_iff_getElem?.1 hmem
  obtain ⟨before, after, hsplit⟩ := List.append_of_mem (mem_zipIdx hi)
  exact dependencyIssues_eq_nil (h.instructionIssues hsplit).2 d hd

theorem dependency_checked (hmem : instruction ∈ program.instructions)
    (hd : d ∈ instruction.dependsOn) : d ∈ checkedIds program := by
  obtain ⟨i, hi⟩ := List.mem_iff_getElem?.1 hmem
  have hissues := (accepted_iff.1 h).2.2.1 _ (mem_zipIdx hi)
  exact referenceIssues_eq_nil hissues d hd

/-- Every dependency is the id of an instruction. -/
theorem dependency_declared (hmem : instruction ∈ program.instructions)
    (hd : d ∈ instruction.dependsOn) :
    ∃ dependency ∈ program.instructions, dependency.id = .text d := by
  obtain ⟨⟨dependency, index⟩, hentry, hid⟩ := List.mem_map.1 (h.dependency_checked hmem hd)
  have hpattern := h.dependsOn_pattern hmem hd
  refine ⟨dependency, ?_, id_of_checkedId hpattern hid⟩
  exact List.mem_of_getElem? (List.mem_zipIdx_iff_getElem?.1 hentry)

theorem dependenciesIn_eq {index : Nat}
    (hmem : (instruction, index) ∈ program.instructions.zipIdx) :
    dependenciesIn program (checkedId index instruction.id) =
      instruction.dependsOn.filter fun d => decide (d ∈ checkedIds program) := by
  unfold dependenciesIn
  cases hfind : program.instructions.zipIdx.reverse.find? fun e =>
      checkedId e.2 e.1.id == checkedId index instruction.id with
  | none =>
    have hnot := List.find?_eq_none.1 hfind _ (List.mem_reverse.2 hmem)
    exact absurd (by simp) hnot
  | some e =>
    have hin := List.mem_reverse.1 (List.mem_of_find?_eq_some hfind)
    have hsame : checkedId e.2 e.1.id = checkedId index instruction.id := by
      simpa using List.find?_some hfind
    have heq := List.inj_on_of_nodup_map (h.nodup_checkedIds) hin hmem hsame
    rw [heq]

/-- An id that is not a string comes last: nothing depends on it. -/
def rankOf (rank : String → Nat) (last : Nat) : InstructionId → Nat
  | .text s => rank s
  | _ => last

/-- Instructions can be ranked so that each comes after its dependencies. -/
theorem exists_rank : ∃ rank : InstructionId → Nat, ∀ instruction ∈ program.instructions,
    ∀ d ∈ instruction.dependsOn, rank (.text d) < rank instruction.id := by
  have hcycles := List.map_eq_nil_iff.1 (accepted_iff.1 h).2.2.2
  have hclosed : ∀ a ∈ (checkedIds program).eraseDups, ∀ b ∈ dependenciesIn program a,
      b ∈ (checkedIds program).eraseDups := by
    intro a _ b hb
    unfold dependenciesIn at hb
    split at hb
    · rw [List.mem_eraseDups]
      exact of_decide_eq_true (List.mem_filter.1 hb).2
    · cases hb
  obtain ⟨hordered, hdone⟩ := Dfs.search_ordered hclosed hcycles
  obtain ⟨rank, hrank⟩ := Dfs.rank_of_ordered hordered
  refine ⟨rankOf rank (((checkedIds program).map rank).sum + 1), fun instruction hmem d hd => ?_⟩
  have hchecked := h.dependency_checked hmem hd
  obtain ⟨i, hi⟩ := List.mem_iff_getElem?.1 hmem
  have hentry := mem_zipIdx hi
  have hnode : checkedId i instruction.id ∈ checkedIds program := List.mem_map.2 ⟨_, hentry, rfl⟩
  have hlt : rank d < rank (checkedId i instruction.id) := by
    refine hrank _ (hdone _ (List.mem_eraseDups.2 hnode)) d ?_
    rw [h.dependenciesIn_eq hentry]
    exact List.mem_filter.2 ⟨hd, decide_eq_true hchecked⟩
  have hbound : rank d ≤ ((checkedIds program).map rank).sum :=
    List.single_le_sum (by simp) _ (List.mem_map_of_mem hchecked)
  cases hid : instruction.id with
  | text s =>
    obtain ⟨before, after, hsplit⟩ := List.append_of_mem hentry
    have hs := (idIssues_eq_nil (h.instructionIssues hsplit).1).2 s hid
    rw [hid, checkedId, if_pos hs] at hlt
    exact hlt
  | number | bool | null | object => exact Nat.lt_succ_of_le hbound

end Accepted
end XioFlow.Pipeline
