/-
  XioFlow.Workspace.Validation

  Backward validation of a workspace transaction: its reads and writes
  against the transactions committed since it began and against the changes
  of the main root that none of them explains.

  Paths are split at their slashes.  A directory's key in a read set, its path
  with a final slash, is `Entry.dir`.
-/

import XioFlow.Workspace.IncrementalIndex
import XioFlow.Lib.FileTree

namespace XioFlow

open Lib

/-! ## Trees of the snapshot driver -/

/-- What a tree entry is. -/
inductive BlobKind where
  | regular | executable | symlink | gitlink
  deriving DecidableEq

structure Blob where
  kind : BlobKind
  content : String
  deriving DecidableEq

/-- A file mode change is a modification; files, links and submodules are different types. -/
def sameType (a b : Blob) : Bool :=
  a.kind == b.kind || ((a.kind == .regular || a.kind == .executable) &&
    (b.kind == .regular || b.kind == .executable))

/-- A changed path relative to the transaction root. -/
structure FileChange where
  status : ChangeStatus
  path : Path
  deriving DecidableEq

/-- The status letter of a difference. -/
def changeStatus (before after : Option Blob) : ChangeStatus :=
  match before, after with
  | none, _ => .A
  | some _, none => .D
  | some a, some b => if sameType a b then .M else .T

/-- `git diff-tree -r --no-renames --name-status` -/
def diffTrees (fromTree toTree : FileTree Blob) : List FileChange :=
  (FileTree.diff fromTree toTree).map fun d => ⟨changeStatus d.before d.after, d.path⟩

/-! ## Effects and conflicts -/

/-- A key of a read set: a file, or a directory that was listed. -/
inductive Entry where
  | file (path : Path)
  | dir (path : Path)
  deriving DecidableEq

structure Effects where
  readSet : Option (List Entry)
  pathDependencies : Option (List Path)
  writeSet : List FileChange

inductive ConflictKind where
  | writeWrite | readWrite | externalWrite
  deriving DecidableEq

structure TransactionConflict where
  path : Entry
  kind : ConflictKind
  otherTxId : Option String
  deriving DecidableEq

/-- The transactions committed since, as their events say. -/
structure Committed where
  txId : String
  writeSet : List FileChange

/-- `path.posix.dirname` -/
def dirname (p : Path) : Path := p.dropLast

/-- The conflict with one change of others, if there is one. -/
def conflictWith (mine : Effects) (other : FileChange) (writeKind readKind : ConflictKind)
    (otherTxId : Option String) : Option TransactionConflict :=
  if other.path ∈ mine.writeSet.map FileChange.path then
    some ⟨.file other.path, writeKind, otherTxId⟩
  else if .file other.path ∈ mine.readSet.getD [] ∨ mine.pathDependencies = none ∨
      other.path ∈ mine.pathDependencies.getD [] then
    some ⟨.file other.path, readKind, otherTxId⟩
  else if (other.status = .A ∨ other.status = .D) ∧
      .dir (dirname other.path) ∈ mine.readSet.getD [] then
    some ⟨.dir (dirname other.path), readKind, otherTxId⟩
  else none

def intersect (mine : Effects) (others : List FileChange) (writeKind readKind : ConflictKind)
    (otherTxId : Option String) : List TransactionConflict :=
  others.filterMap fun other => conflictWith mine other writeKind readKind otherTxId

/-- The paths that transactions committed since have written. -/
def explained (committedAfter : List Committed) : List Path :=
  committedAfter.flatMap fun other => other.writeSet.map FileChange.path

def validate (committedAfter : List Committed) (effects : Effects) (base main : FileTree Blob) :
    List TransactionConflict :=
  (committedAfter.flatMap fun other =>
      intersect effects other.writeSet .writeWrite .readWrite (some other.txId)) ++
    intersect effects
      ((diffTrees base main).filter fun w => w.path ∉ explained committedAfter)
      .externalWrite .externalWrite none

/-! ## What validation says about the main root -/

/-- Two trees agree on what reading this entry shows. -/
def SameEntry (base main : FileTree Blob) : Entry → Prop
  | .file p => main.file? p = base.file? p
  | .dir d => ∀ name, main.Holds d name ↔ base.Holds d name

/-- What was observed and what is written is in the main root as it is in the base. -/
def Serializable (observed : List Entry) (writes : List FileChange)
    (base main : FileTree Blob) : Prop :=
  (∀ e ∈ observed, SameEntry base main e) ∧
    ∀ w ∈ writes, main.file? w.path = base.file? w.path

/-- Every name a listed directory gained or lost is that of a file directly inside it, one that no
    transaction committed since has written. -/
def FlatListings (observed : List Entry) (committedAfter : List Committed)
    (base main : FileTree Blob) : Prop :=
  ∀ d, .dir d ∈ observed → ∀ name, ¬ (main.Holds d name ↔ base.Holds d name) →
    ((main.file? (d ++ [name])).isSome ∨ (base.file? (d ++ [name])).isSome) ∧
      d ++ [name] ∉ explained committedAfter

/-- A change of others that validation let pass. -/
structure Passes (mine : Effects) (other : FileChange) : Prop where
  notWritten : other.path ∉ mine.writeSet.map FileChange.path
  notRead : .file other.path ∉ mine.readSet.getD []
  notListed : other.status = .A ∨ other.status = .D →
    .dir (dirname other.path) ∉ mine.readSet.getD []

theorem passes_of_no_conflict {mine : Effects} {other : FileChange}
    {writeKind readKind : ConflictKind} {otherTxId : Option String}
    (h : conflictWith mine other writeKind readKind otherTxId = none) : Passes mine other := by
  unfold conflictWith at h
  split at h
  · cases h
  rename_i hwritten
  split at h
  · cases h
  rename_i hread
  split at h
  · cases h
  rename_i hlisted
  exact ⟨hwritten, fun hin => hread (.inl hin), fun hst hin => hlisted ⟨hst, hin⟩⟩

theorem passes_of_intersect {mine : Effects} {others : List FileChange}
    {writeKind readKind : ConflictKind} {otherTxId : Option String}
    (h : intersect mine others writeKind readKind otherTxId = []) {other : FileChange}
    (hother : other ∈ others) : Passes mine other := by
  unfold intersect at h
  rw [List.filterMap_eq_nil_iff] at h
  exact passes_of_no_conflict (h other hother)

section NoConflicts

variable {committedAfter : List Committed} {effects : Effects} {base main : FileTree Blob}

theorem passes_of_committed (h : validate committedAfter effects base main = [])
    {other : Committed} (hother : other ∈ committedAfter) {w : FileChange}
    (hw : w ∈ other.writeSet) : Passes effects w := by
  unfold validate at h
  rw [List.append_eq_nil_iff, List.flatMap_eq_nil_iff] at h
  exact passes_of_intersect (h.1 other hother) hw

theorem passes_of_changed (h : validate committedAfter effects base main = []) {w : FileChange}
    (hw : w ∈ diffTrees base main) (hexplained : w.path ∉ explained committedAfter) :
    Passes effects w := by
  unfold validate at h
  rw [List.append_eq_nil_iff] at h
  exact passes_of_intersect h.2 (List.mem_filter.2 ⟨hw, by simpa using hexplained⟩)

theorem mem_diffTrees {p : Path} (h : main.file? p ≠ base.file? p) :
    ⟨changeStatus (base.file? p) (main.file? p), p⟩ ∈ diffTrees base main :=
  List.mem_map.2 ⟨_, FileTree.mem_diff_of_ne fun heq => h heq.symm, rfl⟩

/-- A path that was read or written is in the main root as it is in the base. -/
theorem same_file (h : validate committedAfter effects base main = []) {p : Path}
    (hmine : .file p ∈ effects.readSet.getD [] ∨ p ∈ effects.writeSet.map FileChange.path) :
    main.file? p = base.file? p := by
  have hblocks : ∀ w : FileChange, w.path = p → ¬ Passes effects w := by
    rintro w rfl hpasses
    rcases hmine with hread | hwritten
    · exact hpasses.notRead hread
    · exact hpasses.notWritten hwritten
  by_contra hne
  by_cases hexplained : p ∈ explained committedAfter
  · obtain ⟨other, hother, hp⟩ := List.mem_flatMap.1 hexplained
    obtain ⟨w, hw, hpath⟩ := List.mem_map.1 hp
    exact hblocks w hpath (passes_of_committed h hother hw)
  · exact hblocks _ rfl (passes_of_changed h (mem_diffTrees hne) hexplained)

/-- A listed directory does not gain or lose a file that no committed transaction has written. -/
theorem same_name (h : validate committedAfter effects base main = []) {d : Path} {name : String}
    (hlisted : .dir d ∈ effects.readSet.getD [])
    (hunexplained : d ++ [name] ∉ explained committedAfter)
    (hone : (main.file? (d ++ [name]) = none ∨ base.file? (d ++ [name]) = none)) :
    main.file? (d ++ [name]) = base.file? (d ++ [name]) := by
  by_contra hne
  have hpasses := passes_of_changed h (mem_diffTrees hne) hunexplained
  refine hpasses.notListed ?_ (by simpa [dirname] using hlisted)
  show changeStatus _ _ = _ ∨ changeStatus _ _ = _
  cases hbase : base.file? (d ++ [name]) with
  | none => exact .inl rfl
  | some =>
    cases hmain : main.file? (d ++ [name]) with
    | none => exact .inr rfl
    | some =>
      rw [hbase, hmain] at hone
      rcases hone with hnone | hnone <;> cases hnone

/-- The effects have the entry: it is in the read set, or it is a file that is overwritten. -/
def Effects.Shows (effects : Effects) (e : Entry) : Prop :=
  e ∈ effects.readSet.getD [] ∨ ∃ p ∈ effects.writeSet.map FileChange.path, e = .file p

theorem Effects.Shows.listed {d : Path} (h : effects.Shows (.dir d)) :
    .dir d ∈ effects.readSet.getD [] := by
  rcases h with hread | ⟨p, -, hp⟩
  · exact hread
  · cases hp

/-- Without conflicts a file that the effects have is in the main root as it is in the base. -/
theorem Effects.Shows.same_file {p : Path} (hshown : effects.Shows (.file p))
    (h : validate committedAfter effects base main = []) : main.file? p = base.file? p := by
  rcases hshown with hread | ⟨p', hp', heq⟩
  · exact XioFlow.same_file h (.inl hread)
  · cases heq
    exact XioFlow.same_file h (.inr hp')

/-- Without conflicts the main root shows what was observed and holds what is overwritten exactly
    when no listed directory gained or lost a name through a file further down or through a file
    that a committed transaction has written. -/
theorem serializable_iff_flat {observed : List Entry}
    (h : validate committedAfter effects base main = [])
    (hobserved : ∀ e ∈ observed, effects.Shows e) :
    Serializable observed effects.writeSet base main ↔
      FlatListings observed committedAfter base main := by
  constructor
  · rintro ⟨hsame, -⟩ d hd name hdiffer
    exact absurd (hsame _ hd name) hdiffer
  · intro hflat
    refine ⟨?_, fun w hw => same_file h (.inr (List.mem_map_of_mem hw))⟩
    intro e he
    cases e with
    | file => exact (hobserved _ he).same_file h
    | dir d =>
      intro name
      by_contra hdiffer
      obtain ⟨hfile, hunexplained⟩ := hflat d he name hdiffer
      have hsame := same_name h (hobserved _ he).listed hunexplained
      cases hmain : main.file? (d ++ [name]) with
      | none =>
        rw [hmain] at hsame hfile
        have hnone := hsame (.inl rfl)
        rw [← hnone] at hfile
        rcases hfile with hf | hf <;> cases hf
      | some =>
        cases hbase : base.file? (d ++ [name]) with
        | none =>
          rw [hmain, hbase] at hsame
          cases hsame (.inr rfl)
        | some =>
          exact hdiffer ⟨fun _ => FileTree.holds_of_file hbase,
            fun _ => FileTree.holds_of_file hmain⟩

end NoConflicts
end XioFlow
