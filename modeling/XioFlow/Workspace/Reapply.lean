/-
  XioFlow.Workspace.Reapply

  Which differences of two trees can be applied, and applied again from any
  prefix of them after a crash: those in which no path is inside another, none
  is a submodule and no link leads out of its root.

  A file that a directory replaces is deleted first, and when the write set is
  applied again `rm` finds the directory; a directory that a file replaces is
  there the first time.  `applyWrites`, by which histories of commits are
  told, is what such a run leaves.
-/

import XioFlow.Workspace.Apply
import XioFlow.Workspace.History
import Mathlib.Data.List.Infix

namespace XioFlow

open Lib

namespace WriteBack

/-! ## The difference of two trees -/

/-- No path of the write set is inside another. -/
def NoneInside (writeSet : List FileChange) : Prop :=
  ∀ w ∈ writeSet, ∀ w' ∈ writeSet, w.path <+: w'.path → w.path = w'.path

/-- No path of the write set is a submodule, on either side. -/
def NoSubmodules (base sourceTree : FileTree Blob) (writeSet : List FileChange) : Prop :=
  ∀ w ∈ writeSet, ∀ b, base.file? w.path = some b ∨ sourceTree.file? w.path = some b →
    b.kind ≠ .gitlink

theorem sight_eq_directory {n : Option Node} : sight n = .directory ↔ n = some .dir := by
  rcases n with _ | _ | _ | _ <;> simp [sight]

theorem sight_eq_nothing {n : Option Node} : sight n = .nothing ↔ n = none := by
  rcases n with _ | _ | _ | _ <;> simp [sight]

variable {t : FileTree Blob} {p : Path} {b : Blob}

theorem treeSight_of_file (h : t.file? p = some b) :
    treeSight t p = if b.kind = .gitlink then .directory else .blob b := by
  unfold treeSight
  rw [h]

theorem treeSight_of_none (h : t.file? p = none) :
    treeSight t p = if p = [] ∨ ∃ q ∈ t.paths, p <+: q then .directory else .nothing := by
  unfold treeSight
  rw [h]

/-- What shows neither nothing nor a directory is an entry of the tree. -/
theorem file_of_treeSight (h : treeSight t p = .blob b) : t.file? p = some b := by
  cases hfile : t.file? p with
  | none =>
    rw [treeSight_of_none hfile] at h
    split at h <;> cases h
  | some =>
    rw [treeSight_of_file hfile] at h
    split at h
    · cases h
    · cases h
      rfl

/-- An entry of a tree has no entry above it. -/
theorem IsTree.file_above (ht : IsTree t) {q : Path} (hq : t.file? q = some b) (hpq : p <+: q)
    (hne : p ≠ q) : t.file? p = none := by
  rw [FileTree.file?_eq_none_iff]
  intro hp
  exact hne (ht p hp q (FileTree.mem_paths_iff.2 ⟨b, hq⟩) hpq)

namespace Diffed

variable {base sourceTree : FileTree Blob} {writeSet : List FileChange} {main : Disk} {r : Roots}
  (hd : Diffed base sourceTree writeSet main r)

include hd

variable {w : FileChange}

theorem mem_iff : w ∈ writeSet ↔
    w.status = changeStatus (base.file? w.path) (sourceTree.file? w.path) ∧
      base.file? w.path ≠ sourceTree.file? w.path := by
  rw [hd.writes.mem_iff, diffTrees, List.mem_map]
  constructor
  · rintro ⟨d, hmem, rfl⟩
    obtain ⟨hbefore, hafter, hne⟩ := FileTree.mem_diff_iff.1 hmem
    exact ⟨by rw [hbefore, hafter], hne⟩
  · rintro ⟨hstatus, hne⟩
    exact ⟨_, FileTree.mem_diff_of_ne hne, by rw [← hstatus]⟩

/-- A path that only one of the trees has is written. -/
theorem mem_of_ne {p : Path} (h : base.file? p ≠ sourceTree.file? p) :
    ∃ w ∈ writeSet, w.path = p :=
  ⟨⟨changeStatus (base.file? p) (sourceTree.file? p), p⟩, hd.mem_iff.2 ⟨rfl, h⟩, rfl⟩

theorem deleted_iff (hw : w ∈ writeSet) : w.status = .D ↔ sourceTree.file? w.path = none := by
  obtain ⟨hstatus, hne⟩ := hd.mem_iff.1 hw
  rw [hstatus]
  cases hsource : sourceTree.file? w.path with
  | none =>
    rw [hsource] at hne
    obtain ⟨b, hb⟩ := Option.ne_none_iff_exists'.1 hne
    simp [hb, changeStatus]
  | some =>
    cases hbase : base.file? w.path with
    | none => simp [changeStatus]
    | some =>
      rw [changeStatus]
      split <;> simp

theorem main_self (hw : w ∈ writeSet) :
    sight (main.node w.path) = treeSight base w.path := hd.main_shows w hw _ (List.prefix_refl _)

theorem source_self (hw : w ∈ writeSet) :
    sight (r.source.node w.path) = treeSight sourceTree w.path :=
  hd.source_shows w hw _ (List.prefix_refl _)

variable (hnone : NoneInside writeSet) (hsub : NoSubmodules base sourceTree writeSet)

include hnone hsub

/-- The base has no directory where the write set has a path, and nothing else above one. -/
theorem hasRoom (hw : w ∈ writeSet) : HasRoom main.node w.path where
  leaf := by
    intro hdir
    have hsight := hd.main_self hw
    rw [sight_eq_directory.2 hdir] at hsight
    cases hbase : base.file? w.path with
    | some b =>
      rw [treeSight_of_file hbase, if_neg (hsub w hw b (.inl hbase))] at hsight
      cases hsight
    | none =>
      have hne := (hd.mem_iff.1 hw).2
      rw [hbase] at hne
      obtain ⟨b, hb⟩ := Option.ne_none_iff_exists'.1 hne.symm
      rw [treeSight_of_none hbase] at hsight
      split at hsight
      · rename_i hwhy
        rcases hwhy with hroot | ⟨q, hq, hbelow⟩
        · -- the root is a directory in the source as well
          have hshown := hd.source_self hw
          rw [treeSight_of_file hb, if_neg (hsub w hw b (.inr hb)), hroot, r.source.root] at hshown
          cases hshown
        · -- the path is a directory of the base and a file of the source
          obtain ⟨bq, hbq⟩ := FileTree.mem_paths_iff.1 hq
          have hother : w.path ≠ q := by
            intro heq
            rw [heq, hbq] at hbase
            cases hbase
          have hgone : sourceTree.file? q = none := by
            rw [FileTree.file?_eq_none_iff]
            intro hmem
            exact hother (hd.source_tree _ (FileTree.mem_paths_iff.2 ⟨b, hb⟩) q hmem hbelow)
          obtain ⟨w', hw', rfl⟩ := hd.mem_of_ne (p := q) (by rw [hbq, hgone]; simp)
          exact hother (hnone w hw w' hw' hbelow)
      · cases hsight
  above q hq hne := by
    have hsight := hd.main_shows w hw q hq
    have hnoblob : ∀ b, treeSight base q ≠ .blob b := by
      intro b hb
      -- a file of the base above the path: the source has the path and not the file
      have hfile := file_of_treeSight hb
      have hbase : base.file? w.path = none := by
        cases hself : base.file? w.path with
        | none => rfl
        | some =>
          rw [hd.base_tree.file_above hself hq hne] at hfile
          cases hfile
      have hdiff := (hd.mem_iff.1 hw).2
      rw [hbase] at hdiff
      obtain ⟨b', hb'⟩ := Option.ne_none_iff_exists'.1 hdiff.symm
      have hgone := hd.source_tree.file_above hb' hq hne
      obtain ⟨w', hw', rfl⟩ := hd.mem_of_ne (p := q) (by rw [hfile, hgone]; simp)
      exact hne (hnone w' hw' w hw hq)
    cases hnode : main.node q with
    | none => exact .inl rfl
    | some n =>
      rw [hnode] at hsight
      cases n with
      | dir => exact .inr rfl
      | file | link => exact absurd hsight.symm (hnoblob _)

theorem independent : Independent r writeSet main where
  apart := hnone
  room w hw := hd.hasRoom hnone hsub hw
  deleted w hw hD := by
    have hsight := hd.source_self hw
    rw [treeSight_of_none ((hd.deleted_iff hw).1 hD)] at hsight
    have hfile : fileAt r.source w.path = none := by
      rw [fileAt_eq_none]
      split at hsight
      · exact .inr (sight_eq_directory.1 hsight)
      · exact .inl (sight_eq_nothing.1 hsight)
    rw [copied, hfile]
    rfl
  kept w hw hD := by
    obtain ⟨b, hb⟩ := Option.ne_none_iff_exists'.1 (mt (hd.deleted_iff hw).2 hD)
    have hsight := hd.source_self hw
    rw [treeSight_of_file hb, if_neg (hsub w hw b (.inr hb))] at hsight
    cases hnode : r.source.node w.path with
    | none =>
      rw [hnode] at hsight
      cases hsight
    | some n =>
      refine ⟨n, fileAt_eq_some.2 ⟨hnode, ?_⟩⟩
      rintro rfl
      rw [hnode] at hsight
      cases hsight

omit hnone hsub

variable {applied : Disk}

/-- `rm` refuses the directory of a submodule, and `copyFile` that of the source. -/
theorem noSubmodules_of_apply (h : apply r writeSet main = .ok applied) :
    NoSubmodules base sourceTree writeSet := by
  intro w hw b hwhich hlink
  obtain ⟨hleaf, hsource⟩ := leaf_of_apply h hw
  rcases hwhich with hbase | hb
  · have hsight := hd.main_self hw
    rw [treeSight_of_file hbase, if_pos hlink] at hsight
    exact hleaf (sight_eq_directory.1 hsight)
  · have hsight := hd.source_self hw
    rw [treeSight_of_file hb, if_pos hlink] at hsight
    have hkept : w.status ≠ .D := by
      rw [ne_eq, hd.deleted_iff hw, hb]
      exact Option.some_ne_none b
    exact hsource hkept (sight_eq_directory.1 hsight)

/-- A file does not replace a directory: `rm` refuses it. -/
theorem base_file_of_apply (h : apply r writeSet main = .ok applied) {w' : FileChange}
    (hw : w ∈ writeSet) (hw' : w' ∈ writeSet) (hbelow : w.path <+: w'.path)
    (hne : w.path ≠ w'.path) : base.file? w.path ≠ none := by
  intro hbase
  have hdiff := (hd.mem_iff.1 hw).2
  rw [hbase] at hdiff
  obtain ⟨b, hb⟩ := Option.ne_none_iff_exists'.1 hdiff.symm
  have hgone : sourceTree.file? w'.path = none := by
    cases hself : sourceTree.file? w'.path with
    | none => rfl
    | some =>
      rw [hd.source_tree.file_above hself hbelow hne] at hb
      cases hb
  have hdiff' := (hd.mem_iff.1 hw').2
  rw [hgone] at hdiff'
  obtain ⟨b', hb'⟩ := Option.ne_none_iff_exists'.1 hdiff'
  have hsight := hd.main_self hw
  rw [treeSight_of_none hbase,
    if_pos (.inr ⟨_, FileTree.mem_paths_iff.2 ⟨b', hb'⟩, hbelow⟩)] at hsight
  exact (leaf_of_apply h hw).1 (sight_eq_directory.1 hsight)

/-- A directory that replaced a file stands in the way of deleting the file again. -/
theorem not_again_of_nested (h : apply r writeSet main = .ok applied)
    (hwritten : ∀ w ∈ writeSet, fileAt applied w.path = copied r.source w.path) {w' : FileChange}
    (hw : w ∈ writeSet) (hw' : w' ∈ writeSet) (hbelow : w.path <+: w'.path)
    (hne : w.path ≠ w'.path) (again : Disk) : apply r writeSet applied ≠ .ok again := by
  intro hagain
  obtain ⟨b, hb⟩ := Option.ne_none_iff_exists'.1 (hd.base_file_of_apply h hw hw' hbelow hne)
  have hbase : base.file? w'.path = none := by
    cases hself : base.file? w'.path with
    | none => rfl
    | some =>
      rw [hd.base_tree.file_above hself hbelow hne] at hb
      cases hb
  have hdiff := (hd.mem_iff.1 hw').2
  rw [hbase] at hdiff
  obtain ⟨b', hb'⟩ := Option.ne_none_iff_exists'.1 hdiff.symm
  have hkept : w'.status ≠ .D := by
    rw [ne_eq, hd.deleted_iff hw', hb']
    exact Option.some_ne_none b'
  -- the file below was written, so the path above it is a directory
  have hsight := hd.source_self hw'
  rw [treeSight_of_file hb',
    if_neg (hd.noSubmodules_of_apply h w' hw' b' (.inr hb'))] at hsight
  obtain ⟨n, hn⟩ : ∃ n, copied r.source w'.path = some n := by
    cases hnode : r.source.node w'.path with
    | none =>
      rw [hnode] at hsight
      cases hsight
    | some n =>
      cases n with
      | dir =>
        rw [hnode] at hsight
        cases hsight
      | file | link => exact ⟨_, copied_of_lookup hnode rfl⟩
  have hfile : applied.node w'.path = some n :=
    (fileAt_eq_some.1 ((hwritten w' hw').trans hn)).1
  obtain ⟨rest, hrest⟩ := hbelow
  have hsome : rest ≠ [] := by
    rintro rfl
    exact hne (by rw [← hrest, List.append_nil])
  have hdir : applied.node w.path = some .dir :=
    Disk.node_above hsome (by rw [hrest, hfile]; exact Option.some_ne_none n)
  exact (leaf_of_apply hagain hw).1 hdir

theorem noneInside_of_appliesAgain (h : AppliesAgain r writeSet main) : NoneInside writeSet := by
  obtain ⟨applied, happlied, hwritten, -, hredo⟩ := h
  intro w hw w' hw' hbelow
  by_contra hne
  obtain ⟨again, hagain, -⟩ := hredo writeSet (List.prefix_refl _) applied happlied
  exact hd.not_again_of_nested happlied hwritten hw hw' hbelow hne again hagain

end Diffed

/-! ## The history of commits -/

/-- What git records of the file or link under a path. -/
def recorded (d : Disk) (p : Path) : Option Blob :=
  match sight (d.node p) with
  | .blob b => some b
  | _ => none

theorem file_applyWrites (fork : FileTree Blob) (writeSet : List FileChange) (tree : FileTree Blob)
    (p : Path) : (applyWrites fork writeSet tree).file? p =
      if p ∈ writeSet.map FileChange.path then fork.file? p else tree.file? p := by
  induction writeSet generalizing tree with
  | nil => rfl
  | cons w writeSet ih =>
    have hhead : (applyWrites fork [w] tree).file? p =
        if p = w.path then fork.file? p else tree.file? p := by
      rw [applyWrites, List.foldl_cons, List.foldl_nil]
      cases hfork : fork.file? w.path with
      | none =>
        rw [FileTree.file?_remove]
        split
        · rename_i hp
          rw [hp, hfork]
        · rfl
      | some =>
        rw [FileTree.file?_put]
        split
        · rename_i hp
          rw [hp, hfork]
        · rfl
    have hrest : applyWrites fork (w :: writeSet) tree =
        applyWrites fork writeSet (applyWrites fork [w] tree) := rfl
    rw [hrest, ih, hhead, List.map_cons]
    by_cases hp : p ∈ writeSet.map FileChange.path
    · rw [if_pos hp, if_pos (List.mem_cons_of_mem _ hp)]
    · rw [if_neg hp]
      simp only [List.mem_cons, hp, or_false]

theorem recorded_eq_none {d : Disk} (h : fileAt d p = none) : recorded d p = none := by
  unfold recorded
  rcases fileAt_eq_none.1 h with hnode | hnode
  · rw [hnode]
    rfl
  · rw [hnode]
    rfl

theorem recorded_congr {d d' : Disk} (h : fileAt d p = fileAt d' p) :
    recorded d p = recorded d' p := by
  cases hfile : fileAt d' p with
  | none => rw [recorded_eq_none hfile, recorded_eq_none (h.trans hfile)]
  | some =>
    unfold recorded
    rw [(fileAt_eq_some.1 hfile).1, (fileAt_eq_some.1 (h.trans hfile)).1]

/-- The copy of a file is recorded as the file is: the execute bit is one of those kept. -/
theorem sight_copyNode {n m : Node} (h : copyNode n = .ok m) : sight (some m) = sight (some n) := by
  cases n with
  | dir => cases h
  | file content mode =>
    cases h
    have hbit : (mode % 512).testBit 6 = mode.testBit 6 := by
      rw [show 512 = 2 ^ 9 from rfl, Nat.testBit_mod_two_pow]
      rfl
    rw [sight, sight, hbit]
  | link =>
    cases h
    rfl

/-- A root with one file, and one with a file in a directory. -/
def oneFile (name content : String) : Disk :=
  Disk.empty.place [name] (.file content 420) (by simp [Disk.empty]) Disk.empty.root

def fileInside (dir name content : String) : Disk :=
  (Disk.empty.place [dir] .dir (by simp [Disk.empty]) Disk.empty.root).place [dir, name]
    (.file content 420) (by simp [Disk.empty]) (if_pos rfl)

def treeWith (p : Path) (content : String) : FileTree Blob :=
  FileTree.put Table.empty p ⟨.regular, content⟩

/-- Roots in which no link leads out. -/
def plainRoots (source : Disk) : Roots :=
  ⟨source, ⟨fun _ _ => false, fun _ _ => false⟩, ⟨fun _ _ => false, fun _ _ => false⟩⟩

/-- The agreement on every prefix of the paths, by the list of the prefixes. -/
theorem diffed_of_inits {base sourceTree : FileTree Blob} {writeSet : List FileChange}
    {main source : Disk}
    (hbase : ∀ p ∈ base.paths, ∀ q ∈ base.paths, p <+: q → p = q)
    (hsource : ∀ p ∈ sourceTree.paths, ∀ q ∈ sourceTree.paths, p <+: q → p = q)
    (hwrites : writeSet.Perm (diffTrees base sourceTree))
    (hmain : ∀ w ∈ writeSet, ∀ p ∈ w.path.inits, sight (main.node p) = treeSight base p)
    (hshows : ∀ w ∈ writeSet, ∀ p ∈ w.path.inits,
      sight (source.node p) = treeSight sourceTree p) :
    Diffed base sourceTree writeSet main (plainRoots source) where
  base_tree := hbase
  source_tree := hsource
  writes := hwrites
  main_shows w hw p hp := hmain w hw p ((List.mem_inits p w.path).2 hp)
  source_shows w hw p hp := hshows w hw p ((List.mem_inits p w.path).2 hp)

/-- The roots before and after a file was modified, one deleted and one added. -/
def beforeEdits : Disk := (oneFile "x" "old").place ["y"] (.file "gone" 420) (by decide) (by decide)

def afterEdits : Disk := (oneFile "x" "new").place ["z"] (.file "fresh" 420) (by decide) (by decide)

def beforeTree : FileTree Blob := FileTree.put (treeWith ["x"] "old") ["y"] ⟨.regular, "gone"⟩

def afterTree : FileTree Blob := FileTree.put (treeWith ["x"] "new") ["z"] ⟨.regular, "fresh"⟩

def threeEdits : List FileChange := [⟨.M, ["x"]⟩, ⟨.D, ["y"]⟩, ⟨.A, ["z"]⟩]

theorem threeEdits_diffed :
    Diffed beforeTree afterTree threeEdits beforeEdits (plainRoots afterEdits) := by
  apply diffed_of_inits <;> decide +kernel

theorem threeEdits_noneInside : NoneInside threeEdits := by
  unfold NoneInside
  decide +kernel

end WriteBack
end XioFlow
