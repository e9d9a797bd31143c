/-
  XioFlow.Workspace.Apply

  The write set of a committed transaction is put into the main root, entry by
  entry, and again from the start after a crash.

  Both roots are disks of their own, by paths below the root: the names in a
  git tree are proper ones, so that resolving such a path against its root
  stays below it.  Where a link leads is decided by what is around the root as
  well, and is asked of `Surroundings`.
-/

import XioFlow.Lib.Disk
import XioFlow.Workspace.Validation

namespace XioFlow

open Lib

namespace WriteBack

/-! ## Roots -/

/-- Where the links in a root lead, for what the root holds. -/
structure Surroundings where
  /-- the real path of a path with a link on it lies outside the root -/
  leavesRoot : (Path → Option Node) → Path → Bool
  /-- what a link leads to exists -/
  leads : (Path → Option Node) → Path → Bool

/-- What one run of `apply` does not change. -/
structure Roots where
  /-- `sourceRoot`: the fork of the transaction or of its replay -/
  source : Disk
  aroundSource : Surroundings
  aroundMain : Surroundings

inductive ApplyError where
  | outsideRoot (path : Path)
  | symbolicParent (path dir : Path)
  | fs (error : FsError)
  deriving DecidableEq

namespace Surroundings

variable (s : Surroundings)

/-- A path of the root is inside it unless it runs through a link, or is one, that leads out. -/
def isPathContained (node : Path → Option Node) (p : Path) : Bool :=
  !((Node.isLink (node p) || Disk.onWay (fun q => Node.isLink (node q)) p) && s.leavesRoot node p)

def existsSync (node : Path → Option Node) (p : Path) : Bool :=
  if Node.isLink (node p) then s.leads node p else (node p).isSome

/-- The directories from the innermost up, by the names of the innermost in reverse. -/
def assertNoSymlinkedParent (d : Disk) (target : Path) : List String → Except ApplyError Unit
  | [] => .ok ()
  | name :: up =>
    let dir := (name :: up).reverse
    if !s.isPathContained d.node dir then .ok ()
    else if s.existsSync d.node dir && Node.isLink (d.node dir) then
      .error (.symbolicParent target dir)
    else assertNoSymlinkedParent d target up

end Surroundings

/-! ## Applying a write set -/

/-- A file or a link as it is made again: `symlinkSync`, or `copyFileSync` and `chmodSync`. -/
def copyNode : Node → Except FsError Node
  | .dir => .error .isDirectory
  | .file content mode => .ok (.file content (mode % 512))
  | .link target => .ok (.link target)

/-- What is done for one entry, once its paths are accepted. -/
def writeEntry (source main : Disk) (entry : FileChange) : Except FsError Disk :=
  if entry.status = .D then main.rmForce entry.path
  else do
    let main ← main.mkdirAll (dirname entry.path)
    let st ← source.lookup entry.path
    let main ← main.rmForce entry.path
    let node ← copyNode st
    main.create entry.path node

def applyEntry (r : Roots) (main : Disk) (entry : FileChange) : Except ApplyError Disk :=
  if !r.aroundMain.isPathContained main.node entry.path ||
      !r.aroundSource.isPathContained r.source.node entry.path then
    .error (.outsideRoot entry.path)
  else do
    r.aroundMain.assertNoSymlinkedParent main entry.path (dirname entry.path).reverse
    (writeEntry r.source main entry).mapError .fs

/-- `WorkspaceTransactions.apply` -/
def apply (r : Roots) (writeSet : List FileChange) (main : Disk) : Except ApplyError Disk :=
  writeSet.foldlM (applyEntry r) main

/-! ## Trees and roots -/

/-- What a path shows of a tree. -/
inductive Sight where
  | nothing
  | directory
  | blob (b : Blob)
  deriving DecidableEq

/-- As git records a node: of a mode it keeps the owner's execute bit. -/
def sight : Option Node → Sight
  | none => .nothing
  | some .dir => .directory
  | some (.file content mode) =>
    .blob ⟨if mode.testBit 6 then .executable else .regular, content⟩
  | some (.link target) => .blob ⟨.symlink, target⟩

/-- A submodule is a directory where it is checked out. -/
def treeSight (t : FileTree Blob) (p : Path) : Sight :=
  match t.file? p with
  | some b => if b.kind = .gitlink then .directory else .blob b
  | none => if p = [] ∨ ∃ q ∈ t.paths, p <+: q then .directory else .nothing

/-- No entry of a git tree is below another. -/
def IsTree (t : FileTree Blob) : Prop :=
  ∀ p ∈ t.paths, ∀ q ∈ t.paths, p <+: q → p = q

/-- The write set is the difference of two trees, in the order git lists it or in any other, the
    main root is as the base and the source root as the source on its paths and above them. -/
structure Diffed (base sourceTree : FileTree Blob) (writeSet : List FileChange) (main : Disk)
    (r : Roots) : Prop where
  base_tree : IsTree base
  source_tree : IsTree sourceTree
  writes : writeSet.Perm (diffTrees base sourceTree)
  main_shows : ∀ w ∈ writeSet, ∀ p, p <+: w.path → sight (main.node p) = treeSight base p
  source_shows : ∀ w ∈ writeSet, ∀ p, p <+: w.path →
    sight (r.source.node p) = treeSight sourceTree p

/-- The file or link under a path. -/
def fileAt (d : Disk) (p : Path) : Option Node := (d.node p).filter fun n => decide (n ≠ .dir)

/-- A file as the source has it: the content and the permission bits, or the target. -/
def copied (source : Disk) (p : Path) : Option Node :=
  (fileAt source p).bind fun n => (copyNode n).toOption

/-- Applying does not throw and leaves the paths of the write set as in the source and the other
    files untouched, and so does applying again after any of its prefixes. -/
def AppliesAgain (r : Roots) (writeSet : List FileChange) (main : Disk) : Prop :=
  ∃ applied, apply r writeSet main = .ok applied ∧
    (∀ w ∈ writeSet, fileAt applied w.path = copied r.source w.path) ∧
    (∀ p, p ∉ writeSet.map FileChange.path → fileAt applied p = fileAt main p) ∧
    ∀ done, done <+: writeSet → ∀ d, apply r done main = .ok d →
      ∃ again, apply r writeSet d = .ok again ∧ ∀ p, fileAt again p = fileAt applied p


/-! ## One entry -/

/-- A file can be put under the path: no directory is there, and only directories are above. -/
structure HasRoom (node : Path → Option Node) (p : Path) : Prop where
  leaf : node p ≠ some .dir
  above : ∀ q, q <+: p → q ≠ p → node q = none ∨ node q = some .dir

variable {p : Path} {n : Node} {source : Disk} {e : FileChange} {done : List FileChange}

theorem prefix_dirname_iff {q : Path} (hp : p ≠ []) : q <+: dirname p ↔ q <+: p ∧ q ≠ p := by
  obtain ⟨dir, name, rfl⟩ := (List.eq_nil_or_concat p).resolve_left hp
  rw [List.concat_eq_append, dirname, List.dropLast_concat, List.prefix_concat_iff]
  constructor
  · intro h
    refine ⟨.inr h, fun heq => ?_⟩
    have hlen := h.length_le
    rw [heq, List.length_append, List.length_singleton] at hlen
    omega
  · rintro ⟨h, hne⟩
    exact h.resolve_left hne

variable {d main main' : Disk} {r : Roots} {es : List FileChange}

theorem fileAt_eq_some : fileAt d p = some n ↔ d.node p = some n ∧ n ≠ .dir := by
  unfold fileAt
  rw [Option.filter_eq_some_iff, decide_eq_true_iff]

theorem fileAt_eq_none : fileAt d p = none ↔ d.node p = none ∨ d.node p = some .dir := by
  unfold fileAt
  cases h : d.node p with
  | none => simp
  | some => simp [Option.filter]

theorem fileAt_eq_node (h : d.node p ≠ some .dir) : fileAt d p = d.node p := by
  cases hnode : d.node p with
  | none => exact fileAt_eq_none.2 (.inl hnode)
  | some => exact fileAt_eq_some.2 ⟨hnode, fun heq => h (by rw [hnode, heq])⟩

theorem copyNode_ne_dir {m : Node} (h : copyNode n = .ok m) : n ≠ .dir ∧ m ≠ .dir := by
  cases n with
  | dir => cases h
  | file | link =>
    cases h
    simp

theorem copied_of_lookup {m : Node} (hn : source.node p = some n) (hm : copyNode n = .ok m) :
    copied source p = some m := by
  have hfile : fileAt source p = some n := fileAt_eq_some.2 ⟨hn, (copyNode_ne_dir hm).1⟩
  rw [copied, hfile, Option.bind_some, hm]
  rfl

/-- Directories are made above, and the entry is as in the source; nothing else changes. -/
theorem node_of_writeEntry (h : writeEntry source main e = .ok main') (q : Path) :
    main'.node q =
      if q = e.path then (if e.status = .D then none else copied source e.path)
      else if e.status ≠ .D ∧ q <+: e.path then some .dir else main.node q := by
  unfold writeEntry at h
  by_cases hD : e.status = .D
  · rw [if_pos hD] at h
    have hgone : ¬ (e.status ≠ .D ∧ q <+: e.path) := fun hw => hw.1 hD
    rw [if_pos hD, if_neg hgone]
    exact Disk.node_of_rmForce h q
  · rw [if_neg hD] at h
    rw [if_neg hD]
    obtain ⟨made, hmade, h⟩ := except_bind_ok h
    obtain ⟨st, hst, h⟩ := except_bind_ok h
    obtain ⟨gone, hgone, h⟩ := except_bind_ok h
    obtain ⟨node, hnode, h⟩ := except_bind_ok h
    have hne : e.path ≠ [] := by
      intro hroot
      exact Disk.ne_dir_of_rmForce hgone (hroot ▸ made.root)
    rw [Disk.node_of_create h]
    by_cases hq : q = e.path
    · rw [if_pos hq, if_pos hq, copied_of_lookup (Disk.lookup_ok_iff.1 hst) hnode]
    · rw [if_neg hq, if_neg hq, Disk.node_of_rmForce hgone, if_neg hq, Disk.node_of_mkdirAll hmade]
      simp only [prefix_dirname_iff hne, hq, hD, ne_eq, not_false_eq_true, and_true, true_and]

theorem leaf_of_writeEntry (h : writeEntry source main e = .ok main') :
    main.node e.path ≠ some .dir := by
  unfold writeEntry at h
  split at h
  · exact Disk.ne_dir_of_rmForce h
  · obtain ⟨made, hmade, h⟩ := except_bind_ok h
    obtain ⟨st, -, h⟩ := except_bind_ok h
    obtain ⟨gone, hgone, -⟩ := except_bind_ok h
    intro hdir
    apply Disk.ne_dir_of_rmForce hgone
    rw [Disk.node_of_mkdirAll hmade, hdir, ite_self]

/-- What is copied is no directory. -/
theorem source_of_writeEntry (h : writeEntry source main e = .ok main') (hD : e.status ≠ .D) :
    source.node e.path ≠ some .dir := by
  rw [writeEntry, if_neg hD] at h
  obtain ⟨made, -, h⟩ := except_bind_ok h
  obtain ⟨st, hst, h⟩ := except_bind_ok h
  obtain ⟨gone, -, h⟩ := except_bind_ok h
  obtain ⟨node, hnode, -⟩ := except_bind_ok h
  intro hdir
  have heq : st = .dir := Option.some.inj ((Disk.lookup_ok_iff.1 hst).symm.trans hdir)
  exact (copyNode_ne_dir hnode).1 heq

theorem writeEntry_ok (hroom : HasRoom main.node e.path)
    (hsource : e.status ≠ .D → ∃ n, fileAt source e.path = some n) :
    ∃ main', writeEntry source main e = .ok main' := by
  have hne : e.path ≠ [] := fun hroot => hroom.leaf (hroot ▸ main.root)
  unfold writeEntry
  by_cases hD : e.status = .D
  · rw [if_pos hD]
    exact Disk.rmForce_ok hroom.leaf (Disk.not_blocked hroom.above)
  · rw [if_neg hD]
    obtain ⟨n, hn⟩ := hsource hD
    obtain ⟨hn, hfile⟩ := fileAt_eq_some.1 hn
    obtain ⟨made, hmade⟩ : ∃ made, main.mkdirAll (dirname e.path) = .ok made :=
      Disk.mkdirAll_ok fun q hq =>
        hroom.above q ((prefix_dirname_iff hne).1 hq).1 ((prefix_dirname_iff hne).1 hq).2
    have hnode := Disk.node_of_mkdirAll hmade
    -- the directories above are made now, the path itself is as before
    have habove : ∀ q, q <+: e.path → q ≠ e.path → made.node q = some .dir := by
      intro q hq hqne
      rw [hnode, if_pos ((prefix_dirname_iff hne).2 ⟨hq, hqne⟩)]
    have hself : made.node e.path = main.node e.path := by
      rw [hnode, if_neg fun hq => ((prefix_dirname_iff hne).1 hq).2 rfl]
    obtain ⟨gone, hgone⟩ : ∃ gone, made.rmForce e.path = .ok gone := by
      apply Disk.rmForce_ok
      · rw [hself]
        exact hroom.leaf
      · exact Disk.not_blocked fun q hq hqne => .inr (habove q hq hqne)
    obtain ⟨node, hcopy⟩ : ∃ node, copyNode n = .ok node := by
      cases n with
      | dir => exact absurd rfl hfile
      | file | link => exact ⟨_, rfl⟩
    have hparent : gone.node (dirname e.path) = some .dir := by
      have hself := (prefix_dirname_iff (q := dirname e.path) hne).1 (List.prefix_refl _)
      rw [Disk.node_of_rmForce hgone, if_neg hself.2]
      exact habove _ hself.1 hself.2
    obtain ⟨main', hcreate⟩ := Disk.create_ok (n := node)
      (by rw [Disk.node_of_rmForce hgone, if_pos rfl]) hparent
    refine ⟨main', ?_⟩
    rw [hmade, Disk.lookup_ok_iff.2 hn]
    show (do
      let main ← made.rmForce e.path
      let node ← copyNode n
      main.create e.path node) = .ok main'
    rw [hgone]
    show (do
      let node ← copyNode n
      gone.create e.path node) = .ok main'
    rw [hcopy]
    exact hcreate

theorem applyEntry_contained (h : applyEntry r main e = .ok main') :
    r.aroundMain.isPathContained main.node e.path = true ∧
      r.aroundSource.isPathContained r.source.node e.path = true := by
  rw [applyEntry] at h
  split at h
  · cases h
  · rename_i hinside
    simpa using hinside

theorem applyEntry_writes (h : applyEntry r main e = .ok main') :
    writeEntry r.source main e = .ok main' := by
  rw [applyEntry] at h
  split at h
  · cases h
  · obtain ⟨-, -, h⟩ := except_bind_ok h
    exact except_mapError_ok h

/-- Under directories and missing names no parent is a link. -/
theorem assertNoSymlinkedParent_ok {s : Surroundings} {target : Path} {up : List String}
    (h : ∀ q, q <+: up.reverse → d.node q = none ∨ d.node q = some .dir) :
    s.assertNoSymlinkedParent d target up = .ok () := by
  induction up with
  | nil => rfl
  | cons name up ih =>
    have hlink : Node.isLink (d.node (name :: up).reverse) = false := by
      rcases h _ (List.prefix_refl _) with hnode | hnode
      · rw [hnode]
        rfl
      · rw [hnode]
        rfl
    rw [Surroundings.assertNoSymlinkedParent, hlink, Bool.and_false]
    split
    · rfl
    · rw [if_neg Bool.false_ne_true]
      apply ih
      intro q hq
      apply h q
      rw [List.reverse_cons]
      exact hq.trans (List.prefix_append _ _)

/-- Where there is room, the entry is written exactly when both of its paths stay inside. -/
theorem applyEntry_ok (hroom : HasRoom main.node e.path)
    (hsource : e.status ≠ .D → ∃ n, fileAt r.source e.path = some n)
    (hmain : r.aroundMain.isPathContained main.node e.path = true)
    (hinside : r.aroundSource.isPathContained r.source.node e.path = true) :
    ∃ main', applyEntry r main e = .ok main' := by
  have hne : e.path ≠ [] := fun hroot => hroom.leaf (hroot ▸ main.root)
  have hparents : r.aroundMain.assertNoSymlinkedParent main e.path (dirname e.path).reverse =
      .ok () := by
    apply assertNoSymlinkedParent_ok
    intro q hq
    rw [List.reverse_reverse, prefix_dirname_iff hne] at hq
    exact hroom.above q hq.1 hq.2
  obtain ⟨main', hwrite⟩ := writeEntry_ok hroom hsource
  refine ⟨main', ?_⟩
  rw [applyEntry, hmain, hinside, if_neg (by decide), hparents, hwrite]
  rfl

/-! ## A run that does not throw -/

theorem apply_cons_ok (h : apply r (e :: es) main = .ok main') :
    ∃ next, applyEntry r main e = .ok next ∧ apply r es next = .ok main' := by
  rw [apply, List.foldlM_cons] at h
  exact except_bind_ok h

/-- Directories are never removed. -/
theorem directory_stays (h : apply r es main = .ok main') {q : Path}
    (hdir : main.node q = some .dir) : main'.node q = some .dir := by
  induction es generalizing main with
  | nil =>
    cases h
    exact hdir
  | cons e es ih =>
    obtain ⟨next, hentry, hrest⟩ := apply_cons_ok h
    apply ih hrest
    have hwrite := applyEntry_writes hentry
    have hother : q ≠ e.path := fun heq => leaf_of_writeEntry hwrite (heq ▸ hdir)
    rw [node_of_writeEntry hwrite, if_neg hother, hdir, ite_self]

/-- Where an entry is applied there was no directory to begin with. -/
theorem leaf_of_apply (h : apply r es main = .ok main') (he : e ∈ es) :
    main.node e.path ≠ some .dir ∧ (e.status ≠ .D → r.source.node e.path ≠ some .dir) := by
  induction es generalizing main with
  | nil => cases he
  | cons e' es ih =>
    obtain ⟨next, hentry, hrest⟩ := apply_cons_ok h
    have hwrite := applyEntry_writes hentry
    rcases List.mem_cons.1 he with rfl | he
    · exact ⟨leaf_of_writeEntry hwrite, source_of_writeEntry hwrite⟩
    · obtain ⟨hleaf, hsource⟩ := ih hrest he
      refine ⟨fun hdir => ?_, hsource⟩
      have hone : apply r [e'] main = .ok next := by
        rw [apply, List.foldlM_cons, hentry]
        rfl
      exact hleaf (directory_stays hone hdir)

/-! ## The states between -/

/-- The path is a directory above something that is written. -/
def holdsWritten (done : List FileChange) (p : Path) : Bool :=
  done.any fun w => w.status != .D && p.isPrefixOf w.path

theorem holdsWritten_iff :
    holdsWritten done p = true ↔ ∃ w ∈ done, w.status ≠ .D ∧ p <+: w.path := by
  simp [holdsWritten]

/-- The path is one of those that are written. -/
def isWritten (done : List FileChange) (p : Path) : Bool := done.any fun w => w.path == p

theorem isWritten_iff : isWritten done p = true ↔ p ∈ done.map FileChange.path := by
  simp [isWritten]

/-- The main root once `done` is written: its paths as in the source, in directories. -/
def partly (r : Roots) (main : Disk) (done : List FileChange) (p : Path) : Option Node :=
  if isWritten done p then copied r.source p
  else if holdsWritten done p then some .dir
  else main.node p

theorem partly_eq :
    partly r main done p = if p ∈ done.map FileChange.path then copied r.source p
      else if holdsWritten done p then some .dir else main.node p :=
  if_congr isWritten_iff rfl rfl

/-- The states between depend on the set of what is done alone. -/
theorem partly_congr {done' : List FileChange} (h : ∀ w, w ∈ done ↔ w ∈ done') :
    partly r main done = partly r main done' := by
  funext p
  unfold partly
  simp only [isWritten_iff, List.mem_map, holdsWritten_iff, h]

theorem partly_self {done' : List FileChange} (h : ∀ w ∈ done, w ∈ done') :
    partly r main (done' ++ done) = partly r main done' := by
  apply partly_congr
  intro w
  rw [List.mem_append]
  exact or_iff_left_of_imp (h w)

theorem partly_nil : main.node = partly r main [] := by
  funext p
  simp [partly, isWritten, holdsWritten]

/-- A write set that can be applied in any order and again: no entry is inside another, its
    paths have room in the main root, and what it takes from the source is there. -/
structure Independent (r : Roots) (writeSet : List FileChange) (main : Disk) : Prop where
  apart : ∀ w ∈ writeSet, ∀ w' ∈ writeSet, w.path <+: w'.path → w.path = w'.path
  room : ∀ w ∈ writeSet, HasRoom main.node w.path
  deleted : ∀ w ∈ writeSet, w.status = .D → copied r.source w.path = none
  kept : ∀ w ∈ writeSet, w.status ≠ .D → ∃ n, fileAt r.source w.path = some n

/-- Both paths of an entry stay inside their roots. -/
def Inside (r : Roots) (node : Path → Option Node) (p : Path) : Prop :=
  r.aroundMain.isPathContained node p = true ∧
    r.aroundSource.isPathContained r.source.node p = true

/-- While the write set is applied, and applied again, no link at the paths written before or at
    the next one leads out. -/
def LinksStayInside (r : Roots) (writeSet : List FileChange) (main : Disk) : Prop :=
  ∀ done, done <+: writeSet → ∀ w ∈ writeSet, (w ∈ done ∨ done ++ [w] <+: writeSet) →
    Inside r (partly r main done) w.path

theorem copied_ne_dir : copied source p ≠ some .dir := by
  intro h
  obtain ⟨n, -, hn⟩ := Option.bind_eq_some_iff.1 h
  have hok : copyNode n = .ok .dir := by
    cases n with
    | dir | file | link => cases hn
  exact (copyNode_ne_dir hok).2 rfl

section Runs

variable {r : Roots} {writeSet : List FileChange} {main : Disk}
  (hind : Independent r writeSet main)

include hind

variable {done : List FileChange}

/-- A path above an entry is not written itself. -/
theorem not_written_above (hdone : ∀ w ∈ done, w ∈ writeSet) {w : FileChange} (hw : w ∈ writeSet)
    {q : Path} (hq : q <+: w.path) (hne : q ≠ w.path) : q ∉ done.map FileChange.path := by
  intro hmem
  obtain ⟨w', hw', rfl⟩ := List.mem_map.1 hmem
  exact hne (hind.apart w' (hdone w' hw') w hw hq)

/-- In every state between there is room for every entry. -/
theorem room_partly (hdone : ∀ w ∈ done, w ∈ writeSet) {w : FileChange} (hw : w ∈ writeSet) :
    HasRoom (partly r main done) w.path where
  leaf := by
    rw [partly_eq]
    split
    · exact copied_ne_dir
    · rename_i hnew
      split
      · rename_i hbelow
        obtain ⟨w', hw', -, hp⟩ := holdsWritten_iff.1 hbelow
        have heq := hind.apart w hw w' (hdone w' hw') hp
        exact absurd (heq ▸ List.mem_map_of_mem hw') hnew
      · exact (hind.room w hw).leaf
  above q hq hne := by
    rw [partly_eq, if_neg (not_written_above hind hdone hw hq hne)]
    split
    · exact .inr rfl
    · exact (hind.room w hw).above q hq hne

variable {d : Disk}

/-- One more entry leads from a state between to the next. -/
theorem partly_step (hdone : ∀ w ∈ done, w ∈ writeSet) {d' : Disk}
    (hd : d.node = partly r main done) {e : FileChange} (he : e ∈ writeSet)
    (h : writeEntry r.source d e = .ok d') : d'.node = partly r main (done ++ [e]) := by
  funext q
  rw [node_of_writeEntry h, hd]
  by_cases hq : q = e.path
  · -- the entry's own path
    have hmem : q ∈ (done ++ [e]).map FileChange.path := by
      rw [hq]
      exact List.mem_map_of_mem (List.mem_append_right _ (List.mem_singleton.2 rfl))
    rw [if_pos hq, partly_eq, if_pos hmem, hq]
    split
    · rename_i hD
      exact (hind.deleted e he hD).symm
    · rfl
  · rw [if_neg hq]
    have hmem : q ∈ (done ++ [e]).map FileChange.path ↔ q ∈ done.map FileChange.path := by
      rw [List.map_append, List.mem_append, List.map_singleton, List.mem_singleton]
      exact or_iff_left hq
    have hbelow : holdsWritten (done ++ [e]) q = true ↔
        holdsWritten done q = true ∨ e.status ≠ .D ∧ q <+: e.path := by
      simp only [holdsWritten_iff, List.mem_append, List.mem_singleton, or_and_right, exists_or,
        exists_eq_left]
    simp only [partly_eq, hmem, hbelow]
    by_cases hmade : e.status ≠ .D ∧ q <+: e.path
    · -- a directory above the entry
      rw [if_pos hmade, if_neg (not_written_above hind hdone he hmade.2 hq), if_pos (.inr hmade)]
    · rw [if_neg hmade]
      simp only [hmade, or_false]

theorem node_of_apply {es : List FileChange} (hes : ∀ e ∈ es, e ∈ writeSet)
    (hdone : ∀ w ∈ done, w ∈ writeSet) {d' : Disk} (hd : d.node = partly r main done)
    (h : apply r es d = .ok d') : d'.node = partly r main (done ++ es) := by
  induction es generalizing done d with
  | nil =>
    cases h
    rw [List.append_nil]
    exact hd
  | cons e es ih =>
    obtain ⟨next, hentry, hrest⟩ := apply_cons_ok h
    have he : e ∈ writeSet := hes e List.mem_cons_self
    have hnext := partly_step hind hdone hd he (applyEntry_writes hentry)
    have hmore : ∀ w ∈ done ++ [e], w ∈ writeSet :=
      List.forall_mem_append.2 ⟨hdone, List.forall_mem_singleton.2 he⟩
    rw [← List.singleton_append, ← List.append_assoc]
    exact ih (fun e he => hes e (List.mem_cons_of_mem _ he)) hmore hnext hrest

/-- From a state between, a run comes to its end exactly when every entry stays inside where it
    is applied. -/
theorem apply_ok_iff {es : List FileChange} (hes : ∀ e ∈ es, e ∈ writeSet)
    (hdone : ∀ w ∈ done, w ∈ writeSet) (hd : d.node = partly r main done) :
    (∃ d', apply r es d = .ok d') ↔
      ∀ pre e post, es = pre ++ e :: post → Inside r (partly r main (done ++ pre)) e.path := by
  induction es generalizing done d with
  | nil =>
    refine iff_of_true ⟨d, rfl⟩ fun pre e post hsplit => ?_
    simp at hsplit
  | cons e es ih =>
    have he : e ∈ writeSet := hes e List.mem_cons_self
    have hrest : ∀ e ∈ es, e ∈ writeSet := fun e he => hes e (List.mem_cons_of_mem _ he)
    have hmore : ∀ w ∈ done ++ [e], w ∈ writeSet :=
      List.forall_mem_append.2 ⟨hdone, List.forall_mem_singleton.2 he⟩
    constructor
    · rintro ⟨d', hrun⟩ pre e' post hsplit
      obtain ⟨next, hentry, hrun⟩ := apply_cons_ok hrun
      have hnext := partly_step hind hdone hd he (applyEntry_writes hentry)
      rcases List.cons_eq_append_iff.1 hsplit with ⟨rfl, heq⟩ | ⟨pre', rfl, heq⟩
      · obtain ⟨rfl, -⟩ := List.cons.inj heq
        rw [List.append_nil, ← hd]
        exact applyEntry_contained hentry
      · have hlater := (ih hrest hmore hnext).1 ⟨d', hrun⟩ pre' e' post heq
        rw [List.append_assoc] at hlater
        exact hlater
    · intro hinside
      have hhere := hinside [] e es rfl
      rw [List.append_nil, ← hd] at hhere
      have hroom : HasRoom d.node e.path := by
        rw [hd]
        exact room_partly hind hdone he
      obtain ⟨next, hentry⟩ := applyEntry_ok hroom (hind.kept e he) hhere.1 hhere.2
      have hnext := partly_step hind hdone hd he (applyEntry_writes hentry)
      obtain ⟨d', hrun⟩ := (ih hrest hmore hnext).2 fun pre e' post hsplit => by
        have hlater := hinside (e :: pre) e' post (by rw [hsplit]; rfl)
        rw [List.append_assoc]
        exact hlater
      refine ⟨d', ?_⟩
      rw [apply, List.foldlM_cons, hentry]
      exact hrun

/-- What a whole run leaves: the write set as in the source, the other files as they were. -/
theorem files_of_partly (hd : d.node = partly r main writeSet) :
    (∀ w ∈ writeSet, fileAt d w.path = copied r.source w.path) ∧
      ∀ p, p ∉ writeSet.map FileChange.path → fileAt d p = fileAt main p := by
  constructor
  · intro w hw
    have hnode : d.node w.path = copied r.source w.path := by
      rw [hd, partly_eq, if_pos (List.mem_map_of_mem hw)]
    rw [← hnode]
    exact fileAt_eq_node (hnode ▸ copied_ne_dir)
  · intro p hp
    have hnode : d.node p = if holdsWritten writeSet p then some .dir else main.node p := by
      rw [hd, partly_eq, if_neg hp]
    by_cases hmade : holdsWritten writeSet p = true
    · rw [if_pos hmade] at hnode
      obtain ⟨w, hw, -, hbelow⟩ := holdsWritten_iff.1 hmade
      have hne : p ≠ w.path := fun heq => hp (heq ▸ List.mem_map_of_mem hw)
      rw [fileAt_eq_none.2 (.inr hnode), fileAt_eq_none.2 ((hind.room w hw).above p hbelow hne)]
    · rw [if_neg hmade] at hnode
      rw [fileAt, fileAt, hnode]

/-- Where no link leads out, the write set is applied, and applied again from every state
    between. -/
theorem appliesAgain_of_inside (hlinks : LinksStayInside r writeSet main) :
    AppliesAgain r writeSet main := by
  have hall : ∀ w ∈ writeSet, w ∈ writeSet := fun w hw => hw
  have hnone : ∀ w ∈ ([] : List FileChange), w ∈ writeSet := by simp
  obtain ⟨applied, happlied⟩ := (apply_ok_iff hind hall hnone partly_nil).2 fun pre e post hsplit => by
    have hnext : pre ++ [e] <+: writeSet := ⟨post, by rw [hsplit, List.append_assoc]; rfl⟩
    have he : e ∈ writeSet := by
      rw [hsplit]
      exact List.mem_append_right _ List.mem_cons_self
    exact hlinks pre ((List.prefix_append _ _).trans hnext) e he (.inr hnext)
  have hnode : applied.node = partly r main writeSet := node_of_apply hind hall hnone partly_nil happlied
  obtain ⟨hwritten, hother⟩ := files_of_partly hind hnode
  refine ⟨applied, happlied, hwritten, hother, ?_⟩
  intro done hdone d hd
  have hpart : ∀ w ∈ done, w ∈ writeSet := fun w hw => hdone.subset hw
  have hstate : d.node = partly r main done := node_of_apply hind hpart hnone partly_nil hd
  obtain ⟨again, hagain⟩ := (apply_ok_iff hind hall hpart hstate).2 fun pre e post hsplit => by
    have hnext : pre ++ [e] <+: writeSet := ⟨post, by rw [hsplit, List.append_assoc]; rfl⟩
    have he : e ∈ writeSet := hnext.subset (by simp)
    rcases List.prefix_or_prefix_of_prefix hnext hdone with hold | hnew
    · -- the entry was applied before
      have hsame : partly r main (done ++ pre) = partly r main done :=
        partly_self fun w hw => hold.subset (List.mem_append_left _ hw)
      rw [hsame]
      exact hlinks done hdone e he (.inl (hold.subset (by simp)))
    · rcases List.prefix_concat_iff.1 hnew with rfl | hnew
      · have hsame : partly r main (pre ++ [e] ++ pre) = partly r main (pre ++ [e]) :=
          partly_self fun w hw => List.mem_append_left _ hw
        rw [hsame]
        exact hlinks _ hdone e he (.inl (by simp))
      · have hsame : partly r main (done ++ pre) = partly r main pre := by
          apply partly_congr
          intro w
          rw [List.mem_append]
          exact or_iff_right_of_imp fun hw => hnew.subset hw
        rw [hsame]
        exact hlinks pre ((List.prefix_append _ _).trans hnext) e he (.inr hnext)
  refine ⟨again, hagain, ?_⟩
  have hlast : again.node = applied.node := by
    rw [node_of_apply hind hall hpart hstate hagain, hnode]
    apply partly_congr
    intro w
    rw [List.mem_append]
    exact or_iff_right_of_imp (hpart w)
  intro p
  rw [fileAt, fileAt, hlast]

/-- A write set that is applied and applied again had no link leading out on the way. -/
theorem inside_of_appliesAgain (h : AppliesAgain r writeSet main) :
    LinksStayInside r writeSet main := by
  have hall : ∀ w ∈ writeSet, w ∈ writeSet := fun w hw => hw
  have hnone : ∀ w ∈ ([] : List FileChange), w ∈ writeSet := by simp
  obtain ⟨applied, happlied, -, -, hredo⟩ := h
  intro done hdone w hw hwhich
  rcases hwhich with hold | hnext
  · obtain ⟨rest, hrest⟩ := hdone
    obtain ⟨pre, post, hsplit⟩ := List.append_of_mem hold
    have hfirst : apply r (done ++ rest) main = .ok applied := by rw [hrest]; exact happlied
    rw [apply, List.foldlM_append] at hfirst
    obtain ⟨d, hd, -⟩ := except_bind_ok hfirst
    have hpart : ∀ w ∈ done, w ∈ writeSet := fun w hw => hrest ▸ List.mem_append_left _ hw
    have hstate : d.node = partly r main done := node_of_apply hind hpart hnone partly_nil hd
    obtain ⟨again, hagain, -⟩ := hredo done ⟨rest, hrest⟩ d hd
    have hinside := (apply_ok_iff hind hall hpart hstate).1 ⟨again, hagain⟩ pre w (post ++ rest)
      (by rw [← hrest, hsplit, List.append_assoc]; rfl)
    have hsame : partly r main (done ++ pre) = partly r main done :=
      partly_self fun w hw => hsplit ▸ List.mem_append_left _ hw
    rw [hsame] at hinside
    exact hinside
  · obtain ⟨rest, hrest⟩ := hnext
    exact (apply_ok_iff hind hall hnone partly_nil).1 ⟨applied, happlied⟩ done w rest
      (by rw [← hrest, List.append_assoc]; rfl)

end Runs

end WriteBack
end XioFlow
