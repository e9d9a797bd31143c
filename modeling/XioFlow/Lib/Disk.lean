/-
  XioFlow.Lib.Disk

  A directory tree on a disk: directories, files with a mode and links, by
  their path below a root, every one of them in a directory.

  Removing is for one file or link, making a directory makes the directories
  it is in.  Every operation comes with the lemma that says what is under each
  path afterwards, and with the lemma that says when it succeeds.
-/

import XioFlow.Lib.FileTree
import Mathlib.Data.List.Induction

namespace XioFlow.Lib

inductive Node where
  | dir
  | file (content : String) (mode : Nat)
  | link (target : String)
  deriving DecidableEq

namespace Node

def isFile : Option Node → Bool
  | some (.file _ _) => true
  | _ => false

def isLink : Option Node → Bool
  | some (.link _) => true
  | _ => false

end Node

/-- Nodes by path.  What is behind a link is not in the table. -/
structure Disk where
  node : Path → Option Node
  root : node [] = some .dir
  parent : ∀ p, node p ≠ none → p ≠ [] → node p.dropLast = some .dir

inductive FsError where
  | noEntry | notDirectory | isDirectory | exists
  deriving DecidableEq

namespace Disk

/-- Nothing but the root. -/
def empty : Disk where
  node p := if p = [] then some .dir else none
  root := rfl
  parent p hp hne := by
    rw [if_neg hne] at hp
    exact absurd rfl hp

variable {d d' : Disk}

variable {p : Path} {n : Node}

/-- Whatever is on a disk is in directories all the way up. -/
theorem node_above {rest : Path} (hrest : rest ≠ []) (h : d.node (p ++ rest) ≠ none) :
    d.node p = some .dir := by
  induction rest using List.reverseRecOn with
  | nil => exact absurd rfl hrest
  | append_singleton rest name ih =>
    rw [← List.append_assoc] at h
    have hparent := d.parent _ h (by simp)
    rw [List.dropLast_concat] at hparent
    by_cases hempty : rest = []
    · rw [hempty, List.append_nil] at hparent
      exact hparent
    · exact ih hempty (by rw [hparent]; exact Option.some_ne_none _)

/-! ## One node put or taken away -/

/-- A node put where no directory is, in a directory. -/
def place (d : Disk) (p : Path) (n : Node) (hfree : d.node p ≠ some .dir)
    (hparent : d.node p.dropLast = some .dir) : Disk where
  node q := if q = p then some n else d.node q
  root := by
    have hne : [] ≠ p := fun h => hfree (h ▸ d.root)
    rw [if_neg hne]
    exact d.root
  parent q hq hne := by
    have hstays : ∀ q, d.node q = some .dir → (if q = p then some n else d.node q) = some .dir := by
      intro q hdir
      have hother : q ≠ p := fun h => hfree (h ▸ hdir)
      rw [if_neg hother]
      exact hdir
    apply hstays
    by_cases h : q = p
    · rw [h]
      exact hparent
    · rw [if_neg h] at hq
      exact d.parent q hq hne

/-- What is not a directory taken away. -/
def erase (d : Disk) (p : Path) (hleaf : d.node p ≠ some .dir) : Disk where
  node q := if q = p then none else d.node q
  root := by
    have hne : [] ≠ p := fun h => hleaf (h ▸ d.root)
    rw [if_neg hne]
    exact d.root
  parent q hq hne := by
    by_cases h : q = p
    · rw [if_pos h] at hq
      exact absurd rfl hq
    · rw [if_neg h] at hq
      have hdir := d.parent q hq hne
      have hother : q.dropLast ≠ p := fun h => hleaf (h ▸ hdir)
      rw [if_neg hother]
      exact hdir

@[simp] theorem node_place {hfree : d.node p ≠ some .dir}
    {hparent : d.node p.dropLast = some .dir} (q : Path) :
    (d.place p n hfree hparent).node q = if q = p then some n else d.node q := rfl

/-! ## Looking up and removing -/

/-- The test is true of some directory that the path names on its way. -/
def onWay (test : Path → Bool) (p : Path) : Bool :=
  (List.range p.length).any fun n => test (p.take n)

/-- A file is where the path needs a directory. -/
def blocked (d : Disk) (p : Path) : Bool := onWay (fun q => Node.isFile (d.node q)) p

/-- `lstat` -/
def lookup (d : Disk) (p : Path) : Except FsError Node :=
  match d.node p with
  | some n => .ok n
  | none => if d.blocked p then .error .notDirectory else .error .noEntry

/-- `rm` of one file or link, a missing one forgiven. -/
def rmForce (d : Disk) (p : Path) : Except FsError Disk :=
  if hdir : d.node p = some .dir then .error .isDirectory
  else if d.node p = none ∧ d.blocked p then .error .notDirectory
  else .ok (d.erase p hdir)

theorem lookup_ok_iff : d.lookup p = .ok n ↔ d.node p = some n := by
  unfold lookup
  cases h : d.node p with
  | some m => simp
  | none =>
    simp only [reduceCtorEq, iff_false]
    split
    · intro h
      cases h
    · intro h
      cases h

theorem onWay_eq_false {test : Path → Bool} (h : ∀ q, q <+: p → q ≠ p → test q = false) :
    onWay test p = false := by
  unfold onWay
  rw [List.any_eq_false]
  intro n hn
  have hlt : n < p.length := List.mem_range.1 hn
  have hne : p.take n ≠ p := by
    intro heq
    have hlen := congrArg List.length heq
    rw [List.length_take] at hlen
    omega
  rw [h _ (List.take_prefix n p) hne]
  exact Bool.false_ne_true

/-- Under directories and missing names nothing is blocked. -/
theorem not_blocked (h : ∀ q, q <+: p → q ≠ p → d.node q = none ∨ d.node q = some .dir) :
    d.blocked p = false := by
  apply onWay_eq_false
  intro q hq hne
  rcases h q hq hne with hnode | hnode
  · rw [hnode]
    rfl
  · rw [hnode]
    rfl

theorem node_of_rmForce (h : d.rmForce p = .ok d') (q : Path) :
    d'.node q = if q = p then none else d.node q := by
  unfold rmForce at h
  split at h
  · cases h
  · split at h
    · cases h
    · cases h
      rfl

theorem ne_dir_of_rmForce (h : d.rmForce p = .ok d') : d.node p ≠ some .dir := by
  intro hdir
  rw [rmForce, dif_pos hdir] at h
  cases h

theorem rmForce_ok (hleaf : d.node p ≠ some .dir) (hblocked : d.blocked p = false) :
    ∃ d', d.rmForce p = .ok d' := by
  refine ⟨d.erase p hleaf, ?_⟩
  rw [rmForce, dif_neg hleaf, if_neg]
  rw [hblocked]
  exact fun h => Bool.false_ne_true h.2

/-! ## Making directories and writing -/

/-- The directories `rest` of a path, below one that was made before. -/
def mkdirFrom (d : Disk) (above : Path) : List String → Except FsError Disk
  | [] => .ok d
  | name :: rest =>
    if hdir : d.node (above ++ [name]) = some .dir then mkdirFrom d (above ++ [name]) rest
    else if d.node (above ++ [name]) ≠ none then
      .error (if rest = [] then .exists else .notDirectory)
    else if habove : d.node above = some .dir then
      mkdirFrom (d.place (above ++ [name]) .dir hdir (by rw [List.dropLast_concat]; exact habove))
        (above ++ [name]) rest
    else .error .noEntry

/-- `mkdir` with the directories above -/
def mkdirAll (d : Disk) (p : Path) : Except FsError Disk := mkdirFrom d [] p

/-- A file or a link made where nothing is. -/
def create (d : Disk) (p : Path) (n : Node) : Except FsError Disk :=
  if hfree : d.node p = none then
    if hparent : d.node p.dropLast = some .dir then
      .ok (d.place p n (by simp [hfree]) hparent)
    else .error (if d.blocked p then .notDirectory else .noEntry)
  else .error .exists

theorem node_of_create (h : d.create p n = .ok d') (q : Path) :
    d'.node q = if q = p then some n else d.node q := by
  unfold create at h
  split at h
  · split at h
    · cases h
      rfl
    · cases h
  · cases h

theorem create_ok (hfree : d.node p = none) (hparent : d.node p.dropLast = some .dir) :
    ∃ d', d.create p n = .ok d' := by
  unfold create
  rw [dif_pos hfree, dif_pos hparent]
  exact ⟨_, rfl⟩

theorem node_of_mkdirFrom {above : Path} {rest : List String}
    (h : d.mkdirFrom above rest = .ok d') (q : Path) :
    d'.node q = if q <+: above ++ rest ∧ ¬ q <+: above then some .dir else d.node q := by
  induction rest generalizing d above with
  | nil =>
    cases h
    rw [List.append_nil, if_neg fun h => h.2 h.1]
  | cons name rest ih =>
    have hbelow : ∀ d₁ : Disk, d₁.mkdirFrom (above ++ [name]) rest = .ok d' →
        (∀ q, d₁.node q = if q = above ++ [name] then some .dir else d.node q) →
        d'.node q = if q <+: above ++ name :: rest ∧ ¬ q <+: above then some .dir else d.node q := by
      intro d₁ hrun hnode
      rw [ih hrun, hnode q, List.append_assoc, List.singleton_append]
      by_cases hq : q = above ++ [name]
      · -- the directory made just now
        have hlong : ¬ q <+: above := by
          rw [hq]
          intro hp
          have := hp.length_le
          rw [List.length_append, List.length_singleton] at this
          omega
        have hin : q <+: above ++ name :: rest := by
          rw [hq]
          exact ⟨rest, by rw [List.append_assoc]; rfl⟩
        have hmade : ¬ (q <+: above ++ name :: rest ∧ ¬ q <+: above ++ [name]) :=
          fun h => h.2 (hq ▸ List.prefix_refl _)
        rw [if_neg hmade, if_pos hq, if_pos ⟨hin, hlong⟩]
      · have hsame : q <+: above ++ [name] ↔ q <+: above := by
          rw [List.prefix_concat_iff]
          exact or_iff_right hq
        rw [if_neg hq]
        simp only [hsame]
    rw [mkdirFrom] at h
    split at h
    · rename_i hdir
      apply hbelow d h
      intro q
      split
      · rename_i hq
        rw [hq, hdir]
      · rfl
    · split at h
      · cases h
      · split at h
        · exact hbelow _ h fun q => rfl
        · cases h

theorem mkdirFrom_ok {above : Path} {rest : List String} (habove : d.node above = some .dir)
    (h : ∀ q, q <+: above ++ rest → d.node q = none ∨ d.node q = some .dir) :
    ∃ d', d.mkdirFrom above rest = .ok d' := by
  induction rest generalizing d above with
  | nil => exact ⟨d, rfl⟩
  | cons name rest ih =>
    have hsplit : above ++ name :: rest = above ++ [name] ++ rest := by
      rw [List.append_assoc]
      rfl
    rw [hsplit] at h
    rw [mkdirFrom]
    by_cases hdir : d.node (above ++ [name]) = some .dir
    · rw [dif_pos hdir]
      exact ih hdir h
    · have hnone : d.node (above ++ [name]) = none :=
        (h _ (List.prefix_append _ _)).resolve_right hdir
      rw [dif_neg hdir, if_neg (not_not.2 hnone), dif_pos habove]
      apply ih
      · rw [node_place, if_pos rfl]
      · intro q hq
        rw [node_place]
        split
        · exact Or.inr rfl
        · exact h q hq

theorem node_of_mkdirAll (h : d.mkdirAll p = .ok d') (q : Path) :
    d'.node q = if q <+: p then some .dir else d.node q := by
  rw [node_of_mkdirFrom h, List.nil_append]
  by_cases hq : q = []
  · rw [hq, d.root, ite_self, ite_self]
  · simp [hq]

theorem mkdirAll_ok (h : ∀ q, q <+: p → d.node q = none ∨ d.node q = some .dir) :
    ∃ d', d.mkdirAll p = .ok d' :=
  mkdirFrom_ok d.root h

end Disk
end XioFlow.Lib
