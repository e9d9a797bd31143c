/-
  XioFlow.Capability.Paths

  Real paths and containment of paths.

  The file system is what `realpathSync` and `existsSync` answer, and the
  working directory.  A path that exists nowhere is resolved as far as its
  nearest existing ancestor.
-/

import XioFlow.Lib.FileTree
import XioFlow.Lib.Text

namespace XioFlow

open Lib

/-- What the process sees of the file system, on absolute paths. -/
structure FileSystem where
  cwd : Path
  /-- `fs.realpathSync`, or nothing when it throws -/
  realpathSync : Path → Option Path
  existsSync : Path → Bool

/-- The absolute path as the host language writes it. -/
def renderPath (path : Path) : String :=
  if path = [] then "/" else String.ofList (path.flatMap fun name => '/' :: name.toList)

/-- The segments of a path as it was given, in order, on top of a base. -/
def resolveSegments (base : Path) : List (List Char) → Path
  | [] => base
  | seg :: segs =>
    if seg = [] ∨ seg = ['.'] then resolveSegments base segs
    else if seg = ['.', '.'] then resolveSegments base.dropLast segs
    else resolveSegments (base ++ [String.ofList seg]) segs

namespace FileSystem

/-- `path.resolve` -/
def resolve (fs : FileSystem) (p : String) : Path :=
  resolveSegments (if hasPrefix "/" p then [] else fs.cwd) (splitAtChar '/' p.toList)

/-- The nearest ancestor that exists, from the innermost name up, and the names below it. -/
def existingAncestor (fs : FileSystem) : List String → Path → Path × Path
  | [], parts => ([], parts)
  | name :: up, parts =>
    if fs.existsSync (name :: up).reverse then ((name :: up).reverse, parts)
    else existingAncestor fs up (name :: parts)

/-- The real path of an absolute path. -/
def realPath (fs : FileSystem) (path : Path) : Path :=
  match fs.realpathSync path with
  | some real => real
  | none =>
    let (cur, parts) := fs.existingAncestor path.reverse []
    (fs.realpathSync cur).getD cur ++ parts

def resolveRealPath (fs : FileSystem) (p : String) : String :=
  renderPath (fs.realPath (fs.resolve p))

/-- `/a/b` does not contain `/a/bc`. -/
def isPathContained (fs : FileSystem) (parentPath childPath : String) : Bool :=
  let realParent := fs.resolveRealPath parentPath
  let realChild := fs.resolveRealPath childPath
  let parentWithSep := if realParent.toList.getLast? = some '/' then realParent else realParent ++ "/"
  realParent = realChild || realParent = "/" || hasPrefix parentWithSep realChild

/-- Resolving a real path again changes nothing. -/
def Settled (fs : FileSystem) : Prop :=
  ∀ p, fs.resolveRealPath (fs.resolveRealPath p) = fs.resolveRealPath p

end FileSystem

/-! ## Containment -/

theorem renderPath_ne_empty (path : Path) : (renderPath path).toList ≠ [] := by
  unfold renderPath
  split
  · decide
  · rename_i hne
    cases path with
    | nil => exact absurd rfl hne
    | cons => simp

theorem hasPrefix_iff {pre s : String} : hasPrefix pre s = true ↔ pre.toList <+: s.toList :=
  List.isPrefixOf_iff_prefix

/-- What a parent's string is extended to before the comparison. -/
theorem prefix_withSep {real : String} :
    real.toList <+: (if real.toList.getLast? = some '/' then real else real ++ "/").toList := by
  split
  · exact List.prefix_refl _
  · rw [String.toList_append]
    exact List.prefix_append _ _

namespace FileSystem

variable (fs : FileSystem)

theorem isPathContained_refl (p : String) : fs.isPathContained p p = true := by
  unfold isPathContained
  simp

theorem isPathContained_trans {a b c : String} (hab : fs.isPathContained a b = true)
    (hbc : fs.isPathContained b c = true) : fs.isPathContained a c = true := by
  unfold isPathContained at hab hbc ⊢
  simp only [Bool.or_eq_true, decide_eq_true_eq] at hab hbc ⊢
  rcases hab with (hab | hroot) | hab
  · rw [hab]
    exact hbc
  · exact .inl (.inr hroot)
  rcases hbc with (hbc | hroot) | hbc
  · rw [← hbc]
    exact .inr hab
  · -- what is a proper prefix of the root is the root
    refine .inl (.inr ?_)
    rw [hroot, hasPrefix_iff] at hab
    have hshort : (fs.resolveRealPath a).toList <+: ['/'] := prefix_withSep.trans hab
    have hone : (fs.resolveRealPath a).toList = ['/'] := by
      refine hshort.eq_of_length_le ?_
      exact List.length_pos_iff.2 (renderPath_ne_empty _)
    exact String.toList_inj.1 hone
  · refine .inr (hasPrefix_iff.2 ?_)
    exact (hasPrefix_iff.1 hab).trans (prefix_withSep.trans (hasPrefix_iff.1 hbc))

end FileSystem

/-! ## Resolving a rendered path -/

/-- A name as directories hold it. -/
def ProperName (name : String) : Prop :=
  name.toList ≠ [] ∧ '/' ∉ name.toList ∧ name.toList ≠ ['.'] ∧ name.toList ≠ ['.', '.']

theorem resolveSegments_append (base : Path) (segs segs' : List (List Char)) :
    resolveSegments base (segs ++ segs') = resolveSegments (resolveSegments base segs) segs' := by
  induction segs generalizing base with
  | nil => rfl
  | cons seg segs ih =>
    rw [List.cons_append, resolveSegments, resolveSegments]
    split
    · exact ih base
    · split
      · exact ih _
      · exact ih _

variable {path : Path}

theorem resolveSegments_names (h : ∀ name ∈ path, ProperName name) (base : Path) :
    resolveSegments base (path.map String.toList) = base ++ path := by
  induction path generalizing base with
  | nil => exact (List.append_nil base).symm
  | cons name path ih =>
    obtain ⟨hne, -, hdot, hdots⟩ := h name List.mem_cons_self
    rw [List.map_cons, resolveSegments, if_neg (not_or.2 ⟨hne, hdot⟩), if_neg hdots,
      ih fun n hn => h n (List.mem_cons_of_mem _ hn), String.ofList_toList, List.append_assoc]
    rfl

theorem splitAtChar_flatMap (h : ∀ name ∈ path, ProperName name) :
    splitAtChar '/' (path.flatMap fun name => '/' :: name.toList) =
      [] :: path.map String.toList := by
  induction path with
  | nil => rfl
  | cons name path ih =>
    have hrest := ih fun n hn => h n (List.mem_cons_of_mem _ hn)
    rw [List.flatMap_cons, List.cons_append, splitAtChar, if_pos rfl,
      splitAtChar_append (h name List.mem_cons_self).2.1, hrest]
    simp

theorem FileSystem.resolve_renderPath (fs : FileSystem) (h : ∀ name ∈ path, ProperName name) :
    fs.resolve (renderPath path) = path := by
  unfold FileSystem.resolve renderPath
  by_cases hempty : path = []
  · subst hempty
    rfl
  · rw [if_neg hempty]
    have habs : hasPrefix "/"
        (String.ofList (path.flatMap fun name => '/' :: name.toList)) = true := by
      obtain ⟨name, rest, rfl⟩ := List.exists_cons_of_ne_nil hempty
      rw [hasPrefix_iff, List.flatMap_cons, List.cons_append, String.ofList_cons,
        String.toList_append]
      exact List.prefix_append _ _
    rw [if_pos habs, String.toList_ofList, splitAtChar_flatMap h, resolveSegments,
      if_pos (.inl rfl), resolveSegments_names h]
    rfl

theorem resolveSegments_proper {segs : List (List Char)} (hsegs : ∀ seg ∈ segs, '/' ∉ seg)
    {base : Path} (hbase : ∀ name ∈ base, ProperName name) :
    ∀ name ∈ resolveSegments base segs, ProperName name := by
  induction segs generalizing base with
  | nil => exact hbase
  | cons seg segs ih =>
    have hrest : ∀ s ∈ segs, '/' ∉ s := fun s hs => hsegs s (List.mem_cons_of_mem _ hs)
    rw [resolveSegments]
    split
    · exact ih hrest hbase
    · rename_i hskip
      rw [not_or] at hskip
      split
      · exact ih hrest fun name hname => hbase name (List.dropLast_subset _ hname)
      · rename_i hdots
        refine ih hrest fun name hname => ?_
        rcases List.mem_append.1 hname with hold | hnew
        · exact hbase name hold
        · rw [List.mem_singleton.1 hnew]
          unfold ProperName
          rw [String.toList_ofList]
          exact ⟨hskip.1, hsegs seg List.mem_cons_self, hskip.2, hdots⟩

theorem FileSystem.resolve_proper (fs : FileSystem) (hcwd : ∀ name ∈ fs.cwd, ProperName name)
    (p : String) : ∀ name ∈ fs.resolve p, ProperName name := by
  refine resolveSegments_proper (fun seg hseg => not_mem_of_splitAtChar hseg) ?_
  split
  · simp
  · exact hcwd

/-- Where the real paths of absolute paths are settled, so are those of strings. -/
theorem FileSystem.settled_of_realPath {fs : FileSystem} (hcwd : ∀ name ∈ fs.cwd, ProperName name)
    (hproper : ∀ path, (∀ name ∈ path, ProperName name) →
      ∀ name ∈ fs.realPath path, ProperName name)
    (hreal : ∀ path, (∀ name ∈ path, ProperName name) →
      fs.realPath (fs.realPath path) = fs.realPath path) : fs.Settled := by
  intro p
  have hresolved := fs.resolve_proper hcwd p
  unfold FileSystem.resolveRealPath
  rw [fs.resolve_renderPath (hproper _ hresolved), hreal _ hresolved]

end XioFlow
