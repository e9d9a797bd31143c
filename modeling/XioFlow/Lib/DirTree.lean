/-
  XioFlow.Lib.DirTree

  Directory trees with what a process learns of their entries: files, links
  whose targets are not part of the tree, and directories with the names in
  them.  An entry is found by the names on the way to it, through directories
  only; the text of a path splits into those names again.
-/

import XioFlow.Lib.Place
import Mathlib.Data.List.Basic

namespace XioFlow.Lib

/-! ## Joining with a separator -/

/-- `parts.join(sep)` for a separator of one character. -/
def joinAtChar (sep : Char) : List (List Char) → List Char
  | [] => []
  | [part] => part
  | part :: parts => part ++ sep :: joinAtChar sep parts

variable {sep : Char} {parts : List (List Char)}

theorem joinAtChar_cons (part : List Char) (h : parts ≠ []) :
    joinAtChar sep (part :: parts) = part ++ sep :: joinAtChar sep parts := by
  cases parts with
  | nil => exact absurd rfl h
  | cons => rfl

theorem splitAtChar_self {cs : List Char} (h : sep ∉ cs) : splitAtChar sep cs = [cs] := by
  have hsplit := splitAtChar_append h []
  rw [List.append_nil] at hsplit
  rw [hsplit]
  show [cs ++ []] = [cs]
  rw [List.append_nil]

/-- What was joined comes apart again, unless a part holds the separator. -/
theorem splitAtChar_joinAtChar (hne : parts ≠ []) (h : ∀ part ∈ parts, sep ∉ part) :
    splitAtChar sep (joinAtChar sep parts) = parts := by
  induction parts with
  | nil => exact absurd rfl hne
  | cons part parts ih =>
    obtain ⟨hpart, hparts⟩ := List.forall_mem_cons.1 h
    by_cases hlast : parts = []
    · subst hlast
      exact splitAtChar_self hpart
    · rw [joinAtChar_cons part hlast, splitAtChar_sep, splitAtChar_self hpart, ih hlast hparts,
        List.singleton_append]

theorem joinAtChar_eq_nil (h : ∀ part ∈ parts, part ≠ []) :
    joinAtChar sep parts = [] ↔ parts = [] := by
  constructor
  · intro heq
    cases parts with
    | nil => rfl
    | cons part parts =>
      have hpart : part ≠ [] := h part List.mem_cons_self
      exfalso
      by_cases hlast : parts = []
      · subst hlast
        exact hpart heq
      · rw [joinAtChar_cons part hlast] at heq
        exact hpart (List.append_eq_nil_iff.1 heq).1
  · rintro rfl
    rfl

/-- Joining tells lists of parts apart when no part is empty or holds the separator. -/
theorem joinAtChar_injective {xs ys : List (List Char)}
    (hxs : ∀ part ∈ xs, part ≠ [] ∧ sep ∉ part) (hys : ∀ part ∈ ys, part ≠ [] ∧ sep ∉ part)
    (h : joinAtChar sep xs = joinAtChar sep ys) : xs = ys := by
  by_cases hempty : xs = []
  · subst hempty
    exact ((joinAtChar_eq_nil fun part hpart => (hys part hpart).1).1 h.symm).symm
  · have hother : ys ≠ [] := by
      rintro rfl
      exact hempty ((joinAtChar_eq_nil fun part hpart => (hxs part hpart).1).1 h)
    rw [← splitAtChar_joinAtChar hempty fun part hpart => (hxs part hpart).2, h,
      splitAtChar_joinAtChar hother fun part hpart => (hys part hpart).2]

/-! ## Trees -/

/-- A text that can name an entry. -/
def IsEntryName (name : String) : Prop := Place.IsName name.toList ∧ '/' ∉ name.toList

instance (name : String) : Decidable (IsEntryName name) := inferInstanceAs (Decidable (_ ∧ _))

/-- The names in a directory, as it lists them: none of them twice. -/
structure Names where
  list : List String
  nodup : list.Nodup
  proper : ∀ name ∈ list, IsEntryName name

/-- What is found at a place; `child` is only asked for the names of the directory. -/
inductive DirTree (φ δ : Type) where
  | file (info : φ)
  | link (target : String)
  | dir (info : δ) (names : Names) (child : String → DirTree φ δ)

namespace DirTree

variable {φ δ : Type}

def isLink : DirTree φ δ → Bool
  | link _ => true
  | _ => false

def isDir : DirTree φ δ → Bool
  | dir _ _ _ => true
  | _ => false

/-- What is found by going down through directories. -/
def node? : DirTree φ δ → List String → Option (DirTree φ δ)
  | t, [] => some t
  | dir _ names child, name :: path => if name ∈ names.list then (child name).node? path else none
  | _, _ :: _ => none

@[simp] theorem node?_nil (t : DirTree φ δ) : t.node? [] = some t := by
  cases t <;> rfl

variable {path : List String} {t n : DirTree φ δ}

theorem node?_cons {name : String} :
    t.node? (name :: path) = some n ↔
      ∃ info names child, t = dir info names child ∧ name ∈ names.list ∧
        (child name).node? path = some n := by
  constructor
  · intro h
    cases t with
    | file => cases h
    | link => cases h
    | dir info names child =>
      rw [node?] at h
      split at h
      · rename_i hname
        exact ⟨info, names, child, rfl, hname, h⟩
      · cases h
  · rintro ⟨info, names, child, rfl, hname, h⟩
    rw [node?, if_pos hname, h]

/-- Nothing is below a file or a link. -/
theorem node?_leaf (ht : t.isDir = false) :
    t.node? path = some n ↔ path = [] ∧ t = n := by
  cases path with
  | nil =>
    rw [node?_nil, Option.some.injEq]
    exact ⟨fun h => ⟨rfl, h⟩, fun h => h.2⟩
  | cons name path =>
    constructor
    · intro h
      obtain ⟨info, names, child, rfl, -, -⟩ := node?_cons.1 h
      cases ht
    · rintro ⟨h, -⟩
      cases h

theorem node?_append {rest : List String} :
    t.node? (path ++ rest) = some n ↔ ∃ m, t.node? path = some m ∧ m.node? rest = some n := by
  induction path generalizing t with
  | nil =>
    rw [List.nil_append]
    constructor
    · intro h
      exact ⟨t, node?_nil t, h⟩
    · rintro ⟨m, hm, h⟩
      rw [node?_nil] at hm
      cases hm
      exact h
  | cons name path ih =>
    rw [List.cons_append, node?_cons]
    constructor
    · rintro ⟨info, names, child, rfl, hname, h⟩
      obtain ⟨m, hm, hrest⟩ := ih.1 h
      exact ⟨m, node?_cons.2 ⟨info, names, child, rfl, hname, hm⟩, hrest⟩
    · rintro ⟨m, hm, hrest⟩
      obtain ⟨info, names, child, rfl, hname, hm⟩ := node?_cons.1 hm
      exact ⟨info, names, child, rfl, hname, ih.2 ⟨m, hm, hrest⟩⟩

/-- The names on the way to an entry are names. -/
theorem proper_of_node? (h : t.node? path = some n) :
    ∀ name ∈ path, IsEntryName name := by
  induction path generalizing t with
  | nil =>
    intro name hname
    cases hname
  | cons first path ih =>
    obtain ⟨info, names, child, rfl, hfirst, hrest⟩ := node?_cons.1 h
    exact List.forall_mem_cons.2 ⟨names.proper first hfirst, ih hrest⟩

/-- Whatever is above an entry is a directory. -/
theorem isDir_above {m : DirTree φ δ} {rest : List String} (hrest : rest ≠ [])
    (h : t.node? (path ++ rest) = some n) (hm : t.node? path = some m) : m.isDir = true := by
  obtain ⟨m', hm', hn⟩ := node?_append.1 h
  have hsame : m = m' := Option.some.inj (hm.symm.trans hm')
  subst hsame
  obtain ⟨name, rest, rfl⟩ := List.exists_cons_of_ne_nil hrest
  obtain ⟨info, names, child, rfl, -, -⟩ := node?_cons.1 hn
  rfl

end DirTree

/-! ## Paths as texts -/

/-- The text of an entry below the one with the text `rel`, which is empty for the root. -/
def childRel (rel name : String) : String := if rel = "" then name else rel ++ "/" ++ name

/-- The text of a path that goes on from `rel`. -/
def relFrom (rel : String) (path : List String) : String := path.foldl childRel rel

/-- The names in the text of a path: what is between its slashes. -/
def pathNames (text : String) : List String :=
  ((splitAtChar '/' text.toList).filter fun part => !part.isEmpty).map String.ofList

theorem pathNames_empty : pathNames "" = [] := rfl

theorem pathNames_name {name : String} (h : IsEntryName name) : pathNames name = [name] := by
  have hne : name.toList ≠ [] := h.1.1
  unfold pathNames
  rw [splitAtChar_self h.2, List.filter_cons_of_pos (by simpa using hne), List.filter_nil,
    List.map_singleton, String.ofList_toList]

theorem pathNames_slash (rel name : String) :
    pathNames (rel ++ "/" ++ name) = pathNames rel ++ pathNames name := by
  have hsep : ("/" : String).toList = ['/'] := rfl
  unfold pathNames
  rw [String.toList_append, String.toList_append, hsep, List.append_assoc, List.singleton_append,
    splitAtChar_sep, List.filter_append, List.map_append]

theorem pathNames_childRel {name : String} (rel : String) (h : IsEntryName name) :
    pathNames (childRel rel name) = pathNames rel ++ [name] := by
  unfold childRel
  split
  · rename_i hroot
    rw [hroot, pathNames_empty, List.nil_append, pathNames_name h]
  · rw [pathNames_slash, pathNames_name h]

theorem pathNames_relFrom {path : List String} (h : ∀ name ∈ path, IsEntryName name) (rel : String) :
    pathNames (relFrom rel path) = pathNames rel ++ path := by
  induction path generalizing rel with
  | nil => exact (List.append_nil _).symm
  | cons name path ih =>
    obtain ⟨hname, hpath⟩ := List.forall_mem_cons.1 h
    show pathNames (relFrom (childRel rel name) path) = pathNames rel ++ name :: path
    rw [ih hpath, pathNames_childRel rel hname, List.append_assoc, List.singleton_append]

end XioFlow.Lib
