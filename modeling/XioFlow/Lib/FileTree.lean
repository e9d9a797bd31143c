/-
  XioFlow.Lib.FileTree

  Trees of files by path, the names inside a directory, and the difference of
  two trees.  A directory is there when a file below it is.
-/

import XioFlow.Lib.Table

namespace XioFlow.Lib

/-- A path below a root: the names on the way, none for the root itself. -/
abbrev Path := List String

/-- The files of a tree and what they hold. -/
abbrev FileTree (β : Type) := Table (Path × β) Prod.fst

namespace FileTree

variable {β : Type}

/-- What a file holds. -/
def file? (t : FileTree β) (p : Path) : Option β := (t.get? p).map Prod.snd

def paths (t : FileTree β) : List Path := t.rows.map Prod.fst

/-- A name directly inside a directory: of a file there, or of a directory with files below. -/
def Holds (t : FileTree β) (dir : Path) (name : String) : Prop :=
  ∃ p ∈ t.paths, (dir ++ [name]) <+: p

instance (t : FileTree β) (dir : Path) (name : String) : Decidable (t.Holds dir name) :=
  inferInstanceAs (Decidable (∃ p ∈ t.paths, _))

variable {t : FileTree β} {p : Path}

theorem file?_eq_none_iff : t.file? p = none ↔ p ∉ t.paths := by
  unfold file? paths
  rw [Option.map_eq_none_iff, Table.get?_eq_none_iff, List.mem_map]
  constructor
  · rintro h ⟨e, he, heq⟩
    exact h e he heq
  · intro h e he heq
    exact h ⟨e, he, heq⟩

theorem mem_paths_iff : p ∈ t.paths ↔ ∃ b, t.file? p = some b := by
  rw [← Option.isSome_iff_exists, Option.isSome_iff_ne_none, ne_eq, file?_eq_none_iff, not_not]

/-- A file's own name is inside its directory. -/
theorem holds_of_file {dir : Path} {name : String} {b : β} (h : t.file? (dir ++ [name]) = some b) :
    t.Holds dir name :=
  ⟨_, mem_paths_iff.2 ⟨b, h⟩, List.prefix_refl _⟩

/-! ## Changing a tree -/

/-- The tree with one file written. -/
def put (t : FileTree β) (p : Path) (b : β) : FileTree β := Table.replace t (p, b)

/-- The tree with one file removed. -/
def remove (t : FileTree β) (p : Path) : FileTree β := Table.deleteWhere t fun e => e.1 = p

theorem file?_put (t : FileTree β) (p : Path) (b : β) (q : Path) :
    (t.put p b).file? q = if q = p then some b else t.file? q := by
  unfold file? put
  rw [Table.get?_replace]
  by_cases h : q = p
  · rw [if_pos h.symm, if_pos h]
    rfl
  · rw [if_neg fun heq => h heq.symm, if_neg h]

theorem file?_remove (t : FileTree β) (p : Path) (q : Path) :
    (t.remove p).file? q = if q = p then none else t.file? q := by
  unfold file? remove
  rw [Table.get?_deleteWhere]
  cases hrow : t.get? q with
  | none =>
    rw [Option.filter_none, Option.map_none, ite_self]
  | some e =>
    have hkey : e.1 = q := Table.key_of_get? hrow
    by_cases h : q = p
    · rw [if_pos h, Option.filter, hkey]
      simp [h]
    · rw [if_neg h, Option.filter, hkey]
      simp [h]

/-! ## The difference of two trees -/

/-- A path whose file differs, with what it held before and after. -/
structure Delta (β : Type) where
  path : Path
  before : Option β
  after : Option β

variable [DecidableEq β]

/-- The paths on which two trees differ. -/
def diff (t u : FileTree β) : List (Delta β) :=
  (t.paths ++ u.paths.filter fun p => !(t.paths.contains p)).filterMap fun p =>
    if t.file? p = u.file? p then none else some ⟨p, t.file? p, u.file? p⟩

theorem mem_diff_iff {u : FileTree β} {d : Delta β} :
    d ∈ diff t u ↔
      d.before = t.file? d.path ∧ d.after = u.file? d.path ∧ t.file? d.path ≠ u.file? d.path := by
  unfold diff
  rw [List.mem_filterMap]
  constructor
  · rintro ⟨p, -, hp⟩
    split at hp
    · cases hp
    · rename_i hne
      cases hp
      exact ⟨rfl, rfl, hne⟩
  · rintro ⟨hbefore, hafter, hne⟩
    refine ⟨d.path, ?_, ?_⟩
    · rw [List.mem_append, List.mem_filter]
      by_cases ht : d.path ∈ t.paths
      · exact Or.inl ht
      · refine Or.inr ⟨?_, by simpa using ht⟩
        rw [file?_eq_none_iff.2 ht] at hne
        obtain ⟨b, hb⟩ := Option.ne_none_iff_exists'.1 hne.symm
        exact mem_paths_iff.2 ⟨b, hb⟩
    · rw [if_neg hne, ← hbefore, ← hafter]

/-- Every path on which two trees differ is in their difference. -/
theorem mem_diff_of_ne {u : FileTree β} (h : t.file? p ≠ u.file? p) :
    ⟨p, t.file? p, u.file? p⟩ ∈ diff t u := mem_diff_iff.2 ⟨rfl, rfl, h⟩

end FileTree
end XioFlow.Lib
