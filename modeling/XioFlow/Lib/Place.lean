/-
  XioFlow.Lib.Place

  Where a path leads when `.` and `..` are followed as they are written.

  A relative path leads from a directory that is not known, so it may go up
  out of it; a path from the root stays at the root.
-/

import XioFlow.Lib.Text

namespace XioFlow.Lib

/-- `..` leaves the directory, from some names below it. -/
def climbs : Nat → List (List Char) → Bool
  | _, [] => false
  | depth, seg :: segs =>
    if seg = [] ∨ seg = ['.'] then climbs depth segs
    else if seg = ['.', '.'] then (if depth = 0 then true else climbs (depth - 1) segs)
    else climbs (depth + 1) segs

/-- From the root, or from `up` directories above the one that a relative path starts in, down
    through `names`. -/
structure Place where
  rooted : Bool
  up : Nat
  names : List (List Char)
  deriving DecidableEq

namespace Place

/-- One segment of a path. -/
def enter (place : Place) (seg : List Char) : Place :=
  if seg = [] ∨ seg = ['.'] then place
  else if seg = ['.', '.'] then
    if place.names ≠ [] then { place with names := place.names.dropLast }
    else if place.rooted then place
    else { place with up := place.up + 1 }
  else { place with names := place.names ++ [seg] }

/-- The place that a path leads to. -/
def of (path : List Char) : Place :=
  (splitAtChar '/' path).foldl enter ⟨path.head? == some '/', 0, []⟩

/-- The place is a directory that the other one lies in, or the same. -/
def Holds (place inner : Place) : Prop :=
  place.rooted = inner.rooted ∧ place.up = inner.up ∧ place.names <+: inner.names

instance (place inner : Place) : Decidable (place.Holds inner) :=
  inferInstanceAs (Decidable (_ ∧ _ ∧ _))

/-- A segment that is a name. -/
def IsName (seg : List Char) : Prop := seg ≠ [] ∧ seg ≠ ['.'] ∧ seg ≠ ['.', '.']

instance (seg : List Char) : Decidable (IsName seg) := inferInstanceAs (Decidable (_ ∧ _ ∧ _))

theorem Holds.refl (place : Place) : place.Holds place := ⟨rfl, rfl, List.prefix_refl _⟩

/-- Names are entered one after the other. -/
theorem foldl_enter_names {segs : List (List Char)} (h : ∀ seg ∈ segs, IsName seg) (place : Place) :
    segs.foldl enter place = { place with names := place.names ++ segs } := by
  induction segs generalizing place with
  | nil =>
    rw [List.append_nil]
    rfl
  | cons seg segs ih =>
    obtain ⟨⟨hempty, hdot, hup⟩, hsegs⟩ := List.forall_mem_cons.1 h
    have henter : place.enter seg = { place with names := place.names ++ [seg] } := by
      rw [enter, if_neg (not_or.2 ⟨hempty, hdot⟩), if_neg hup]
    rw [List.foldl_cons, ih hsegs, henter, List.append_assoc, List.singleton_append]

/-- What does not climb above a directory stays inside it. -/
theorem holds_foldl_enter {segs inner : List (List Char)} (h : climbs inner.length segs = false)
    (place : Place) :
    place.Holds (segs.foldl enter { place with names := place.names ++ inner }) := by
  induction segs generalizing inner with
  | nil => exact ⟨rfl, rfl, List.prefix_append _ _⟩
  | cons seg segs ih =>
    rw [List.foldl_cons, enter]
    rw [climbs] at h
    by_cases hstill : seg = [] ∨ seg = ['.']
    · rw [if_pos hstill] at h ⊢
      exact ih h
    · rw [if_neg hstill] at h ⊢
      by_cases hup : seg = ['.', '.']
      · rw [if_pos hup] at h ⊢
        rcases List.eq_nil_or_concat inner with rfl | ⟨init, last, rfl⟩
        · cases h
        · rw [List.concat_eq_append] at h ⊢
          have hnames : place.names ++ (init ++ [last]) ≠ [] := by simp
          rw [if_pos hnames, ← List.append_assoc, List.dropLast_concat]
          rw [List.length_append, List.length_singleton, if_neg (Nat.succ_ne_zero _),
            Nat.add_sub_cancel] at h
          exact ih h
      · rw [if_neg hup] at h ⊢
        rw [List.append_assoc]
        refine ih ?_
        rw [List.length_append, List.length_singleton]
        exact h

/-- From the directory itself. -/
theorem holds_foldl_enter_self {segs : List (List Char)} (h : climbs 0 segs = false) (place : Place) :
    place.Holds (segs.foldl enter place) := by
  have hinner := @holds_foldl_enter segs [] h place
  rwa [List.append_nil] at hinner

end Place

theorem splitAtChar_sep (sep : Char) (xs ys : List Char) :
    splitAtChar sep (xs ++ sep :: ys) = splitAtChar sep xs ++ splitAtChar sep ys := by
  have hlast : splitAtChar sep (sep :: ys) = [] :: splitAtChar sep ys := by
    rw [splitAtChar, if_pos rfl]
  obtain ⟨init, last, hinit⟩ : ∃ init last, splitAtChar sep xs = init ++ [last] := by
    have hsplit := List.dropLast_concat_getLast (splitAtChar_ne_nil sep xs)
    exact ⟨_, _, hsplit.symm⟩
  rw [splitAtChar_join hinit hlast, hinit, List.append_nil, List.append_assoc,
    List.singleton_append]

namespace Place

variable {path rest : List Char}

/-- Behind a separator a path leads on from the place before it. -/
theorem of_append (hpath : path ≠ []) (rest : List Char) :
    of (path ++ '/' :: rest) = (splitAtChar '/' rest).foldl enter (of path) := by
  have hhead : (path ++ '/' :: rest).head? = path.head? := by
    obtain ⟨c, path, rfl⟩ := List.exists_cons_of_ne_nil hpath
    rfl
  unfold of
  rw [splitAtChar_sep, List.foldl_append, hhead]

/-- What goes on behind a separator and does not climb lies in the directory. -/
theorem holds_append (h : climbs 0 (splitAtChar '/' rest) = false) (hpath : path ≠ []) :
    (of path).Holds (of (path ++ '/' :: rest)) := by
  rw [of_append hpath]
  exact holds_foldl_enter_self h _

theorem splitAtChar_closed (rest : List Char) :
    splitAtChar '/' ('/' :: rest) = [] :: splitAtChar '/' rest := by
  rw [splitAtChar, if_pos rfl]

/-- A path from the root lies in the root. -/
theorem holds_root (h : climbs 0 (splitAtChar '/' rest) = false) :
    (of ['/']).Holds (of ('/' :: rest)) := by
  have hroot : of ['/'] = ⟨true, 0, []⟩ := by decide
  have hpath : of ('/' :: rest) = (splitAtChar '/' rest).foldl enter ⟨true, 0, []⟩ := by
    unfold of
    rw [splitAtChar_closed]
    rfl
  rw [hroot, hpath]
  exact holds_foldl_enter_self h _

/-- A relative path that does not climb stays where it starts. -/
theorem holds_start (h : climbs 0 (splitAtChar '/' path) = false) (hrelative : path.head? ≠ some '/') :
    (of []).Holds (of path) := by
  have hstart : of [] = ⟨false, 0, []⟩ := by decide
  have hpath : of path = (splitAtChar '/' path).foldl enter ⟨false, 0, []⟩ := by
    unfold of
    rw [beq_eq_false_iff_ne.2 hrelative]
  rw [hstart, hpath]
  exact holds_foldl_enter_self h _

/-- A separator at the end leads nowhere else. -/
theorem of_closed (hpath : path ≠ []) : of (path ++ ['/']) = of path := by
  have hempty : splitAtChar '/' [] = [[]] := rfl
  rw [of_append hpath, hempty, List.foldl_cons, List.foldl_nil, enter, if_pos (Or.inl rfl)]

end Place
end XioFlow.Lib
