/-
  XioFlow.Lib.Cut

  Cutting a text out of another one and filling the gaps.

  A cut text is a list of characters and gaps.  Filling the gaps with what was
  cut out gives the text back.  Filling them with a marker can be undone where
  the marker does not overlap itself and the characters do not spell it.
-/

import XioFlow.Lib.Replacement

namespace XioFlow.Lib
namespace Cut

universe u

variable {α : Type u} [DecidableEq α]

/-! ## Cutting and filling -/

/-- The text with gaps where the pattern stood and `ok` holds of what follows, from the left; the
    first characters are skipped. -/
def cutFrom (p : List α) (ok : List α → Bool) : Nat → List α → List (Option α)
  | _, [] => []
  | skip + 1, _ :: s => cutFrom p ok skip s
  | 0, c :: s =>
    if p.isPrefixOf (c :: s) && ok ((c :: s).drop p.length) then
      none :: cutFrom p ok (p.length - 1) s
    else some c :: cutFrom p ok 0 s

def cutWhere (p : List α) (ok : List α → Bool) (s : List α) : List (Option α) := cutFrom p ok 0 s

/-- Every occurrence is cut out. -/
def cut (p s : List α) : List (Option α) := cutWhere p (fun _ => true) s

/-- The text with its gaps filled. -/
def fill (r : List α) (t : List (Option α)) : List α :=
  t.flatMap fun x => match x with
    | none => r
    | some c => [c]

omit [DecidableEq α] in
@[simp] theorem fill_none (r : List α) (t : List (Option α)) : fill r (none :: t) = r ++ fill r t :=
  rfl

omit [DecidableEq α] in
@[simp] theorem fill_some (r : List α) (c : α) (t : List (Option α)) :
    fill r (some c :: t) = c :: fill r t := rfl

/-! ## Filling with what was cut out -/

variable {p : List α}

theorem fill_cutFrom (hp : p ≠ []) (ok : List α → Bool) (skip : Nat) (s : List α) :
    fill p (cutFrom p ok skip s) = s.drop skip := by
  induction s generalizing skip with
  | nil =>
    rw [List.drop_nil]
    cases skip <;> rfl
  | cons c s ih =>
    cases skip with
    | succ skip => exact ih skip
    | zero =>
      rw [cutFrom]
      split
      · rename_i hcut
        have hprefix : p <+: c :: s :=
          List.isPrefixOf_iff_prefix.1 (Bool.and_eq_true _ _ |>.mp hcut).1
        obtain ⟨rest, hrest⟩ := hprefix
        have hpos : 0 < p.length := List.length_pos_iff.2 hp
        have hdrop : s.drop (p.length - 1) = rest := by
          have hwhole : (c :: s).drop p.length = rest := by rw [← hrest, List.drop_left]
          rw [← hwhole, show p.length = p.length - 1 + 1 by omega]
          rfl
        rw [fill_none, ih, hdrop, hrest, List.drop_zero]
      · rw [fill_some, ih, List.drop_zero, List.drop_zero]

theorem fill_cutWhere (hp : p ≠ []) (ok : List α → Bool) (s : List α) :
    fill p (cutWhere p ok s) = s := fill_cutFrom hp ok 0 s

theorem fill_cut (hp : p ≠ []) (s : List α) : fill p (cut p s) = s :=
  fill_cutWhere hp _ s

/-- A text without the pattern has no gaps. -/
theorem cut_eq_map {s : List α} (h : ¬ p <:+: s) : cut p s = s.map some := by
  unfold cut cutWhere
  induction s with
  | nil => rfl
  | cons c s ih =>
    have hprefix : p.isPrefixOf (c :: s) = false := by
      rw [Bool.eq_false_iff, ne_eq, List.isPrefixOf_iff_prefix]
      exact fun hp => h hp.isInfix
    rw [cutFrom, hprefix, Bool.false_and, if_neg Bool.false_ne_true, List.map_cons,
      ih fun hs => h (hs.trans (List.suffix_cons c s).isInfix)]

omit [DecidableEq α] in
theorem fill_map_some (r s : List α) : fill r (s.map some) = s := by
  induction s with
  | nil => rfl
  | cons c s ih => rw [List.map_cons, fill_some, ih]

/-- Replacing is cutting out and filling in. -/
theorem replaceAll_eq_fill (p r s : List α) : replaceAll p r s = fill r (cut p s) := by
  have hskip : ∀ skip, r.intercalate (split p skip s) = fill r (cutFrom p (fun _ => true) skip s) := by
    induction s with
    | nil =>
      intro skip
      cases skip <;> rfl
    | cons c s ih =>
      intro skip
      cases skip with
      | succ skip => exact ih skip
      | zero =>
        rw [split, cutFrom, Bool.and_true]
        split
        · rw [List.intercalate_cons_of_ne_nil (split_ne_nil _ s), ih, fill_none]
          rfl
        · rw [intercalate_modifyHead (split_ne_nil 0 s), ih, fill_some]
  exact hskip 0

theorem replaceAll_of_not_infix {s : List α} (h : ¬ p <:+: s) (r : List α) :
    replaceAll p r s = s := by
  rw [replaceAll_eq_fill, cut_eq_map h, fill_map_some]

/-! ## Filling with a marker -/

/-- The characters of a cut text do not spell the marker. -/
def Unmarked (m : List α) (t : List (Option α)) : Prop := ¬ m.map some <:+: t

theorem cutFrom_append (p : List α) (ok : List α → Bool) (pre s : List α) :
    cutFrom p ok pre.length (pre ++ s) = cutFrom p ok 0 s := by
  induction pre with
  | nil => rfl
  | cons c pre ih => exact ih

section Marker

variable {first : α} {more : List α}

omit [DecidableEq α] in
/-- What starts a filled text and has no first character of the marker is not from a gap. -/
theorem prefix_of_prefix_fill {w : List α} (hw : first ∉ w) {t : List (Option α)}
    (h : w <+: fill (first :: more) t) : w.map some <+: t := by
  induction w generalizing t with
  | nil => exact List.nil_prefix
  | cons c w ih =>
    rw [List.mem_cons, not_or] at hw
    cases t with
    | nil =>
      obtain ⟨rest, hrest⟩ := h
      cases hrest
    | cons x t =>
      cases x with
      | none =>
        rw [fill_none, List.cons_append, List.cons_prefix_cons] at h
        exact absurd h.1.symm hw.1
      | some d =>
        rw [fill_some, List.cons_prefix_cons] at h
        rw [List.map_cons, List.cons_prefix_cons, h.1]
        exact ⟨rfl, ih hw.2 h.2⟩

/-- The marker, whose first character is only its first, can be cut out again. -/
theorem cut_fill (hmore : first ∉ more) {t : List (Option α)}
    (ht : Unmarked (first :: more) t) : cut (first :: more) (fill (first :: more) t) = t := by
  unfold cut cutWhere
  induction t with
  | nil => rfl
  | cons x t ih =>
    have hrest : Unmarked (first :: more) t := fun hin =>
      ht (hin.trans (List.suffix_cons x t).isInfix)
    cases x with
    | none =>
      have hprefix : (first :: more).isPrefixOf (first :: (more ++ fill (first :: more) t)) =
          true := List.isPrefixOf_iff_prefix.2 ⟨fill (first :: more) t, rfl⟩
      rw [fill_none, List.cons_append, cutFrom, hprefix, Bool.true_and, if_pos rfl,
        List.length_cons, Nat.add_sub_cancel, cutFrom_append, ih hrest]
    | some c =>
      have hprefix : (first :: more).isPrefixOf (c :: fill (first :: more) t) = false := by
        rw [Bool.eq_false_iff, ne_eq, List.isPrefixOf_iff_prefix, List.cons_prefix_cons]
        rintro ⟨rfl, hmarked⟩
        refine ht (List.IsPrefix.isInfix ?_)
        rw [List.map_cons, List.cons_prefix_cons]
        exact ⟨rfl, prefix_of_prefix_fill hmore hmarked⟩
      rw [fill_some, cutFrom, hprefix, Bool.false_and, if_neg Bool.false_ne_true, ih hrest]

/-- Two texts that are the same once their patterns are replaced by the marker differ in the
    patterns only. -/
theorem eq_fill_of_replaceAll_eq (hmore : first ∉ more) {p p' s s' : List α} (hp' : p' ≠ [])
    (hs : Unmarked (first :: more) (cut p s)) (hs' : Unmarked (first :: more) (cut p' s'))
    (heq : replaceAll p (first :: more) s = replaceAll p' (first :: more) s') :
    s' = fill p' (cut p s) := by
  have hcut : cut p s = cut p' s' := by
    rw [replaceAll_eq_fill, replaceAll_eq_fill] at heq
    rw [← cut_fill hmore hs, ← cut_fill hmore hs', heq]
  rw [hcut, fill_cut hp']

end Marker

end Cut
end XioFlow.Lib
