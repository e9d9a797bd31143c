/-
  XioFlow.Lib.Distinct

  First occurrences of a list: `List.eraseDups` keeps them in order, which is
  what spreading a set built from the list gives back.
-/

import Mathlib.Data.List.Nodup

namespace XioFlow.Lib

variable {α : Type} [BEq α] [LawfulBEq α]

omit [LawfulBEq α] in
/-- The recursion of `eraseDups`: the rest of a list is looked at without its first element. -/
theorem eraseDups_induct {motive : List α → Prop} (nil : motive [])
    (cons : ∀ a as, motive (as.filter fun b => !b == a) → motive (a :: as)) (l : List α) :
    motive l := by
  induction hn : l.length using Nat.strongRecOn generalizing l with
  | ind n ih =>
    subst hn
    cases l with
    | nil => exact nil
    | cons a as =>
      have hfilter := List.length_filter_le (fun b => !b == a) as
      have hlt : (as.filter fun b => !b == a).length < (a :: as).length := by
        rw [List.length_cons]
        omega
      exact cons a as (ih _ hlt _ rfl)

theorem nodup_eraseDups (l : List α) : l.eraseDups.Nodup := by
  induction l using eraseDups_induct with
  | nil => simp
  | cons a as ih =>
    rw [List.eraseDups_cons, List.nodup_cons]
    refine ⟨fun hmem => ?_, ih⟩
    rw [List.mem_eraseDups, List.mem_filter] at hmem
    simp at hmem

/-! ## First matches -/

/-- Behind an element that does not match, its repetitions do not either. -/
theorem find?_filter_ne {p : α → Bool} {a : α} (ha : p a = false) (as : List α) :
    (as.filter fun b => !b == a).find? p = as.find? p := by
  rw [List.find?_filter]
  congr 1
  funext b
  by_cases hb : b = a
  · rw [hb, ha]
    simp
  · simp [hb]

theorem find?_eraseDups (p : α → Bool) (l : List α) : l.eraseDups.find? p = l.find? p := by
  induction l using eraseDups_induct with
  | nil => rfl
  | cons a as ih =>
    rw [List.eraseDups_cons, List.find?_cons, List.find?_cons]
    cases ha : p a with
    | true => rfl
    | false => rw [ih, find?_filter_ne ha]

/-- First occurrences are what first matches are told from. -/
theorem eraseDups_eq_iff_find? {xs ys : List α} :
    xs.eraseDups = ys.eraseDups ↔ ∀ p : α → Bool, xs.find? p = ys.find? p := by
  constructor
  · intro heq p
    rw [← find?_eraseDups p xs, heq, find?_eraseDups p ys]
  · intro hfind
    induction xs using eraseDups_induct generalizing ys with
    | nil =>
      have hhead := hfind fun _ => true
      cases ys with
      | nil => rfl
      | cons => simp at hhead
    | cons x xs ih =>
      have hhead := hfind fun _ => true
      cases ys with
      | nil => simp at hhead
      | cons y =>
        have hxy : x = y := by simpa using hhead
        subst hxy
        rw [List.eraseDups_cons, List.eraseDups_cons]
        congr 1
        apply ih
        intro p
        -- The first element is kept out of the match.
        have hrest := hfind fun b => !b == x && p b
        rw [List.find?_cons, List.find?_cons] at hrest
        simpa [List.find?_filter] using hrest

/-! ## Lists without repetitions -/

/-- Nothing is erased exactly when there is nothing to erase. -/
theorem eraseDups_eq_self_iff (l : List α) : l.eraseDups = l ↔ l.Nodup := by
  refine ⟨fun h => h ▸ nodup_eraseDups l, fun hnodup => ?_⟩
  induction l with
  | nil => rfl
  | cons a as ih =>
    obtain ⟨ha, hrest⟩ := List.nodup_cons.1 hnodup
    have hfilter : (as.filter fun b => !b == a) = as := by
      rw [List.filter_eq_self]
      intro b hb
      simp only [Bool.not_eq_true', beq_eq_false_iff_ne]
      rintro rfl
      exact ha hb
    rw [List.eraseDups_cons, hfilter, ih hrest]

end XioFlow.Lib
