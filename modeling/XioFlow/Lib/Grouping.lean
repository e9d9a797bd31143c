/-
  XioFlow.Lib.Grouping

  Maps from keys to lists, built by appending one element after the other.

  The groups stand in the order in which their keys first came up, and each
  holds exactly the elements of its key, in their order.
-/

import Mathlib.Data.List.Nodup

namespace XioFlow.Lib

variable {κ α : Type} [DecidableEq κ]

/-- Append to the list under a key; a new key comes last. -/
def push (map : List (κ × List α)) (k : κ) (a : α) : List (κ × List α) :=
  match map with
  | [] => [(k, [a])]
  | (k', as) :: rest => if k' = k then (k', as ++ [a]) :: rest else (k', as) :: push rest k a

/-- The groups of a list; elements without a key are left out. -/
def groupBy (key : α → Option κ) (xs : List α) : List (κ × List α) :=
  xs.foldl (fun map a => match key a with
    | some k => push map k a
    | none => map) []

/-- The elements of a key, in their order. -/
def groupOf (key : α → Option κ) (xs : List α) (k : κ) : List α :=
  xs.filter fun a => decide (key a = some k)

/-- `map` holds the groups of `xs`, each under its key and none twice. -/
structure IsGrouping (key : α → Option κ) (xs : List α) (map : List (κ × List α)) : Prop where
  nodup : (map.map Prod.fst).Nodup
  group : ∀ k as, (k, as) ∈ map → as = groupOf key xs k
  present : ∀ k, k ∈ map.map Prod.fst ↔ ∃ a ∈ xs, key a = some k

variable {map : List (κ × List α)}

omit [DecidableEq κ] in
theorem key_mem_of_mem {k : κ} {as : List α} (h : (k, as) ∈ map) :
    k ∈ map.map Prod.fst := List.mem_map.2 ⟨_, h, rfl⟩

theorem keys_push (map : List (κ × List α)) (k : κ) (a : α) :
    (push map k a).map Prod.fst =
      if k ∈ map.map Prod.fst then map.map Prod.fst else map.map Prod.fst ++ [k] := by
  induction map with
  | nil => rfl
  | cons entry rest ih =>
    obtain ⟨k', as⟩ := entry
    by_cases hk : k' = k
    · subst hk
      simp [push]
    · have hne : k ≠ k' := fun h => hk h.symm
      by_cases hrest : k ∈ rest.map Prod.fst
      · rw [if_pos hrest] at ih
        simp [push, hk, hne, ih, List.mem_map.1 hrest]
      · rw [if_neg hrest] at ih
        have hnone : ¬ ∃ x, (k, x) ∈ rest := fun ⟨x, hx⟩ => hrest (key_mem_of_mem hx)
        simp [push, hk, hne, ih, hnone]

/-- What a push leaves: the other groups as they were, and its own one longer. -/
theorem mem_push (hnodup : (map.map Prod.fst).Nodup) {k k' : κ} {a : α}
    {as' : List α} :
    (k', as') ∈ push map k a ↔
      (k' ≠ k ∧ (k', as') ∈ map) ∨
      (k' = k ∧ ((∃ as, (k, as) ∈ map ∧ as' = as ++ [a]) ∨
        (k ∉ map.map Prod.fst ∧ as' = [a]))) := by
  induction map with
  | nil =>
    rw [push, List.mem_singleton, Prod.mk.injEq]
    simp
  | cons entry rest ih =>
    obtain ⟨k₁, as₁⟩ := entry
    rw [List.map_cons, List.nodup_cons] at hnodup
    obtain ⟨hfresh, hrest⟩ := hnodup
    by_cases hk : k₁ = k
    · subst hk
      have hother : ∀ as, (k₁, as) ∉ rest := fun as h => hfresh (key_mem_of_mem h)
      rw [push, if_pos rfl, List.mem_cons, List.mem_cons, Prod.mk.injEq, Prod.mk.injEq]
      by_cases hk' : k' = k₁
      · subst hk'
        simp [hother]
      · simp [hk']
    · have hne : k ≠ k₁ := fun h => hk h.symm
      rw [push, if_neg hk, List.mem_cons, ih hrest, List.mem_cons, Prod.mk.injEq]
      by_cases hk' : k' = k
      · subst hk'
        simp [hne]
      · simp [hk']

theorem isGrouping_nil (key : α → Option κ) : IsGrouping key [] ([] : List (κ × List α)) :=
  ⟨List.nodup_nil, by simp, by simp⟩

theorem groupOf_append (key : α → Option κ) (xs ys : List α) (k : κ) :
    groupOf key (xs ++ ys) k = groupOf key xs k ++ groupOf key ys k := List.filter_append ..

variable {key : α → Option κ} {xs : List α}

theorem mem_groupOf {k : κ} {a : α} :
    a ∈ groupOf key xs k ↔ a ∈ xs ∧ key a = some k := by
  rw [groupOf, List.mem_filter, decide_eq_true_iff]

/-- One more element is pushed under its key. -/
theorem IsGrouping.push
    (h : IsGrouping key xs map) {a : α} {k : κ} (hk : key a = some k) :
    IsGrouping key (xs ++ [a]) (Lib.push map k a) := by
  have hown : groupOf key [a] k = [a] := by simp [groupOf, hk]
  have hempty : k ∉ map.map Prod.fst → groupOf key xs k = [] := by
    intro hnot
    rw [List.eq_nil_iff_forall_not_mem]
    intro b hb
    obtain ⟨hb, hkb⟩ := mem_groupOf.1 hb
    exact hnot ((h.present k).2 ⟨b, hb, hkb⟩)
  constructor
  · rw [keys_push]
    split
    · exact h.nodup
    · rename_i hnot
      rw [List.nodup_append]
      refine ⟨h.nodup, by simp, fun x hx y hy hxy => ?_⟩
      rw [List.mem_singleton] at hy
      exact hnot (hy ▸ hxy ▸ hx)
  · intro k' as' hmem
    rw [groupOf_append]
    rcases (mem_push h.nodup).1 hmem with ⟨hne, hold⟩ | ⟨rfl, ⟨as, has, rfl⟩ | ⟨hnot, rfl⟩⟩
    · have hnone : groupOf key [a] k' = [] := by
        simp [groupOf, hk, Ne.symm hne]
      rw [hnone, List.append_nil]
      exact h.group k' as' hold
    · rw [hown, h.group _ as has]
    · rw [hown, hempty hnot, List.nil_append]
  · intro k'
    have hkeys : k' ∈ (Lib.push map k a).map Prod.fst ↔ k' ∈ map.map Prod.fst ∨ k' = k := by
      rw [keys_push]
      split
      · rename_i hmem
        exact ⟨Or.inl, fun hor => hor.elim id fun heq => heq ▸ hmem⟩
      · rw [List.mem_append, List.mem_singleton]
    rw [hkeys, h.present k']
    constructor
    · rintro (⟨b, hb, hkb⟩ | rfl)
      · exact ⟨b, List.mem_append_left _ hb, hkb⟩
      · exact ⟨a, by simp, hk⟩
    · rintro ⟨b, hb, hkb⟩
      rcases List.mem_append.1 hb with hb | hb
      · exact Or.inl ⟨b, hb, hkb⟩
      · rw [List.mem_singleton.1 hb, hk] at hkb
        exact Or.inr (Option.some.inj hkb).symm

/-- An element without a key changes no group. -/
theorem IsGrouping.skip
    (h : IsGrouping key xs map) {a : α} (hk : key a = none) : IsGrouping key (xs ++ [a]) map := by
  have hnone : ∀ k, groupOf key [a] k = [] := by
    intro k
    simp [groupOf, hk]
  refine ⟨h.nodup, fun k as hmem => ?_, fun k => ?_⟩
  · rw [groupOf_append, hnone, List.append_nil]
    exact h.group k as hmem
  · rw [h.present k]
    simp [hk, or_and_right, exists_or]

theorem isGrouping_groupBy (key : α → Option κ) (xs : List α) :
    IsGrouping key xs (groupBy key xs) := by
  -- the loop, started on the groups of the elements before it
  have hloop : ∀ (rest done : List α) (map : List (κ × List α)), IsGrouping key done map →
      IsGrouping key (done ++ rest) (rest.foldl (fun map a => match key a with
        | some k => push map k a
        | none => map) map) := by
    intro rest
    induction rest with
    | nil =>
      intro done map h
      rw [List.append_nil]
      exact h
    | cons a rest ih =>
      intro done map h
      have hsplit : done ++ a :: rest = (done ++ [a]) ++ rest := by simp
      rw [hsplit, List.foldl_cons]
      cases hk : key a with
      | some k => exact ih _ _ (h.push hk)
      | none => exact ih _ _ (h.skip hk)
  have h := hloop xs [] [] (isGrouping_nil key)
  rwa [List.nil_append] at h

/-- The groups of a list are the nonempty ones of its keys. -/
theorem mem_groupBy {k : κ} {as : List α} :
    (k, as) ∈ groupBy key xs ↔ as = groupOf key xs k ∧ as ≠ [] := by
  have h := isGrouping_groupBy key xs
  have hpresent : k ∈ (groupBy key xs).map Prod.fst ↔ groupOf key xs k ≠ [] := by
    rw [h.present k]
    constructor
    · rintro ⟨a, ha⟩
      exact List.ne_nil_of_mem (mem_groupOf.2 ha)
    · intro hne
      obtain ⟨a, ha⟩ := List.exists_mem_of_ne_nil _ hne
      exact ⟨a, mem_groupOf.1 ha⟩
  constructor
  · intro hmem
    have has := h.group k as hmem
    exact ⟨has, has ▸ hpresent.1 (key_mem_of_mem hmem)⟩
  · rintro ⟨rfl, hne⟩
    obtain ⟨⟨k', as'⟩, hmem, rfl⟩ := List.mem_map.1 (hpresent.2 hne)
    rw [← h.group _ as' hmem]
    exact hmem

end XioFlow.Lib
