/-
  XioFlow.Lib.Table

  Keyed tables: a list of rows together with the proof that no two rows share
  a key, so that a table that violates its PRIMARY KEY cannot be built.

  The rows stand in insertion order.  Every operation comes with the lemma
  that says what `get?` answers afterwards; proofs about programs that use a
  table go through these and never look at the list of rows.
-/

import Mathlib.Data.List.Nodup

namespace XioFlow.Lib

/-- Rows of type `α`, no two of which have the same `key`. -/
structure Table (α : Type) {κ : Type} (key : α → κ) where
  rows : List α
  nodup : (rows.map key).Nodup

namespace Table

variable {α κ : Type} {key : α → κ}

variable {t u : Table α key} {a : α}

theorem ext_rows (h : t.rows = u.rows) : t = u := by
  cases t
  cases u
  simp only at h
  subst h
  rfl

instance [DecidableEq α] : DecidableEq (Table α key) := fun t u =>
  decidable_of_iff (t.rows = u.rows) ⟨ext_rows, fun h => h ▸ rfl⟩

/-- The table with no rows. -/
def empty : Table α key := ⟨[], by simp⟩

variable [DecidableEq κ]

/-! ## Queries -/

/-- The row under a key. -/
def get? (t : Table α key) (k : κ) : Option α := t.rows.find? fun a => decide (key a = k)

/-- The rows that satisfy a predicate, in insertion order. -/
def select (t : Table α key) (p : α → Bool) : List α := t.rows.filter p

variable {k : κ}

theorem key_of_get? (h : t.get? k = some a) : key a = k := by
  unfold get? at h
  simpa using List.find?_some h

theorem mem_of_get? (h : t.get? k = some a) : a ∈ t.rows :=
  List.mem_of_find?_eq_some h

omit [DecidableEq κ] in
/-- Two rows with one key are one row. -/
theorem eq_of_key_eq {b : α} (ha : a ∈ t.rows) (hb : b ∈ t.rows) (h : key a = key b) : a = b :=
  List.inj_on_of_nodup_map t.nodup ha hb h

theorem get?_of_mem (h : a ∈ t.rows) : t.get? (key a) = some a := by
  cases hg : t.get? (key a) with
  | none =>
    unfold get? at hg
    rw [List.find?_eq_none] at hg
    exact absurd (by simp) (hg a h)
  | some =>
    rw [eq_of_key_eq (mem_of_get? hg) h (key_of_get? hg)]

theorem get?_eq_some_iff : t.get? k = some a ↔ a ∈ t.rows ∧ key a = k := by
  constructor
  · intro h
    exact ⟨mem_of_get? h, key_of_get? h⟩
  · rintro ⟨hmem, rfl⟩
    exact get?_of_mem hmem

theorem get?_eq_none_iff : t.get? k = none ↔ ∀ a ∈ t.rows, key a ≠ k := by
  unfold get?
  rw [List.find?_eq_none]
  simp

omit [DecidableEq κ] in
theorem mem_select {p : α → Bool} : a ∈ t.select p ↔ a ∈ t.rows ∧ p a = true := List.mem_filter

/-! ## Writes -/

/-- Add a row whose key is not there yet. -/
def append (t : Table α key) (a : α) (h : t.get? (key a) = none) : Table α key where
  rows := t.rows ++ [a]
  nodup := by
    rw [get?_eq_none_iff] at h
    rw [List.map_append, List.nodup_append]
    refine ⟨t.nodup, by simp, ?_⟩
    intro k hk k' hk' heq
    obtain ⟨b, hb, rfl⟩ := List.mem_map.1 hk
    simp only [List.map_cons, List.map_nil, List.mem_singleton] at hk'
    exact h b hb (heq.trans hk')

/-- `INSERT`: refused when the key is taken. -/
def insert? (t : Table α key) (a : α) : Option (Table α key) :=
  if h : t.get? (key a) = none then some (t.append a h) else none

/-- Remove the rows that satisfy a predicate. -/
def deleteWhere (t : Table α key) (p : α → Bool) : Table α key where
  rows := t.rows.filter fun a => !p a
  nodup := t.nodup.sublist ((List.filter_sublist).map key)

/-- `UPDATE … WHERE key = k` with a change that keeps the key. -/
def update (t : Table α key) (k : κ) (f : α → α) (hkey : ∀ a, key (f a) = key a) :
    Table α key where
  rows := t.rows.map fun a => if key a = k then f a else a
  nodup := by
    have hmap : (t.rows.map fun a => if key a = k then f a else a).map key = t.rows.map key := by
      rw [List.map_map]
      refine List.map_congr_left fun a _ => ?_
      simp only [Function.comp]
      split
      · exact hkey a
      · rfl
    rw [hmap]
    exact t.nodup

/-- `UPDATE … WHERE p` with a change that keeps the key. -/
def updateWhere (t : Table α key) (p : α → Bool) (f : α → α) (hkey : ∀ a, key (f a) = key a) :
    Table α key where
  rows := t.rows.map fun a => if p a then f a else a
  nodup := by
    have hmap : (t.rows.map fun a => if p a then f a else a).map key = t.rows.map key := by
      rw [List.map_map]
      refine List.map_congr_left fun a _ => ?_
      simp only [Function.comp]
      split
      · exact hkey a
      · rfl
    rw [hmap]
    exact t.nodup

theorem get?_deleteWhere (t : Table α key) (p : α → Bool) (k : κ) :
    (t.deleteWhere p).get? k = (t.get? k).filter fun a => !p a := by
  cases hg : t.get? k with
  | none =>
    rw [get?_eq_none_iff] at hg
    simp only [Option.filter]
    rw [get?_eq_none_iff]
    intro a ha
    exact hg a (List.mem_filter.1 ha).1
  | some a =>
    rw [get?_eq_some_iff] at hg
    by_cases hp : p a = true
    · simp only [Option.filter, hp, Bool.not_true]
      rw [if_neg Bool.false_ne_true, get?_eq_none_iff]
      intro b hb hkb
      obtain ⟨hbmem, hbp⟩ := List.mem_filter.1 hb
      have hba : b = a := eq_of_key_eq hbmem hg.1 (hkb.trans hg.2.symm)
      subst hba
      simp [hp] at hbp
    · simp only [Option.filter, hp, Bool.not_false, if_true]
      rw [get?_eq_some_iff]
      exact ⟨List.mem_filter.2 ⟨hg.1, by simp [hp]⟩, hg.2⟩

/-- `INSERT OR REPLACE`: the old row goes, the new one is the last. -/
def replace (t : Table α key) (a : α) : Table α key :=
  (t.deleteWhere fun b => decide (key b = key a)).append a (by
    rw [get?_deleteWhere]
    cases hg : t.get? (key a) with
    | none => rfl
    | some => simp [Option.filter, key_of_get? hg])

theorem get?_append (t : Table α key) (a : α) (h : t.get? (key a) = none) (k : κ) :
    (t.append a h).get? k = if key a = k then some a else t.get? k := by
  by_cases hk : key a = k
  · rw [if_pos hk, get?_eq_some_iff]
    exact ⟨List.mem_append_right _ (List.mem_singleton.2 rfl), hk⟩
  · rw [if_neg hk]
    cases hg : t.get? k with
    | none =>
      rw [get?_eq_none_iff] at hg ⊢
      intro b hb
      rcases List.mem_append.1 hb with hb | hb
      · exact hg b hb
      · rw [List.mem_singleton.1 hb]
        exact hk
    | some =>
      rw [get?_eq_some_iff] at hg ⊢
      exact ⟨List.mem_append_left _ hg.1, hg.2⟩

theorem insert?_eq_some (h : t.insert? a = some u) : ∃ hnone, u = t.append a hnone := by
  unfold insert? at h
  split at h
  · rename_i hnone
    exact ⟨hnone, (Option.some.inj h).symm⟩
  · cases h

theorem insert?_eq_none : t.insert? a = none ↔ t.get? (key a) ≠ none := by
  unfold insert?
  split <;> simp_all

theorem get?_insert? (h : t.insert? a = some u) (k : κ) :
    u.get? k = if key a = k then some a else t.get? k := by
  obtain ⟨hnone, rfl⟩ := insert?_eq_some h
  exact get?_append t a hnone k

theorem get?_update (t : Table α key) (k : κ) (f : α → α) (hkey : ∀ a, key (f a) = key a)
    (k' : κ) :
    (t.update k f hkey).get? k' = if k' = k then (t.get? k').map f else t.get? k' := by
  have hget : (t.update k f hkey).get? k' =
      (t.get? k').map fun a => if key a = k then f a else a := by
    unfold get? update
    simp only
    rw [List.find?_map]
    congr 2
    funext a
    simp only [Function.comp]
    split
    · rw [hkey]
    · rfl
  rw [hget]
  cases hg : t.get? k' with
  | none => simp
  | some =>
    simp only [Option.map_some, key_of_get? hg]
    split <;> rfl

theorem get?_updateWhere (t : Table α key) (p : α → Bool) (f : α → α)
    (hkey : ∀ a, key (f a) = key a) (k : κ) :
    (t.updateWhere p f hkey).get? k = (t.get? k).map fun a => if p a then f a else a := by
  unfold get? updateWhere
  simp only
  rw [List.find?_map]
  congr 2
  funext a
  simp only [Function.comp]
  split
  · rw [hkey]
  · rfl

theorem get?_replace (t : Table α key) (a : α) (k : κ) :
    (t.replace a).get? k = if key a = k then some a else t.get? k := by
  unfold replace
  rw [get?_append, get?_deleteWhere]
  by_cases hk : key a = k
  · rw [if_pos hk, if_pos hk]
  · rw [if_neg hk, if_neg hk]
    cases hg : t.get? k with
    | none => rfl
    | some b =>
      have hb : key b ≠ key a := fun h => hk (h.symm.trans (key_of_get? hg))
      simp [Option.filter, hb]

theorem mem_append_rows {b : α} {h : t.get? (key a) = none} :
    b ∈ (t.append a h).rows ↔ b ∈ t.rows ∨ b = a := by
  unfold append
  simp [List.mem_append]

/-- Replacing what is not there appends. -/
theorem replace_rows (h : t.get? (key a) = none) : (t.replace a).rows = t.rows ++ [a] := by
  have hkept : t.rows.filter (fun b => !decide (key b = key a)) = t.rows := by
    rw [List.filter_eq_self]
    intro b hb
    simpa using get?_eq_none_iff.1 h b hb
  show t.rows.filter (fun b => !decide (key b = key a)) ++ [a] = _
  rw [hkept]

omit [DecidableEq κ] in
theorem mem_deleteWhere {p : α → Bool} : a ∈ (t.deleteWhere p).rows ↔ a ∈ t.rows ∧ p a = false := by
  unfold deleteWhere
  simp [List.mem_filter]

end Table
end XioFlow.Lib
