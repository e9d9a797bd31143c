/-
  XioFlow.Lib.Locks

  Exclusive resources that a task takes all at once, or waits for in a list.

  Whoever is not blocked by a resource in use is let in, in the order of the
  list, so that later tasks may overtake a blocked one.  In a sound table no
  resource has two users and every waiting task is blocked.
-/

import Mathlib.Data.List.Nodup

namespace XioFlow.Lib

variable {ρ τ : Type} [DecidableEq ρ]

/-- The resources in use and the tasks that wait. -/
structure Locks (ρ τ : Type) where
  held : List ρ := []
  waiters : List τ := []

namespace Locks

variable (cost : τ → List ρ)

/-- Let in, in turn, each waiting task none of whose resources is in use: the tasks let in, the
    resources then in use and the tasks that go on waiting. -/
def drain : List ρ → List τ → List τ × List ρ × List τ
  | held, [] => ([], held, [])
  | held, t :: waiters =>
    if (cost t).any fun r => decide (r ∈ held) then
      let rest := drain held waiters
      (rest.1, rest.2.1, t :: rest.2.2)
    else
      let rest := drain (held ++ cost t) waiters
      (t :: rest.1, rest.2.1, rest.2.2)

/-- A task asks for its resources: the tasks let in and the table. -/
def acquire (l : Locks ρ τ) (t : τ) : List τ × Locks ρ τ :=
  let drained := drain cost l.held (l.waiters ++ [t])
  (drained.1, ⟨drained.2.1, drained.2.2⟩)

/-- A task gives its resources back: the tasks let in and the table. -/
def release (l : Locks ρ τ) (t : τ) : List τ × Locks ρ τ :=
  let drained := drain cost (l.held.filter fun r => decide (r ∉ cost t)) l.waiters
  (drained.1, ⟨drained.2.1, drained.2.2⟩)

/-- The resources in use are those of the tasks that are in, each of one task. -/
structure Exclusive (held : List ρ) (inside : τ → Prop) : Prop where
  held_iff : ∀ r, r ∈ held ↔ ∃ t, inside t ∧ r ∈ cost t
  unique : ∀ t t' r, inside t → inside t' → r ∈ cost t → r ∈ cost t' → t = t'

/-- Nobody has a resource of another's, and nobody waits without need. -/
structure Sound (l : Locks ρ τ) (inside : τ → Prop) : Prop where
  exclusive : Exclusive cost l.held inside
  nodup : l.waiters.Nodup
  apart : ∀ t ∈ l.waiters, ¬ inside t
  blocked : ∀ t ∈ l.waiters, ∃ r ∈ cost t, r ∈ l.held

variable {cost} {l : Locks ρ τ}

omit [DecidableEq ρ] in
/-- Only the costs of the tasks that are in or wait matter. -/
theorem Sound.congr {cost' : τ → List ρ} {inside : τ → Prop}
    (h : Sound cost l inside) (hcost : ∀ t, inside t ∨ t ∈ l.waiters → cost' t = cost t) :
    Sound cost' l inside := by
  constructor
  · constructor
    · intro r
      rw [h.exclusive.held_iff]
      refine exists_congr fun t => and_congr_right fun ht => ?_
      rw [hcost t (.inl ht)]
    · intro t t' r ht ht' hr hr'
      rw [hcost t (.inl ht)] at hr
      rw [hcost t' (.inl ht')] at hr'
      exact h.exclusive.unique t t' r ht ht' hr hr'
  · exact h.nodup
  · exact h.apart
  · intro t ht
    rw [hcost t (.inr ht)]
    exact h.blocked t ht

/-- What draining a list of tasks does, none of which is in. -/
structure Drained (cost : τ → List ρ) (held : List ρ) (waiters : List τ) (inside : τ → Prop)
    (result : List τ × List ρ × List τ) : Prop where
  exclusive : Exclusive cost result.2.1 fun t => inside t ∨ t ∈ result.1
  mem_iff : ∀ t, t ∈ waiters ↔ t ∈ result.1 ∨ t ∈ result.2.2
  disjoint : ∀ t ∈ result.1, t ∉ result.2.2
  nodup : result.2.2.Nodup
  grows : ∀ r ∈ held, r ∈ result.2.1
  blocked : ∀ t ∈ result.2.2, ∃ r ∈ cost t, r ∈ result.2.1

omit [DecidableEq ρ] in
theorem exclusive_enter {held : List ρ} {inside : τ → Prop} (h : Exclusive cost held inside)
    {t : τ} (hfree : ∀ r ∈ cost t, r ∉ held) :
    Exclusive cost (held ++ cost t) fun u => inside u ∨ u = t := by
  have hother : ∀ u r, inside u → r ∈ cost u → r ∉ cost t :=
    fun u r hu hr hrt => hfree r hrt ((h.held_iff r).2 ⟨u, hu, hr⟩)
  constructor
  · intro r
    rw [List.mem_append, h.held_iff]
    constructor
    · rintro (⟨u, hu, hr⟩ | hr)
      · exact ⟨u, .inl hu, hr⟩
      · exact ⟨t, .inr rfl, hr⟩
    · rintro ⟨u, hu | rfl, hr⟩
      · exact .inl ⟨u, hu, hr⟩
      · exact .inr hr
  · rintro u u' r (hu | rfl) (hu' | rfl) hr hr'
    · exact h.unique u u' r hu hu' hr hr'
    · exact absurd hr' (hother u r hu hr)
    · exact absurd hr (hother u' r hu' hr')
    · rfl

variable {inside : τ → Prop}

theorem drain_spec {held : List ρ} {waiters : List τ} (h : Exclusive cost held inside)
    (hnodup : waiters.Nodup) : Drained cost held waiters inside (drain cost held waiters) := by
  induction waiters generalizing held inside with
  | nil =>
    refine ⟨?_, by simp [drain], by simp [drain], List.nodup_nil, fun r hr => hr,
      by simp [drain]⟩
    simpa [drain] using h
  | cons t waiters ih =>
    obtain ⟨hfresh, hrest⟩ := List.nodup_cons.1 hnodup
    unfold drain
    split
    · -- the task stays in the list: the resource that blocks it remains in use
      rename_i hblocked
      have hd := ih h hrest
      obtain ⟨r, hr, hheld⟩ := List.any_eq_true.1 hblocked
      have hnot : t ∉ (drain cost held waiters).2.2 :=
        fun hmem => hfresh ((hd.mem_iff t).2 (.inr hmem))
      have hnot' : t ∉ (drain cost held waiters).1 :=
        fun hmem => hfresh ((hd.mem_iff t).2 (.inl hmem))
      refine ⟨hd.exclusive, fun u => ?_, fun u hu => ?_, List.nodup_cons.2 ⟨hnot, hd.nodup⟩,
        hd.grows, fun u hu => ?_⟩
      · rw [List.mem_cons, hd.mem_iff, List.mem_cons, or_left_comm]
      · rw [List.mem_cons, not_or]
        exact ⟨fun heq => hnot' (heq ▸ hu), hd.disjoint u hu⟩
      · rcases List.mem_cons.1 hu with rfl | hu
        · exact ⟨r, hr, hd.grows r (of_decide_eq_true hheld)⟩
        · exact hd.blocked u hu
    · rename_i hfree
      have hfree' : ∀ r ∈ cost t, r ∉ held := by
        intro r hr hheld
        exact hfree (List.any_eq_true.2 ⟨r, hr, decide_eq_true hheld⟩)
      have hd := ih (exclusive_enter h hfree') hrest
      have hnot : t ∉ (drain cost (held ++ cost t) waiters).2.2 :=
        fun hmem => hfresh ((hd.mem_iff t).2 (.inr hmem))
      refine ⟨?_, fun u => ?_, fun u hu => ?_, hd.nodup,
        fun r hr => hd.grows r (List.mem_append_left _ hr), hd.blocked⟩
      · have hsame : ∀ u, (inside u ∨ u ∈ t :: (drain cost (held ++ cost t) waiters).1) ↔
            ((inside u ∨ u = t) ∨ u ∈ (drain cost (held ++ cost t) waiters).1) := by
          intro u
          rw [List.mem_cons, or_assoc]
        simp only [hsame]
        exact hd.exclusive
      · rw [List.mem_cons, hd.mem_iff, List.mem_cons, or_assoc]
      · rcases List.mem_cons.1 hu with rfl | hu
        · exact hnot
        · exact hd.disjoint u hu

omit [DecidableEq ρ] in
/-- The table after a drain is sound for those who were in and those let in. -/
theorem Drained.sound {held : List ρ} {waiters : List τ} {result : List τ × List ρ × List τ}
    (h : Drained cost held waiters inside result) (hapart : ∀ t ∈ waiters, ¬ inside t) :
    Sound cost ⟨result.2.1, result.2.2⟩ fun t => inside t ∨ t ∈ result.1 := by
  refine ⟨h.exclusive, h.nodup, fun t ht hin => ?_, h.blocked⟩
  rcases hin with hin | hin
  · exact hapart t ((h.mem_iff t).2 (.inr ht)) hin
  · exact h.disjoint t hin ht

/-- Asking for resources: the task waits or is in, and so does everyone who waited. -/
theorem acquire_sound (h : Sound cost l inside) {t : τ} (hnot : ¬ inside t)
    (hfresh : t ∉ l.waiters) :
    Sound cost (acquire cost l t).2 (fun u => inside u ∨ u ∈ (acquire cost l t).1) ∧
    (∀ u, u ∈ l.waiters ∨ u = t ↔ u ∈ (acquire cost l t).1 ∨ u ∈ (acquire cost l t).2.waiters) ∧
    ∀ u ∈ (acquire cost l t).1, u ∉ (acquire cost l t).2.waiters := by
  have hnodup : (l.waiters ++ [t]).Nodup := by
    rw [List.nodup_append]
    refine ⟨h.nodup, by simp, fun a ha b hb hab => ?_⟩
    rw [List.mem_singleton] at hb
    exact hfresh (hb ▸ hab ▸ ha)
  have hd := drain_spec h.exclusive hnodup
  refine ⟨hd.sound fun u hu => ?_, fun u => ?_, hd.disjoint⟩
  · rcases List.mem_append.1 hu with hu | hu
    · exact h.apart u hu
    · exact List.mem_singleton.1 hu ▸ hnot
  · rw [← List.mem_singleton, ← List.mem_append]
    exact hd.mem_iff u

/-- Giving resources back: some of those who waited are let in, nobody else is affected. -/
theorem release_sound (h : Sound cost l inside) {t : τ} (hin : inside t) :
    Sound cost (release cost l t).2
      (fun u => (inside u ∧ u ≠ t) ∨ u ∈ (release cost l t).1) ∧
    (∀ u, u ∈ l.waiters ↔ u ∈ (release cost l t).1 ∨ u ∈ (release cost l t).2.waiters) ∧
    ∀ u ∈ (release cost l t).1, u ∉ (release cost l t).2.waiters := by
  have hexclusive : Exclusive cost (l.held.filter fun r => decide (r ∉ cost t))
      fun u => inside u ∧ u ≠ t := by
    constructor
    · intro r
      rw [List.mem_filter, decide_eq_true_iff, h.exclusive.held_iff]
      constructor
      · rintro ⟨⟨u, hu, hr⟩, hnot⟩
        exact ⟨u, ⟨hu, fun heq => hnot (heq ▸ hr)⟩, hr⟩
      · rintro ⟨u, ⟨hu, hne⟩, hr⟩
        exact ⟨⟨u, hu, hr⟩, fun hrt => hne (h.exclusive.unique u t r hu hin hr hrt)⟩
    · intro u u' r hu hu'
      exact h.exclusive.unique u u' r hu.1 hu'.1
  have hd := drain_spec hexclusive h.nodup
  exact ⟨hd.sound fun u hu hinside => h.apart u hu hinside.1, hd.mem_iff, hd.disjoint⟩

end Locks
end XioFlow.Lib
