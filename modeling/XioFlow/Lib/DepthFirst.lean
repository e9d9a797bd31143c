/-
  XioFlow.Lib.DepthFirst

  Depth-first search for cycles with the three colours: not marked, on the
  way, done.

  A search that meets nothing that is on the way leaves its nodes in an order
  in which each comes after those it leads to.
-/

import Mathlib.Data.List.Nodup
import Mathlib.Data.List.Perm.Subperm
import Mathlib.Algebra.Order.BigOperators.Group.List
import Mathlib.Algebra.Order.Group.Nat

namespace XioFlow.Lib

variable {α : Type} [DecidableEq α]

/-- The nodes on the way, the nodes done, the last first, and the ways that closed a cycle. -/
structure Dfs (α : Type) where
  visiting : List α := []
  visited : List α := []
  cycles : List (List α) := []

namespace Dfs

/-- A node is on the way. -/
def enter (s : Dfs α) (a : α) : Dfs α := { s with visiting := a :: s.visiting }

/-- A node is done. -/
def leave (s : Dfs α) (a : α) : Dfs α :=
  { s with visiting := s.visiting.erase a, visited := a :: s.visited }

variable (next : α → List α)

/-- Visit a node that the way `stack` leads to. -/
def visit : Nat → List α → Dfs α → α → Dfs α
  | 0, _, s, _ => s
  | fuel + 1, stack, s, a =>
    if a ∈ s.visiting then { s with cycles := s.cycles ++ [stack ++ [a]] }
    else if a ∈ s.visited then s
    else ((next a).foldl (visit fuel (stack ++ [a])) (s.enter a)).leave a

/-- Visit every node; a way without repetition is no longer than the list of nodes. -/
def search (nodes : List α) : Dfs α := nodes.foldl (visit next (nodes.length + 1) []) {}

/-- Each node comes after those it leads to, the last one first. -/
def Ordered : List α → Prop
  | [] => True
  | a :: earlier => (∀ b ∈ next a, b ∈ earlier) ∧ Ordered earlier

/-- The colours are apart, within the nodes, and what is done is in order. -/
structure Sound (nodes : List α) (s : Dfs α) : Prop where
  nodup : (s.visiting ++ s.visited).Nodup
  within : ∀ a ∈ s.visiting ++ s.visited, a ∈ nodes
  ordered : Ordered next s.visited
  acyclic : s.cycles = []

/-- What a visit that closes no cycle leaves: the same way, and more done. -/
structure Grows (s s' : Dfs α) : Prop where
  visiting : s'.visiting = s.visiting
  visited : s.visited <:+ s'.visited

omit [DecidableEq α] in
theorem Grows.refl (s : Dfs α) : Grows s s := ⟨rfl, List.suffix_refl _⟩

omit [DecidableEq α] in
theorem Grows.trans {s s' s'' : Dfs α} (h : Grows s s') (h' : Grows s' s'') : Grows s s'' :=
  ⟨h'.visiting.trans h.visiting, h.visited.trans h'.visited⟩

variable {next}

/-- Cycles once found stay. -/
theorem visit_cycles (fuel : Nat) (stack : List α) (s : Dfs α) (a : α)
    (h : (visit next fuel stack s a).cycles = []) : s.cycles = [] := by
  induction fuel generalizing stack s a with
  | zero => exact h
  | succ fuel ih =>
    have hfold : ∀ (as : List α) (s : Dfs α),
        (as.foldl (visit next fuel (stack ++ [a])) s).cycles = [] → s.cycles = [] := by
      intro as
      induction as with
      | nil => exact fun s h => h
      | cons b as ihas => exact fun s h => ih _ s b (ihas _ h)
    unfold visit at h
    split at h
    · exact absurd h (by simp)
    · split at h
      · exact h
      · exact hfold (next a) (s.enter a) h

theorem foldl_visit_cycles {fuel : Nat} {stack : List α} {as : List α} {s : Dfs α}
    (h : (as.foldl (visit next fuel stack) s).cycles = []) : s.cycles = [] := by
  induction as generalizing s with
  | nil => exact h
  | cons a as ih => exact visit_cycles fuel stack s a (ih h)

variable {nodes : List α}

/-- A list of nodes, one after the other, given what one visit does. -/
theorem foldl_visit {fuel : Nat} {stack : List α}
    (hvisit : ∀ (s : Dfs α) (a : α), a ∈ nodes → Sound next nodes s →
      nodes.length < fuel + (s.visiting ++ s.visited).length →
      (visit next fuel stack s a).cycles = [] →
      Sound next nodes (visit next fuel stack s a) ∧ Grows s (visit next fuel stack s a) ∧
        a ∈ (visit next fuel stack s a).visited) (as : List α) (has : ∀ a ∈ as, a ∈ nodes)
    {s : Dfs α} (hs : Sound next nodes s)
    (hfuel : nodes.length < fuel + (s.visiting ++ s.visited).length)
    (hcycles : (as.foldl (visit next fuel stack) s).cycles = []) :
    Sound next nodes (as.foldl (visit next fuel stack) s) ∧
      Grows s (as.foldl (visit next fuel stack) s) ∧
      ∀ a ∈ as, a ∈ (as.foldl (visit next fuel stack) s).visited := by
  induction as generalizing s with
  | nil => exact ⟨hs, Grows.refl s, by simp⟩
  | cons a as ih =>
    rw [List.foldl_cons] at hcycles ⊢
    obtain ⟨hsound, hgrows, hdone⟩ :=
      hvisit s a (has a List.mem_cons_self) hs hfuel (foldl_visit_cycles hcycles)
    have hlonger : (s.visiting ++ s.visited).length ≤
        ((visit next fuel stack s a).visiting ++
          (visit next fuel stack s a).visited).length := by
      rw [hgrows.visiting, List.length_append, List.length_append]
      exact Nat.add_le_add_left hgrows.visited.length_le _
    obtain ⟨hsound', hgrows', hdone'⟩ :=
      ih (fun b hb => has b (List.mem_cons_of_mem _ hb)) hsound (by omega) hcycles
    refine ⟨hsound', hgrows.trans hgrows', fun b hb => ?_⟩
    rcases List.mem_cons.1 hb with rfl | hb
    · exact hgrows'.visited.subset hdone
    · exact hdone' b hb

/-- A visit that closes no cycle gets done with its node. -/
theorem visit_sound (hnext : ∀ a ∈ nodes, ∀ b ∈ next a, b ∈ nodes) (fuel : Nat) (stack : List α)
    (s : Dfs α) (a : α) (ha : a ∈ nodes) (hs : Sound next nodes s)
    (hfuel : nodes.length < fuel + (s.visiting ++ s.visited).length)
    (hcycles : (visit next fuel stack s a).cycles = []) :
    Sound next nodes (visit next fuel stack s a) ∧ Grows s (visit next fuel stack s a) ∧
      a ∈ (visit next fuel stack s a).visited := by
  induction fuel generalizing stack s a with
  | zero =>
    -- the marked nodes are different nodes, so there are not more of them than nodes
    have hle : (s.visiting ++ s.visited).length ≤ nodes.length :=
      (hs.nodup.subperm hs.within).length_le
    omega
  | succ fuel ih =>
    unfold visit at hcycles ⊢
    by_cases hvisiting : a ∈ s.visiting
    · rw [if_pos hvisiting] at hcycles
      exact absurd hcycles (by simp)
    · rw [if_neg hvisiting] at hcycles ⊢
      by_cases hvisited : a ∈ s.visited
      · rw [if_pos hvisited] at hcycles ⊢
        exact ⟨hs, Grows.refl s, hvisited⟩
      · rw [if_neg hvisited] at hcycles ⊢
        have hstart : Sound next nodes (s.enter a) := by
          refine ⟨?_, ?_, hs.ordered, hs.acyclic⟩
          · show (a :: (s.visiting ++ s.visited)).Nodup
            rw [List.nodup_cons, List.mem_append, not_or]
            exact ⟨⟨hvisiting, hvisited⟩, hs.nodup⟩
          · intro b hb
            rcases List.mem_cons.1 hb with rfl | hb
            · exact ha
            · exact hs.within b hb
        have hfuel' : nodes.length <
            fuel + ((s.enter a).visiting ++ (s.enter a).visited).length := by
          simp only [enter, List.cons_append, List.length_cons]
          omega
        obtain ⟨hsound, hgrows, hdone⟩ := foldl_visit
          (fun s b hb hs hf hc => ih (stack ++ [a]) s b hb hs hf hc) (next a)
          (hnext a ha) hstart hfuel' hcycles
        have hway : _ = a :: s.visiting := hgrows.visiting
        generalize (next a).foldl (visit next fuel (stack ++ [a])) (s.enter a) = after
          at hsound hgrows hdone hway ⊢
        have hnodup := hsound.nodup
        have hwithin := hsound.within
        rw [hway] at hnodup hwithin
        have herase : after.visiting.erase a = s.visiting := by
          rw [hway, List.erase_cons_head]
        refine ⟨⟨?_, ?_, ⟨hdone, hsound.ordered⟩, hsound.acyclic⟩, ⟨herase, ?_⟩,
          List.mem_cons_self⟩
        · show (after.visiting.erase a ++ a :: after.visited).Nodup
          rw [herase]
          exact List.nodup_middle.2 hnodup
        · show ∀ b ∈ after.visiting.erase a ++ a :: after.visited, b ∈ nodes
          rw [herase]
          intro b hb
          refine hwithin b ?_
          simpa [or_left_comm] using hb
        · exact hgrows.visited.trans (List.suffix_cons _ _)

/-- A search that finds no cycle gets done with every node, each after those it leads to. -/
theorem search_ordered (hnext : ∀ a ∈ nodes, ∀ b ∈ next a, b ∈ nodes)
    (h : (search next nodes).cycles = []) :
    Ordered next (search next nodes).visited ∧ ∀ a ∈ nodes, a ∈ (search next nodes).visited := by
  have hempty : Sound next nodes {} := ⟨List.nodup_nil, by simp, trivial, rfl⟩
  obtain ⟨hsound, -, hdone⟩ := foldl_visit
    (fun s a ha hs hf hc => visit_sound hnext _ _ s a ha hs hf hc) nodes (fun a ha => ha) hempty
    (by simp) h
  exact ⟨hsound.ordered, hdone⟩

/-- In an ordered list everything leads down. -/
theorem rank_of_ordered {order : List α} (h : Ordered next order) :
    ∃ rank : α → Nat, ∀ a ∈ order, ∀ b ∈ next a, rank b < rank a := by
  induction order with
  | nil => exact ⟨fun _ => 0, by simp⟩
  | cons a earlier ih =>
    obtain ⟨rank, hrank⟩ := ih h.2
    -- what was done already keeps its rank, the last node gets one above all it leads to
    by_cases hmem : a ∈ earlier
    · refine ⟨rank, fun c hc b hb => ?_⟩
      rcases List.mem_cons.1 hc with rfl | hc
      · exact hrank _ hmem b hb
      · exact hrank c hc b hb
    · have hlater : ∀ c ∈ earlier, ∀ b ∈ next c, b ≠ a := by
        intro c hc b hb hba
        have hclosed : ∀ order : List α, Ordered next order → ∀ c ∈ order, ∀ b ∈ next c,
            b ∈ order := by
          intro order
          induction order with
          | nil => simp
          | cons d order ihorder =>
            intro hordered c hc b hb
            rcases List.mem_cons.1 hc with rfl | hc
            · exact List.mem_cons_of_mem _ (hordered.1 b hb)
            · exact List.mem_cons_of_mem _ (ihorder hordered.2 c hc b hb)
        exact hmem (hba ▸ hclosed earlier h.2 c hc b hb)
      refine ⟨fun c => if c = a then ((next a).map rank).sum + 1 else rank c, ?_⟩
      intro c hc b hb
      rcases List.mem_cons.1 hc with rfl | hc
      · have hne : b ≠ c := fun hbc => hmem (hbc ▸ h.1 b hb)
        simp only [if_neg hne, if_true]
        exact Nat.lt_succ_of_le (List.single_le_sum (by simp) _ (List.mem_map_of_mem hb))
      · have hne : c ≠ a := fun hca => hmem (hca ▸ hc)
        simp only [if_neg hne, if_neg (hlater c hc b hb)]
        exact hrank c hc b hb

end Dfs
end XioFlow.Lib
