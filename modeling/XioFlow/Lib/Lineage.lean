/-
  XioFlow.Lib.Lineage

  Histories whose entries depend on earlier ones, and what a single sweep over
  such a history finds: everything that is reached from some keys, going
  forwards, and everything that reaches some keys, going backwards.
-/

import Mathlib.Logic.Relation
import Mathlib.Data.List.Nodup
import Mathlib.Order.Defs.PartialOrder

namespace XioFlow.Lib.Lineage

open Relation (ReflTransGen)

variable {α κ : Type} (key : α → κ) (deps : α → List κ)

/-- An entry depends on entries before it, and no key comes twice. -/
inductive Grown : List α → Prop where
  | nil : Grown []
  | snoc {nodes : List α} {a : α} (grown : Grown nodes) (fresh : key a ∉ nodes.map key)
      (known : ∀ d ∈ deps a, d ∈ nodes.map key) : Grown (nodes ++ [a])

/-- The entry with the key `k` declares that it depends on `d`. -/
def Needs (nodes : List α) (d k : κ) : Prop := ∃ a ∈ nodes, key a = k ∧ d ∈ deps a

/-- From `d` declared dependencies lead to `k`. -/
abbrev Reaches (nodes : List α) : κ → κ → Prop := ReflTransGen (Needs key deps nodes)

section Sweeps

variable [DecidableEq κ]

/-- What depends on a marked key is marked, in one sweep forwards. -/
def spread (marked : List κ) (nodes : List α) : List κ :=
  nodes.foldl
    (fun marked a => if (deps a).any (fun d => decide (d ∈ marked)) then key a :: marked else marked)
    marked

/-- What a marked entry depends on is marked, in one sweep backwards. -/
def gather (marked : List κ) (nodes : List α) : List κ :=
  nodes.reverse.foldl (fun marked a => if key a ∈ marked then marked ++ deps a else marked) marked

end Sweeps

variable {key deps}

/-! ## Declared dependencies -/

variable {nodes part : List α}

theorem Grown.nodup (h : Grown key deps nodes) : (nodes.map key).Nodup := by
  induction h with
  | nil => exact List.nodup_nil
  | snoc grown fresh known ih =>
    rw [List.map_append, List.map_singleton, List.nodup_append]
    refine ⟨ih, List.nodup_singleton _, ?_⟩
    intro k hk k' hk' heq
    rw [List.mem_singleton] at hk'
    rw [heq, hk'] at hk
    exact fresh hk

variable {d k : κ}

/-- What is depended on is there. -/
theorem Grown.known (h : Grown key deps nodes) (hneeds : Needs key deps nodes d k) :
    d ∈ nodes.map key := by
  induction h with
  | nil =>
    obtain ⟨a, ha, -⟩ := hneeds
    cases ha
  | @snoc nodes a grown fresh known ih =>
    rw [List.map_append, List.mem_append]
    obtain ⟨b, hb, rfl, hd⟩ := hneeds
    rcases List.mem_append.1 hb with hold | hnew
    · exact .inl (ih ⟨b, hold, rfl, hd⟩)
    · rw [List.mem_singleton.1 hnew] at hd
      exact .inl (known d hd)

theorem Needs.mono {nodes' : List α} (h : nodes ⊆ nodes') (hneeds : Needs key deps nodes d k) :
    Needs key deps nodes' d k := by
  obtain ⟨a, ha, hrest⟩ := hneeds
  exact ⟨a, h ha, hrest⟩

theorem reaches_mono {nodes' : List α} (h : nodes ⊆ nodes')
    (hreaches : Reaches key deps nodes d k) : Reaches key deps nodes' d k :=
  ReflTransGen.mono (fun _ _ hneeds => hneeds.mono h) d k hreaches

/-- What leads to a key that is there is there. -/
theorem Grown.reaches_known (h : Grown key deps nodes) (hreaches : Reaches key deps nodes d k)
    (hk : k ∈ nodes.map key) : d ∈ nodes.map key := by
  rcases ReflTransGen.cases_head hreaches with rfl | ⟨b, hneeds, -⟩
  · exact hk
  · exact h.known hneeds

/-- One more entry is reached from what it depends on, and nothing is reached through it. -/
theorem reaches_snoc {a : α} (grown : Grown key deps nodes) (fresh : key a ∉ nodes.map key)
    (known : ∀ d ∈ deps a, d ∈ nodes.map key) {c : κ} :
    Reaches key deps (nodes ++ [a]) c k ↔
      Reaches key deps nodes c k ∨ (k = key a ∧ ∃ d ∈ deps a, Reaches key deps nodes c d) := by
  constructor
  · intro h
    induction h with
    | refl => exact .inl ReflTransGen.refl
    | @tail b k hcb hneeds ih =>
      -- The last dependency is one of the old ones or one of the new entry.
      obtain ⟨e, he, rfl, hb⟩ := hneeds
      have hknown : b ∈ nodes.map key := by
        rcases List.mem_append.1 he with hold | hnew
        · exact grown.known ⟨e, hold, rfl, hb⟩
        · rw [List.mem_singleton.1 hnew] at hb
          exact known b hb
      have hcb' : Reaches key deps nodes c b := by
        rcases ih with hreaches | ⟨rfl, -⟩
        · exact hreaches
        · exact absurd hknown fresh
      rcases List.mem_append.1 he with hold | hnew
      · exact .inl (hcb'.tail ⟨e, hold, rfl, hb⟩)
      · rw [List.mem_singleton.1 hnew] at hb ⊢
        exact .inr ⟨rfl, b, hb, hcb'⟩
  · have hsub : nodes ⊆ nodes ++ [a] := List.subset_append_left _ _
    rintro (h | ⟨rfl, d, hd, h⟩)
    · exact reaches_mono hsub h
    · have hmem : a ∈ nodes ++ [a] := List.mem_append_right _ (List.mem_singleton.2 rfl)
      exact (reaches_mono hsub h).tail ⟨a, hmem, rfl, hd⟩

/-- Where keys increase, dependencies are smaller. -/
theorem Grown.needs_lt [Preorder κ] (h : Grown key deps nodes)
    (hincreasing : (nodes.map key).Pairwise (· < ·)) (hneeds : Needs key deps nodes d k) :
    d < k := by
  induction h with
  | nil =>
    obtain ⟨a, ha, -⟩ := hneeds
    cases ha
  | @snoc nodes a grown fresh known ih =>
    rw [List.map_append, List.pairwise_append] at hincreasing
    obtain ⟨hfront, -, hlast⟩ := hincreasing
    obtain ⟨b, hb, rfl, hd⟩ := hneeds
    rcases List.mem_append.1 hb with hold | hnew
    · exact ih hfront ⟨b, hold, rfl, hd⟩
    · rw [List.mem_singleton.1 hnew] at hd ⊢
      exact hlast d (known d hd) (key a) (List.mem_singleton.2 rfl)

/-! ## Parts of a history -/

variable (key deps) in
/-- Some entries, in their order, with all that they depend on. -/
structure Closed (nodes part : List α) : Prop where
  sublist : part.Sublist nodes
  closed : ∀ a ∈ part, ∀ d ∈ deps a, d ∈ part.map key

theorem Grown.closed (h : Grown key deps nodes) (hpart : Closed key deps nodes part) :
    Grown key deps part := by
  induction h generalizing part with
  | nil =>
    rw [List.sublist_nil.1 hpart.sublist]
    exact .nil
  | @snoc nodes a grown fresh known ih =>
    obtain ⟨front, back, rfl, hfront, hback⟩ := List.sublist_append_iff.1 hpart.sublist
    have hdeps : ∀ b ∈ front, ∀ d ∈ deps b, d ∈ front.map key := by
      intro b hb d hd
      have hmem := hpart.closed b (List.mem_append_left _ hb) d hd
      rw [List.map_append, List.mem_append] at hmem
      rcases hmem with hmem | hmem
      · exact hmem
      · -- Nothing old depends on the last entry.
        have hold : d ∈ nodes.map key := grown.known ⟨b, hfront.subset hb, rfl, hd⟩
        obtain ⟨e, he, rfl⟩ := List.mem_map.1 hmem
        rw [List.mem_singleton.1 (hback.subset he)] at hold
        exact absurd hold fresh
    have hgrown : Grown key deps front := ih ⟨hfront, hdeps⟩
    cases List.sublist_singleton.1 hback with
    | inl hnil =>
      rw [hnil, List.append_nil]
      exact hgrown
    | inr hone =>
      subst hone
      refine hgrown.snoc (fun hmem => fresh ?_) fun d hd => ?_
      · exact (hfront.map key).subset hmem
      · have hmem := hpart.closed a (List.mem_append_right _ (List.mem_singleton.2 rfl)) d hd
        rw [List.map_append, List.mem_append] at hmem
        rcases hmem with hmem | hmem
        · exact hmem
        · rw [List.map_singleton, List.mem_singleton] at hmem
          rw [hmem] at hd
          exact absurd (known _ hd) fresh

/-- What leads to an entry of a closed part lies in the part. -/
theorem reaches_closed_iff (h : Grown key deps nodes) (hpart : Closed key deps nodes part) {c : κ}
    (hk : k ∈ part.map key) : Reaches key deps part c k ↔ Reaches key deps nodes c k := by
  constructor
  · exact reaches_mono hpart.sublist.subset
  · intro hreaches
    induction hreaches using ReflTransGen.head_induction_on with
    | refl => exact ReflTransGen.refl
    | @head c b hneeds hrest ih =>
      -- `b` is in the part, so its entry is, and with it what it depends on.
      have hb : b ∈ part.map key := (h.closed hpart).reaches_known ih hk
      obtain ⟨e, he, rfl, hc⟩ := hneeds
      obtain ⟨e', he', heq⟩ := List.mem_map.1 hb
      have hsame : e' = e :=
        List.inj_on_of_nodup_map h.nodup (hpart.sublist.subset he') he heq
      rw [hsame] at he'
      exact ih.head ⟨e, he', rfl, hc⟩

/-- An entry that leads to one of a closed part is in the part. -/
theorem Grown.mem_of_reaches (h : Grown key deps nodes) (hpart : Closed key deps nodes part)
    {a : α} (ha : a ∈ nodes) (hk : k ∈ part.map key) (hreaches : Reaches key deps nodes (key a) k) :
    a ∈ part := by
  have hin := (h.closed hpart).reaches_known ((reaches_closed_iff h hpart hk).2 hreaches) hk
  obtain ⟨b, hb, heq⟩ := List.mem_map.1 hin
  have hsame : b = a := List.inj_on_of_nodup_map h.nodup (hpart.sublist.subset hb) ha heq
  rw [hsame] at hb
  exact hb

/-! ## The sweeps -/

section Sweeps

variable [DecidableEq κ]

variable {nodes : List α}

/-- The sweep forwards marks exactly what is reached from a marked key. -/
theorem mem_spread (h : Grown key deps nodes) {marked : List κ} {k : κ} :
    k ∈ spread key deps marked nodes ↔ ∃ c ∈ marked, Reaches key deps nodes c k := by
  induction h generalizing k with
  | nil =>
    constructor
    · exact fun hk => ⟨k, hk, ReflTransGen.refl⟩
    · rintro ⟨c, hc, hreaches⟩
      rcases ReflTransGen.cases_tail hreaches with rfl | ⟨b, -, a, ha, -⟩
      · exact hc
      · cases ha
  | @snoc nodes a grown fresh known ih =>
    have hstep : spread key deps marked (nodes ++ [a]) =
        if (deps a).any (fun d => decide (d ∈ spread key deps marked nodes)) then
          key a :: spread key deps marked nodes
        else spread key deps marked nodes := by
      unfold spread
      rw [List.foldl_append, List.foldl_cons, List.foldl_nil]
    have hany : (deps a).any (fun d => decide (d ∈ spread key deps marked nodes)) = true ↔
        ∃ d ∈ deps a, ∃ c ∈ marked, Reaches key deps nodes c d := by
      simp only [List.any_eq_true, decide_eq_true_eq, ih]
    have hsnoc : (∃ c ∈ marked, Reaches key deps (nodes ++ [a]) c k) ↔
        (∃ c ∈ marked, Reaches key deps nodes c k) ∨
          (k = key a ∧ ∃ d ∈ deps a, ∃ c ∈ marked, Reaches key deps nodes c d) := by
      simp only [reaches_snoc grown fresh known]
      constructor
      · rintro ⟨c, hc, hreaches | ⟨hk, d, hd, hreaches⟩⟩
        · exact .inl ⟨c, hc, hreaches⟩
        · exact .inr ⟨hk, d, hd, c, hc, hreaches⟩
      · rintro (⟨c, hc, hreaches⟩ | ⟨hk, d, hd, c, hc, hreaches⟩)
        · exact ⟨c, hc, .inl hreaches⟩
        · exact ⟨c, hc, .inr ⟨hk, d, hd, hreaches⟩⟩
    rw [hstep, hsnoc, ← hany, ← ih]
    split
    · rename_i hmarked
      rw [List.mem_cons, and_iff_left hmarked]
      exact Or.comm
    · rename_i hmarked
      rw [iff_false_intro hmarked, and_false, or_false]

/-- The sweep backwards marks exactly what leads to a marked key. -/
theorem mem_gather (h : Grown key deps nodes) {marked : List κ} {k : κ} :
    k ∈ gather key deps marked nodes ↔ ∃ w ∈ marked, Reaches key deps nodes k w := by
  induction h generalizing marked with
  | nil =>
    constructor
    · exact fun hk => ⟨k, hk, ReflTransGen.refl⟩
    · rintro ⟨w, hw, hreaches⟩
      rcases ReflTransGen.cases_tail hreaches with rfl | ⟨b, -, a, ha, -⟩
      · exact hw
      · cases ha
  | @snoc nodes a grown fresh known ih =>
    have hstep : gather key deps marked (nodes ++ [a]) =
        gather key deps (if key a ∈ marked then marked ++ deps a else marked) nodes := by
      unfold gather
      rw [List.reverse_append, List.reverse_singleton, List.singleton_append, List.foldl_cons]
    rw [hstep, ih]
    simp only [reaches_snoc grown fresh known]
    constructor
    · rintro ⟨w, hw, hreaches⟩
      split at hw
      · rename_i hmarked
        rcases List.mem_append.1 hw with hw | hw
        · exact ⟨w, hw, .inl hreaches⟩
        · exact ⟨key a, hmarked, .inr ⟨rfl, w, hw, hreaches⟩⟩
      · exact ⟨w, hw, .inl hreaches⟩
    · rintro ⟨w, hw, hreaches | ⟨rfl, d, hd, hreaches⟩⟩
      · refine ⟨w, ?_, hreaches⟩
        split
        · exact List.mem_append_left _ hw
        · exact hw
      · rw [if_pos hw]
        exact ⟨d, List.mem_append_right _ hd, hreaches⟩

/-- What a sweep backwards marks is a closed part. -/
theorem closed_gather (h : Grown key deps nodes) (marked : List κ) :
    Closed key deps nodes
      (nodes.filter fun a => decide (key a ∈ gather key deps marked nodes)) := by
  refine ⟨List.filter_sublist, fun a ha d hd => ?_⟩
  obtain ⟨hmem, hmarked⟩ := List.mem_filter.1 ha
  obtain ⟨w, hw, hreaches⟩ := (mem_gather h).1 (of_decide_eq_true hmarked)
  have hneeds : Needs key deps nodes d (key a) := ⟨a, hmem, rfl, hd⟩
  obtain ⟨b, hb, rfl⟩ := List.mem_map.1 (h.known hneeds)
  refine List.mem_map_of_mem (List.mem_filter.2 ⟨hb, decide_eq_true ?_⟩)
  exact (mem_gather h).2 ⟨w, hw, hreaches.head hneeds⟩

end Sweeps

end XioFlow.Lib.Lineage
