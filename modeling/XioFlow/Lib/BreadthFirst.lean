/-
  XioFlow.Lib.BreadthFirst

  Breadth-first search that keeps, for each vertex it comes to, the vertex it
  came from.  Following these back from a vertex gives a shortest path.

  The vertices are dealt with in the order in which they were found, so the
  found ones are at all times the ones that are done, then the queue.
-/

import Mathlib.Data.List.Nodup
import Mathlib.Data.List.Chain
import Mathlib.Data.List.Perm.Subperm

namespace XioFlow.Lib.BreadthFirst

open Relation (ReflTransGen)

variable {κ : Type} [DecidableEq κ] (children : κ → List κ)

/-! ## The search -/

/-- `parents` is a map in insertion order; only the seed has no parent. -/
structure Search (κ : Type) where
  parents : List (κ × Option κ)
  queue : List κ

def start (seed : κ) : Search κ := { parents := [(seed, none)], queue := [seed] }

/-- A child that was not found before is found from `seq`. -/
def discover (seq : κ) (s : Search κ) (child : κ) : Search κ :=
  if child ∈ s.parents.map Prod.fst then s
  else { parents := s.parents ++ [(child, some seq)], queue := s.queue ++ [child] }

/-- The way back to the seed. -/
def trailBack (parents : List (κ × Option κ)) : Nat → κ → List κ
  | 0, _ => []
  | fuel + 1, cursor =>
    match parents.find? fun entry => entry.1 = cursor with
    | some (_, some parent) => cursor :: trailBack parents fuel parent
    | _ => [cursor]

/-- The way from the seed. -/
def pathTo (parents : List (κ × Option κ)) (seq : κ) : List κ :=
  (trailBack parents parents.length seq).reverse

/-- The vertices in the order they are dealt with, each with its path. -/
def search : Nat → Search κ → List (κ × List κ)
  | 0, _ => []
  | fuel + 1, s =>
    match s.queue with
    | [] => []
    | seq :: queue =>
      (seq, pathTo s.parents seq) ::
        search fuel ((children seq).foldl (discover seq) { s with queue })

/-- A path from `a` to `b`. -/
structure IsPath (a b : κ) (path : List κ) : Prop where
  chain : path.IsChain fun u v => v ∈ children u
  head : path.head? = some a
  last : path.getLast? = some b

/-- From `a` one comes to `b`. -/
abbrev Reaches : κ → κ → Prop := ReflTransGen fun u v => v ∈ children u

variable {children}

/-! ## Paths -/

variable {path p : List κ} {a b k : κ}

omit [DecidableEq κ] in
theorem IsPath.nonempty (h : IsPath children a b path) : path ≠ [] := by
  rintro rfl
  cases h.head

omit [DecidableEq κ] in
theorem isPath_singleton (a : κ) : IsPath children a a [a] :=
  ⟨List.isChain_singleton a, rfl, rfl⟩

omit [DecidableEq κ] in
theorem IsPath.snoc {c : κ} (h : IsPath children a b path)
    (hc : c ∈ children b) : IsPath children a c (path ++ [c]) := by
  refine ⟨List.isChain_append.2 ⟨h.chain, List.isChain_singleton c, ?_⟩, ?_, ?_⟩
  · intro x hx y hy
    rw [h.last, Option.mem_some_iff] at hx
    rw [List.head?_cons, Option.mem_some_iff] at hy
    rw [← hx, ← hy]
    exact hc
  · rw [List.head?_append, h.head, Option.some_or]
  · rw [List.getLast?_append, List.getLast?_singleton, Option.some_or]

omit [DecidableEq κ] in
/-- The front of a path is a path to the vertex before the last one. -/
theorem IsPath.front {u c : κ} {front : List κ} (h : IsPath children a c (front ++ [c]))
    (hu : front.getLast? = some u) : IsPath children a u front ∧ c ∈ children u := by
  obtain ⟨hchain, -, hlink⟩ := List.isChain_append.1 h.chain
  have hhead := h.head
  rw [List.head?_append] at hhead
  cases hf : front.head? with
  | none =>
    rw [List.head?_eq_none_iff] at hf
    rw [hf] at hu
    cases hu
  | some =>
    rw [hf, Option.some_or] at hhead
    exact ⟨⟨hchain, hf.trans hhead, hu⟩, hlink u hu c rfl⟩

omit [DecidableEq κ] in
theorem IsPath.reaches (h : IsPath children a b path) :
    Reaches children a b := by
  induction path using List.reverseRecOn generalizing b with
  | nil => exact absurd rfl h.nonempty
  | append_singleton front c ih =>
    have hlast := h.last
    rw [List.getLast?_append, List.getLast?_singleton, Option.some_or] at hlast
    cases hlast
    rcases hfront : front.getLast? with _ | u
    · rw [List.getLast?_eq_none_iff] at hfront
      subst hfront
      cases h.head
      exact ReflTransGen.refl
    · obtain ⟨hpath, hlink⟩ := h.front hfront
      exact (ih hpath).tail hlink

omit [DecidableEq κ] in
theorem exists_isPath (h : Reaches children a b) : ∃ path, IsPath children a b path := by
  induction h with
  | refl => exact ⟨[a], isPath_singleton a⟩
  | tail hreaches hlink ih =>
    obtain ⟨path, hpath⟩ := ih
    exact ⟨_, hpath.snoc hlink⟩

/-! ## Following the parents -/

/-- The path that the parents give to a vertex. -/
inductive Trail (parents : List (κ × Option κ)) : List κ → κ → Prop where
  | root {k : κ} (h : (k, none) ∈ parents) : Trail parents [k] k
  | step {p : List κ} {u k : κ} (h : (k, some u) ∈ parents) (tail : Trail parents p u) :
      Trail parents (p ++ [k]) k

variable {parents : List (κ × Option κ)}

omit [DecidableEq κ] in
theorem Trail.mono {parents' : List (κ × Option κ)} (h : parents ⊆ parents')
    (ht : Trail parents p k) : Trail parents' p k := by
  induction ht with
  | root hmem => exact .root (h hmem)
  | step hmem tail ih => exact .step (h hmem) ih

omit [DecidableEq κ] in
theorem Trail.mem (ht : Trail parents p k) :
    k ∈ parents.map Prod.fst := by
  cases ht with
  | root hmem | step hmem => exact List.mem_map_of_mem hmem

omit [DecidableEq κ] in
theorem eq_of_mem_parents (h : (parents.map Prod.fst).Nodup)
    {a b : Option κ} (ha : (k, a) ∈ parents) (hb : (k, b) ∈ parents) : a = b :=
  congrArg Prod.snd (List.inj_on_of_nodup_map h ha hb rfl)

omit [DecidableEq κ] in
/-- A map gives one path to a vertex. -/
theorem Trail.unique (h : (parents.map Prod.fst).Nodup)
    {q : List κ} (hp : Trail parents p k) (hq : Trail parents q k) : p = q := by
  induction hp generalizing q with
  | root hmem =>
    cases hq with
    | root => rfl
    | step hmem' => cases eq_of_mem_parents h hmem hmem'
  | step hmem tail ih =>
    cases hq with
    | root hmem' => cases eq_of_mem_parents h hmem hmem'
    | step hmem' tail' =>
      cases eq_of_mem_parents h hmem hmem'
      rw [ih tail']

theorem find?_parents (h : (parents.map Prod.fst).Nodup)
    {a : Option κ} (ha : (k, a) ∈ parents) :
    parents.find? (fun entry => entry.1 = k) = some (k, a) := by
  cases hfind : parents.find? fun entry => entry.1 = k with
  | none => exact absurd (decide_eq_true rfl) (List.find?_eq_none.1 hfind _ ha)
  | some entry =>
    have hkey : entry.1 = k := by
      simpa using List.find?_some hfind
    rw [List.inj_on_of_nodup_map h (List.mem_of_find?_eq_some hfind) ha hkey]

theorem trailBack_eq (h : (parents.map Prod.fst).Nodup)
    (ht : Trail parents p k) {fuel : Nat} (hfuel : p.length ≤ fuel) :
    trailBack parents fuel k = p.reverse := by
  induction ht generalizing fuel with
  | root hmem =>
    cases fuel with
    | zero => exact absurd hfuel (by simp)
    | succ =>
      rw [trailBack, find?_parents h hmem]
      rfl
  | step hmem tail ih =>
    rw [List.length_append, List.length_singleton] at hfuel
    cases fuel with
    | zero => omega
    | succ =>
      rw [trailBack, find?_parents h hmem]
      simp only
      rw [ih (by omega), List.reverse_append, List.reverse_singleton, List.singleton_append]

/-! ## The invariant -/

/-- What holds while the children of `seq` are looked at; `parents` are the vertices that are done,
    then `seq`, then the queue. -/
structure Visiting (children : κ → List κ) (seed : κ) (done : List κ) (seq : κ) (s : Search κ) :
    Prop where
  nodup : (s.parents.map Prod.fst).Nodup
  order : s.parents.map Prod.fst = done ++ seq :: s.queue
  root : ∀ k, (k, none) ∈ s.parents → k = seed
  edge : ∀ k u, (k, some u) ∈ s.parents → k ∈ children u
  trails : ∀ k ∈ s.parents.map Prod.fst, ∃ p, Trail s.parents p k ∧ p.length ≤ s.parents.length
  closed : ∀ u ∈ done, ∀ c ∈ children u, c ∈ s.parents.map Prod.fst ∧
    ∀ p q, Trail s.parents p u → Trail s.parents q c → q.length ≤ p.length + 1
  near : ∀ y p q, Trail s.parents p seq → Trail s.parents q y → q.length ≤ p.length + 1
  far : ∀ y ∈ s.queue, ∀ p q, Trail s.parents p seq → Trail s.parents q y → p.length ≤ q.length
  sorted : s.queue.Pairwise fun x y =>
    ∀ p q, Trail s.parents p x → Trail s.parents q y → p.length ≤ q.length

/-- What holds between two vertices. -/
structure Sound (children : κ → List κ) (seed : κ) (done : List κ) (s : Search κ) : Prop where
  nodup : (s.parents.map Prod.fst).Nodup
  order : s.parents.map Prod.fst = done ++ s.queue
  root : ∀ k, (k, none) ∈ s.parents → k = seed
  found : (seed, none) ∈ s.parents
  edge : ∀ k u, (k, some u) ∈ s.parents → k ∈ children u
  trails : ∀ k ∈ s.parents.map Prod.fst, ∃ p, Trail s.parents p k ∧ p.length ≤ s.parents.length
  closed : ∀ u ∈ done, ∀ c ∈ children u, c ∈ s.parents.map Prod.fst ∧
    ∀ p q, Trail s.parents p u → Trail s.parents q c → q.length ≤ p.length + 1
  near : ∀ seq queue, s.queue = seq :: queue →
    ∀ y p q, Trail s.parents p seq → Trail s.parents q y → q.length ≤ p.length + 1
  sorted : s.queue.Pairwise fun x y =>
    ∀ p q, Trail s.parents p x → Trail s.parents q y → p.length ≤ q.length

variable {seed seq : κ} {done : List κ} {s : Search κ}

omit [DecidableEq κ] in
/-- Trails to what was found before are the old ones. -/
theorem trail_of_found {parents' : List (κ × Option κ)} (hsub : parents ⊆ parents')
    (hnodup : (parents'.map Prod.fst).Nodup) {q : List κ} (hp : Trail parents p k)
    (hq : Trail parents' q k) : Trail parents q k := by
  rw [Trail.unique hnodup hq (hp.mono hsub)]
  exact hp

/-- Finding one child keeps the invariant, and the child is found. -/
theorem Visiting.discover (h : Visiting children seed done seq s) {child : κ}
    (hchild : child ∈ children seq) :
    Visiting children seed done seq (discover seq s child) ∧
      child ∈ (discover seq s child).parents.map Prod.fst ∧
      s.parents ⊆ (discover seq s child).parents := by
  unfold BreadthFirst.discover
  by_cases hold : child ∈ s.parents.map Prod.fst
  · rw [if_pos hold]
    exact ⟨h, hold, fun _ hx => hx⟩
  rw [if_neg hold]
  have hsub : s.parents ⊆ s.parents ++ [(child, some seq)] := List.subset_append_left _ _
  have hkeys : (s.parents ++ [(child, some seq)]).map Prod.fst =
      s.parents.map Prod.fst ++ [child] := by
    rw [List.map_append, List.map_singleton]
  have hnodup : ((s.parents ++ [(child, some seq)]).map Prod.fst).Nodup := by
    rw [hkeys, List.nodup_append]
    refine ⟨h.nodup, List.nodup_singleton child, fun x hx y hy heq => ?_⟩
    rw [List.mem_singleton] at hy
    rw [heq, hy] at hx
    exact hold hx
  have hseq : seq ∈ s.parents.map Prod.fst := by
    rw [h.order]
    exact List.mem_append_right _ List.mem_cons_self
  obtain ⟨p₀, hp₀, hlen₀⟩ := h.trails seq hseq
  -- A trail of the new map is an old one, or that of the new child.
  have hcases : ∀ y q, Trail (s.parents ++ [(child, some seq)]) q y →
      Trail s.parents q y ∨ (y = child ∧ q = p₀ ++ [child]) := by
    intro y q hq
    have hy := hq.mem
    rw [hkeys, List.mem_append, List.mem_singleton] at hy
    rcases hy with hy | rfl
    · obtain ⟨p, hp, -⟩ := h.trails y hy
      exact Or.inl (trail_of_found hsub hnodup hp hq)
    · refine Or.inr ⟨rfl, Trail.unique hnodup hq (.step ?_ (hp₀.mono hsub))⟩
      exact List.mem_append_right _ (List.mem_singleton.2 rfl)
  have hseqOld : ∀ p, Trail (s.parents ++ [(child, some seq)]) p seq → p = p₀ :=
    fun p hp => Trail.unique hnodup hp (hp₀.mono hsub)
  refine ⟨?_, ?_, hsub⟩
  · constructor
    · exact hnodup
    · rw [hkeys, h.order]
      simp
    · intro k hk
      rcases List.mem_append.1 hk with hk | hk
      · exact h.root k hk
      · cases List.mem_singleton.1 hk
    · intro k u hk
      rcases List.mem_append.1 hk with hk | hk
      · exact h.edge k u hk
      · cases List.mem_singleton.1 hk
        exact hchild
    · intro k hk
      rw [hkeys, List.mem_append, List.mem_singleton] at hk
      rw [List.length_append, List.length_singleton]
      rcases hk with hk | rfl
      · obtain ⟨p, hp, hlen⟩ := h.trails k hk
        exact ⟨p, hp.mono hsub, by omega⟩
      · refine ⟨p₀ ++ [k], .step (List.mem_append_right _ (List.mem_singleton.2 rfl))
          (hp₀.mono hsub), ?_⟩
        rw [List.length_append, List.length_singleton]
        omega
    · intro u hu c hc
      obtain ⟨hmem, hlen⟩ := h.closed u hu c hc
      have hu' : u ∈ s.parents.map Prod.fst := by
        rw [h.order]
        exact List.mem_append_left _ hu
      refine ⟨?_, fun p q hp hq => ?_⟩
      · rw [hkeys]
        exact List.mem_append_left _ hmem
      · obtain ⟨p₁, hp₁, -⟩ := h.trails u hu'
        obtain ⟨q₁, hq₁, -⟩ := h.trails c hmem
        exact hlen p q (trail_of_found hsub hnodup hp₁ hp) (trail_of_found hsub hnodup hq₁ hq)
    · intro y p q hp hq
      rw [hseqOld p hp]
      rcases hcases y q hq with hq | ⟨-, rfl⟩
      · exact h.near y p₀ q hp₀ hq
      · rw [List.length_append, List.length_singleton]
    · intro y hy p q hp hq
      rw [hseqOld p hp]
      rcases hcases y q hq with hq' | ⟨-, rfl⟩
      · rcases List.mem_append.1 hy with hy | hy
        · exact h.far y hy p₀ q hp₀ hq'
        · rw [List.mem_singleton.1 hy] at hq'
          exact absurd hq'.mem hold
      · rw [List.length_append, List.length_singleton]
        omega
    · rw [List.pairwise_append]
      refine ⟨?_, List.pairwise_singleton _ child, ?_⟩
      · have hqueue : ∀ x ∈ s.queue, x ∈ s.parents.map Prod.fst := by
          intro x hx
          rw [h.order]
          exact List.mem_append_right _ (List.mem_cons_of_mem _ hx)
        refine h.sorted.imp_of_mem fun {x y} hx hy hle p q hp hq => ?_
        obtain ⟨p₁, hp₁, -⟩ := h.trails x (hqueue x hx)
        obtain ⟨q₁, hq₁, -⟩ := h.trails y (hqueue y hy)
        exact hle p q (trail_of_found hsub hnodup hp₁ hp) (trail_of_found hsub hnodup hq₁ hq)
      · intro x hx y hy p q hp hq
        rw [List.mem_singleton] at hy
        subst hy
        have hx' : x ∈ s.parents.map Prod.fst := by
          rw [h.order]
          exact List.mem_append_right _ (List.mem_cons_of_mem _ hx)
        rcases hcases y q hq with hq | ⟨-, rfl⟩
        · exact absurd hq.mem hold
        · rcases hcases x p hp with hp | ⟨rfl, -⟩
          · rw [List.length_append, List.length_singleton]
            exact h.near x p₀ p hp₀ hp
          · exact absurd hx' hold
  · rw [hkeys]
    exact List.mem_append_right _ (List.mem_singleton.2 rfl)

theorem Visiting.discoverAll (h : Visiting children seed done seq s) {found : List κ}
    (hfound : ∀ child ∈ found, child ∈ children seq) :
    Visiting children seed done seq (found.foldl (BreadthFirst.discover seq) s) ∧
      (∀ child ∈ found, child ∈ (found.foldl (BreadthFirst.discover seq) s).parents.map Prod.fst) ∧
      s.parents ⊆ (found.foldl (BreadthFirst.discover seq) s).parents := by
  induction found generalizing s with
  | nil => exact ⟨h, fun _ hchild => absurd hchild List.not_mem_nil, fun _ hx => hx⟩
  | cons child found ih =>
    obtain ⟨hone, hmem, hsub⟩ := h.discover (hfound child List.mem_cons_self)
    obtain ⟨hall, hmems, hsubs⟩ := ih hone fun c hc => hfound c (List.mem_cons_of_mem _ hc)
    refine ⟨hall, fun c hc => ?_, fun x hx => hsubs (hsub hx)⟩
    rcases List.mem_cons.1 hc with rfl | hc
    · exact (List.map_subset Prod.fst hsubs) hmem
    · exact hmems c hc

/-- One turn: a vertex is taken from the queue and its children are found. -/
theorem Sound.turn (h : Sound children seed done s) {queue : List κ} (hqueue : s.queue = seq :: queue) :
    Sound children seed (done ++ [seq])
        ((children seq).foldl (discover seq) { s with queue }) ∧
      s.parents ⊆ ((children seq).foldl (discover seq) { s with queue }).parents := by
  have hsorted := h.sorted
  rw [hqueue, List.pairwise_cons] at hsorted
  have hvisiting : Visiting children seed done seq { s with queue } :=
    { nodup := h.nodup
      order := by
        show s.parents.map Prod.fst = done ++ seq :: queue
        rw [h.order, hqueue]
      root := h.root
      edge := h.edge
      trails := h.trails
      closed := h.closed
      near := h.near seq queue hqueue
      far := hsorted.1
      sorted := hsorted.2 }
  obtain ⟨hdone, hchildren, hsub⟩ := hvisiting.discoverAll fun child hchild => hchild
  refine ⟨?_, hsub⟩
  constructor
  · exact hdone.nodup
  · rw [hdone.order, List.append_assoc, List.singleton_append]
  · exact hdone.root
  · exact hsub h.found
  · exact hdone.edge
  · exact hdone.trails
  · intro u hu c hc
    rcases List.mem_append.1 hu with hu | hu
    · exact hdone.closed u hu c hc
    · rw [List.mem_singleton.1 hu] at hc ⊢
      exact ⟨hchildren c hc, fun p q hp hq => hdone.near c p q hp hq⟩
  · intro next rest hnext y p q hp hq
    -- The next vertex is not nearer than the one that is done.
    have hseq : seq ∈ ((children seq).foldl (discover seq) { s with queue }).parents.map Prod.fst := by
      rw [hdone.order]
      exact List.mem_append_right _ List.mem_cons_self
    obtain ⟨p₀, hp₀, -⟩ := hdone.trails seq hseq
    have hnear := hdone.near y p₀ q hp₀ hq
    have hfar := hdone.far next (by rw [hnext]; exact List.mem_cons_self) p₀ p hp₀ hp
    omega
  · exact hdone.sorted

omit [DecidableEq κ] in
theorem sound_start (children : κ → List κ) (seed : κ) : Sound children seed [] (start seed) := by
  have htrail : ∀ k q, Trail (start seed).parents q k → q = [seed] := by
    intro k q hq
    cases hq with
    | root hmem =>
      cases List.mem_singleton.1 hmem
      rfl
    | step hmem => cases List.mem_singleton.1 hmem
  constructor
  · exact List.nodup_singleton seed
  · rfl
  · intro k hk
    cases List.mem_singleton.1 hk
    rfl
  · exact List.mem_singleton.2 rfl
  · intro k u hk
    cases List.mem_singleton.1 hk
  · intro k hk
    rw [List.mem_singleton.1 hk]
    exact ⟨[seed], .root (List.mem_singleton.2 rfl), Nat.le_refl _⟩
  · exact fun u hu => absurd hu List.not_mem_nil
  · intro next rest hnext y p q hp hq
    rw [htrail _ p hp, htrail _ q hq]
    exact Nat.le_succ _
  · exact List.pairwise_singleton _ seed

/-! ## Runs -/

/-- The whole search: what it deals with is what it has found, each with its trail. -/
theorem search_sound (h : Sound children seed done s) {U : List κ}
    (hU : ∀ u ∈ U, ∀ c ∈ children u, c ∈ U) (hseed : seed ∈ U) {fuel : Nat}
    (hfuel : U.length ≤ fuel + done.length) :
    ∃ final, Sound children seed (done ++ (search children fuel s).map Prod.fst) final ∧
      final.queue = [] ∧ s.parents ⊆ final.parents ∧
      ∀ e ∈ search children fuel s, Trail final.parents e.2 e.1 := by
  -- Everything found lies in `U`, so there are no more than `U.length` turns.
  have hwithin : ∀ {done' : List κ} {s' : Search κ}, Sound children seed done' s' →
      ∀ p k, Trail s'.parents p k → k ∈ U := by
    intro done' s' hs' p k hp
    induction hp with
    | root hmem =>
      rw [hs'.root _ hmem]
      exact hseed
    | step hmem tail ih => exact hU _ ih _ (hs'.edge _ _ hmem)
  induction fuel generalizing done s with
  | zero =>
    have hle : (s.parents.map Prod.fst).length ≤ U.length := by
      refine (List.subperm_of_subset h.nodup fun k hk => ?_).length_le
      obtain ⟨p, hp, -⟩ := h.trails k hk
      exact hwithin h p k hp
    rw [h.order, List.length_append] at hle
    have hempty : s.queue = [] := List.length_eq_zero_iff.1 (by omega)
    refine ⟨s, ?_, hempty, fun _ hx => hx, fun e he => absurd he List.not_mem_nil⟩
    rw [search, List.map_nil, List.append_nil]
    exact h
  | succ fuel ih =>
    rw [search]
    cases hqueue : s.queue with
    | nil =>
      refine ⟨s, ?_, hqueue, fun _ hx => hx, fun e he => absurd he List.not_mem_nil⟩
      rw [List.map_nil, List.append_nil]
      exact h
    | cons seq =>
      simp only
      obtain ⟨hnext, hsub⟩ := h.turn hqueue
      have hlength : U.length ≤ fuel + (done ++ [seq]).length := by
        rw [List.length_append, List.length_singleton]
        omega
      obtain ⟨final, hfinal, hempty, hsubs, htrails⟩ := ih hnext hlength
      refine ⟨final, ?_, hempty, fun x hx => hsubs (hsub hx), fun e he => ?_⟩
      · rw [List.map_cons, ← List.singleton_append, ← List.append_assoc]
        exact hfinal
      · rcases List.mem_cons.1 he with rfl | he
        · have hseq : seq ∈ s.parents.map Prod.fst := by
            rw [h.order, hqueue]
            exact List.mem_append_right _ List.mem_cons_self
          obtain ⟨p, hp, hlen⟩ := h.trails seq hseq
          have hpath : pathTo s.parents seq = p := by
            unfold pathTo
            rw [trailBack_eq h.nodup hp hlen, List.reverse_reverse]
          rw [hpath]
          exact hp.mono fun x hx => hsubs (hsub hx)
        · exact htrails e he

omit [DecidableEq κ] in
/-- A trail is a path from the seed. -/
theorem Trail.isPath (hroot : ∀ k, (k, none) ∈ parents → k = seed)
    (hedge : ∀ k u, (k, some u) ∈ parents → k ∈ children u)
    (ht : Trail parents p k) : IsPath children seed k p := by
  induction ht with
  | root hmem =>
    rw [hroot _ hmem]
    exact isPath_singleton seed
  | step hmem tail ih => exact ih.snoc (hedge _ _ hmem)

omit [DecidableEq κ] in
/-- When the queue is empty no path is shorter than the trail. -/
theorem Sound.shortest (h : Sound children seed done s) (hempty : s.queue = [])
    (hpath : IsPath children seed k path) :
    k ∈ done ∧ ∀ p, Trail s.parents p k → p.length ≤ path.length := by
  have hdone : ∀ y, y ∈ s.parents.map Prod.fst → y ∈ done := by
    intro y hy
    rw [h.order, hempty, List.append_nil] at hy
    exact hy
  induction path using List.reverseRecOn generalizing k with
  | nil => exact absurd rfl hpath.nonempty
  | append_singleton front c ih =>
    have hlast := hpath.last
    rw [List.getLast?_append, List.getLast?_singleton, Option.some_or] at hlast
    cases hlast
    rw [List.length_append, List.length_singleton]
    rcases hfront : front.getLast? with _ | u
    · rw [List.getLast?_eq_none_iff] at hfront
      subst hfront
      cases hpath.head
      refine ⟨hdone seed (List.mem_map_of_mem h.found), fun p hp => ?_⟩
      rw [Trail.unique h.nodup hp (.root h.found)]
      exact Nat.le_refl _
    · obtain ⟨hfrontPath, hlink⟩ := hpath.front hfront
      obtain ⟨hu, hshort⟩ := ih hfrontPath
      have hfound : u ∈ s.parents.map Prod.fst := by
        rw [h.order]
        exact List.mem_append_left _ hu
      obtain ⟨q, hq, -⟩ := h.trails u hfound
      obtain ⟨hmem, hnear⟩ := h.closed u hu c hlink
      refine ⟨hdone c hmem, fun p hp => ?_⟩
      have hle := hnear q p hq hp
      have hfrontLe := hshort q hq
      omega

/-- A search with enough turns: the vertices it deals with are those that are reached, each of them
    once, and with each it gives a shortest path. -/
theorem search_start {U : List κ} (hU : ∀ u ∈ U, ∀ c ∈ children u, c ∈ U) (hseed : seed ∈ U)
    {fuel : Nat} (hfuel : U.length ≤ fuel) :
    ((search children fuel (start seed)).map Prod.fst).Nodup ∧
      (∀ k, k ∈ (search children fuel (start seed)).map Prod.fst ↔ Reaches children seed k) ∧
      ∀ e ∈ search children fuel (start seed), IsPath children seed e.1 e.2 ∧
        ∀ path, IsPath children seed e.1 path → e.2.length ≤ path.length := by
  obtain ⟨final, hfinal, hempty, -, htrails⟩ :=
    search_sound (sound_start children seed) hU hseed (show U.length ≤ fuel + 0 from hfuel)
  rw [List.nil_append] at hfinal
  have hkeys : final.parents.map Prod.fst =
      (search children fuel (start seed)).map Prod.fst := by
    rw [hfinal.order, hempty, List.append_nil]
  refine ⟨?_, fun k => ⟨fun hk => ?_, fun hk => ?_⟩, fun e he => ⟨?_, fun path hpath => ?_⟩⟩
  · rw [← hkeys]
    exact hfinal.nodup
  · obtain ⟨e, he, rfl⟩ := List.mem_map.1 hk
    exact ((htrails e he).isPath hfinal.root hfinal.edge).reaches
  · obtain ⟨path, hpath⟩ := exists_isPath hk
    exact (hfinal.shortest hempty hpath).1
  · exact (htrails e he).isPath hfinal.root hfinal.edge
  · exact (hfinal.shortest hempty hpath).2 e.2 (htrails e he)

end XioFlow.Lib.BreadthFirst
