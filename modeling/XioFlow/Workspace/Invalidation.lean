/-
  XioFlow.Workspace.Invalidation

  A change invalidates exactly what is reached from it, and each reason that
  is given for it is a shortest path from the change.
-/

import XioFlow.Workspace.Recomputation

namespace XioFlow

open Lib Lib.Prog
open CausalNode

namespace WorkspaceCausalGraph

/-! ## What is selected -/

/-- The nodes a plan is about: those of the cut, or of the view of the heads. -/
def Shown (ns : List CausalNode) (atSeq : Nat) : Option (List Nat) → CausalNode → Prop
  | none, n => n.seq ≤ atSeq
  | some heads, n => ∃ seq ∈ heads, Reaches ns n.seq seq

/-- The cut is one, and the heads are in it. -/
def Selects (ns : List CausalNode) (atSeq : Nat) (heads : Option (List Nat)) : Prop :=
  atSeq ≤ maxSafeInteger ∧ ∀ hs, heads = some hs → HeadsKnown ns hs atSeq

variable {domainId : String} {ns : List CausalNode} {s : SqliteStore}

theorem selected_ok (hns : nodes domainId maxSafeInteger s = .ok ns)
    (hgrown : Grown ns) (atSeq : Nat) (heads : Option (List Nat)) :
    ((∃ part, selected domainId atSeq heads s = .ok part) ↔ Selects ns atSeq heads) ∧
    ∀ part, selected domainId atSeq heads s = .ok part →
      Closed ns part ∧ ∀ n ∈ ns, n ∈ part ↔ Shown ns atSeq heads n := by
  cases heads with
  | none =>
    unfold selected
    by_cases hsafe : atSeq ≤ maxSafeInteger
    · simp only [nodes_cut hns hsafe]
      refine ⟨⟨fun _ => ⟨hsafe, nofun⟩, fun _ => ⟨_, rfl⟩⟩, fun part hpart => ?_⟩
      cases hpart
      refine ⟨closed_cut hgrown (nodes_increasing hns) atSeq, fun n hn => ?_⟩
      rw [List.mem_filter, decide_eq_true_eq, and_iff_right hn]
      exact Iff.rfl
    · have herror : nodes domainId atSeq s = .error (.error "Invalid causal history sequence") := by
        unfold nodes
        exact if_pos (by omega)
      simp only [herror]
      refine ⟨⟨?_, fun h => absurd h.1 hsafe⟩, nofun⟩
      rintro ⟨part, ⟨⟩⟩
  | some heads =>
    unfold selected
    obtain ⟨hiff, hexact⟩ := view_ok hns hgrown heads atSeq
    have hselects : Selects ns atSeq (some heads) ↔
        atSeq ≤ maxSafeInteger ∧ HeadsKnown ns heads atSeq := by
      unfold Selects
      simp
    rw [hselects, ← hiff]
    constructor
    · constructor
      · rintro ⟨part, hpart⟩
        obtain ⟨v, hv, -⟩ := except_map_ok hpart
        exact ⟨v, hv⟩
      · rintro ⟨v, hv⟩
        refine ⟨v.nodes, ?_⟩
        show Except.map _ (view domainId heads atSeq s) = _
        rw [hv]
        rfl
    · intro part hpart
      obtain ⟨v, hv, rfl⟩ := except_map_ok hpart
      exact ⟨(hexact v hv).closed, (hexact v hv).exact⟩

/-! ## The sweep -/

/-- The loop marks what is reached, and parts the nodes by their marks. -/
theorem sweep_eq {part : List CausalNode} (h : Grown part) (changed : List Nat) :
    part.foldl Sweep.visit { invalid := changed } =
      let marked := Lineage.spread seq dependsOn changed part
      { invalid := marked
        invalidated := part.filter fun node => decide (node.seq ∈ marked)
        unaffected := part.filter fun node => !decide (node.seq ∈ marked) } := by
  induction h with
  | nil => rfl
  | @snoc part node grown fresh known ih =>
    -- The last node marks at most itself, and no earlier node has its number.
    have hmarked : ∀ marked : List Nat,
        (part.filter fun n => decide (n.seq ∈ node.seq :: marked)) =
          part.filter fun n => decide (n.seq ∈ marked) := by
      intro marked
      apply List.filter_congr
      intro n hn
      have hne : n.seq ≠ node.seq := fun heq => fresh (heq ▸ List.mem_map_of_mem hn)
      simp [hne]
    have hkept : ∀ marked : List Nat,
        (part.filter fun n => !decide (n.seq ∈ node.seq :: marked)) =
          part.filter fun n => !decide (n.seq ∈ marked) := by
      intro marked
      apply List.filter_congr
      intro n hn
      have hne : n.seq ≠ node.seq := fun heq => fresh (heq ▸ List.mem_map_of_mem hn)
      simp [hne]
    have hspread : Lineage.spread seq dependsOn changed (part ++ [node]) =
        if node.dependsOn.any (fun d =>
            decide (d ∈ Lineage.spread seq dependsOn changed part)) then
          node.seq :: Lineage.spread seq dependsOn changed part
        else Lineage.spread seq dependsOn changed part := by
      unfold Lineage.spread
      rw [List.foldl_append, List.foldl_cons, List.foldl_nil]
    rw [List.foldl_append, ih, List.foldl_cons, List.foldl_nil, hspread]
    generalize Lineage.spread seq dependsOn changed part = marked
    simp only [List.filter_append]
    unfold Sweep.visit
    by_cases hany : (node.dependsOn.any fun d => decide (d ∈ marked)) = true
    · simp only [hany, if_true, hmarked, hkept]
      simp
    · simp only [hany, Bool.false_eq_true, if_false]
      by_cases hmem : node.seq ∈ marked
      · simp [hmem]
      · simp [hmem]

/-! ## Plans -/

/-- Some changed node leads to the node. -/
def Affected (ns : List CausalNode) (changed : List Nat) (n : CausalNode) : Prop :=
  ∃ c ∈ changed, Reaches ns c n.seq

/-- The two lists stand in journal order, and part what is shown by what the change reaches. -/
structure ExactPlan (ns : List CausalNode) (shown : CausalNode → Prop) (changed : List Nat)
    (plan : RecomputationPlan) : Prop where
  invalidatedOrder : plan.invalidated.Sublist ns
  unaffectedOrder : plan.unaffected.Sublist ns
  invalidated : ∀ n ∈ ns, n ∈ plan.invalidated ↔ shown n ∧ Affected ns changed n
  unaffected : ∀ n ∈ ns, n ∈ plan.unaffected ↔ shown n ∧ ¬ Affected ns changed n

/-- The changed nodes are shown. -/
def ChangedShown (ns : List CausalNode) (shown : CausalNode → Prop) (changed : List Nat) : Prop :=
  ∀ c ∈ changed, ∃ n ∈ ns, n.seq = c ∧ shown n

/-- What is selected, swept for the change. -/
theorem planRecomputation_part {changed : List Nat} {atSeq : Nat}
    {heads : Option (List Nat)} {plan : RecomputationPlan}
    (h : planRecomputation domainId changed atSeq heads s = .ok plan) :
    ∃ part, selected domainId atSeq heads s = .ok part ∧
      (∀ c ∈ changed, c ∈ part.map seq) ∧
      plan = ⟨(part.foldl Sweep.visit { invalid := changed }).invalidated,
        (part.foldl Sweep.visit { invalid := changed }).unaffected⟩ := by
  unfold planRecomputation at h
  obtain ⟨part, hpart, hrest⟩ := except_bind_ok h
  split at hrest
  · cases hrest
  · rename_i hknown
    cases hrest
    refine ⟨part, hpart, fun c hc => ?_, rfl⟩
    have htest := List.any_eq_false.1 (Bool.eq_false_iff.2 hknown) c hc
    simpa using htest

/-- The plan over a closed part of the graph. -/
theorem exactPlan_of_closed {part : List CausalNode} (hgrown : Grown ns)
    (hclosed : Closed ns part) {shown : CausalNode → Prop} (hshown : ∀ n ∈ ns, n ∈ part ↔ shown n)
    (changed : List Nat) :
    ExactPlan ns shown changed
      ⟨(part.foldl Sweep.visit { invalid := changed }).invalidated,
        (part.foldl Sweep.visit { invalid := changed }).unaffected⟩ := by
  have hpart := hgrown.closed hclosed
  have hmarked : ∀ n ∈ part,
      n.seq ∈ Lineage.spread seq dependsOn changed part ↔
        Affected ns changed n := by
    intro n hn
    rw [Lineage.mem_spread hpart]
    have hkey : n.seq ∈ part.map seq := List.mem_map_of_mem hn
    unfold Affected
    simp only [Lineage.reaches_closed_iff hgrown hclosed hkey]
  rw [sweep_eq hpart]
  constructor
  · exact List.filter_sublist.trans hclosed.sublist
  · exact List.filter_sublist.trans hclosed.sublist
  · intro n hn
    show n ∈ part.filter _ ↔ _
    rw [List.mem_filter, decide_eq_true_eq, ← hshown n hn]
    exact and_congr_right fun hmem => hmarked n hmem
  · intro n hn
    show n ∈ part.filter _ ↔ _
    rw [List.mem_filter, Bool.not_eq_true', decide_eq_false_iff_not, ← hshown n hn]
    exact and_congr_right fun hmem => not_congr (hmarked n hmem)

theorem planRecomputation_ok (hns : nodes domainId maxSafeInteger s = .ok ns)
    (hgrown : Grown ns) (changed : List Nat) (atSeq : Nat) (heads : Option (List Nat)) :
    ((∃ plan, planRecomputation domainId changed atSeq heads s = .ok plan) ↔
      Selects ns atSeq heads ∧ ChangedShown ns (Shown ns atSeq heads) changed) ∧
    ∀ plan, planRecomputation domainId changed atSeq heads s = .ok plan →
      ExactPlan ns (Shown ns atSeq heads) changed plan := by
  obtain ⟨hselects, hexact⟩ := selected_ok hns hgrown atSeq heads
  have hmember : ∀ part, selected domainId atSeq heads s = .ok part → ∀ c,
      c ∈ part.map seq ↔ ∃ n ∈ ns, n.seq = c ∧ Shown ns atSeq heads n := by
    intro part hpart c
    obtain ⟨hclosed, hshown⟩ := hexact part hpart
    constructor
    · intro hc
      obtain ⟨n, hn, rfl⟩ := List.mem_map.1 hc
      have hmem := hclosed.sublist.subset hn
      exact ⟨n, hmem, rfl, (hshown n hmem).1 hn⟩
    · rintro ⟨n, hn, rfl, hshow⟩
      exact List.mem_map_of_mem ((hshown n hn).2 hshow)
  refine ⟨⟨?_, ?_⟩, fun plan hplan => ?_⟩
  · rintro ⟨plan, hplan⟩
    obtain ⟨part, hpart, hchanged, -⟩ := planRecomputation_part hplan
    exact ⟨hselects.1 ⟨part, hpart⟩, fun c hc => (hmember part hpart c).1 (hchanged c hc)⟩
  · rintro ⟨hsel, hchanged⟩
    obtain ⟨part, hpart⟩ := hselects.2 hsel
    have hknown : ¬ (changed.any fun seq => !decide (seq ∈ part.map CausalNode.seq)) = true := by
      intro hany
      obtain ⟨c, hc, htest⟩ := List.any_eq_true.1 hany
      have hmem := (hmember part hpart c).2 (hchanged c hc)
      rw [decide_eq_true hmem] at htest
      cases htest
    refine ⟨⟨(part.foldl Sweep.visit { invalid := changed }).invalidated,
      (part.foldl Sweep.visit { invalid := changed }).unaffected⟩, ?_⟩
    unfold planRecomputation
    rw [hpart]
    exact if_neg hknown
  · obtain ⟨part, hpart, -, rfl⟩ := planRecomputation_part hplan
    obtain ⟨hclosed, hshown⟩ := hexact part hpart
    exact exactPlan_of_closed hgrown hclosed hshown changed

/-! ## Paths -/

abbrev Needs (ns : List CausalNode) (d k : Nat) : Prop :=
  Lineage.Needs seq dependsOn ns d k

/-- From `a` to `b` along declared dependencies. -/
structure DeclaredPath (ns : List CausalNode) (a b : Nat) (path : List Nat) : Prop where
  chain : path.IsChain (Needs ns)
  head : path.head? = some a
  last : path.getLast? = some b

theorem mem_childrenIn {nodes : List CausalNode} {u v : Nat} :
    v ∈ childrenIn nodes u ↔ Needs nodes u v := by
  unfold childrenIn
  simp only [List.mem_flatMap, List.mem_map, List.mem_filter, decide_eq_true_eq]
  constructor
  · rintro ⟨node, hnode, d, ⟨hd, rfl⟩, rfl⟩
    exact ⟨node, hnode, rfl, hd⟩
  · rintro ⟨node, hnode, rfl, hd⟩
    exact ⟨node, hnode, u, ⟨hd, rfl⟩, rfl⟩

theorem isPath_childrenIn {nodes : List CausalNode} {a b : Nat} {path : List Nat} :
    BreadthFirst.IsPath (childrenIn nodes) a b path ↔ DeclaredPath nodes a b path := by
  have hchain : (path.IsChain fun u v => v ∈ childrenIn nodes u) ↔ path.IsChain (Needs nodes) :=
    ⟨fun h => h.imp fun _ _ => mem_childrenIn.1, fun h => h.imp fun _ _ => mem_childrenIn.2⟩
  exact ⟨fun h => ⟨hchain.1 h.chain, h.head, h.last⟩, fun h => ⟨hchain.2 h.chain, h.head, h.last⟩⟩

theorem reaches_childrenIn {nodes : List CausalNode} {a b : Nat} :
    BreadthFirst.Reaches (childrenIn nodes) a b ↔ Reaches nodes a b :=
  ⟨Relation.ReflTransGen.mono (fun _ _ => mem_childrenIn.1) a b,
    Relation.ReflTransGen.mono (fun _ _ => mem_childrenIn.2) a b⟩

/-! ## Between a change and what it invalidates -/

/-- Some nodes of a graph: all that the changed ones lead to in a closed part of it. -/
structure Invalidates (ns part : List CausalNode) (changed : List Nat) (nodes : List CausalNode) :
    Prop where
  grown : Grown ns
  closed : Closed ns part
  seeds : ∀ c ∈ changed, c ∈ part.map seq
  exact : ∀ n, n ∈ nodes ↔ n ∈ part ∧ Affected ns changed n

section Causes

variable {ns part nodes : List CausalNode} {changed : List Nat}

variable {c : Nat}

/-- A path from a change into what it invalidates does not leave it. -/
theorem Invalidates.between (h : Invalidates ns part changed nodes) {u v : Nat} (hc : c ∈ changed)
    (hreaches : Reaches ns c u) (hneeds : Needs ns u v) (hv : v ∈ nodes.map seq) :
    u ∈ nodes.map seq ∧ Needs nodes u v := by
  obtain ⟨node, hnode, rfl⟩ := List.mem_map.1 hv
  obtain ⟨hpart, -⟩ := (h.exact node).1 hnode
  obtain ⟨other, hother, heq, hu⟩ := hneeds
  have hsame : other = node :=
    List.inj_on_of_nodup_map h.grown.nodup hother (h.closed.sublist.subset hpart) heq
  subst hsame
  obtain ⟨source, hsource, rfl⟩ := List.mem_map.1 (h.closed.closed other hpart u hu)
  exact ⟨List.mem_map_of_mem ((h.exact source).2 ⟨hsource, c, hc, hreaches⟩), other, hnode, rfl, hu⟩

theorem Invalidates.subset (h : Invalidates ns part changed nodes) : nodes ⊆ ns :=
  fun n hn => h.closed.sublist.subset ((h.exact n).1 hn).1

variable {k : Nat}

theorem Invalidates.reaches_iff (h : Invalidates ns part changed nodes) (hc : c ∈ changed)
    (hk : k ∈ nodes.map seq) : Reaches nodes c k ↔ Reaches ns c k := by
  constructor
  · exact Lineage.reaches_mono h.subset
  · intro hreaches
    induction hreaches with
    | refl => exact Relation.ReflTransGen.refl
    | tail hcb hneeds ih =>
      obtain ⟨hb, hinner⟩ := h.between hc hcb hneeds hk
      exact (ih hb).tail hinner

theorem DeclaredPath.mono {ns' : List CausalNode} (h : ns ⊆ ns') {a b : Nat} {path : List Nat}
    (hpath : DeclaredPath ns a b path) : DeclaredPath ns' a b path :=
  ⟨hpath.chain.imp fun _ _ hneeds => hneeds.mono h, hpath.head, hpath.last⟩

theorem Invalidates.path_iff (h : Invalidates ns part changed nodes) (hc : c ∈ changed)
    (hk : k ∈ nodes.map seq) {path : List Nat} :
    DeclaredPath nodes c k path ↔ DeclaredPath ns c k path := by
  constructor
  · exact fun hpath => hpath.mono h.subset
  · intro hpath
    induction path using List.reverseRecOn generalizing k with
    | nil => cases hpath.head
    | append_singleton front last ih =>
      have hlast := hpath.last
      rw [List.getLast?_append, List.getLast?_singleton, Option.some_or] at hlast
      cases hlast
      rcases hfront : front.getLast? with _ | u
      · rw [List.getLast?_eq_none_iff] at hfront
        subst hfront
        exact ⟨List.isChain_singleton last, hpath.head, rfl⟩
      · obtain ⟨houter, hlink⟩ :=
          BreadthFirst.IsPath.front (isPath_childrenIn.2 hpath) hfront
        have hto := reaches_childrenIn.1 houter.reaches
        obtain ⟨hu, hneeds⟩ := h.between hc hto (mem_childrenIn.1 hlink) hk
        have hinner := isPath_childrenIn.2 (ih hu (isPath_childrenIn.1 houter))
        exact isPath_childrenIn.1 (hinner.snoc (mem_childrenIn.2 hneeds))

/-! ## Causes -/

/-- The causes that a search gives to one node. -/
def causesFor (changedSeq : Nat) (found : List (Nat × List Nat)) (nodeSeq : Nat) :
    List CausalInvalidationCause :=
  (found.filter fun entry => entry.1 = nodeSeq).map fun entry => ⟨changedSeq, entry.2⟩

theorem foldl_pushCause (changedSeq : Nat) (found : List (Nat × List Nat))
    (explanations : List Explanation) :
    found.foldl (pushCause changedSeq) explanations =
      explanations.map fun e =>
        { e with causes := e.causes ++ causesFor changedSeq found e.nodeSeq } := by
  induction found generalizing explanations with
  | nil =>
    unfold causesFor
    simp
  | cons entry found ih =>
    rw [List.foldl_cons, ih]
    unfold pushCause
    rw [List.map_map]
    apply List.map_congr_left
    intro e _
    unfold causesFor
    simp only [Function.comp_apply]
    by_cases hkey : e.nodeSeq = entry.1
    · simp [hkey]
    · have hkey' : ¬ entry.1 = e.nodeSeq := fun heq => hkey heq.symm
      simp [hkey, hkey']

/-- The causes of a node: those of the seeds, one seed after the other. -/
theorem foldl_explainSeed (invalidated : List CausalNode) (seeds : List Nat)
    (explanations : List Explanation) :
    seeds.foldl (explainSeed invalidated) explanations =
      explanations.map fun e =>
        { e with causes := e.causes ++ seeds.flatMap fun c =>
            causesFor c (BreadthFirst.search (childrenIn invalidated) invalidated.length
              (BreadthFirst.start c)) e.nodeSeq } := by
  induction seeds generalizing explanations with
  | nil => simp
  | cons c seeds ih =>
    rw [List.foldl_cons, ih]
    unfold explainSeed
    rw [foldl_pushCause, List.map_map]
    apply List.map_congr_left
    intro e _
    simp only [Function.comp_apply, List.flatMap_cons, List.append_assoc]

/-- The causes of a node: one for each change that reaches it, with a shortest path, the changes in
    ascending order. -/
structure ExactCauses (ns : List CausalNode) (changed : List Nat) (e : Explanation) : Prop where
  ascending : (e.causes.map CausalInvalidationCause.changedSeq).Pairwise (· < ·)
  seeds : ∀ c, c ∈ e.causes.map CausalInvalidationCause.changedSeq ↔
    c ∈ changed ∧ Reaches ns c e.nodeSeq
  paths : ∀ cause ∈ e.causes, DeclaredPath ns cause.changedSeq e.nodeSeq cause.path ∧
    ∀ path, DeclaredPath ns cause.changedSeq e.nodeSeq path → cause.path.length ≤ path.length

/-- One seed gives one shortest path to what it reaches, and nothing else. -/
theorem Invalidates.causesFor (h : Invalidates ns part changed nodes) (hc : c ∈ changed)
    (hk : k ∈ nodes.map seq) :
    (∃ path, causesFor c (BreadthFirst.search (childrenIn nodes) nodes.length
        (BreadthFirst.start c)) k = [⟨c, path⟩] ∧ Reaches ns c k ∧ DeclaredPath ns c k path ∧
          ∀ path', DeclaredPath ns c k path' → path.length ≤ path'.length) ∨
      (causesFor c (BreadthFirst.search (childrenIn nodes) nodes.length
        (BreadthFirst.start c)) k = [] ∧ ¬ Reaches ns c k) := by
  have hwithin : ∀ u ∈ nodes.map seq, ∀ v ∈ childrenIn nodes u,
      v ∈ nodes.map seq := by
    intro u _ v hv
    obtain ⟨node, hnode, rfl, -⟩ := mem_childrenIn.1 hv
    exact List.mem_map_of_mem hnode
  have hseed : c ∈ nodes.map seq := by
    obtain ⟨node, hnode, rfl⟩ := List.mem_map.1 (h.seeds c hc)
    exact List.mem_map_of_mem ((h.exact node).2 ⟨hnode, _, hc, Relation.ReflTransGen.refl⟩)
  have hturns : (nodes.map seq).length ≤ nodes.length := by
    rw [List.length_map]
  obtain ⟨hnodup, hkeys, hpaths⟩ := BreadthFirst.search_start hwithin hseed hturns
  rw [← h.reaches_iff hc hk, ← reaches_childrenIn, ← hkeys k]
  generalize BreadthFirst.search (childrenIn nodes) nodes.length (BreadthFirst.start c) = found at *
  by_cases hfound : k ∈ found.map Prod.fst
  · left
    obtain ⟨entry, hentry, rfl⟩ := List.mem_map.1 hfound
    have hone : found.filter (fun other => decide (other.1 = entry.1)) = [entry] := by
      refine List.perm_singleton.1 ?_
      have hnodupFound : found.Nodup := List.Nodup.of_map Prod.fst hnodup
      rw [List.perm_ext_iff_of_nodup (hnodupFound.filter _) (List.nodup_singleton entry)]
      intro other
      rw [List.mem_filter, decide_eq_true_eq, List.mem_singleton]
      constructor
      · rintro ⟨hother, heq⟩
        exact List.inj_on_of_nodup_map hnodup hother hentry heq
      · rintro rfl
        exact ⟨hentry, rfl⟩
    obtain ⟨hpath, hshortest⟩ := hpaths entry hentry
    refine ⟨entry.2, ?_, hfound, ?_, fun path' hpath' => ?_⟩
    · unfold WorkspaceCausalGraph.causesFor
      rw [hone]
      rfl
    · exact (h.path_iff hc hk).1 (isPath_childrenIn.1 hpath)
    · exact hshortest path' (isPath_childrenIn.2 ((h.path_iff hc hk).2 hpath'))
  · right
    refine ⟨?_, hfound⟩
    unfold WorkspaceCausalGraph.causesFor
    rw [List.map_eq_nil_iff, List.filter_eq_nil_iff]
    intro entry hentry hkey
    exact hfound (List.mem_map.2 ⟨entry, hentry, of_decide_eq_true hkey⟩)

theorem mem_sortedSeeds {changed : List Nat} : c ∈ sortedSeeds changed ↔ c ∈ changed := by
  unfold sortedSeeds
  rw [List.mem_insertionSort, List.mem_eraseDups]

theorem sortedSeeds_ascending (changed : List Nat) : (sortedSeeds changed).Pairwise (· < ·) := by
  have hnodup : (sortedSeeds changed).Nodup :=
    (List.perm_insertionSort _ _).nodup_iff.2 (nodup_eraseDups changed)
  have hsorted : (sortedSeeds changed).Pairwise (· ≤ ·) := List.pairwise_insertionSort _ _
  exact hsorted.imp₂ (fun _ _ hle hne => Nat.lt_of_le_of_ne hle hne) hnodup

/-- The seeds, one after the other, give a node its exact causes. -/
theorem Invalidates.exactCauses (h : Invalidates ns part changed nodes)
    (hk : k ∈ nodes.map seq) :
    ExactCauses ns changed ⟨k, (sortedSeeds changed).flatMap fun c =>
      WorkspaceCausalGraph.causesFor c (BreadthFirst.search (childrenIn nodes) nodes.length
        (BreadthFirst.start c)) k⟩ := by
  have hseeds : ∀ c ∈ sortedSeeds changed, c ∈ changed := fun c hc => mem_sortedSeeds.1 hc
  have hinverse : ∀ c, c ∈ changed → c ∈ sortedSeeds changed := fun c hc => mem_sortedSeeds.2 hc
  have hascending := sortedSeeds_ascending changed
  -- Each seed adds at most one cause, of its own.
  have hown : ∀ c ∈ sortedSeeds changed, ∀ cause ∈ WorkspaceCausalGraph.causesFor c
      (BreadthFirst.search (childrenIn nodes) nodes.length (BreadthFirst.start c)) k,
      cause.changedSeq = c ∧ Reaches ns c k ∧ DeclaredPath ns c k cause.path ∧
        ∀ path, DeclaredPath ns c k path → cause.path.length ≤ path.length := by
    intro c hc cause hcause
    rcases h.causesFor (hseeds c hc) hk with ⟨path, hone, hreaches, hpath⟩ | ⟨hnone, -⟩
    · rw [hone, List.mem_singleton] at hcause
      subst hcause
      exact ⟨rfl, hreaches, hpath⟩
    · rw [hnone] at hcause
      cases hcause
  constructor
  · simp only
    rw [List.map_flatMap, List.pairwise_flatMap]
    refine ⟨fun c hc => ?_, hascending.imp_of_mem fun {c c'} hc hc' hlt x hx y hy => ?_⟩
    · rcases h.causesFor (hseeds c hc) hk with ⟨path, hone, -⟩ | ⟨hnone, -⟩
      · rw [hone]
        exact List.pairwise_singleton _ _
      · rw [hnone]
        exact List.Pairwise.nil
    · obtain ⟨cause, hcause, rfl⟩ := List.mem_map.1 hx
      obtain ⟨cause', hcause', rfl⟩ := List.mem_map.1 hy
      rw [(hown c hc cause hcause).1, (hown c' hc' cause' hcause').1]
      exact hlt
  · intro c
    simp only [List.map_flatMap, List.mem_flatMap, List.mem_map]
    constructor
    · rintro ⟨c', hc', cause, hcause, rfl⟩
      obtain ⟨heq, hreaches, -⟩ := hown c' hc' cause hcause
      rw [heq]
      exact ⟨hseeds c' hc', hreaches⟩
    · rintro ⟨hc, hreaches⟩
      rcases h.causesFor hc hk with ⟨path, hone, -⟩ | ⟨-, hnot⟩
      · refine ⟨c, hinverse c hc, ⟨c, path⟩, ?_, rfl⟩
        rw [hone]
        exact List.mem_singleton.2 rfl
      · exact absurd hreaches hnot
  · intro cause hcause
    obtain ⟨c, hc, hmem⟩ := List.mem_flatMap.1 hcause
    obtain ⟨heq, -, hpath⟩ := hown c hc cause hmem
    rw [heq]
    exact hpath

end Causes

/-! ## Invalidation in recorded graphs -/

/-- An explained plan: the plan is exact, and there is one explanation for each invalidated node, in
    their order, with exact causes. -/
structure ExactExplanation (ns : List CausalNode) (shown : CausalNode → Prop) (changed : List Nat)
    (plan : ExplainedRecomputationPlan) : Prop where
  exact : ExactPlan ns shown changed plan.toRecomputationPlan
  explained : plan.explanations.map Explanation.nodeSeq = plan.invalidated.map seq
  causes : ∀ e ∈ plan.explanations, ExactCauses ns changed e

theorem explainRecomputation_ok (hns : nodes domainId maxSafeInteger s = .ok ns)
    (hgrown : Grown ns) (changed : List Nat) (atSeq : Nat) (heads : Option (List Nat)) :
    ((∃ plan, explainRecomputation domainId changed atSeq heads s = .ok plan) ↔
      ∃ plan, planRecomputation domainId changed atSeq heads s = .ok plan) ∧
    ∀ plan, explainRecomputation domainId changed atSeq heads s = .ok plan →
      ExactExplanation ns (Shown ns atSeq heads) changed plan := by
  unfold explainRecomputation
  refine ⟨⟨?_, ?_⟩, fun explained h => ?_⟩
  · rintro ⟨explained, h⟩
    obtain ⟨plan, hplan, -⟩ := except_bind_ok h
    exact ⟨plan, hplan⟩
  · rintro ⟨plan, hplan⟩
    rw [hplan]
    exact ⟨_, rfl⟩
  · obtain ⟨plan, hplan, hrest⟩ := except_bind_ok h
    cases hrest
    obtain ⟨part, hpart, hchanged, rfl⟩ := planRecomputation_part hplan
    obtain ⟨hclosed, hshown⟩ := (selected_ok hns hgrown atSeq heads).2 part hpart
    have hexact := exactPlan_of_closed hgrown hclosed hshown changed
    simp only [foldl_explainSeed]
    generalize hinvalid : (part.foldl Sweep.visit { invalid := changed }).invalidated = invalidated
      at hexact
    have hinvalidates : Invalidates ns part changed invalidated := by
      refine ⟨hgrown, hclosed, hchanged, fun n => ?_⟩
      constructor
      · intro hn
        have hmem := hexact.invalidatedOrder.subset hn
        obtain ⟨hshow, haffected⟩ := (hexact.invalidated n hmem).1 hn
        exact ⟨(hshown n hmem).2 hshow, haffected⟩
      · rintro ⟨hn, haffected⟩
        have hmem := hclosed.sublist.subset hn
        exact (hexact.invalidated n hmem).2 ⟨(hshown n hmem).1 hn, haffected⟩
    refine ⟨hexact, ?_, fun e he => ?_⟩
    · simp
    · simp only [List.map_map, List.mem_map, Function.comp_apply] at he
      obtain ⟨node, hnode, rfl⟩ := he
      exact hinvalidates.exactCauses (List.mem_map_of_mem hnode)

/-- Invalidation is reachability, in every recorded graph: a step that is recorded is one more node
    with the dependencies that the step declares; views are the heads and what leads to them, plans
    are exact, and so are the causes they are explained with; and all three answer unless they are
    asked about something that is not there. -/
theorem invalidation_is_reachability {domainId : String} {s : SqliteStore}
    (h : Recorded domainId s) :
    ∃ ns, nodes domainId maxSafeInteger s = .ok ns ∧
      (∀ step now s' out, (record domainId step now).run s = (s', .ok out) →
        s.db.journalEvents.lastSeq < maxSafeInteger →
        ∃ node, nodes domainId maxSafeInteger s' = .ok (ns ++ [node]) ∧
          node.seq = s.db.journalEvents.lastSeq + 1 ∧ DependsAs node step) ∧
      (∀ heads atSeq,
        ((∃ v, view domainId heads atSeq s = .ok v) ↔
          atSeq ≤ maxSafeInteger ∧ HeadsKnown ns heads atSeq) ∧
        ∀ v, view domainId heads atSeq s = .ok v → IsView ns heads v) ∧
      ∀ changed atSeq heads,
        ((∃ plan, planRecomputation domainId changed atSeq heads s = .ok plan) ↔
          Selects ns atSeq heads ∧ ChangedShown ns (Shown ns atSeq heads) changed) ∧
        (∀ plan, planRecomputation domainId changed atSeq heads s = .ok plan →
          ExactPlan ns (Shown ns atSeq heads) changed plan) ∧
        ((∃ plan, explainRecomputation domainId changed atSeq heads s = .ok plan) ↔
          ∃ plan, planRecomputation domainId changed atSeq heads s = .ok plan) ∧
        ∀ plan, explainRecomputation domainId changed atSeq heads s = .ok plan →
          ExactExplanation ns (Shown ns atSeq heads) changed plan := by
  obtain ⟨ns, hns, hgrown⟩ := h.grounded
  refine ⟨ns, hns, fun step now s' out hrun hsafe => ?_, view_ok hns hgrown,
    fun changed atSeq heads => ?_⟩
  · rcases nodes_recorded hns hrun with ⟨hfull, -⟩ | ⟨node, hnext, hseq, hdeclared, -⟩
    · exact absurd hsafe (Nat.not_lt.2 hfull)
    · exact ⟨node, hnext, hseq, hdeclared⟩
  · obtain ⟨hplan, hexact⟩ := planRecomputation_ok hns hgrown changed atSeq heads
    obtain ⟨hexplain, hcauses⟩ := explainRecomputation_ok hns hgrown changed atSeq heads
    exact ⟨hplan, hexact, hexplain, hcauses⟩

/-- A step of a session that rests on these steps. -/
def restingOn (dependsOn : List Rat) : CausalStep where
  txId := "gateway:r"
  actorId := "agent"
  observation := { kind := "observe", tool := "read", args := [], resultHash := some "h" }
  dependsOn := dependsOn.map .finite

/-- A journal of two steps, the second resting on the first. -/
def twoSteps : SqliteStore :=
  let first := ((record "d" (restingOn []) 2).run ⟨Database.sample, some 1⟩).1
  ((record "d" (restingOn [1]) 3).run first).1

theorem twoSteps_recorded : Recorded "d" twoSteps :=
  .record (.record (.start (by decide)) _ _) _ _

theorem twoSteps_ancestors : ExactAncestors "d" twoSteps := ancestors_exact twoSteps_recorded

/-- Changing the first step invalidates the second, along the declared edge. -/
theorem twoSteps_invalidated :
    ∃ ns, nodes "d" maxSafeInteger twoSteps = .ok ns ∧ ∃ plan,
      explainRecomputation "d" [1] 2 none twoSteps = .ok plan ∧
        plan.explanations = [⟨1, [⟨1, [1]⟩]⟩, ⟨2, [⟨1, [1, 2]⟩]⟩] ∧
          ExactExplanation ns (Shown ns 2 none) [1] plan := by
  obtain ⟨ns, hns, -, -, hplans⟩ := invalidation_is_reachability twoSteps_recorded
  have hcauses : (explainRecomputation "d" [1] 2 none twoSteps).toOption.map
      ExplainedRecomputationPlan.explanations = some [⟨1, [⟨1, [1]⟩]⟩, ⟨2, [⟨1, [1, 2]⟩]⟩] := by
    decide +kernel
  cases hplan : explainRecomputation "d" [1] 2 none twoSteps with
  | error e =>
    rw [hplan] at hcauses
    cases hcauses
  | ok plan =>
    rw [hplan] at hcauses
    exact ⟨ns, hns, plan, rfl, Option.some.inj hcauses, (hplans [1] 2 none).2.2.2 plan hplan⟩

end WorkspaceCausalGraph
end XioFlow
