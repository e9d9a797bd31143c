/-
  XioFlow.Workspace.Recomputation

  What the causal graph is asked: the ancestors of a node, the view of some
  heads, what a change invalidates, and why.

  Nodes come out of the journal in the order in which they were recorded, and
  a step is only recorded when what it depends on is there.  So each question
  is one sweep over the journal, and the reasons are a search in what the
  sweep has found.
-/

import XioFlow.Workspace.CausalGraph
import XioFlow.Lib.Lineage
import XioFlow.Lib.BreadthFirst
import Mathlib.Data.List.Sort

namespace XioFlow

open Lib Lib.Prog
open CausalNode

/-! ## Dependencies of a node -/

def natural? (q : Rat) : Option Nat := if q.den = 1 ∧ 0 ≤ q.num then some q.num.toNat else none

def Json.natural? : Json → Option Nat
  | .num q => XioFlow.natural? q
  | _ => none

/-- `node.dependsOn` -/
def CausalNode.dependsOn (node : CausalNode) : List Nat :=
  match node.field? "dependsOn" with
  | some (.arr items) => items.filterMap Json.natural?
  | _ => []

namespace WorkspaceCausalGraph

open SqliteStore (Later)

/-! ## Questions -/

/-- Transitive evidence for one action, in journal order. -/
def ancestors (domainId : String) (seq : Nat) (s : SqliteStore) :
    Except KernelError (List CausalNode) := do
  let nodes ← nodes domainId seq s
  match nodes.find? fun node => node.seq = seq with
  | none => .error (.error ("Unknown causal node " ++ toString seq))
  | some target =>
    let needed := Lineage.gather CausalNode.seq CausalNode.dependsOn target.dependsOn nodes
    .ok (nodes.filter fun node => decide (node.seq ∈ needed))

structure CausalView where
  heads : List Nat
  nodes : List CausalNode

def absentHeads : KernelError := .error "Causal view heads are absent from this causal history"

/-- The heads and their ancestors among the nodes of a cut. -/
def selectHeads (heads : List Nat) (nodes : List CausalNode) : Except KernelError CausalView :=
  if heads.any fun seq => !decide (seq ∈ nodes.map CausalNode.seq) then .error absentHeads
  else
    let needed := Lineage.gather seq dependsOn heads nodes
    .ok { heads := heads.eraseDups,
          nodes := nodes.filter fun node => decide (node.seq ∈ needed) }

/-- Select an execution branch by its heads, in the cut at the latest of them. -/
def view (domainId : String) (heads : List Nat) (atSeq : Nat) (s : SqliteStore) :
    Except KernelError CausalView :=
  if maxSafeInteger < atSeq then .error (.error "Invalid causal history sequence")
  else if heads.any fun seq => maxSafeInteger < seq || seq < 1 || atSeq < seq then
    .error absentHeads
  else do
    let nodes ← nodes domainId (heads.foldl max 0) s
    selectHeads heads nodes

structure RecomputationPlan where
  invalidated : List CausalNode
  unaffected : List CausalNode

/-- The state of the loop over the nodes. -/
structure Sweep where
  invalid : List Nat
  invalidated : List CausalNode := []
  unaffected : List CausalNode := []

/-- A node is invalid when a dependency is; it goes to one of the two lists. -/
def Sweep.visit (s : Sweep) (node : CausalNode) : Sweep :=
  let invalid :=
    if node.dependsOn.any fun seq => decide (seq ∈ s.invalid) then node.seq :: s.invalid
    else s.invalid
  if node.seq ∈ invalid then
    { s with invalid, invalidated := s.invalidated ++ [node] }
  else { s with invalid, unaffected := s.unaffected ++ [node] }

/-- The nodes of the cut, or of the view of the heads. -/
def selected (domainId : String) (atSeq : Nat) (heads : Option (List Nat)) (s : SqliteStore) :
    Except KernelError (List CausalNode) :=
  match heads with
  | none => nodes domainId atSeq s
  | some heads => (view domainId heads atSeq s).map CausalView.nodes

def planRecomputation (domainId : String) (changed : List Nat) (atSeq : Nat)
    (heads : Option (List Nat)) (s : SqliteStore) : Except KernelError RecomputationPlan := do
  let nodes ← selected domainId atSeq heads s
  if changed.any fun seq => !decide (seq ∈ nodes.map CausalNode.seq) then
    .error (.error "Changed evidence is absent from this causal history")
  else
    let sweep := nodes.foldl Sweep.visit { invalid := changed }
    .ok { invalidated := sweep.invalidated, unaffected := sweep.unaffected }

structure CausalInvalidationCause where
  changedSeq : Nat
  path : List Nat
  deriving DecidableEq

structure Explanation where
  nodeSeq : Nat
  causes : List CausalInvalidationCause := []
  deriving DecidableEq

/-- `children.get(dependency)`: who declares the dependency, in journal order. -/
def childrenIn (invalidated : List CausalNode) (dependency : Nat) : List Nat :=
  invalidated.flatMap fun node =>
    (node.dependsOn.filter fun seq => seq = dependency).map fun _ => node.seq

/-- `bySeq.get(seq).causes.push(cause)` -/
def pushCause (changedSeq : Nat) (explanations : List Explanation) (found : Nat × List Nat) :
    List Explanation :=
  explanations.map fun e =>
    if e.nodeSeq = found.1 then { e with causes := e.causes ++ [⟨changedSeq, found.2⟩] } else e

/-- The causes that one seed gives; no node is queued twice, which bounds the search. -/
def explainSeed (invalidated : List CausalNode) (explanations : List Explanation)
    (changedSeq : Nat) : List Explanation :=
  (BreadthFirst.search (childrenIn invalidated) invalidated.length
    (BreadthFirst.start changedSeq)).foldl (pushCause changedSeq) explanations

/-- `[...new Set(changed)].sort((a, b) => a - b)` -/
def sortedSeeds (changed : List Nat) : List Nat :=
  changed.eraseDups.insertionSort fun a b => a ≤ b

structure ExplainedRecomputationPlan extends RecomputationPlan where
  explanations : List Explanation

def explainRecomputation (domainId : String) (changed : List Nat) (atSeq : Nat)
    (heads : Option (List Nat)) (s : SqliteStore) :
    Except KernelError ExplainedRecomputationPlan := do
  let plan ← planRecomputation domainId changed atSeq heads s
  let explanations := plan.invalidated.map fun node => ({ nodeSeq := node.seq } : Explanation)
  .ok { plan with
    explanations := (sortedSeeds changed).foldl (explainSeed plan.invalidated) explanations }

/-! ## Graphs that were recorded -/

/-- The stores that sequences of `record` calls lead to, with other events of the journal between
    them. -/
inductive Recorded (domainId : String) : SqliteStore → Prop where
  | start {s : SqliteStore} (h : ∀ row ∈ s.getJournalEvents domainId, row.type ≠ "CAUSAL_STEP") :
      Recorded domainId s
  | record {s : SqliteStore} (h : Recorded domainId s) (step : CausalStep) (now : Timestamp) :
      Recorded domainId ((record domainId step now).run s).1
  | other {s s' : SqliteStore} (h : Recorded domainId s) (rows : List JournalRow)
      (appended : s'.db.journalEvents.rows = s.db.journalEvents.rows ++ rows)
      (foreign : ∀ row ∈ rows, row.domainId = domainId → row.type ≠ "CAUSAL_STEP") :
      Recorded domainId s'

abbrev Grown (ns : List CausalNode) : Prop := Lineage.Grown seq dependsOn ns

/-- Declared dependencies lead from the first node to the second. -/
abbrev Reaches (ns : List CausalNode) (d k : Nat) : Prop :=
  Lineage.Reaches seq dependsOn ns d k

/-- The graph can be read, and each node depends on nodes before it. -/
def Grounded (domainId : String) (s : SqliteStore) : Prop :=
  ∃ ns, nodes domainId maxSafeInteger s = .ok ns ∧ Grown ns

/-! ## A recorded node -/

theorem natural?_natCast (n : Nat) : natural? (n : Rat) = some n := by
  unfold natural?
  rw [Rat.num_natCast, Int.toNat_natCast]
  exact if_pos ⟨Rat.den_natCast n, Int.natCast_nonneg n⟩

variable {known : List CausalNode} {s : SqliteStore}

/-- An accepted dependency is the number of a node. -/
theorem isDependency_iff {d : JsNumber} (h : isDependency known d = true) :
    ∃ node ∈ known, d = .finite (node.seq : Rat) := by
  cases d with
  | negZero | nonFinite => simp [isDependency] at h
  | finite =>
    simp only [isDependency, Bool.and_eq_true, List.any_eq_true, decide_eq_true_eq] at h
    obtain ⟨-, node, hmem, rfl⟩ := h
    exact ⟨node, hmem, rfl⟩

/-- The numbers read back are the dependencies that were accepted. -/
theorem naturals_eq {items : List Json} {ds : List JsNumber}
    (hds : ds.all (isDependency known) = true) (h : Json.toJsItems items = ds.map .num) :
    (items.filterMap Json.natural?).map (fun n : Nat => JsNumber.finite n) = ds := by
  induction items generalizing ds with
  | nil =>
    cases ds with
    | nil => rfl
    | cons => simp [Json.toJsItems] at h
  | cons item items ih =>
    cases ds with
    | nil => simp [Json.toJsItems] at h
    | cons =>
      simp only [Json.toJsItems, List.map_cons, List.cons.injEq] at h
      simp only [List.all_cons, Bool.and_eq_true] at hds
      obtain ⟨node, hnode, rfl⟩ := isDependency_iff hds.1
      have hitem : item = .num (node.seq : Rat) := Json.toJs_injective item _ h.1
      have hnat : item.natural? = some node.seq := by
        rw [hitem]
        exact natural?_natCast node.seq
      rw [List.filterMap_cons_some hnat, List.map_cons, ih hds.2 h.2]

/-- The node depends on what its step declares, each number once, in the order declared. -/
def DependsAs (node : CausalNode) (step : CausalStep) : Prop :=
  node.dependsOn.map (fun n : Nat => JsNumber.finite n) = step.dependsOn.eraseDups

/-- The node of a recorded step carries the dependencies of the step. -/
theorem dependsAs_node {step : CausalStep} {events : List JournalRow} {path : String}
    {converted : List (String × Json)} (seq : Nat)
    (hdeps : step.dependsOn.all (isDependency known) = true)
    (h : jsonEntries (nodeEntries step events) path = .ok converted) :
    DependsAs { entries := converted, seq } step := by
  obtain ⟨j, hj, hfield⟩ :=
    jsonEntries_field (by decide : keptName "dependsOn" = true) rfl (by rfl) h
  obtain ⟨items, hitems, rfl⟩ := jsonValue_arr_ok hj
  have hdistinct := distinct_dependencies hdeps
  have hback := (jsonValue_toJs_iff hj).2 (dependsOn_clean hdistinct)
  rw [Json.toJs, JsValue.arr.injEq] at hback
  have hnode : ({ entries := converted, seq } : CausalNode).dependsOn =
      items.filterMap Json.natural? := by
    unfold dependsOn field?
    rw [hfield]
  rw [DependsAs, hnode]
  exact naturals_eq hdistinct hback

/-- So what it depends on was there. -/
theorem DependsAs.mem_known {node : CausalNode} {step : CausalStep} (h : DependsAs node step)
    (hdeps : step.dependsOn.all (isDependency known) = true) :
    ∀ d ∈ node.dependsOn, d ∈ known.map seq := by
  intro d hd
  have hdeclared : JsNumber.finite d ∈ step.distinct.dependsOn :=
    (show _ = step.distinct.dependsOn from h) ▸ List.mem_map_of_mem hd
  have haccepted := List.all_eq_true.1 (distinct_dependencies hdeps) _ hdeclared
  obtain ⟨other, hother, heq⟩ := isDependency_iff haccepted
  obtain rfl : d = other.seq := by exact_mod_cast JsNumber.finite.inj heq
  exact List.mem_map_of_mem hother

/-! ## Recorded graphs are grounded -/

variable {domainId : String} {ns : List CausalNode}

/-- A node comes from a row of the journal with its number. -/
theorem seq_le_lastSeq {atSeq : Nat} (h : nodes domainId atSeq s = .ok ns) {node : CausalNode}
    (hnode : node ∈ ns) : node.seq ≤ s.db.journalEvents.lastSeq ∧ node.seq ≤ atSeq := by
  unfold nodes at h
  split at h
  · cases h
  · obtain ⟨row, hrow, hthis⟩ := origin_of_mapM_ok h hnode
    rw [nodeOfRow_seq hthis]
    obtain ⟨hmem, hselected⟩ := List.mem_filter.1 hrow
    simp only [Bool.and_eq_true, decide_eq_true_eq] at hselected
    exact ⟨s.db.journalEvents.bounded row (List.mem_filter.1 hmem).1, hselected.1⟩

/-- A recorded step is one more node with the dependencies of the step, unless its number is no
    safe integer. -/
theorem nodes_recorded {step : CausalStep} {now : Timestamp} {s' : SqliteStore}
    {out : List (String × JsValue) × Nat} (hns : nodes domainId maxSafeInteger s = .ok ns)
    (h : (record domainId step now).run s = (s', .ok out)) :
    (maxSafeInteger ≤ s.db.journalEvents.lastSeq ∧ nodes domainId maxSafeInteger s' = .ok ns) ∨
      ∃ node, nodes domainId maxSafeInteger s' = .ok (ns ++ [node]) ∧
        node.seq = s.db.journalEvents.lastSeq + 1 ∧ DependsAs node step ∧
        ∀ d ∈ node.dependsOn, d ∈ ns.map seq := by
  obtain ⟨⟨known, hknown, hdeps⟩, hrecorded, -⟩ := record_ok h
  rw [hns] at hknown
  cases hknown
  obtain ⟨row, converted, hholds, rfl⟩ := causalEvent_recorded hrecorded
  rw [nodes_maxSafeInteger] at hns
  rw [nodes_maxSafeInteger]
  by_cases hsafe : s.db.journalEvents.lastSeq + 1 ≤ maxSafeInteger
  · right
    have hstored : HoldsStep domainId step (history domainId step.txId s)
        { row with seq := s.db.journalEvents.lastSeq + 1 } converted :=
      ⟨hholds.domain, hholds.type, hholds.payload, hholds.conversion⟩
    have hnode := nodeOfRow_holdsStep hstored
    have hdeclared := dependsAs_node (s.db.journalEvents.lastSeq + 1) hdeps hholds.conversion
    refine ⟨_, ?_, rfl, hdeclared, hdeclared.mem_known hdeps⟩
    rw [causalRows_appendEvent hholds.domain hholds.type hsafe, List.mapM_append, hns,
      List.mapM_cons, hnode, List.mapM_nil]
    rfl
  · left
    have hrows : causalRows domainId maxSafeInteger (SqliteStore.appendEvent row s) =
        causalRows domainId maxSafeInteger s := by
      unfold causalRows SqliteStore.getJournalEvents
      rw [SqliteStore.appendEvent_journalEvents, Journal.append_rows, List.filter_append,
        List.filter_append]
      simp [hholds.domain, hsafe]
    rw [hrows]
    exact ⟨by omega, hns⟩

theorem atomic_record (domainId : String) (step : CausalStep) (now : Timestamp) :
    Atomic (record domainId step now) := by
  unfold record
  refine (SqliteStore.readOnly_require _).atomic_bind fun _ => ?_
  refine (readOnly_read _).atomic_bind fun events => ?_
  refine (SqliteStore.readOnly_require _).atomic_bind fun _ => ?_
  refine (readOnly_read _).atomic_bind fun known => ?_
  cases known with
  | error e => exact (readOnly_throw e).atomic
  | ok =>
    refine (SqliteStore.readOnly_require _).atomic_bind fun _ => ?_
    refine (readOnly_throwIf _ _).atomic_bind fun _ => ?_
    exact (SqliteStore.atomic_recordEventAndTransitionState _).bind_pure _

/-- Events that are no causal steps change no node. -/
theorem nodes_foreign {s' : SqliteStore} {rows : List JournalRow}
    (appended : s'.db.journalEvents.rows = s.db.journalEvents.rows ++ rows)
    (foreign : ∀ row ∈ rows, row.domainId = domainId → row.type ≠ "CAUSAL_STEP") :
    nodes domainId maxSafeInteger s' = nodes domainId maxSafeInteger s := by
  have hnone : (rows.filter fun row => decide (row.domainId = domainId)).filter
      (fun row => decide (row.seq ≤ maxSafeInteger) && decide (row.type = "CAUSAL_STEP")) = [] := by
    rw [List.filter_eq_nil_iff]
    intro row hrow
    obtain ⟨hmem, hdomain⟩ := List.mem_filter.1 hrow
    have htype := foreign row hmem (of_decide_eq_true hdomain)
    rw [decide_eq_false htype, Bool.and_false]
    exact Bool.false_ne_true
  rw [nodes_maxSafeInteger, nodes_maxSafeInteger]
  unfold causalRows SqliteStore.getJournalEvents
  rw [appended, List.filter_append, List.filter_append, hnone, List.append_nil]

/-- What `record` accepts depends on what is there. -/
theorem Recorded.grounded (h : Recorded domainId s) : Grounded domainId s := by
  induction h with
  | @start s h =>
    refine ⟨[], ?_, .nil⟩
    have hnone : causalRows domainId maxSafeInteger s = [] := by
      unfold causalRows
      rw [List.filter_eq_nil_iff]
      intro row hrow
      rw [decide_eq_false (h row hrow), Bool.and_false]
      exact Bool.false_ne_true
    rw [nodes_maxSafeInteger, hnone]
    rfl
  | @record s h step now ih =>
    obtain ⟨ns, hns, hgrown⟩ := ih
    rcases hrun : (WorkspaceCausalGraph.record domainId step now).run s with ⟨s', e | out⟩
    · rw [atomic_record domainId step now s s' e hrun]
      exact ⟨ns, hns, hgrown⟩
    · rcases nodes_recorded hns hrun with ⟨-, hsame⟩ | ⟨node, hnext, hseq, -, hdeps⟩
      · exact ⟨ns, hsame, hgrown⟩
      · refine ⟨ns ++ [node], hnext, hgrown.snoc (fun hmem => ?_) hdeps⟩
        obtain ⟨other, hother, heq⟩ := List.mem_map.1 hmem
        have hle := (seq_le_lastSeq hns hother).1
        omega
  | other h rows appended foreign ih =>
    obtain ⟨ns, hns, hgrown⟩ := ih
    exact ⟨ns, (nodes_foreign appended foreign).trans hns, hgrown⟩

/-! ## Cuts -/

/-- A cut is the part of the graph up to its number. -/
theorem nodes_cut (hns : nodes domainId maxSafeInteger s = .ok ns) {atSeq : Nat}
    (hsafe : atSeq ≤ maxSafeInteger) :
    nodes domainId atSeq s = .ok (ns.filter fun node => decide (node.seq ≤ atSeq)) := by
  rw [nodes_maxSafeInteger] at hns
  have hrows : causalRows domainId atSeq s =
      (causalRows domainId maxSafeInteger s).filter fun row => decide (row.seq ≤ atSeq) := by
    unfold causalRows
    rw [List.filter_filter]
    apply List.filter_congr
    intro row _
    by_cases hrow : row.seq ≤ atSeq
    · have hle : row.seq ≤ maxSafeInteger := Nat.le_trans hrow hsafe
      simp [hrow, hle]
    · simp [hrow]
  unfold nodes
  rw [if_neg (by omega), hrows]
  refine mapM_filter_ok (fun row node hnode => ?_) hns
  rw [nodeOfRow_seq hnode]

abbrev Closed (ns part : List CausalNode) : Prop :=
  Lineage.Closed seq dependsOn ns part

theorem nodes_increasing (hns : nodes domainId maxSafeInteger s = .ok ns) :
    (ns.map seq).Pairwise (· < ·) := by
  rw [nodes_maxSafeInteger] at hns
  rw [map_of_mapM_ok (fun _ _ => nodeOfRow_seq) hns]
  have hrows : (causalRows domainId maxSafeInteger s).Sublist s.db.journalEvents.rows :=
    List.filter_sublist.trans List.filter_sublist
  exact s.db.journalEvents.increasing.sublist (hrows.map _)

/-- A cut holds with each node what it depends on. -/
theorem closed_cut (hgrown : Grown ns) (hincreasing : (ns.map seq).Pairwise (· < ·))
    (atSeq : Nat) : Closed ns (ns.filter fun node => decide (node.seq ≤ atSeq)) := by
  refine ⟨List.filter_sublist, fun node hnode d hd => ?_⟩
  obtain ⟨hmem, hle⟩ := List.mem_filter.1 hnode
  have hneeds : Lineage.Needs seq dependsOn ns d node.seq :=
    ⟨node, hmem, rfl, hd⟩
  have hlt := hgrown.needs_lt hincreasing hneeds
  have hatSeq := of_decide_eq_true hle
  obtain ⟨other, hother, rfl⟩ := List.mem_map.1 (hgrown.known hneeds)
  exact List.mem_map_of_mem (List.mem_filter.2 ⟨hother, decide_eq_true (by omega)⟩)

theorem closed_trans {part inner : List CausalNode} (hpart : Closed ns part)
    (hinner : Closed part inner) : Closed ns inner :=
  ⟨hinner.sublist.trans hpart.sublist, hinner.closed⟩

/-! ## Ancestors -/

/-- The ancestors of a node are exactly what leads to it by one dependency or more, in journal
    order; only a node that is not there has none to answer. -/
def ExactAncestors (domainId : String) (s : SqliteStore) : Prop :=
  ∃ ns, nodes domainId maxSafeInteger s = .ok ns ∧ ∀ seq,
    ((∃ found, ancestors domainId seq s = .ok found) ↔ seq ∈ ns.map CausalNode.seq) ∧
    ∀ found, ancestors domainId seq s = .ok found → found.Sublist ns ∧ ∀ n ∈ ns, n ∈ found ↔
      Relation.TransGen (Lineage.Needs CausalNode.seq dependsOn ns) n.seq seq

theorem ancestors_exact (h : Recorded domainId s) : ExactAncestors domainId s := by
  obtain ⟨ns, hns, hgrown⟩ := h.grounded
  refine ⟨ns, hns, fun seq => ?_⟩
  unfold ancestors
  by_cases hsafe : maxSafeInteger < seq
  · unfold nodes
    rw [if_pos hsafe]
    refine ⟨⟨nofun, fun hmem => ?_⟩, nofun⟩
    obtain ⟨node, hnode, rfl⟩ := List.mem_map.1 hmem
    have hle := (seq_le_lastSeq hns hnode).2
    omega
  rw [nodes_cut hns (by omega)]
  have hclosed := closed_cut hgrown (nodes_increasing hns) seq
  have hcut := hgrown.closed hclosed
  generalize hpart : ns.filter (fun node => decide (node.seq ≤ seq)) = part at hclosed hcut
  simp only [Bind.bind, Except.bind]
  cases hfind : part.find? fun node => node.seq = seq with
  | none =>
    refine ⟨⟨nofun, fun hmem => ?_⟩, nofun⟩
    obtain ⟨node, hnode, rfl⟩ := List.mem_map.1 hmem
    rw [← hpart, List.find?_eq_none] at hfind
    exact absurd (decide_eq_true rfl) (hfind node (List.mem_filter.2 ⟨hnode, by simp⟩))
  | some target =>
    have htarget := List.mem_of_find?_eq_some hfind
    have hseq : target.seq = seq := by simpa using List.find?_some hfind
    have hmem := hclosed.sublist.subset htarget
    refine ⟨iff_of_true ⟨_, rfl⟩ (hseq ▸ List.mem_map_of_mem hmem), ?_⟩
    rintro _ ⟨⟩
    refine ⟨List.filter_sublist.trans hclosed.sublist, fun n hn => ?_⟩
    rw [List.mem_filter, decide_eq_true_eq, Lineage.mem_gather hcut, Relation.TransGen.tail'_iff]
    constructor
    · rintro ⟨-, d, hd, hreaches⟩
      exact ⟨d, Lineage.reaches_mono hclosed.sublist.subset hreaches, target, hmem, hseq, hd⟩
    · rintro ⟨d, hreaches, other, hother, hsame, hd⟩
      obtain rfl : other = target :=
        List.inj_on_of_nodup_map hgrown.nodup hother hmem (hsame.trans hseq.symm)
      have hknown := hclosed.closed other htarget d hd
      exact ⟨hgrown.mem_of_reaches hclosed hn hknown hreaches, d, hd,
        (Lineage.reaches_closed_iff hgrown hclosed hknown).2 hreaches⟩

/-! ## Views -/

theorem cutoff_le_iff {heads : List Nat} {start bound : Nat} :
    heads.foldl max start ≤ bound ↔ start ≤ bound ∧ ∀ seq ∈ heads, seq ≤ bound := by
  induction heads generalizing start with
  | nil => simp
  | cons head heads ih => rw [List.foldl_cons, ih, Nat.max_le, List.forall_mem_cons, and_assoc]

/-- The heads of a view are nodes of the cut. -/
def HeadsKnown (ns : List CausalNode) (heads : List Nat) (atSeq : Nat) : Prop :=
  ∀ seq ∈ heads, 1 ≤ seq ∧ seq ≤ atSeq ∧ seq ∈ ns.map CausalNode.seq

/-- A view is closed, and holds exactly the heads and what leads to them. -/
structure IsView (ns : List CausalNode) (heads : List Nat) (v : CausalView) : Prop where
  selected : v.heads = heads.eraseDups
  closed : Closed ns v.nodes
  exact : ∀ n ∈ ns, n ∈ v.nodes ↔ ∃ seq ∈ heads, Reaches ns n.seq seq

/-- Heads that are in a cut select a view. -/
theorem selectHeads_ok {cut : List CausalNode} (hgrown : Grown ns) (hclosed : Closed ns cut)
    (heads : List Nat) :
    ((∃ v, selectHeads heads cut = .ok v) ↔ ∀ seq ∈ heads, seq ∈ cut.map CausalNode.seq) ∧
      ∀ v, selectHeads heads cut = .ok v → IsView ns heads v := by
  unfold selectHeads
  by_cases hunknown : (heads.any fun seq => !decide (seq ∈ cut.map CausalNode.seq)) = true
  · rw [if_pos hunknown]
    refine ⟨⟨?_, fun h => ?_⟩, nofun⟩
    · rintro ⟨v, ⟨⟩⟩
    · obtain ⟨seq, hseq, htest⟩ := List.any_eq_true.1 hunknown
      rw [decide_eq_true (h seq hseq)] at htest
      cases htest
  · rw [if_neg hunknown]
    have hcut := hgrown.closed hclosed
    have hknown : ∀ seq ∈ heads, seq ∈ cut.map CausalNode.seq := by
      intro seq hseq
      have htest := List.any_eq_false.1 (Bool.eq_false_iff.2 hunknown) seq hseq
      simpa using htest
    refine ⟨⟨fun _ => hknown, fun _ => ⟨_, rfl⟩⟩, fun v hv => ?_⟩
    cases hv
    refine ⟨rfl, closed_trans hclosed (Lineage.closed_gather hcut heads), fun n hn => ?_⟩
    rw [List.mem_filter, decide_eq_true_eq, Lineage.mem_gather hcut]
    constructor
    · rintro ⟨-, seq, hseq, hreaches⟩
      exact ⟨seq, hseq, Lineage.reaches_mono hclosed.sublist.subset hreaches⟩
    · rintro ⟨seq, hseq, hreaches⟩
      have hhead := hknown seq hseq
      exact ⟨hgrown.mem_of_reaches hclosed hn hhead hreaches, seq, hseq,
        (Lineage.reaches_closed_iff hgrown hclosed hhead).2 hreaches⟩

/-- Which heads have a view, and which nodes the view has. -/
theorem view_ok (hns : nodes domainId maxSafeInteger s = .ok ns) (hgrown : Grown ns)
    (heads : List Nat) (atSeq : Nat) :
    ((∃ v, view domainId heads atSeq s = .ok v) ↔
      atSeq ≤ maxSafeInteger ∧ HeadsKnown ns heads atSeq) ∧
    ∀ v, view domainId heads atSeq s = .ok v → IsView ns heads v := by
  unfold view
  by_cases hsafe : maxSafeInteger < atSeq
  · rw [if_pos hsafe]
    refine ⟨⟨?_, fun h => absurd h.1 (by omega)⟩, nofun⟩
    rintro ⟨v, ⟨⟩⟩
  rw [if_neg hsafe]
  by_cases habsent :
      heads.any (fun seq => decide (maxSafeInteger < seq) || decide (seq < 1) || decide (atSeq < seq)) =
        true
  · rw [if_pos habsent]
    refine ⟨⟨?_, fun h => ?_⟩, nofun⟩
    · rintro ⟨v, ⟨⟩⟩
    · obtain ⟨seq, hseq, htest⟩ := List.any_eq_true.1 habsent
      obtain ⟨hone, hle, -⟩ := h.2 seq hseq
      simp only [Bool.or_eq_true, decide_eq_true_eq] at htest
      omega
  rw [if_neg habsent]
  have hbounds : ∀ seq ∈ heads, 1 ≤ seq ∧ seq ≤ atSeq := by
    intro seq hseq
    have htest := List.any_eq_false.1 (Bool.eq_false_iff.2 habsent) seq hseq
    simp only [Bool.or_eq_true, decide_eq_true_eq, not_or] at htest
    omega
  have hcutoff : heads.foldl max 0 ≤ maxSafeInteger :=
    cutoff_le_iff.2 ⟨Nat.zero_le _, fun seq hseq => by
      have hle := (hbounds seq hseq).2
      omega⟩
  have hclosed := closed_cut hgrown (nodes_increasing hns) (heads.foldl max 0)
  obtain ⟨hiff, hexact⟩ := selectHeads_ok hgrown hclosed heads
  rw [nodes_cut hns hcutoff]
  refine ⟨hiff.trans ⟨fun h => ⟨by omega, fun seq hseq => ?_⟩, fun h seq hseq => ?_⟩, hexact⟩
  · obtain ⟨hone, hle⟩ := hbounds seq hseq
    exact ⟨hone, hle, (hclosed.sublist.map _).subset (h seq hseq)⟩
  · -- No head lies behind the latest one.
    obtain ⟨node, hnode, rfl⟩ := List.mem_map.1 (h.2 seq hseq).2.2
    exact List.mem_map_of_mem (List.mem_filter.2 ⟨hnode,
      decide_eq_true ((cutoff_le_iff.1 (Nat.le_refl _)).2 _ hseq)⟩)

end WorkspaceCausalGraph
end XioFlow
