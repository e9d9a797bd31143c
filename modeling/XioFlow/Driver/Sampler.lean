/-
  XioFlow.Driver.Sampler

  What the process sampler reads off a table: the tree of a leader, whether its
  group lives, and which of the pids asked for run.

  The questions are put to one reading of the table; the probes with signal 0
  that follow see the table of a later moment, and a process that they find and
  the reading does not list is an error, never an answer.
-/

import XioFlow.Lib.ProcessTable
import XioFlow.Lib.Distinct
import XioFlow.Recovery.Verdict
import Mathlib.Data.List.Perm.Subperm

namespace XioFlow.Driver

open Lib

/-- What the driver throws: a `ProcessObservationError`, or a system error with its code. -/
inductive Failure where
  | observation (message : String)
  | system (code : String)
  deriving DecidableEq

/-! ## The tree of a leader -/

structure ProcessTree where
  allDescendants : List Nat := []
  inGroupDescendants : List Nat := []
  escapedDescendants : List Nat := []
  deriving DecidableEq

/-- A pid met on the way is kept when it is listed and has not exited. -/
def ProcessTree.note (leaderPid : Nat) (snapshot : ProcessTable) (pid : Nat) (tree : ProcessTree) :
    ProcessTree :=
  match snapshot.get? pid with
  | none => tree
  | some pInfo =>
    if pInfo.zombie then tree
    else if pInfo.pgid = leaderPid then
      { tree with
        allDescendants := tree.allDescendants ++ [pid]
        inGroupDescendants := tree.inGroupDescendants ++ [pid] }
    else
      { tree with
        allDescendants := tree.allDescendants ++ [pid]
        escapedDescendants := tree.escapedDescendants ++ [pid] }

/-- The breadth-first walk: what is queued, what was queued before, and the tree so far. -/
structure Walk where
  queue : List Nat
  visited : List Nat
  tree : ProcessTree := {}

variable (leaderPid : Nat) (snapshot : ProcessTable)

/-- Queue a pid that was not met before. -/
def Walk.meet (w : Walk) (pid : Nat) : Walk :=
  if pid ∈ w.visited then w
  else
    { queue := w.queue ++ [pid]
      visited := pid :: w.visited
      tree := w.tree.note leaderPid snapshot pid }

/-- The pids listed with this parent. -/
def childrenOf (current : Nat) : List Nat :=
  (snapshot.rows.filter fun p => p.ppid == current).map (·.pid)

/-- Take the queue from the front; no pid is queued twice, which bounds the walk. -/
def Walk.search : Nat → Walk → Walk
  | 0, w => w
  | fuel + 1, w =>
    match w.queue with
    | [] => w
    | current :: queue =>
      Walk.search fuel
        ((childrenOf snapshot current).foldl (Walk.meet leaderPid snapshot) { w with queue })

/-- The walk from the leader and the seeds, with one turn for each pid it can meet. -/
def walkFrom (seedPids : List Nat) : Walk :=
  Walk.search leaderPid snapshot (1 + seedPids.length + snapshot.rows.length)
    (seedPids.foldl (Walk.meet leaderPid snapshot) { queue := [leaderPid], visited := [leaderPid] })

/-- The walk, and then those of the leader's group that it did not come to. -/
def getProcessTree (seedPids : List Nat) : ProcessTree :=
  let w := walkFrom leaderPid snapshot seedPids
  let left := (snapshot.rows.filter fun p =>
    p.pgid == leaderPid && !decide (p.pid ∈ w.visited) && !p.zombie).map (·.pid)
  { w.tree with
    allDescendants := w.tree.allDescendants ++ left
    inGroupDescendants := w.tree.inGroupDescendants ++ left }

/-! ## Questions about one reading -/

/-- Does the reading list a member of the group that has not exited? -/
def hasLiveMember (pgid : Nat) : Bool := snapshot.rows.any fun entry => !entry.zombie && entry.pgid == pgid

/-- The reading a caller hands over, or those the sampler takes itself: one that may be cached,
    and a new one when that lists no running member. -/
inductive Readings where
  | existing (snapshot : ProcessTable)
  | own (recent fresh : ProcessTable)

/-- The reading that the answer rests on. -/
def Readings.looked (pgid : Nat) : Readings → ProcessTable
  | existing snapshot => snapshot
  | own recent fresh => if hasLiveMember recent pgid then recent else fresh

/-- Is the group alive?  `probe` and `reprobe` are the tables that signal 0 meets before and
    after the reading. -/
def isGroupAlive (pgid : Nat) (probe reprobe : ProcessTable) (readings : Readings) :
    Except Failure Bool :=
  if !probe.groupExists pgid then .ok false
  else
    let snapshot := readings.looked pgid
    if !hasLiveMember snapshot pgid && !snapshot.groupExists pgid then
      if !reprobe.groupExists pgid then .ok false
      else .error (.observation (s!"Process group {pgid} exists but is missing from the " ++
        "process snapshot: incomplete process group observation"))
    else .ok (hasLiveMember snapshot pgid)

structure Classified where
  runningPids : List Nat := []
  unreapedPids : List Nat := []
  deriving DecidableEq

/-- Classify the pids, each of them once: `probe pid` is the table that signal 0 meets. -/
def classifyEach (probe : Nat → ProcessTable) : List Nat → Classified → Except Failure Classified
  | [], c => .ok c
  | pid :: pids, c =>
    match snapshot.get? pid with
    | some entry =>
      if entry.zombie then classifyEach probe pids { c with unreapedPids := c.unreapedPids ++ [pid] }
      else classifyEach probe pids { c with runningPids := c.runningPids ++ [pid] }
    | none =>
      if (probe pid).exists? pid then
        .error (.observation (s!"PID {pid} exists but is missing from the process snapshot: " ++
          "incomplete process table observation"))
      else classifyEach probe pids c

def classifyPids (probe : Nat → ProcessTable) (pids : List Nat) : Except Failure Classified :=
  classifyEach snapshot probe pids.eraseDups {}

/-! ## What the tree holds -/

variable {leaderPid snapshot}

/-- A line of descent from the leader or a seed, as the reading lists it. -/
inductive Descends (leaderPid : Nat) (snapshot : ProcessTable) (seedPids : List Nat) : Nat → Prop where
  | root {pid : Nat} (h : pid ∈ leaderPid :: seedPids) : Descends leaderPid snapshot seedPids pid
  | child {pid c : Nat} (h : Descends leaderPid snapshot seedPids pid)
      (hc : c ∈ childrenOf snapshot pid) : Descends leaderPid snapshot seedPids c

section Induct

variable {I : Walk → Prop} {seedPids : List Nat}
  (hqueue : ∀ w queue, I w → I { w with queue })
  (hmeet : ∀ w pid, Descends leaderPid snapshot seedPids pid → I w →
    I (w.meet leaderPid snapshot pid))

include hmeet in
/-- Meeting pids that descend keeps `I`, and queues none but these. -/
theorem Walk.induct_meetAll {pids : List Nat} {w : Walk} (hI : I w)
    (hw : ∀ p ∈ w.queue, Descends leaderPid snapshot seedPids p)
    (hpids : ∀ p ∈ pids, Descends leaderPid snapshot seedPids p) :
    I (pids.foldl (Walk.meet leaderPid snapshot) w) ∧
      ∀ p ∈ (pids.foldl (Walk.meet leaderPid snapshot) w).queue,
        Descends leaderPid snapshot seedPids p := by
  induction pids generalizing w with
  | nil => exact ⟨hI, hw⟩
  | cons pid pids ih =>
    have hpid := hpids pid List.mem_cons_self
    refine ih (hmeet w pid hpid hI) (fun p hp => ?_) fun p hp => hpids p (List.mem_cons_of_mem _ hp)
    rw [Walk.meet] at hp
    split at hp
    · exact hw p hp
    · rcases List.mem_append.1 hp with hp | hp
      · exact hw p hp
      · exact (List.mem_singleton.1 hp) ▸ hpid

include hqueue hmeet

theorem Walk.induct_search (fuel : Nat) {w : Walk} (hI : I w)
    (hw : ∀ p ∈ w.queue, Descends leaderPid snapshot seedPids p) :
    I (w.search leaderPid snapshot fuel) := by
  induction fuel generalizing w with
  | zero => exact hI
  | succ fuel ih =>
    rw [Walk.search]
    split
    · exact hI
    · rename_i current queue hfront
      rw [hfront] at hw
      have hcurrent := hw current List.mem_cons_self
      obtain ⟨hI', hw'⟩ := Walk.induct_meetAll hmeet (hqueue w queue hI)
        (fun p hp => hw p (List.mem_cons_of_mem _ hp))
        (fun c (hc : c ∈ childrenOf snapshot current) => hcurrent.child hc)
      exact ih hI' hw'

/-- What holds at the start, and stays so when the queue changes and when a pid that descends is
    met, holds at the end of the walk. -/
theorem walkFrom_induct (hstart : I { queue := [leaderPid], visited := [leaderPid] }) :
    I (walkFrom leaderPid snapshot seedPids) := by
  have hleader : ∀ p ∈ [leaderPid], Descends leaderPid snapshot seedPids p := by
    intro p hp
    rw [List.mem_singleton.1 hp]
    exact .root List.mem_cons_self
  have hseeds : ∀ p ∈ seedPids, Descends leaderPid snapshot seedPids p :=
    fun p hp => .root (List.mem_cons_of_mem _ hp)
  obtain ⟨hI, hw⟩ := Walk.induct_meetAll hmeet hstart hleader hseeds
  exact Walk.induct_search hqueue hmeet _ hI hw

end Induct

/-- Kept are running pids, and each pid met but the leader is kept when it runs. -/
structure Walk.Sound (leaderPid : Nat) (snapshot : ProcessTable) (w : Walk) : Prop where
  running : ∀ pid ∈ w.tree.allDescendants, snapshot.Running pid
  inGroup : ∀ pid ∈ w.tree.inGroupDescendants, pid ∈ w.tree.allDescendants
  kept : ∀ pid ∈ w.visited, snapshot.Running pid → pid = leaderPid ∨ pid ∈ w.tree.allDescendants

variable {pid : Nat}

theorem running_iff_get? :
    snapshot.Running pid ↔ ∃ e, snapshot.get? pid = some e ∧ e.zombie = false := by
  constructor
  · rintro ⟨e, he, rfl, hz⟩
    exact ⟨e, Table.get?_of_mem he, hz⟩
  · rintro ⟨e, he, hz⟩
    exact ⟨e, Table.mem_of_get? he, Table.key_of_get? he, hz⟩

theorem mem_note {p : Nat} {tree : ProcessTree} :
    p ∈ (tree.note leaderPid snapshot pid).allDescendants ↔
      p ∈ tree.allDescendants ∨ p = pid ∧ snapshot.Running pid := by
  rw [running_iff_get?, ProcessTree.note]
  cases hget : snapshot.get? pid with
  | none => simp
  | some e =>
    cases hz : e.zombie with
    | true => simp [hz]
    | false =>
      simp only [Bool.false_eq_true, if_false, Option.some.injEq, exists_eq_left', hz, and_true]
      split
      · simp
      · simp

theorem inGroup_note {p : Nat} {tree : ProcessTree}
    (h : ∀ p ∈ tree.inGroupDescendants, p ∈ tree.allDescendants)
    (hp : p ∈ (tree.note leaderPid snapshot pid).inGroupDescendants) :
    p ∈ (tree.note leaderPid snapshot pid).allDescendants := by
  rw [ProcessTree.note] at hp ⊢
  cases hget : snapshot.get? pid with
  | none =>
    rw [hget] at hp
    exact h p hp
  | some e =>
    rw [hget] at hp
    simp only at hp ⊢
    by_cases hz : e.zombie = true
    · rw [if_pos hz] at hp ⊢
      exact h p hp
    · rw [if_neg hz] at hp ⊢
      by_cases hg : e.pgid = leaderPid
      · rw [if_pos hg] at hp ⊢
        rcases List.mem_append.1 hp with hp | hp
        · exact List.mem_append_left _ (h p hp)
        · exact List.mem_append_right _ hp
      · rw [if_neg hg] at hp ⊢
        exact List.mem_append_left _ (h p hp)

variable {w : Walk} {seedPids U pids : List Nat}

theorem Walk.Sound.meet (h : w.Sound leaderPid snapshot) (pid : Nat) :
    (w.meet leaderPid snapshot pid).Sound leaderPid snapshot := by
  rw [Walk.meet]
  split
  · exact h
  · refine ⟨fun p hp => ?_, fun p hp => inGroup_note h.inGroup hp, fun p hp hrun => ?_⟩
    · rcases mem_note.1 hp with hp | ⟨rfl, hrun⟩
      · exact h.running p hp
      · exact hrun
    · rcases List.mem_cons.1 hp with rfl | hp
      · exact .inr (mem_note.2 (.inr ⟨rfl, hrun⟩))
      · exact (h.kept p hp hrun).imp_right fun hkept => mem_note.2 (.inl hkept)

theorem walkFrom_sound (seedPids : List Nat) :
    (walkFrom leaderPid snapshot seedPids).Sound leaderPid snapshot := by
  refine walkFrom_induct (fun w queue h => ⟨h.running, h.inGroup, h.kept⟩)
    (fun w pid _ h => h.meet pid) ⟨fun _ hp => absurd hp List.not_mem_nil, fun _ hp => hp, ?_⟩
  exact fun p hp _ => .inl (List.mem_singleton.1 hp)

/-- The tree keeps pids that run. -/
theorem getProcessTree_running
    (h : pid ∈ (getProcessTree leaderPid snapshot seedPids).allDescendants) :
    snapshot.Running pid := by
  rcases List.mem_append.1 h with h | h
  · exact (walkFrom_sound seedPids).running pid h
  · obtain ⟨e, he, rfl⟩ := List.mem_map.1 h
    obtain ⟨hmem, htest⟩ := List.mem_filter.1 he
    refine ⟨e, hmem, rfl, ?_⟩
    simpa using (Bool.and_eq_true_iff.1 htest).2

/-- Those of the group are descendants. -/
theorem getProcessTree_inGroup
    (h : pid ∈ (getProcessTree leaderPid snapshot seedPids).inGroupDescendants) :
    pid ∈ (getProcessTree leaderPid snapshot seedPids).allDescendants := by
  rcases List.mem_append.1 h with h | h
  · exact List.mem_append_left _ ((walkFrom_sound seedPids).inGroup pid h)
  · exact List.mem_append_right _ h

/-- Every running member of the leader's group is the leader or in the tree. -/
theorem mem_getProcessTree_of_group (h : snapshot.RunningIn leaderPid pid) :
    pid = leaderPid ∨ pid ∈ (getProcessTree leaderPid snapshot seedPids).allDescendants := by
  by_cases hvisited : pid ∈ (walkFrom leaderPid snapshot seedPids).visited
  · have hkept := (walkFrom_sound seedPids).kept pid hvisited h.running
    exact hkept.imp_right fun hmem => List.mem_append_left _ hmem
  · obtain ⟨e, he, rfl, hg, hz⟩ := h
    right
    apply List.mem_append_right
    exact List.mem_map.2 ⟨e, List.mem_filter.2 ⟨he, by simp [hg, hz, hvisited]⟩, rfl⟩

/-! ## The walk comes to an end -/

/-- What the walk has met lies in `U`; of each pid met the children are met as well, unless the
    pid is still queued or one of the `busy` ones. -/
structure Walk.Going (snapshot : ProcessTable) (U busy : List Nat) (w : Walk) : Prop where
  nodup : w.visited.Nodup
  within : ∀ pid ∈ w.visited, pid ∈ U
  closed : ∀ pid ∈ w.visited,
    pid ∈ w.queue ∨ pid ∈ busy ∨ ∀ c ∈ childrenOf snapshot pid, c ∈ w.visited

theorem Walk.Going.meet {busy : List Nat} (h : w.Going snapshot U busy)
    (hpid : pid ∈ U) : (w.meet leaderPid snapshot pid).Going snapshot U busy := by
  rw [Walk.meet]
  split
  · exact h
  · rename_i hnew
    refine ⟨List.nodup_cons.2 ⟨hnew, h.nodup⟩, fun p hp => ?_, fun p hp => ?_⟩
    · rcases List.mem_cons.1 hp with rfl | hp
      · exact hpid
      · exact h.within p hp
    · rcases List.mem_cons.1 hp with rfl | hp
      · exact .inl (List.mem_append_right _ (List.mem_singleton.2 rfl))
      · rcases h.closed p hp with hq | hb | hc
        · exact .inl (List.mem_append_left _ hq)
        · exact .inr (.inl hb)
        · exact .inr (.inr fun c hmem => List.mem_cons_of_mem _ (hc c hmem))

variable (leaderPid) in
theorem Walk.Going.meetAll {busy : List Nat} (h : w.Going snapshot U busy)
    (hpids : ∀ pid ∈ pids, pid ∈ U) :
    (pids.foldl (Walk.meet leaderPid snapshot) w).Going snapshot U busy := by
  induction pids generalizing w with
  | nil => exact h
  | cons pid pids ih =>
    exact ih (h.meet (hpids pid List.mem_cons_self))
      fun p hp => hpids p (List.mem_cons_of_mem _ hp)

variable (leaderPid snapshot) in
/-- Meeting takes nothing back, and as many pids are queued as are met. -/
theorem Walk.meet_grows (w : Walk) (pid : Nat) :
    pid ∈ (w.meet leaderPid snapshot pid).visited ∧
      w.visited ⊆ (w.meet leaderPid snapshot pid).visited ∧
      (w.meet leaderPid snapshot pid).visited.length + w.queue.length =
        (w.meet leaderPid snapshot pid).queue.length + w.visited.length := by
  rw [Walk.meet]
  split
  · rename_i hmem
    exact ⟨hmem, fun _ hp => hp, Nat.add_comm _ _⟩
  · refine ⟨List.mem_cons_self, fun _ hp => List.mem_cons_of_mem _ hp, ?_⟩
    rw [List.length_append, List.length_cons, List.length_cons, List.length_nil]
    omega

variable (leaderPid snapshot) in
theorem Walk.meetAll_grows (pids : List Nat) (w : Walk) :
    (∀ pid ∈ pids, pid ∈ (pids.foldl (Walk.meet leaderPid snapshot) w).visited) ∧
      w.visited ⊆ (pids.foldl (Walk.meet leaderPid snapshot) w).visited ∧
      (pids.foldl (Walk.meet leaderPid snapshot) w).visited.length + w.queue.length =
        (pids.foldl (Walk.meet leaderPid snapshot) w).queue.length + w.visited.length := by
  induction pids generalizing w with
  | nil => exact ⟨fun _ hp => absurd hp List.not_mem_nil, fun _ hp => hp, Nat.add_comm _ _⟩
  | cons pid pids ih =>
    obtain ⟨hmet, hsub, hlen⟩ := w.meet_grows leaderPid snapshot pid
    obtain ⟨hall, hsub', hlen'⟩ := ih (w.meet leaderPid snapshot pid)
    refine ⟨fun p hp => ?_, fun p hp => hsub' (hsub hp), ?_⟩
    · rcases List.mem_cons.1 hp with rfl | hp
      · exact hsub' hmet
      · exact hall p hp
    · rw [List.foldl_cons]
      omega

variable (leaderPid) in
/-- One turn: the children of the pid at the front are met. -/
theorem Walk.Going.turn (h : w.Going snapshot U []) {current : Nat} {queue : List Nat}
    (hqueue : w.queue = current :: queue) (hU : ∀ e ∈ snapshot.rows, e.pid ∈ U) :
    ((childrenOf snapshot current).foldl (Walk.meet leaderPid snapshot)
      { w with queue }).Going snapshot U [] := by
  have hchildren : ∀ c ∈ childrenOf snapshot current, c ∈ U := by
    intro c hc
    obtain ⟨e, he, rfl⟩ := List.mem_map.1 hc
    exact hU e (List.mem_filter.1 he).1
  have htaken : Walk.Going snapshot U [current] { w with queue } := by
    refine ⟨h.nodup, h.within, fun p hp => ?_⟩
    rcases h.closed p hp with hq | hb | hc
    · rw [hqueue] at hq
      rcases List.mem_cons.1 hq with rfl | hq
      · exact .inr (.inl (List.mem_singleton.2 rfl))
      · exact .inl hq
    · cases hb
    · exact .inr (.inr hc)
  have hmet := htaken.meetAll leaderPid hchildren
  obtain ⟨hall, -, -⟩ := Walk.meetAll_grows leaderPid snapshot
    (childrenOf snapshot current) { w with queue }
  refine ⟨hmet.nodup, hmet.within, fun p hp => ?_⟩
  rcases hmet.closed p hp with hq | hb | hc
  · exact .inl hq
  · rw [List.mem_singleton.1 hb]
    exact .inr (.inr hall)
  · exact .inr (.inr hc)

variable (leaderPid) in
/-- With a turn for each pid of `U` nothing stays queued. -/
theorem Walk.Going.search (hU : ∀ e ∈ snapshot.rows, e.pid ∈ U) (fuel : Nat)
    (h : w.Going snapshot U []) (hfuel : U.length + w.queue.length ≤ fuel + w.visited.length) :
    (w.search leaderPid snapshot fuel).Going snapshot U [] ∧
      (w.search leaderPid snapshot fuel).queue = [] ∧
      w.visited ⊆ (w.search leaderPid snapshot fuel).visited := by
  induction fuel generalizing w with
  | zero =>
    have hle : w.visited.length ≤ U.length := (List.subperm_of_subset h.nodup h.within).length_le
    have hempty : w.queue.length = 0 := by omega
    exact ⟨h, List.length_eq_zero_iff.1 hempty, fun _ hp => hp⟩
  | succ fuel ih =>
    rw [Walk.search]
    split
    · rename_i hempty
      exact ⟨h, hempty, fun _ hp => hp⟩
    · rename_i current queue hqueue
      obtain ⟨-, hsub, hlen⟩ := Walk.meetAll_grows leaderPid snapshot
        (childrenOf snapshot current) { w with queue }
      have hlength : w.queue.length = queue.length + 1 := by rw [hqueue, List.length_cons]
      have hturn := h.turn leaderPid hqueue hU
      -- The one pid that left the queue makes up for the turn that is gone.
      obtain ⟨hgoing, hempty, hsub'⟩ := ih hturn (by
        simp only at hlen ⊢
        omega)
      exact ⟨hgoing, hempty, fun p hp => hsub' (hsub hp)⟩

variable (leaderPid snapshot) in
/-- The walk ends with nothing queued; it meets the leader, the seeds, and every child of what it
    meets. -/
theorem walkFrom_done (seedPids : List Nat) :
    (walkFrom leaderPid snapshot seedPids).queue = [] ∧
      (∀ pid ∈ leaderPid :: seedPids, pid ∈ (walkFrom leaderPid snapshot seedPids).visited) ∧
      ∀ pid ∈ (walkFrom leaderPid snapshot seedPids).visited,
        ∀ c ∈ childrenOf snapshot pid, c ∈ (walkFrom leaderPid snapshot seedPids).visited := by
  let U := leaderPid :: (seedPids ++ snapshot.rows.map (·.pid))
  have hU : ∀ e ∈ snapshot.rows, e.pid ∈ U := fun e he =>
    List.mem_cons_of_mem _ (List.mem_append_right _ (List.mem_map_of_mem he))
  have hseeds : ∀ pid ∈ seedPids, pid ∈ U := fun pid hpid =>
    List.mem_cons_of_mem _ (List.mem_append_left _ hpid)
  have hstart : Walk.Going snapshot U [] { queue := [leaderPid], visited := [leaderPid] } := by
    refine ⟨List.nodup_singleton _, fun p hp => ?_, fun p hp => .inl hp⟩
    rw [List.mem_singleton.1 hp]
    exact List.mem_cons_self
  obtain ⟨hall, hsub, hlen⟩ := Walk.meetAll_grows leaderPid snapshot
    seedPids { queue := [leaderPid], visited := [leaderPid] }
  have hlength : U.length = 1 + seedPids.length + snapshot.rows.length := by
    rw [List.length_cons, List.length_append, List.length_map]
    omega
  simp only [List.length_singleton] at hlen
  obtain ⟨hgoing, hempty, hkept⟩ := Walk.Going.search leaderPid hU
    (1 + seedPids.length + snapshot.rows.length) (hstart.meetAll leaderPid hseeds) (by omega)
  refine ⟨hempty, fun pid hpid => hkept ?_, fun pid hpid => ?_⟩
  · rcases List.mem_cons.1 hpid with rfl | hpid
    · exact hsub (List.mem_singleton.2 rfl)
    · exact hall pid hpid
  · rcases hgoing.closed pid hpid with hq | hb | hc
    · rw [hempty] at hq
      cases hq
    · cases hb
    · exact hc

/-- The walk meets whatever descends. -/
theorem Descends.visited (h : Descends leaderPid snapshot seedPids pid) :
    pid ∈ (walkFrom leaderPid snapshot seedPids).visited := by
  obtain ⟨-, hroots, hclosed⟩ := walkFrom_done leaderPid snapshot seedPids
  induction h with
  | root hroot => exact hroots _ hroot
  | child _ hc ih => exact hclosed _ ih _ hc

/-- Every running descendant is in the tree. -/
theorem mem_getProcessTree_of_descends (h : Descends leaderPid snapshot seedPids pid)
    (hrun : snapshot.Running pid) :
    pid = leaderPid ∨ pid ∈ (getProcessTree leaderPid snapshot seedPids).allDescendants := by
  have hkept := (walkFrom_sound seedPids).kept pid h.visited hrun
  exact hkept.imp_right fun hmem => List.mem_append_left _ hmem

/-! ## What the answers say -/

theorem hasLiveMember_iff {pgid : Nat} :
    hasLiveMember snapshot pgid = true ↔ ∃ pid, snapshot.RunningIn pgid pid := by
  rw [hasLiveMember, List.any_eq_true]
  constructor
  · rintro ⟨e, he, htest⟩
    rw [Bool.and_eq_true_iff, Bool.not_eq_true', beq_iff_eq] at htest
    exact ⟨e.pid, e, he, rfl, htest.2, htest.1⟩
  · rintro ⟨pid, e, he, -, hg, hz⟩
    exact ⟨e, he, by simp [hg, hz]⟩

/-- A group that a reading does not list is not found afterwards, so there is an answer. -/
theorem isGroupAlive_ok {pgid : Nat} {probe : ProcessTable} {readings : Readings} {os os' : Os}
    (hlooked : readings.looked pgid = os.table) (hevolves : os.Evolves os') (hled : os.Led pgid) :
    ∃ alive, isGroupAlive pgid probe os'.table readings = .ok alive := by
  rw [isGroupAlive, hlooked]
  by_cases hprobe : probe.groupExists pgid = true
  · rw [hprobe]
    by_cases hlisted : os.table.groupExists pgid = true
    · exact ⟨_, by simp [hlisted]; rfl⟩
    · have hempty : ∀ e ∈ os.table.rows, e.pgid ≠ pgid := fun e he hg =>
        hlisted (ProcessTable.groupExists_iff.2 ⟨e, he, hg⟩)
      have hgone : os'.table.groupExists pgid = false := by
        rw [Bool.eq_false_iff]
        intro hexists
        obtain ⟨e, he, hg⟩ := ProcessTable.groupExists_iff.1 hexists
        exact hevolves.groupGone hled hempty e he hg
      have hdead : hasLiveMember os.table pgid = false := by
        rw [Bool.eq_false_iff]
        intro hlive
        obtain ⟨_, e, he, -, hg, -⟩ := hasLiveMember_iff.1 hlive
        exact hempty e he hg
      exact ⟨false, by simp [hgone, hdead, hlisted]⟩
  · rw [Bool.not_eq_true] at hprobe
    exact ⟨false, by simp [hprobe]⟩

/-- Pids that are gone for good once the reading does not list them are all classified. -/
theorem classifyEach_ok {probe : Nat → ProcessTable} {c : Classified}
    (h : ∀ pid ∈ pids, (∀ e ∈ snapshot.rows, e.pid ≠ pid) → (probe pid).exists? pid = false) :
    ∃ c', classifyEach snapshot probe pids c = .ok c' ∧
      ∀ pid, pid ∈ c'.runningPids ↔
        pid ∈ c.runningPids ∨ pid ∈ pids ∧ snapshot.Running pid := by
  induction pids generalizing c with
  | nil => exact ⟨c, rfl, fun pid => by simp⟩
  | cons pid pids ih =>
    have hrest : ∀ p ∈ pids, (∀ e ∈ snapshot.rows, e.pid ≠ p) → (probe p).exists? p = false :=
      fun p hp => h p (List.mem_cons_of_mem _ hp)
    rw [classifyEach]
    cases hget : snapshot.get? pid with
    | none =>
      have hgone : (probe pid).exists? pid = false :=
        h pid List.mem_cons_self (Table.get?_eq_none_iff.1 hget)
      simp only [hgone, Bool.false_eq_true, if_false]
      obtain ⟨c', hc', hrunning⟩ := ih (c := c) hrest
      refine ⟨c', hc', fun p => ?_⟩
      rw [hrunning p, List.mem_cons]
      constructor
      · exact fun hp => hp.imp_right fun hp => ⟨.inr hp.1, hp.2⟩
      · rintro (hp | ⟨rfl | hp, hrun⟩)
        · exact .inl hp
        · obtain ⟨e, he, -⟩ := running_iff_get?.1 hrun
          rw [hget] at he
          cases he
        · exact .inr ⟨hp, hrun⟩
    | some e =>
      simp only
      cases hz : e.zombie with
      | true =>
        simp only [if_true]
        obtain ⟨c', hc', hrunning⟩ :=
          ih (c := { c with unreapedPids := c.unreapedPids ++ [pid] }) hrest
        refine ⟨c', hc', fun p => ?_⟩
        rw [hrunning p, List.mem_cons]
        constructor
        · exact fun hp => hp.imp_right fun hp => ⟨.inr hp.1, hp.2⟩
        · rintro (hp | ⟨rfl | hp, hrun⟩)
          · exact .inl hp
          · obtain ⟨e', he', hz'⟩ := running_iff_get?.1 hrun
            rw [hget] at he'
            cases he'
            rw [hz] at hz'
            cases hz'
          · exact .inr ⟨hp, hrun⟩
      | false =>
        simp only [Bool.false_eq_true, if_false]
        obtain ⟨c', hc', hrunning⟩ :=
          ih (c := { c with runningPids := c.runningPids ++ [pid] }) hrest
        have hrun : snapshot.Running pid := running_iff_get?.2 ⟨e, hget, hz⟩
        refine ⟨c', hc', fun p => ?_⟩
        rw [hrunning p, List.mem_cons, List.mem_append, List.mem_singleton]
        constructor
        · rintro ((hp | rfl) | hp)
          · exact .inl hp
          · exact .inr ⟨.inl rfl, hrun⟩
          · exact .inr ⟨.inr hp.1, hp.2⟩
        · rintro (hp | ⟨rfl | hp, hr⟩)
          · exact .inl (.inl hp)
          · exact .inl (.inr rfl)
          · exact .inr ⟨hp, hr⟩

/-- The running pids are those asked for that the reading lists as running. -/
theorem classifyPids_ok {probe : Nat → ProcessTable}
    (h : ∀ pid ∈ pids, (∀ e ∈ snapshot.rows, e.pid ≠ pid) → (probe pid).exists? pid = false) :
    ∃ c, classifyPids snapshot probe pids = .ok c ∧
      ∀ pid, pid ∈ c.runningPids ↔ pid ∈ pids ∧ snapshot.Running pid := by
  obtain ⟨c, hc, hrunning⟩ := classifyEach_ok  fun pid hpid => h pid (List.mem_eraseDups.1 hpid)
  refine ⟨c, hc, fun pid => ?_⟩
  rw [hrunning pid, List.mem_eraseDups]
  simp

end XioFlow.Driver
