/-
  XioFlow.Driver.TreeMembers

  Which processes the tree of a leader has to hold, and which it holds.

  The tree is closed under two rules, child of a member and member of the
  leader's group.  The sampler follows the first from the leader and the seeds,
  and takes up the rest of the group last: the children of those it takes up
  then are not looked for.
-/

import XioFlow.Driver.Sampler

namespace XioFlow.Driver

open Lib

/-! ## The processes of a tree -/

/-- `c` is a child of `pid`, directly or through children that have exited. -/
inductive Offspring (snapshot : ProcessTable) (pid : Nat) : Nat → Prop where
  | child {c : Nat} (h : c ∈ childrenOf snapshot pid) : Offspring snapshot pid c
  | through {z c : Nat} (h : Offspring snapshot pid z) (hexited : ¬ snapshot.Running z)
      (hc : c ∈ childrenOf snapshot z) : Offspring snapshot pid c

/-- The running processes that belong to a leader's tree: the least set with the seeds and the
    rest of the leader's group that is closed under children. -/
inductive Member (leaderPid : Nat) (snapshot : ProcessTable) (seedPids : List Nat) : Nat → Prop where
  | seed {pid : Nat} (h : pid ∈ seedPids) (hrun : snapshot.Running pid) :
      Member leaderPid snapshot seedPids pid
  | group {pid : Nat} (h : snapshot.RunningIn leaderPid pid) (hne : pid ≠ leaderPid) :
      Member leaderPid snapshot seedPids pid
  | ofLeader {c : Nat} (hc : Offspring snapshot leaderPid c) (hrun : snapshot.Running c) :
      Member leaderPid snapshot seedPids c
  | ofMember {pid c : Nat} (h : Member leaderPid snapshot seedPids pid)
      (hc : Offspring snapshot pid c) (hrun : snapshot.Running c) :
      Member leaderPid snapshot seedPids c

/-- A list that holds each running member once, and whose two parts are those in the leader's
    group and those outside it. -/
structure ProcessTree.Complete (leaderPid : Nat) (snapshot : ProcessTable) (seedPids : List Nat)
    (tree : ProcessTree) : Prop where
  nodup : tree.allDescendants.Nodup
  running : ∀ pid ∈ tree.allDescendants, snapshot.Running pid
  parts : (tree.inGroupDescendants ++ tree.escapedDescendants).Perm tree.allDescendants
  inGroup : ∀ pid ∈ tree.inGroupDescendants, snapshot.RunningIn leaderPid pid
  escaped : ∀ pid ∈ tree.escapedDescendants, ¬ snapshot.RunningIn leaderPid pid
  members : ∀ pid, pid ∈ tree.allDescendants ↔ Member leaderPid snapshot seedPids pid

variable {leaderPid : Nat} {snapshot : ProcessTable} {seedPids : List Nat}

variable {pid : Nat}

theorem Member.running (h : Member leaderPid snapshot seedPids pid) : snapshot.Running pid := by
  cases h with
  | seed _ hrun | ofLeader _ hrun | ofMember _ _ hrun => exact hrun
  | group h _ => exact h.running

theorem Descends.offspring {c : Nat} (h : Descends leaderPid snapshot seedPids pid)
    (hc : Offspring snapshot pid c) : Descends leaderPid snapshot seedPids c := by
  induction hc with
  | child hc => exact h.child hc
  | through _ _ hc ih => exact ih.child hc

/-! ## What the tree holds -/

/-- The pid is listed in the leader's group. -/
def ofGroup (leaderPid : Nat) (snapshot : ProcessTable) (pid : Nat) : Bool :=
  snapshot.rows.any fun e => e.pid == pid && e.pgid == leaderPid

theorem ofGroup_of_get? {e : ProcessEntry} (hget : snapshot.get? pid = some e) :
    ofGroup leaderPid snapshot pid = (e.pgid == leaderPid) := by
  have hmem := Table.mem_of_get? hget
  have hkey := Table.key_of_get? hget
  rw [ofGroup, Bool.eq_iff_iff, List.any_eq_true]
  constructor
  · rintro ⟨e', he', htest⟩
    rw [Bool.and_eq_true_iff, beq_iff_eq] at htest
    -- No two lines have the same pid.
    have hsame := Table.get?_of_mem he'
    rw [htest.1, hget] at hsame
    cases hsame
    exact htest.2
  · intro hg
    exact ⟨e, hmem, by simp [hkey, hg]⟩

theorem runningIn_iff :
    snapshot.RunningIn leaderPid pid ↔
      snapshot.Running pid ∧ ofGroup leaderPid snapshot pid = true := by
  constructor
  · intro h
    refine ⟨h.running, ?_⟩
    obtain ⟨e, he, rfl, hg, -⟩ := h
    exact List.any_eq_true.2 ⟨e, he, by simp [hg]⟩
  · rintro ⟨hrun, hg⟩
    obtain ⟨e, hget, hz⟩ := running_iff_get?.1 hrun
    rw [ofGroup_of_get? hget, beq_iff_eq] at hg
    exact ⟨e, Table.mem_of_get? hget, Table.key_of_get? hget, hg, hz⟩

/-- The tree lists pids once each, none of them the leader's, and splits them by group. -/
structure ProcessTree.Split (leaderPid : Nat) (snapshot : ProcessTable) (tree : ProcessTree) :
    Prop where
  nodup : tree.allDescendants.Nodup
  apart : leaderPid ∉ tree.allDescendants
  inGroup : tree.inGroupDescendants = tree.allDescendants.filter (ofGroup leaderPid snapshot)
  escaped : tree.escapedDescendants =
    tree.allDescendants.filter fun pid => !ofGroup leaderPid snapshot pid

theorem ProcessTree.Split.note {tree : ProcessTree} (h : tree.Split leaderPid snapshot)
    (hnew : pid ∉ tree.allDescendants) (hne : pid ≠ leaderPid) :
    (tree.note leaderPid snapshot pid).Split leaderPid snapshot := by
  have hnodup : (tree.allDescendants ++ [pid]).Nodup :=
    List.nodup_append.2 ⟨h.nodup, List.nodup_singleton _, by
      rintro p hp q hq rfl
      exact hnew ((List.mem_singleton.1 hq) ▸ hp)⟩
  have hapart : leaderPid ∉ tree.allDescendants ++ [pid] := by
    rw [List.mem_append, List.mem_singleton, not_or]
    exact ⟨h.apart, fun heq => hne heq.symm⟩
  rw [ProcessTree.note]
  cases hget : snapshot.get? pid with
  | none => exact h
  | some e =>
    have hgroup : ofGroup leaderPid snapshot pid = (e.pgid == leaderPid) := ofGroup_of_get? hget
    simp only
    by_cases hz : e.zombie = true
    · rw [if_pos hz]
      exact h
    · rw [if_neg hz]
      by_cases hg : e.pgid = leaderPid
      · rw [if_pos hg]
        rw [hg, beq_self_eq_true] at hgroup
        refine ⟨hnodup, hapart, ?_, ?_⟩
        · simp [h.inGroup, hgroup]
        · simp [h.escaped, hgroup]
      · rw [if_neg hg]
        rw [beq_eq_false_iff_ne.2 hg] at hgroup
        refine ⟨hnodup, hapart, ?_, ?_⟩
        · simp [h.inGroup, hgroup]
        · simp [h.escaped, hgroup]

/-- Met are pids that descend, the leader among them, and what is kept was met. -/
structure Walk.Lists (leaderPid : Nat) (snapshot : ProcessTable) (seedPids : List Nat) (w : Walk) :
    Prop where
  leader : leaderPid ∈ w.visited
  descends : ∀ pid ∈ w.visited, Descends leaderPid snapshot seedPids pid
  met : ∀ pid ∈ w.tree.allDescendants, pid ∈ w.visited
  split : w.tree.Split leaderPid snapshot

theorem Walk.Lists.meet {w : Walk} (h : w.Lists leaderPid snapshot seedPids)
    (hpid : Descends leaderPid snapshot seedPids pid) :
    (w.meet leaderPid snapshot pid).Lists leaderPid snapshot seedPids := by
  rw [Walk.meet]
  split
  · exact h
  · rename_i hnew
    refine ⟨List.mem_cons_of_mem _ h.leader, fun p hp => ?_, fun p hp => ?_, ?_⟩
    · rcases List.mem_cons.1 hp with rfl | hp
      · exact hpid
      · exact h.descends p hp
    · rcases mem_note.1 hp with hp | ⟨rfl, -⟩
      · exact List.mem_cons_of_mem _ (h.met p hp)
      · exact List.mem_cons_self
    · -- The pid is new to the walk, and so it is neither kept yet nor the leader's.
      have hunkept : pid ∉ w.tree.allDescendants := fun hp => hnew (h.met pid hp)
      have hne : pid ≠ leaderPid := fun heq => hnew (heq ▸ h.leader)
      exact h.split.note hunkept hne

theorem walkFrom_lists :
    (walkFrom leaderPid snapshot seedPids).Lists leaderPid snapshot seedPids := by
  refine walkFrom_induct (fun w queue h => ⟨h.leader, h.descends, h.met, h.split⟩)
    (fun w pid hpid h => h.meet hpid) ⟨List.mem_cons_self, fun p hp => ?_, ?_, ?_⟩
  · rw [List.mem_singleton.1 hp]
    exact .root List.mem_cons_self
  · exact fun p hp => absurd hp List.not_mem_nil
  · exact ⟨List.nodup_nil, List.not_mem_nil, rfl, rfl⟩

/-- The walk meets what descends and nothing else. -/
theorem mem_visited_iff :
    pid ∈ (walkFrom leaderPid snapshot seedPids).visited ↔
      Descends leaderPid snapshot seedPids pid :=
  ⟨walkFrom_lists.descends pid, Descends.visited⟩

/-- In the tree are, but for the leader, the running processes that descend and those of the
    group. -/
theorem mem_getProcessTree_iff :
    pid ∈ (getProcessTree leaderPid snapshot seedPids).allDescendants ↔
      snapshot.Running pid ∧ pid ≠ leaderPid ∧
        (Descends leaderPid snapshot seedPids pid ∨ snapshot.RunningIn leaderPid pid) := by
  constructor
  · intro h
    refine ⟨getProcessTree_running h, ?_⟩
    rcases List.mem_append.1 h with h | h
    · have hmet := walkFrom_lists.met pid h
      exact ⟨fun heq => walkFrom_lists.split.apart (heq ▸ h), .inl (mem_visited_iff.1 hmet)⟩
    · obtain ⟨e, he, rfl⟩ := List.mem_map.1 h
      obtain ⟨hmem, htest⟩ := List.mem_filter.1 he
      simp only [Bool.and_eq_true, beq_iff_eq, Bool.not_eq_true', decide_eq_false_iff_not] at htest
      obtain ⟨⟨hg, hnew⟩, hz⟩ := htest
      refine ⟨fun heq => hnew ?_, .inr ⟨e, hmem, rfl, hg, hz⟩⟩
      rw [heq]
      exact walkFrom_lists.leader
  · rintro ⟨hrun, hne, hdescends | hmember⟩
    · exact (mem_getProcessTree_of_descends hdescends hrun).resolve_left hne
    · exact (mem_getProcessTree_of_group hmember).resolve_left hne

/-- The last pass keeps the tree split. -/
theorem getProcessTree_split : (getProcessTree leaderPid snapshot seedPids).Split leaderPid snapshot := by
  have hlists : (walkFrom leaderPid snapshot seedPids).Lists leaderPid snapshot seedPids :=
    walkFrom_lists
  have hleft : ∀ pid ∈ (snapshot.rows.filter fun p => p.pgid == leaderPid &&
      !decide (p.pid ∈ (walkFrom leaderPid snapshot seedPids).visited) && !p.zombie).map (·.pid),
      pid ∉ (walkFrom leaderPid snapshot seedPids).visited ∧
        ofGroup leaderPid snapshot pid = true := by
    intro pid hpid
    obtain ⟨e, he, rfl⟩ := List.mem_map.1 hpid
    obtain ⟨hmem, htest⟩ := List.mem_filter.1 he
    simp only [Bool.and_eq_true, beq_iff_eq, Bool.not_eq_true', decide_eq_false_iff_not] at htest
    obtain ⟨⟨hg, hnew⟩, -⟩ := htest
    exact ⟨hnew, List.any_eq_true.2 ⟨e, hmem, by simp [hg]⟩⟩
  refine ⟨?_, fun h => (mem_getProcessTree_iff.1 h).2.1 rfl, ?_, ?_⟩
  · refine List.nodup_append.2 ⟨hlists.split.nodup, ?_, ?_⟩
    · exact (snapshot.nodup.sublist ((List.filter_sublist).map _))
    · rintro p hp q hq rfl
      exact (hleft p hq).1 (hlists.met p hp)
  · show _ ++ _ = List.filter _ (_ ++ _)
    rw [List.filter_append, ← hlists.split.inGroup,
      List.filter_eq_self.2 fun pid hpid => (hleft pid hpid).2]
  · show _ = List.filter _ (_ ++ _)
    rw [List.filter_append, ← hlists.split.escaped,
      List.filter_eq_nil_iff.2 fun pid hpid => by simp [(hleft pid hpid).2], List.append_nil]
    rfl

/-! ## When it holds them all -/

/-- Nothing hides a member from the sampler, and nothing gives it others. -/
structure Followed (leaderPid : Nat) (snapshot : ProcessTable) (seedPids : List Nat) : Prop where
  /-- The leader is no member of its own tree. -/
  leader : ¬ Member leaderPid snapshot seedPids leaderPid
  /-- What a seed that has exited left behind belongs to the tree anyway. -/
  seeds : ∀ pid ∈ seedPids, ¬ snapshot.Running pid → ∀ c, Offspring snapshot pid c →
    snapshot.Running c → c = leaderPid ∨ Member leaderPid snapshot seedPids c
  /-- A member of the group that the walk does not come to has no children elsewhere. -/
  strays : ∀ pid, snapshot.RunningIn leaderPid pid → ¬ Descends leaderPid snapshot seedPids pid →
    ∀ c, Offspring snapshot pid c → snapshot.Running c →
      Descends leaderPid snapshot seedPids c ∨ snapshot.RunningIn leaderPid c

/-- What the walk may take offspring from: the leader, a member, a seed that has exited. -/
def Source (leaderPid : Nat) (snapshot : ProcessTable) (seedPids : List Nat) (pid : Nat) : Prop :=
  pid = leaderPid ∨ Member leaderPid snapshot seedPids pid ∨
    pid ∈ seedPids ∧ ¬ snapshot.Running pid

theorem Source.offspring {c : Nat} (hfollowed : Followed leaderPid snapshot seedPids)
    (h : Source leaderPid snapshot seedPids pid) (hc : Offspring snapshot pid c)
    (hrun : snapshot.Running c) : c = leaderPid ∨ Member leaderPid snapshot seedPids c := by
  rcases h with rfl | hmember | ⟨hseed, hexited⟩
  · exact .inr (.ofLeader hc hrun)
  · exact .inr (.ofMember hmember hc hrun)
  · exact hfollowed.seeds pid hseed hexited c hc hrun

/-- On a line of descent each process is a source or the offspring of one. -/
theorem Descends.source (hfollowed : Followed leaderPid snapshot seedPids)
    (h : Descends leaderPid snapshot seedPids pid) :
    Source leaderPid snapshot seedPids pid ∨
      ∃ q, Source leaderPid snapshot seedPids q ∧ Offspring snapshot q pid := by
  induction h with
  | @root pid hroot =>
    left
    rcases List.mem_cons.1 hroot with rfl | hseed
    · exact .inl rfl
    · by_cases hrun : snapshot.Running pid
      · exact .inr (.inl (.seed hseed hrun))
      · exact .inr (.inr ⟨hseed, hrun⟩)
  | @child pid c _ hc ih =>
    right
    rcases ih with hsource | ⟨q, hsource, hoffspring⟩
    · exact ⟨pid, hsource, .child hc⟩
    · by_cases hrun : snapshot.Running pid
      · -- A running parent is a member itself, or the leader.
        have hparent := hsource.offspring hfollowed hoffspring hrun
        exact ⟨pid, hparent.imp_right .inl, .child hc⟩
      · exact ⟨q, hsource, .through hoffspring hrun hc⟩

theorem Descends.member (hfollowed : Followed leaderPid snapshot seedPids)
    (h : Descends leaderPid snapshot seedPids pid) (hrun : snapshot.Running pid)
    (hne : pid ≠ leaderPid) : Member leaderPid snapshot seedPids pid := by
  rcases h.source hfollowed with (heq | hmember | ⟨-, hexited⟩) | ⟨q, hsource, hoffspring⟩
  · exact absurd heq hne
  · exact hmember
  · exact absurd hrun hexited
  · exact (hsource.offspring hfollowed hoffspring hrun).resolve_left hne

theorem Member.descends (hfollowed : Followed leaderPid snapshot seedPids)
    (h : Member leaderPid snapshot seedPids pid) :
    Descends leaderPid snapshot seedPids pid ∨ snapshot.RunningIn leaderPid pid := by
  induction h with
  | seed hseed _ => exact .inl (.root (List.mem_cons_of_mem _ hseed))
  | group hmember _ => exact .inr hmember
  | ofLeader hc _ => exact .inl ((Descends.root List.mem_cons_self).offspring hc)
  | @ofMember pid c _ hc hrun ih =>
    by_cases hdescends : Descends leaderPid snapshot seedPids pid
    · exact .inl (hdescends.offspring hc)
    · exact hfollowed.strays pid (ih.resolve_left hdescends) hdescends c hc hrun

/-- The tree is read to its end, and it is complete, where the members can be followed and only
    there. -/
theorem getProcessTree_complete_iff (leaderPid : Nat) (snapshot : ProcessTable)
    (seedPids : List Nat) :
    (walkFrom leaderPid snapshot seedPids).queue = [] ∧
        (getProcessTree leaderPid snapshot seedPids).Complete leaderPid snapshot seedPids ↔
      Followed leaderPid snapshot seedPids := by
  have hsplit : (getProcessTree leaderPid snapshot seedPids).Split leaderPid snapshot :=
    getProcessTree_split
  constructor
  · rintro ⟨-, hcomplete⟩
    have hlisted : ∀ pid, Member leaderPid snapshot seedPids pid ↔ snapshot.Running pid ∧
        pid ≠ leaderPid ∧
          (Descends leaderPid snapshot seedPids pid ∨ snapshot.RunningIn leaderPid pid) :=
      fun pid => (hcomplete.members pid).symm.trans mem_getProcessTree_iff
    refine ⟨fun h => ((hlisted leaderPid).1 h).2.1 rfl, ?_, ?_⟩
    · intro pid hseed _ c hc hrun
      have hdescends : Descends leaderPid snapshot seedPids c :=
        (Descends.root (List.mem_cons_of_mem _ hseed)).offspring hc
      rw [hlisted c]
      by_cases hne : c = leaderPid
      · exact .inl hne
      · exact .inr ⟨hrun, hne, .inl hdescends⟩
    · intro pid hgroup hstray c hc hrun
      have hne : pid ≠ leaderPid := by
        rintro rfl
        exact hstray (.root List.mem_cons_self)
      have hmember : Member leaderPid snapshot seedPids c := .ofMember (.group hgroup hne) hc hrun
      exact ((hlisted c).1 hmember).2.2
  · intro hfollowed
    refine ⟨(walkFrom_done leaderPid snapshot seedPids).1, hsplit.nodup,
      fun pid => getProcessTree_running, ?_, ?_, ?_, ?_⟩
    · rw [hsplit.inGroup, hsplit.escaped]
      exact List.filter_append_perm _ _
    · intro pid hpid
      rw [hsplit.inGroup, List.mem_filter] at hpid
      exact runningIn_iff.2 ⟨getProcessTree_running hpid.1, hpid.2⟩
    · intro pid hpid hin
      rw [hsplit.escaped, List.mem_filter, (runningIn_iff.1 hin).2] at hpid
      cases hpid.2
    · intro pid
      rw [mem_getProcessTree_iff]
      constructor
      · rintro ⟨hrun, hne, hdescends | hgroup⟩
        · exact hdescends.member hfollowed hrun hne
        · exact .group hgroup hne
      · intro hmember
        have hne : pid ≠ leaderPid := fun heq => hfollowed.leader (heq ▸ hmember)
        exact ⟨hmember.running, hne, hmember.descends hfollowed⟩

/-- 20 is in the group of 10, its parent is gone, and its child leads a group of its own. -/
def strayTable : ProcessTable where
  rows := [{ pid := 10, ppid := 1, pgid := 10 }, { pid := 20, ppid := 1, pgid := 10 },
    { pid := 30, ppid := 20, pgid := 30 }]
  nodup := by decide

/-- The sampler takes up the stray at the end, and its child not at all. -/
theorem strayTable_incomplete :
    (getProcessTree 10 strayTable []).allDescendants = [20] ∧
      ¬ (getProcessTree 10 strayTable []).Complete 10 strayTable [] := by
  refine ⟨by decide, fun h => ?_⟩
  have hstray : Member 10 strayTable [] 20 :=
    .group ⟨_, List.mem_cons_of_mem _ List.mem_cons_self, rfl, rfl, rfl⟩ (by decide)
  have hchild : Member 10 strayTable [] 30 :=
    .ofMember hstray (.child (by decide))
      ⟨_, List.mem_cons_of_mem _ (List.mem_cons_of_mem _ List.mem_cons_self), rfl, rfl⟩
  exact absurd ((h.members 30).2 hchild) (by decide)

end XioFlow.Driver
