/-
  XioFlow.Driver.StopEvidence

  What an answer of the Node driver's `terminate` says about the processes.

  The call answers from its last reading of the table, about the pids it has
  put together by then.  So the answer is complete exactly when nobody escaped
  that list, and when every signal got through to the end of the call.
-/

import XioFlow.Driver.NodeDriver

namespace XioFlow.Driver.Node

open Lib

namespace World

variable (w : World)

/-! ## What the call has looked at -/

/-- Neither the group nor a tracked pid is alive before any signal. -/
def settledBefore : Bool :=
  match w.groupAliveBefore, w.beforeSignals with
  | .ok alive, .ok c => !alive && c.runningPids.isEmpty
  | _, _ => false

/-- The last reading of the table. -/
def lastReading : Stage := if w.settledBefore then .beforeRead else .finalRead

/-- The reading the last tree was computed from. -/
def treeReading : Stage := if w.settledBefore then .treeRead else .postRead

/-- The last time the cumulative set was read. -/
def copy : Stage := if w.settledBefore then .tracked else .copied

/-- The moment of the answer. -/
def answer : Stage := if w.settledBefore then .settled else .answered

/-- The members of the trees computed during the call. -/
def trees : List Nat :=
  if w.settledBefore then w.initialTree.allDescendants
  else w.initialTree.allDescendants ++ w.postTree.allDescendants

/-- The pids the call asks about at the end. -/
def asked : List Nat := if w.settledBefore then w.firstTracked else w.lastTracked

/-- Runs in the last reading, as a member of the leader's group or as a pid that was the leader,
    a member of a tree, or sampled for the leader. -/
def Remains (pid : Nat) : Prop :=
  (w.table w.lastReading).RunningIn w.leader pid ∨
    (w.table w.lastReading).Running pid ∧
      (pid = w.leader ∨ pid ∈ w.trees ∨ pid ∈ w.sampled w.answer)

/-- `confirmed_stopped` says that nothing remains; otherwise the answer is `cannot_determine`
    with what remains. -/
def Evidence : Prop :=
  match w.terminate with
  | .ok a =>
    (a.result.stopped = .confirmedStopped ∧ ∀ pid, ¬ w.Remains pid) ∨
      (a.result.stopped = .cannotDetermine ∧
        ∃ pids, a.result.residualPids = some pids ∧ ∀ pid, pid ∈ pids ↔ w.Remains pid)
  | .error _ => False

/-! ## When it is so -/

/-- The signal reaches the group, or there is none. -/
def Accepted (signal : Signal) : Prop :=
  w.signalError signal = none ∨ w.signalError signal = some "ESRCH"

/-- The wait after a signal saw the group and the pids go. -/
def exitedAfter (signal : Signal) : Bool :=
  match w.waitForGroupAndPids signal with
  | .ok exited => exited
  | .error _ => false

/-- SIGINT is accepted or refused with EPERM, and once it was accepted no later signal that is
    sent is refused. -/
def Signalled : Prop :=
  w.settledBefore = false →
    (w.Accepted .sigint ∨ w.signalError .sigint = some "EPERM") ∧
    (w.Accepted .sigint → w.exitedAfter .sigint = false →
      w.Accepted .sigterm ∧ (w.exitedAfter .sigterm = false → w.Accepted .sigkill))

/-- The call held the leader's cumulative set with the pid in it. -/
def Copied (pid : Nat) : Prop := w.kept = true ∧ pid ∈ w.sampled w.copy

/-- Of what runs in the last reading: each member of the group was forked before the reading of
    the last tree, and each sampled pid is the leader, in a tree, or in the set as the call last
    read it. -/
def Caught : Prop :=
  ∀ pid, (w.table w.lastReading).Running pid →
    ((w.table w.lastReading).RunningIn w.leader pid →
      pid ∈ (w.os w.treeReading).used ∨ w.Copied pid) ∧
    (pid ∈ w.sampled w.answer → pid = w.leader ∨ pid ∈ w.trees ∨ w.Copied pid)

/-! ## The order of the stages -/

variable {a b : Stage} {pid : Nat}

theorem before_of_phase (h : a.clock.1 < b.clock.1) : a.before b := .inl h

theorem led_at (stage : Stage) : (w.os stage).Led w.leader := by
  by_cases h : Stage.before .call stage
  · exact (w.evolves _ _ h).led w.led
  · cases stage with
    | call => exact w.led
    | look =>
      exact absurd (before_of_phase (by simp only [Stage.clock]; omega)) h
    | _ => exact absurd (before_of_phase (by simp [Stage.clock])) h

/-- What a reading does not list is not found by a later probe. -/
theorem not_found (hab : a.before b) (hused : pid ∈ (w.os a).used)
    (hgone : ∀ e ∈ (w.table a).rows, e.pid ≠ pid) : (w.table b).exists? pid = false := by
  rw [Bool.eq_false_iff]
  intro hexists
  obtain ⟨e, he, hpid⟩ := ProcessTable.exists?_iff.1 hexists
  exact (w.evolves a b hab).gone hused hgone e he hpid

theorem used_of_running {stage : Stage} (h : (w.table stage).Running pid) :
    pid ∈ (w.os stage).used := by
  obtain ⟨e, he, rfl, -⟩ := h
  exact (w.os stage).listed e he

theorem used_later (hab : a.before b) : (w.os a).used ⊆ (w.os b).used :=
  (w.evolves a b hab).used

theorem mem_cumSet {stage : Stage} :
    pid ∈ w.cumSet stage ↔ w.kept = true ∧ pid ∈ w.sampled stage := by
  rw [cumSet]
  by_cases hkept : w.kept = true
  · rw [if_pos hkept]
    exact ⟨fun h => ⟨hkept, h⟩, fun h => h.2⟩
  · rw [if_neg hkept]
    exact ⟨fun h => absurd h List.not_mem_nil, fun h => absurd h.1 hkept⟩

/-! ## The pids asked about were given away before -/

theorem initialTree_used (h : pid ∈ w.initialTree.allDescendants) :
    pid ∈ (w.os .treeRead).used := w.used_of_running (getProcessTree_running h)

theorem firstTracked_used (h : pid ∈ w.firstTracked) : pid ∈ (w.os .tracked).used := by
  rcases List.mem_cons.1 h with rfl | h
  · exact (w.led_at .tracked).used
  · rcases List.mem_append.1 h with h | h
    · exact w.used_later (before_of_phase (by decide)) (w.initialTree_used h)
    · exact w.known .tracked pid (w.mem_cumSet.1 h).2

theorem lastTracked_used (h : pid ∈ w.lastTracked) : pid ∈ (w.os .copied).used := by
  rcases List.mem_append.1 h with h | h
  · exact w.used_later (before_of_phase (by decide)) (w.firstTracked_used h)
  · rcases List.mem_append.1 h with h | h
    · exact w.used_later (before_of_phase (by decide))
        (w.used_of_running (getProcessTree_running h))
    · exact w.known .copied pid (w.mem_cumSet.1 h).2

/-! ## No observation fails -/

theorem groupAliveBefore_ok : ∃ alive, w.groupAliveBefore = .ok alive := by
  -- Whichever reading it rests on, the group is probed again after it.
  have hlooked : ∃ stage : Stage, stage.before .groupReprobe ∧
      Readings.looked w.leader (.own (if w.young then w.table .treeRead else w.table .groupRead)
        (w.table .groupReread)) = (w.os stage).table := by
    rw [Readings.looked]
    by_cases hlive : hasLiveMember
        (if w.young then w.table .treeRead else w.table .groupRead) w.leader = true
    · rw [if_pos hlive]
      by_cases hyoung : w.young = true
      · rw [if_pos hyoung]
        exact ⟨.treeRead, before_of_phase (by decide), rfl⟩
      · rw [if_neg hyoung]
        exact ⟨.groupRead, before_of_phase (by decide), rfl⟩
    · rw [if_neg hlive]
      exact ⟨.groupReread, before_of_phase (by decide), rfl⟩
  obtain ⟨stage, hbefore, heq⟩ := hlooked
  exact isGroupAlive_ok heq (w.evolves _ _ hbefore) (w.led_at stage)

theorem beforeSignals_ok : ∃ c, w.beforeSignals = .ok c ∧
    ∀ pid, pid ∈ c.runningPids ↔ pid ∈ w.firstTracked ∧ (w.table .beforeRead).Running pid := by
  apply classifyPids_ok
  intro pid hpid hgone
  have hused : pid ∈ (w.os .beforeRead).used :=
    w.used_later (before_of_phase (by decide)) (w.firstTracked_used hpid)
  exact w.not_found (before_of_phase (by simp [Stage.clock])) hused hgone

theorem gone_ok (signal : Signal) (round : Nat) : ∃ gone, w.gone signal round = .ok gone := by
  have hpart : ∀ part : Part, part.index ≠ 0 →
      Stage.before (.look signal round .read) (.look signal round part) := by
    intro part hpart
    right
    refine ⟨rfl, .inr ⟨rfl, ?_⟩⟩
    show 0 < part.index
    omega
  have hlooked : (Readings.existing (w.table (.look signal round .read))).looked w.leader =
      (w.os (.look signal round .read)).table := rfl
  have hgroup : ∃ alive, isGroupAlive w.leader (w.table (.look signal round .probe))
      (w.os (.look signal round .reprobe)).table
      (.existing (w.table (.look signal round .read))) = .ok alive :=
    isGroupAlive_ok hlooked (w.evolves _ _ (hpart .reprobe (by decide))) (w.led_at _)
  obtain ⟨alive, halive⟩ := hgroup
  have hclassified : ∃ c, classifyPids (w.table (.look signal round .read))
      (fun pid => w.table (.look signal round (.pidProbe pid)))
      (w.leader :: w.initialTree.inGroupDescendants) = .ok c ∧
      ∀ pid, pid ∈ c.runningPids ↔ pid ∈ w.leader :: w.initialTree.inGroupDescendants ∧
        (w.table (.look signal round .read)).Running pid := by
    apply classifyPids_ok
    intro pid hpid hgone
    have hused : pid ∈ (w.os .treeRead).used := by
      rcases List.mem_cons.1 hpid with rfl | hpid
      · exact (w.led_at .treeRead).used
      · exact w.initialTree_used (getProcessTree_inGroup hpid)
    have hlater : Stage.before .treeRead (.look signal round .read) :=
      before_of_phase (by simp only [Stage.clock]; omega)
    exact w.not_found (hpart _ (by simp [Part.index])) (w.used_later hlater hused) hgone
  obtain ⟨c, hc, -⟩ := hclassified
  refine ⟨!alive && c.runningPids.isEmpty, ?_⟩
  rw [gone]
  show (isGroupAlive _ _ (w.os (.look signal round .reprobe)).table _ >>= _) = _
  rw [halive]
  show (classifyPids _ _ _ >>= _) = _
  rw [hc]
  rfl

theorem waitFrom_ok (signal : Signal) (left round : Nat) :
    ∃ exited, w.waitFrom signal left round = .ok exited := by
  induction left generalizing round with
  | zero => exact w.gone_ok signal round
  | succ left ih =>
    obtain ⟨gone, hgone⟩ := w.gone_ok signal round
    rw [waitFrom, hgone]
    cases gone with
    | true => exact ⟨true, rfl⟩
    | false => exact ih (round + 1)

theorem waitForGroupAndPids_eq (signal : Signal) :
    w.waitForGroupAndPids signal = .ok (w.exitedAfter signal) := by
  obtain ⟨exited, hexited⟩ := w.waitFrom_ok signal (w.rounds signal) 0
  have hwait : w.waitForGroupAndPids signal = .ok exited := hexited
  rw [exitedAfter, hwait]

/-! ## The signals -/

theorem send_of_accepted {signal : Signal} (h : w.Accepted signal) :
    w.sendSignalToGroup signal = .ok () := by
  rw [sendSignalToGroup]
  rcases h with h | h
  · rw [h]
    rfl
  · rw [h]
    rfl

theorem send_of_not_accepted {signal : Signal} (h : ¬ w.Accepted signal) :
    ∃ code, w.signalError signal = some code ∧
      w.sendSignalToGroup signal = .error (.system code) := by
  rw [Accepted, not_or] at h
  rw [sendSignalToGroup]
  cases hcode : w.signalError signal with
  | none => exact absurd hcode h.1
  | some code =>
    have hne : code ≠ "ESRCH" := fun heq => h.2 (by rw [hcode, heq])
    exact ⟨code, rfl, by simp only [if_neg hne]; rfl⟩

/-- The signals that are sent after SIGINT was accepted are accepted. -/
def Followed : Prop :=
  w.exitedAfter .sigint = false →
    w.Accepted .sigterm ∧ (w.exitedAfter .sigterm = false → w.Accepted .sigkill)

/-- After an accepted SIGINT the signals get through, or the call throws a system error. -/
theorem signalGroup_accepted (h : w.Accepted .sigint) :
    (w.Followed ∧ w.signalGroup = .ok ()) ∨
      ¬ w.Followed ∧ ∃ code, w.signalGroup = .error (.system code) := by
  have hstart : w.signalGroup = (do
      if !w.exitedAfter .sigint then
        w.sendSignalToGroup .sigterm
        if !w.exitedAfter .sigterm then
          w.sendSignalToGroup .sigkill : Except Failure Unit) := by
    rw [signalGroup, w.send_of_accepted h]
    simp only [waitForGroupAndPids_eq, bind, Except.bind, pure, Except.pure, Bool.not_false,
      Bool.and_true]
    cases w.exitedAfter .sigint with
    | true => rfl
    | false =>
      cases w.sendSignalToGroup .sigterm with
      | error => rfl
      | ok =>
        cases w.exitedAfter .sigterm with
        | true => rfl
        | false => cases w.sendSignalToGroup .sigkill <;> rfl
  rw [hstart]
  cases hint : w.exitedAfter .sigint with
  | true =>
    refine .inl ⟨fun hlive => ?_, rfl⟩
    rw [hint] at hlive
    cases hlive
  | false =>
    by_cases hterm : w.Accepted .sigterm
    · rw [w.send_of_accepted hterm]
      cases hexit : w.exitedAfter .sigterm with
      | true =>
        refine .inl ⟨fun _ => ⟨hterm, fun hlive => ?_⟩, rfl⟩
        rw [hexit] at hlive
        cases hlive
      | false =>
        by_cases hkill : w.Accepted .sigkill
        · rw [w.send_of_accepted hkill]
          exact .inl ⟨fun _ => ⟨hterm, fun _ => hkill⟩, rfl⟩
        · obtain ⟨code, -, hcode⟩ := w.send_of_not_accepted hkill
          rw [hcode]
          exact .inr ⟨fun hall => hkill ((hall hint).2 hexit), code, rfl⟩
    · obtain ⟨code, -, hcode⟩ := w.send_of_not_accepted hterm
      rw [hcode]
      exact .inr ⟨fun hall => hterm (hall hint).1, code, rfl⟩

theorem signalGroup_refused (h : w.signalError .sigint = some "EPERM") :
    w.signalGroup = .ok () := by
  have hsend : w.sendSignalToGroup .sigint = .error (.system "EPERM") := by
    rw [sendSignalToGroup, h]
    rfl
  rw [signalGroup, hsend]
  simp [waitForGroupAndPids_eq, bind, Except.bind, pure, Except.pure]

/-- The signals get through, or the call throws a system error. -/
theorem signalGroup_cases (hlive : w.settledBefore = false) :
    (w.Signalled ∧ w.signalGroup = .ok ()) ∨
      ¬ w.Signalled ∧ ∃ code, w.signalGroup = .error (.system code) := by
  by_cases haccepted : w.Accepted .sigint
  · rcases w.signalGroup_accepted haccepted with ⟨hfollowed, hok⟩ | ⟨hnot, herror⟩
    · exact .inl ⟨fun _ => ⟨.inl haccepted, fun _ => hfollowed⟩, hok⟩
    · exact .inr ⟨fun hall => hnot ((hall hlive).2 haccepted), herror⟩
  · by_cases hperm : w.signalError .sigint = some "EPERM"
    · exact .inl ⟨fun _ => ⟨.inr hperm, fun h => absurd h haccepted⟩,
        w.signalGroup_refused hperm⟩
    · obtain ⟨code, hcode, hsend⟩ := w.send_of_not_accepted haccepted
      have hne : Failure.system code ≠ .system "EPERM" := by
        intro heq
        cases heq
        exact hperm hcode
      refine .inr ⟨fun hall => ?_, code, ?_⟩
      · rcases (hall hlive).1 with h | h
        · exact haccepted h
        · exact hperm h
      · rw [signalGroup, hsend]
        simp only [if_neg hne]
        rfl

/-! ## The two ways to an answer -/

/-- The last scan lists the tracked pids that run. -/
theorem finalScan_cases : ∃ c : Classified,
    (∀ pid, pid ∈ c.runningPids ↔ pid ∈ w.lastTracked ∧ (w.table .finalRead).Running pid) ∧
    ∃ a, w.finalScan = .ok a ∧
      ((a.result.stopped = .confirmedStopped ∧ c.runningPids = []) ∨
        a.result.stopped = .cannotDetermine ∧ a.result.residualPids = some c.runningPids) := by
  have hclassified : ∃ c, classifyPids (w.table .finalRead)
      (fun pid => w.table (.finalProbe pid)) w.lastTracked = .ok c ∧
      ∀ pid, pid ∈ c.runningPids ↔
        pid ∈ w.lastTracked ∧ (w.table .finalRead).Running pid := by
    apply classifyPids_ok
    intro pid hpid hgone
    have hused : pid ∈ (w.os .finalRead).used :=
      w.used_later (before_of_phase (by decide)) (w.lastTracked_used hpid)
    exact w.not_found (before_of_phase (by simp [Stage.clock])) hused hgone
  obtain ⟨c, hc, hrunning⟩ := hclassified
  refine ⟨c, hrunning, ?_⟩
  rw [finalScan, hc]
  cases hempty : c.runningPids with
  | nil =>
    simp only [bind, Except.bind, hempty, List.isEmpty_nil, Bool.not_true, Bool.false_eq_true,
      if_false]
    exact ⟨_, rfl, .inl ⟨rfl, trivial⟩⟩
  | cons =>
    simp only [bind, Except.bind, hempty, List.isEmpty_cons, Bool.not_false, if_true]
    exact ⟨_, rfl, .inr ⟨rfl, rfl⟩⟩

theorem settledBefore_iff {alive : Bool} {c : Classified} (halive : w.groupAliveBefore = .ok alive)
    (hc : w.beforeSignals = .ok c) :
    w.settledBefore = (!alive && c.runningPids.isEmpty) := by
  rw [settledBefore, halive, hc]

/-- Nothing alive before the signals: confirmed, and of the pids asked about none runs. -/
theorem terminate_settled (h : w.settledBefore = true) :
    (∃ a, w.terminate = .ok a ∧ a.result.stopped = .confirmedStopped) ∧
      ∀ pid ∈ w.firstTracked, ¬ (w.table .beforeRead).Running pid := by
  obtain ⟨alive, halive⟩ := w.groupAliveBefore_ok
  obtain ⟨c, hc, hrunning⟩ := w.beforeSignals_ok
  have hboth : (!alive && c.runningPids.isEmpty) = true := by
    rw [← w.settledBefore_iff halive hc]
    exact h
  have hempty : c.runningPids = [] := List.isEmpty_iff.1 (Bool.and_eq_true_iff.1 hboth).2
  constructor
  · rw [terminate, terminateWithEvidence, halive, hc]
    simp only [bind, Except.bind, hboth, if_true]
    exact ⟨_, rfl, rfl⟩
  · intro pid hpid hrun
    have hlisted : pid ∈ c.runningPids := (hrunning pid).2 ⟨hpid, hrun⟩
    rw [hempty] at hlisted
    cases hlisted

/-- Otherwise the answer is the one of the last scan, unless a signal fails. -/
theorem terminate_signalled (h : w.settledBefore = false) :
    (w.signalGroup = .ok () → ∀ a, w.finalScan = .ok a → w.terminate = .ok a) ∧
      ∀ code, w.signalGroup = .error (.system code) → w.terminate = .error (.system code) := by
  obtain ⟨alive, halive⟩ := w.groupAliveBefore_ok
  obtain ⟨c, hc, -⟩ := w.beforeSignals_ok
  have hneither : (!alive && c.runningPids.isEmpty) = false := by
    rw [← w.settledBefore_iff halive hc]
    exact h
  refine ⟨fun hsignals a ha => ?_, fun code hsignals => ?_⟩
  · rw [terminate, terminateWithEvidence, halive, hc]
    simp only [bind, Except.bind, hneither, Bool.false_eq_true, if_false, hsignals, ha]
  · rw [terminate, terminateWithEvidence, halive, hc]
    simp only [bind, Except.bind, hneither, Bool.false_eq_true, if_false, hsignals]

/-! ## What remains and what was asked about -/

theorem mem_asked :
    pid ∈ w.asked ↔ pid = w.leader ∨ pid ∈ w.trees ∨ w.Copied pid ∨
      pid ∈ w.cumSet .tracked := by
  rw [asked, trees, Copied, copy]
  cases w.settledBefore with
  | true =>
    simp only [if_true, firstTracked, List.mem_cons, List.mem_append, mem_cumSet]
    tauto
  | false =>
    simp only [Bool.false_eq_true, if_false, lastTracked, firstTracked, List.mem_cons,
      List.mem_append, List.cons_append, mem_cumSet]
    tauto

theorem tracked_sub_copy (h : pid ∈ w.cumSet .tracked) : w.Copied pid := by
  obtain ⟨hkept, hmem⟩ := w.mem_cumSet.1 h
  refine ⟨hkept, ?_⟩
  rw [copy]
  cases w.settledBefore with
  | true => exact hmem
  | false => exact w.grows _ _ (before_of_phase (by decide)) hmem

theorem mem_asked_iff : pid ∈ w.asked ↔ pid = w.leader ∨ pid ∈ w.trees ∨ w.Copied pid := by
  rw [mem_asked]
  constructor
  · rintro (h | h | h | h)
    · exact .inl h
    · exact .inr (.inl h)
    · exact .inr (.inr h)
    · exact .inr (.inr (w.tracked_sub_copy h))
  · rintro (h | h | h)
    · exact .inl h
    · exact .inr (.inl h)
    · exact .inr (.inr (.inl h))

/-- What was asked about and runs is part of what remains. -/
theorem remains_of_asked (h : pid ∈ w.asked) (hrun : (w.table w.lastReading).Running pid) :
    w.Remains pid := by
  refine .inr ⟨hrun, ?_⟩
  rcases w.mem_asked_iff.1 h with h | h | ⟨-, h⟩
  · exact .inl h
  · exact .inr (.inl h)
  · have hlater : w.copy.before w.answer := by
      rw [copy, answer]
      cases w.settledBefore with
      | true | false => exact before_of_phase (by decide)
    exact .inr (.inr (w.grows _ _ hlater h))

theorem Remains.running (h : w.Remains pid) : (w.table w.lastReading).Running pid := by
  rcases h with h | ⟨h, -⟩
  · exact h.running
  · exact h

/-- A member of the group at the last reading that was forked before the reading of the last
    tree is the leader or in that tree. -/
theorem mem_trees_of_group (hused : pid ∈ (w.os w.treeReading).used)
    (h : (w.table w.lastReading).RunningIn w.leader pid) : pid = w.leader ∨ pid ∈ w.trees := by
  have hlater : w.treeReading.before w.lastReading := by
    rw [treeReading, lastReading]
    cases w.settledBefore with
    | true | false => exact before_of_phase (by decide)
  have hmember : (w.table w.treeReading).RunningIn w.leader pid :=
    (w.evolves _ _ hlater).member (w.led_at _) hused h
  rw [treeReading] at hmember
  rw [trees]
  cases hsettled : w.settledBefore with
  | true =>
    rw [hsettled] at hmember
    exact mem_getProcessTree_of_group hmember
  | false =>
    rw [hsettled] at hmember
    exact (mem_getProcessTree_of_group hmember).imp_right fun h => List.mem_append_right _ h

/-- The pids asked about were given away by the reading of the last tree, or sampled. -/
theorem used_of_asked (h : pid ∈ w.asked) : pid ∈ (w.os w.treeReading).used ∨ w.Copied pid := by
  rcases w.mem_asked_iff.1 h with rfl | h | h
  · exact .inl (w.led_at _).used
  · left
    rw [trees] at h
    rw [treeReading]
    cases hsettled : w.settledBefore with
    | true =>
      rw [hsettled] at h
      exact w.initialTree_used h
    | false =>
      rw [hsettled] at h
      rcases List.mem_append.1 h with h | h
      · exact w.used_later (before_of_phase (by decide)) (w.initialTree_used h)
      · exact w.used_of_running (getProcessTree_running h)
  · exact .inr h

/-- Nobody escaped exactly when everything that remains was asked about. -/
theorem caught_iff : w.Caught ↔ ∀ pid, w.Remains pid → pid ∈ w.asked := by
  constructor
  · intro hcaught pid hremains
    obtain ⟨hgroup, hsampled⟩ := hcaught pid hremains.running
    rw [mem_asked_iff]
    rcases hremains with hmember | ⟨-, hleader | htree | hmem⟩
    · rcases hgroup hmember with hused | hcopied
      · exact (w.mem_trees_of_group hused hmember).imp_right .inl
      · exact .inr (.inr hcopied)
    · exact .inl hleader
    · exact .inr (.inl htree)
    · exact hsampled hmem
  · intro hall pid hrun
    refine ⟨fun hmember => ?_, fun hmem => ?_⟩
    · exact w.used_of_asked (hall pid (.inl hmember))
    · exact w.mem_asked_iff.1 (hall pid (.inr ⟨hrun, .inr (.inr hmem)⟩))

/-! ## The result -/

/-- The answer is complete evidence exactly when no signal is refused along the way and nobody
    escaped what the call asked about. -/
theorem terminate_evidence_iff : w.Evidence ↔ w.Signalled ∧ w.Caught := by
  rw [caught_iff, Evidence]
  cases hsettled : w.settledBefore with
  | true =>
    obtain ⟨⟨a, ha, hstopped⟩, hnone⟩ := w.terminate_settled hsettled
    have hasked : w.asked = w.firstTracked := by
      rw [asked, hsettled]
      rfl
    have hreading : w.lastReading = .beforeRead := by
      rw [lastReading, hsettled]
      rfl
    have hsignalled : w.Signalled := fun hlive => by
      rw [hsettled] at hlive
      cases hlive
    rw [ha]
    constructor
    · rintro (⟨-, hall⟩ | ⟨hother, -⟩)
      · exact ⟨hsignalled, fun pid hremains => absurd hremains (hall pid)⟩
      · rw [hstopped] at hother
        cases hother
    · rintro ⟨-, hall⟩
      refine .inl ⟨hstopped, fun pid hremains => ?_⟩
      have hmem : pid ∈ w.firstTracked := hasked ▸ hall pid hremains
      exact hnone pid hmem (hreading ▸ hremains.running)
  | false =>
    obtain ⟨hanswers, hthrows⟩ := w.terminate_signalled hsettled
    rcases w.signalGroup_cases hsettled with ⟨hsignalled, hok⟩ | ⟨hnot, code, hcode⟩
    · obtain ⟨c, hrunning, a, ha, hresult⟩ := w.finalScan_cases
      have hasked : w.asked = w.lastTracked := by
        rw [asked, hsettled]
        rfl
      have hreading : w.lastReading = .finalRead := by
        rw [lastReading, hsettled]
        rfl
      -- The pids listed are those asked about that run, so all of them remain.
      have hlisted : ∀ pid, pid ∈ c.runningPids → w.Remains pid := by
        intro pid hpid
        obtain ⟨hmem, hrun⟩ := (hrunning pid).1 hpid
        exact w.remains_of_asked (hasked ▸ hmem) (hreading ▸ hrun)
      have hcomplete : (∀ pid, w.Remains pid → pid ∈ w.asked) ↔
          ∀ pid, pid ∈ c.runningPids ↔ w.Remains pid := by
        constructor
        · intro hall pid
          refine ⟨hlisted pid, fun hremains => (hrunning pid).2 ?_⟩
          exact ⟨hasked ▸ hall pid hremains, hreading ▸ hremains.running⟩
        · intro hall pid hremains
          exact hasked ▸ ((hrunning pid).1 ((hall pid).2 hremains)).1
      rw [hanswers hok a ha, hcomplete]
      constructor
      · rintro (⟨-, hnone⟩ | ⟨hcannot, pids, hpids, hall⟩)
        · refine ⟨hsignalled, fun pid => ?_⟩
          exact ⟨hlisted pid, fun hremains => absurd hremains (hnone pid)⟩
        · rcases hresult with ⟨hconfirmed, -⟩ | ⟨-, hresidual⟩
          · rw [hconfirmed] at hcannot
            cases hcannot
          · rw [hresidual] at hpids
            cases hpids
            exact ⟨hsignalled, hall⟩
      · rintro ⟨-, hall⟩
        rcases hresult with ⟨hconfirmed, hempty⟩ | ⟨hcannot, hresidual⟩
        · refine .inl ⟨hconfirmed, fun pid hremains => ?_⟩
          have hmem := (hall pid).2 hremains
          rw [hempty] at hmem
          cases hmem
        · exact .inr ⟨hcannot, _, hresidual, hall⟩
    · rw [hthrows code hcode]
      exact ⟨False.elim, fun hboth => hnot hboth.1⟩

/-! ## A signal that is refused -/

/-- A leader that runs alone. -/
def alone : Os where
  table := ⟨[{ pid := 10, ppid := 1, pgid := 10 }], by decide⟩
  used := [10]
  listed := by decide

/-- The leader takes SIGINT, outlives the wait and exits; SIGTERM meets a group with nothing but
    its zombie, which the system answers with EPERM. -/
def exitsLate : World where
  leader := 10
  kept := true
  os stage := if stage.clock.1 ≤ 10 then alone else alone.exit 10
  sampled _ := []
  young := false
  rounds _ := 0
  signalError signal := if signal = .sigterm then some "EPERM" else none
  evolves := by
    intro a b hab
    have hle : a.clock.1 ≤ b.clock.1 := by
      rcases hab with h | ⟨h, -⟩
      · omega
      · omega
    by_cases hb : b.clock.1 ≤ 10
    · rw [if_pos hb, if_pos (hle.trans hb)]
      exact Os.Evolves.refl _
    · rw [if_neg hb]
      split
      · exact ⟨[.exit 10], rfl⟩
      · exact Os.Evolves.refl _
  led := ⟨by decide, by decide⟩
  grows _ _ _ := fun _ h => h
  known _ _ h := absurd h List.not_mem_nil

/-- The error of SIGTERM is thrown, where the one of SIGINT would not have been. -/
theorem exitsLate_throws : ¬ exitsLate.Evidence := by
  have hthrows : exitsLate.terminate = .error (.system "EPERM") := by rfl
  rw [Evidence, hthrows]
  exact id

end World
end XioFlow.Driver.Node
