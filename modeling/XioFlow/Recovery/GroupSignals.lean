/-
  XioFlow.Recovery.GroupSignals

  When recovery signals the process group of a dead leader.

  The group is signalled unless something speaks against it: another boot
  session, or a member that started before the operation.  What is missing
  speaks against nothing.  So the group is provably the operation's own exactly
  when none of the facts was missing.
-/

import XioFlow.Recovery.Completion

namespace XioFlow

open Lib
open Lib.Inquiry (done ask run_of_ok asked_of_ok run_of_error asked_of_error)

namespace Recovery

/-- The call sends a signal. -/
def DriverCall.signals : DriverCall → Bool
  | terminate .. | terminateGroup .. => true
  | _ => false

/-- The recorded start of the operation: the platform's, else the host's. -/
def recordedStart (ctx : Context) (identity : ProcessIdentity) : Option Int :=
  match identity.osStartTime with
  | some text => ctx.parseDate text
  | none => some (identity.spawnTime : Int)

/-! ## The facts about a group -/

section Facts

variable (driver : PlatformDriver) (ctx : Context) (op : StoredOperation)
  (identity : ProcessIdentity)

def LeaderGone : Prop :=
  driver.answer (.verifyIdentity op.id identity) = .ok .notOriginalProcess

def GroupAlive (pgid : Nat) : Prop := driver.answer (.isGroupAlive op.id pgid) = .ok true

/-- The driver can tell the boot session, and this is the one. -/
def CurrentBoot (boot : String) : Prop :=
  driver.readBootId = true ∧
    ∃ current, driver.answer (.readBootId op.id) = .ok current ∧ nonEmpty current = some boot

/-- The driver can tell the members of the group, and these are they. -/
def Members (pgid : Nat) (members : List GroupMember) : Prop :=
  driver.getGroupEvidence = true ∧ driver.answer (.getGroupEvidence op.id pgid) = .ok members

/-- The group is the operation's own: the same boot session, and members that all started when the
    operation did or later, one second allowed. -/
structure GroupEvidence (pgid : Nat) : Prop where
  boot : ∃ boot, nonEmpty identity.bootId = some boot ∧ CurrentBoot driver op boot
  members : ∃ members start, Members driver op pgid members ∧ members ≠ [] ∧
    recordedStart ctx identity = some start ∧
    ∀ m ∈ members, ∃ t, m.startTimeMs = some t ∧ start - 1000 ≤ t

/-- Something speaks against the group: another boot session, or an earlier member. -/
def Contradicted (pgid : Nat) : Prop :=
  (∃ recorded current, nonEmpty identity.bootId = some recorded ∧ CurrentBoot driver op current ∧
    recorded ≠ current) ∨
  ∃ members, Members driver op pgid members ∧ hasEarlierProcess ctx identity members = true

/-- The tree was contained in a cgroup by the driver that started it. -/
def CgroupContained : Prop :=
  (nonEmpty identity.cgroupPath).isSome = true ∧
    ∃ evidence, op.recoveryEvidence = some evidence ∧
      evidence.driverCapabilities.descendantEnumeration = .cgroup

/-- A cgroup was recorded, but nothing about the driver that made it. -/
def CgroupUnaccounted : Prop :=
  (nonEmpty identity.cgroupPath).isSome = true ∧ op.recoveryEvidence = none

end Facts

/-! ## The decision about a group -/

/-- Where something speaks against the group, or the driver cannot stop groups, no signal is sent
    and the leases are kept.  Everywhere else the group is signalled. -/
structure SignalsUnless (driver : PlatformDriver) (op : StoredOperation) (pgid : Nat)
    (against : Prop) (p : Decision) : Prop where
  only : ∀ call ∈ p.asked driver.answer, call.signals = true →
    call = .terminateGroup op.id pgid 2000
  silent : against ∨ driver.terminateGroup = false →
    ∀ call ∈ p.asked driver.answer, call.signals = false
  kept : against ∨ driver.terminateGroup = false →
    ∀ verdict, p.run driver.answer = .ok verdict → verdict.released = false
  signals : ¬ against → driver.terminateGroup = true →
    (∃ verdict, p.run driver.answer = .ok verdict) →
      .terminateGroup op.id pgid 2000 ∈ p.asked driver.answer

section Group

variable {driver : PlatformDriver} {ctx : Context} {op : StoredOperation}
  {identity : ProcessIdentity} {pgid : Nat}

variable {against : Prop}

/-- A question that sends no signal changes nothing about it; one without an answer ends it. -/
theorem SignalsUnless.ask {q : DriverCall} {k : q.Answer → Decision} (hsilent : q.signals = false)
    (h : ∀ a, driver.answer q = .ok a → SignalsUnless driver op pgid against (k a)) :
    SignalsUnless driver op pgid against (ask q k) := by
  cases hanswer : driver.answer q with
  | error =>
    refine ⟨fun call hcall hsignals => ?_, fun _ call hcall => ?_, fun _ verdict hrun => ?_,
      fun _ _ hrun => ?_⟩
    · rw [asked_of_error hanswer] at hcall
      rw [List.mem_singleton.1 hcall, hsilent] at hsignals
      cases hsignals
    · rw [asked_of_error hanswer] at hcall
      rw [List.mem_singleton.1 hcall]
      exact hsilent
    · rw [run_of_error hanswer] at hrun
      cases hrun
    · obtain ⟨verdict, hrun⟩ := hrun
      rw [run_of_error hanswer] at hrun
      cases hrun
  | ok a =>
    have hk := h a hanswer
    refine ⟨fun call hcall hsignals => ?_, fun hagainst call hcall => ?_,
      fun hagainst verdict hrun => ?_, fun hagainst hable hrun => ?_⟩
    · rw [asked_of_ok hanswer] at hcall
      rcases List.mem_cons.1 hcall with rfl | hlater
      · rw [hsilent] at hsignals
        cases hsignals
      · exact hk.only call hlater hsignals
    · rw [asked_of_ok hanswer] at hcall
      rcases List.mem_cons.1 hcall with rfl | hlater
      · exact hsilent
      · exact hk.silent hagainst call hlater
    · rw [run_of_ok hanswer] at hrun
      exact hk.kept hagainst verdict hrun
    · rw [run_of_ok hanswer] at hrun
      rw [asked_of_ok hanswer]
      exact List.mem_cons_of_mem _ (hk.signals hagainst hable hrun)

theorem SignalsUnless.congr {against' : Prop} {p : Decision}
    (h : SignalsUnless driver op pgid against p) (hiff : against ↔ against') :
    SignalsUnless driver op pgid against' p := by
  rw [← hiff]
  exact h

/-- The operation is isolated at once. -/
theorem signalsUnless_isolate (hagainst : against) (reason recoveryGuidance : String)
    (durationMs : Nat) (announced : Bool) :
    SignalsUnless driver op pgid against
      (done (.isolate reason recoveryGuidance durationMs announced)) where
  only := fun _ hcall => absurd hcall List.not_mem_nil
  silent := fun _ call hcall => absurd hcall List.not_mem_nil
  kept := fun _ verdict hrun => by
    cases hrun
    rfl
  signals := fun hnot => absurd hagainst hnot

theorem reapDecision_signals :
    SignalsUnless driver op pgid False (reapDecision driver ctx op identity pgid) := by
  unfold reapDecision
  cases hable : driver.terminateGroup with
  | true =>
    rw [if_pos rfl]
    have hnot : ¬ (False ∨ driver.terminateGroup = false) := by simp [hable]
    refine ⟨fun call hcall _ => ?_, fun h => absurd h hnot, fun h => absurd h hnot,
      fun _ _ _ => Inquiry.mem_asked_self driver.answer⟩
    -- whatever is answered, nothing is asked afterwards
    have hlast : ∀ r : StopProcessResult, ∀ v w : OperationVerdict,
        ((if r.stopped = .confirmedStopped then done v else done w : Decision)).asked
          driver.answer = [] := by
      intro r v w
      split <;> rfl
    rw [Inquiry.asked] at hcall
    cases hanswer : driver.answer (.terminateGroup op.id pgid 2000) with
    | error =>
      rw [hanswer] at hcall
      exact List.mem_singleton.1 hcall
    | ok =>
      simp only [hanswer, hlast] at hcall
      exact List.mem_singleton.1 hcall
  | false =>
    rw [if_neg Bool.false_ne_true]
    refine ⟨fun call hcall => absurd hcall List.not_mem_nil,
      fun _ call hcall => absurd hcall List.not_mem_nil, fun _ verdict hrun => ?_,
      fun _ h => ?_⟩
    · cases hrun
      rfl
    · rw [hable] at h
      cases h

theorem membersDecision_signals :
    SignalsUnless driver op pgid
      (∃ members, Members driver op pgid members ∧ hasEarlierProcess ctx identity members = true)
      (membersDecision driver ctx op identity pgid) := by
  unfold membersDecision
  cases hable : driver.getGroupEvidence with
  | false =>
    rw [if_neg Bool.false_ne_true]
    refine reapDecision_signals.congr (iff_of_false id ?_)
    rintro ⟨members, ⟨htells, -⟩, -⟩
    rw [hable] at htells
    cases htells
  | true =>
    rw [if_pos rfl]
    refine SignalsUnless.ask rfl fun members hanswer => ?_
    have hagainst : (∃ ms, Members driver op pgid ms ∧ hasEarlierProcess ctx identity ms = true) ↔
        hasEarlierProcess ctx identity members = true := by
      constructor
      · rintro ⟨ms, ⟨-, hms⟩, hearlier⟩
        rw [hanswer] at hms
        cases hms
        exact hearlier
      · exact fun hearlier => ⟨members, ⟨hable, hanswer⟩, hearlier⟩
    refine SignalsUnless.congr ?_ hagainst.symm
    by_cases hearlier : hasEarlierProcess ctx identity members = true
    · rw [if_pos hearlier]
      exact signalsUnless_isolate hearlier _ _ _ _
    · rw [if_neg hearlier]
      exact reapDecision_signals.congr (iff_of_false id hearlier)

theorem groupDecision_signals (driver : PlatformDriver) (ctx : Context) (op : StoredOperation)
    (identity : ProcessIdentity) (pgid : Nat) :
    SignalsUnless driver op pgid (Contradicted driver ctx op identity pgid)
      (groupDecision driver ctx op identity pgid) := by
  -- without another boot session only the members can speak against the group
  have hmembers : (¬ ∃ recorded current, nonEmpty identity.bootId = some recorded ∧
        CurrentBoot driver op current ∧ recorded ≠ current) →
      SignalsUnless driver op pgid (Contradicted driver ctx op identity pgid)
        (membersDecision driver ctx op identity pgid) :=
    fun hboot => membersDecision_signals.congr ⟨.inr, fun h => h.resolve_left hboot⟩
  unfold groupDecision
  cases hrecorded : nonEmpty identity.bootId with
  | none =>
    refine hmembers ?_
    rintro ⟨recorded, current, hsome, -⟩
    rw [hrecorded] at hsome
    cases hsome
  | some recorded =>
    simp only
    cases hable : driver.readBootId with
    | false =>
      rw [if_neg Bool.false_ne_true]
      refine hmembers ?_
      rintro ⟨-, current, -, ⟨htells, -⟩, -⟩
      rw [hable] at htells
      cases htells
    | true =>
      rw [if_pos rfl]
      refine SignalsUnless.ask rfl fun answered hanswer => ?_
      cases hcurrent : nonEmpty answered with
      | none =>
        simp only
        refine hmembers ?_
        rintro ⟨-, current, -, ⟨-, a, ha, hnow⟩, -⟩
        rw [hanswer] at ha
        cases ha
        rw [hcurrent] at hnow
        cases hnow
      | some current =>
        have hnow : CurrentBoot driver op current := ⟨hable, answered, hanswer, hcurrent⟩
        simp only
        by_cases hdiffer : recorded ≠ current
        · rw [if_pos hdiffer]
          exact signalsUnless_isolate
            (.inl ⟨recorded, current, hrecorded, hnow, hdiffer⟩) _ _ _ _
        · rw [if_neg hdiffer]
          refine hmembers ?_
          rintro ⟨r, c, hr, ⟨-, a, ha, hc⟩, hne⟩
          rw [hanswer] at ha
          cases ha
          rw [hcurrent] at hc
          rw [hrecorded] at hr
          cases hc
          cases hr
          exact hdiffer hne

end Group

/-! ## The decision about an operation -/

section Operation

variable {driver : PlatformDriver} {ctx : Context} {op : StoredOperation}
  {identity : ProcessIdentity}

/-- Without a cgroup that stands in for the group, the group decides. -/
theorem deadLeaderDecision_free (hcontained : ¬ CgroupContained op identity)
    (hunaccounted : ¬ CgroupUnaccounted op identity) :
    deadLeaderDecision driver ctx op identity = leaderlessDecision driver ctx op identity := by
  unfold deadLeaderDecision
  cases hpath : nonEmpty identity.cgroupPath with
  | none => rfl
  | some =>
    have hsome : (nonEmpty identity.cgroupPath).isSome = true := by rw [hpath]; rfl
    cases hevidence : op.recoveryEvidence with
    | none => exact absurd ⟨hsome, hevidence⟩ hunaccounted
    | some evidence =>
      refine if_neg fun hcgroup => hcontained ⟨hsome, evidence, hevidence, hcgroup⟩

theorem deadLeaderDecision_contained (driver : PlatformDriver) (ctx : Context)
    (h : CgroupContained op identity) :
    ∃ path, deadLeaderDecision driver ctx op identity = cgroupDecision driver ctx op identity path := by
  obtain ⟨hsome, evidence, hevidence, hcgroup⟩ := h
  obtain ⟨path, hpath⟩ := Option.isSome_iff_exists.1 hsome
  refine ⟨path, ?_⟩
  unfold deadLeaderDecision
  rw [hpath, hevidence]
  exact if_pos hcgroup

theorem deadLeaderDecision_unaccounted (driver : PlatformDriver) (ctx : Context)
    (h : CgroupUnaccounted op identity) :
    ∃ reason guidance durationMs, deadLeaderDecision driver ctx op identity =
      done (.isolate reason guidance durationMs false) := by
  obtain ⟨hsome, hevidence⟩ := h
  obtain ⟨path, hpath⟩ := Option.isSome_iff_exists.1 hsome
  unfold deadLeaderDecision
  rw [hpath, hevidence]
  exact ⟨_, _, _, rfl⟩

variable {driver : PlatformDriver} {pgid : Nat}

/-- The living group of a dead leader that nothing stands in for is decided on. -/
theorem leaderlessDecision_alive (ctx : Context) (hpgid : identity.pgid = some pgid)
    (halive : GroupAlive driver op pgid) :
    (leaderlessDecision driver ctx op identity).asked driver.answer =
      .isGroupAlive op.id pgid :: (groupDecision driver ctx op identity pgid).asked driver.answer ∧
    (leaderlessDecision driver ctx op identity).run driver.answer =
      (groupDecision driver ctx op identity pgid).run driver.answer := by
  have halive' : driver.answer (.isGroupAlive op.id pgid) = .ok true := halive
  unfold leaderlessDecision
  rw [hpgid]
  simp only
  rw [asked_of_ok halive', run_of_ok halive']
  exact ⟨rfl, rfl⟩

/-- The group is only looked at when it is recorded and alive. -/
theorem leaderlessDecision_asks {ctx : Context} {opId : String} {graceMs : Nat}
    (h : .terminateGroup opId pgid graceMs ∈
      (leaderlessDecision driver ctx op identity).asked driver.answer) :
    ∃ pgid', identity.pgid = some pgid' ∧ GroupAlive driver op pgid' := by
  unfold leaderlessDecision at h
  cases hpgid : identity.pgid with
  | none =>
    rw [hpgid] at h
    cases h
  | some pgid' =>
    refine ⟨pgid', rfl, ?_⟩
    rw [hpgid] at h
    simp only [Inquiry.asked] at h
    unfold GroupAlive
    cases hanswer : driver.answer (.isGroupAlive op.id pgid') with
    | error =>
      rw [hanswer] at h
      cases List.mem_singleton.1 h
    | ok alive =>
      cases alive with
      | true => rfl
      | false =>
        rw [hanswer] at h
        cases List.mem_singleton.1 h

/-- A cgroup is settled by its own means. -/
theorem cgroupDecision_asks_no_group {ctx : Context} {path opId : String} {graceMs : Nat} :
    .terminateGroup opId pgid graceMs ∉
      (cgroupDecision driver ctx op identity path).asked driver.answer := by
  intro h
  unfold cgroupDecision at h
  split at h
  · cases h
  · rw [Inquiry.asked] at h
    split at h
    · have hlater := List.mem_of_ne_of_mem (by rintro ⟨⟩) h
      split at hlater
      · cases hlater
      · rw [Inquiry.asked] at hlater
        split at hlater
        · have hlast := List.mem_of_ne_of_mem (by rintro ⟨⟩) hlater
          split at hlast <;> cases hlast
        · cases List.mem_singleton.1 hlater
    · cases List.mem_singleton.1 h

/-- An operation with an identity is verified, or settled without a question. -/
theorem decisionOf_cases [Crypto] (driver : PlatformDriver) (ctx : Context)
    (hidentity : op.processIdentity = some identity)
    (getSnapshot : String → Option SnapshotRef) :
    decisionOf driver getSnapshot ctx op = identityDecision driver ctx op identity ∨
      ∃ verdict, decisionOf driver getSnapshot ctx op = done verdict := by
  unfold decisionOf
  cases assertOptionalSnapshot op.configSnapshot with
  | error => exact .inr ⟨_, rfl⟩
  | ok snapshot =>
    have hprocess : processDecision driver ctx op = identityDecision driver ctx op identity := by
      unfold processDecision
      rw [hidentity]
    cases op.kind with
    | rollback | snapshot => exact .inr ⟨_, rfl⟩
    | process | filesystem | gate | custom | service => exact .inl hprocess

end Operation

/-! ## What is said of a recovery -/

section Recover

variable [Crypto] (engine : RecoveryEngine) (op : StoredOperation) (identity : ProcessIdentity)

/-- Recovery has asked for the leader, and it is gone. -/
def FoundGone (s : SqliteStore) : Prop :=
  .verifyIdentity op.id identity ∈ callsFor engine op s ∧ LeaderGone engine.driver op identity

/-- The operation has an indeterminate result and all its leases. -/
def LeftIndeterminate (d d' : ExecutionDomain) : Prop :=
  (∃ op' result, d'.store.getOperation op.id = some op' ∧ op'.result = some result ∧
    result.status = .indeterminate) ∧ KeepsLeases op.id d d'

/-- Only a group that is provably the operation's own is signalled.  Where the leader is gone and
    the group is not signalled, nothing is, and the operation stays isolated. -/
structure SignalsOnlyItsOwn (d : ExecutionDomain) : Prop where
  signalled : ∀ opId pgid graceMs,
    .terminateGroup opId pgid graceMs ∈ callsFor engine op d.store →
      identity.pgid = some pgid ∧
        GroupEvidence engine.driver (engine.context op) op identity pgid
  otherwise : ∀ pgid, identity.pgid = some pgid → FoundGone engine op identity d.store →
    GroupAlive engine.driver op pgid →
    (∀ graceMs, .terminateGroup op.id pgid graceMs ∉ callsFor engine op d.store) →
      (∀ call ∈ callsFor engine op d.store, call.signals = false) ∧
      ∀ d' report, (recover engine).run d = (d', .ok report) → LeftIndeterminate op d d'

/-- What the decision takes for granted is so.  A living group of a dead leader has evidence
    against it, or it has all the evidence that it is the operation's own, unless no driver could
    signal it; and no driver settles a cgroup in the place of such a group. -/
def GroupDecidable (s : SqliteStore) : Prop :=
  ∀ pgid, identity.pgid = some pgid → FoundGone engine op identity s →
    GroupAlive engine.driver op pgid →
      (CgroupContained op identity → engine.driver.settleTree = false) ∧
      (¬ CgroupContained op identity → ¬ CgroupUnaccounted op identity →
        engine.driver.terminateGroup = true →
          Contradicted engine.driver (engine.context op) op identity pgid ∨
          GroupEvidence engine.driver (engine.context op) op identity pgid)

end Recover

section Verdict

variable [Crypto] {engine : RecoveryEngine} {op : StoredOperation} {identity : ProcessIdentity}
  {s : SqliteStore}

/-- The decision on a dead leader is the decision on its operation. -/
theorem FoundGone.decision (h : FoundGone engine op identity s)
    (hidentity : op.processIdentity = some identity) :
    callsFor engine op s = .verifyIdentity op.id identity ::
      (deadLeaderDecision engine.driver (engine.context op) op identity).asked
        engine.driver.answer ∧
    judge engine op s = (deadLeaderDecision engine.driver (engine.context op) op identity).run
      engine.driver.answer := by
  obtain ⟨hasked, hgone⟩ := h
  have hgone' : engine.driver.answer (.verifyIdentity op.id identity) = .ok .notOriginalProcess :=
    hgone
  unfold callsFor judge at *
  rcases decisionOf_cases engine.driver (engine.context op)
      hidentity s.getSnapshot with hverified | ⟨verdict, hdone⟩
  · rw [hverified, identityDecision, asked_of_ok hgone', run_of_ok hgone']
    exact ⟨rfl, rfl⟩
  · rw [hdone] at hasked
    cases hasked

/-- What has led to a signal to a group. -/
structure Signalled (engine : RecoveryEngine) (op : StoredOperation) (identity : ProcessIdentity)
    (s : SqliteStore) (pgid : Nat) : Prop where
  gone : FoundGone engine op identity s
  alive : GroupAlive engine.driver op pgid
  recorded : identity.pgid = some pgid
  notContained : ¬ CgroupContained op identity
  accounted : ¬ CgroupUnaccounted op identity
  able : engine.driver.terminateGroup = true
  uncontradicted : ¬ Contradicted engine.driver (engine.context op) op identity pgid

/-- A group is only signalled by the decision on the group of a dead leader. -/
theorem signalled_of_asked (hidentity : op.processIdentity = some identity) {opId : String}
    {pgid graceMs : Nat} (h : .terminateGroup opId pgid graceMs ∈ callsFor engine op s) :
    Signalled engine op identity s pgid := by
  -- the leader was asked for, since nothing else is done with an operation that has an identity
  have hverified : .verifyIdentity op.id identity ∈ callsFor engine op s := by
    unfold callsFor at h ⊢
    rcases decisionOf_cases engine.driver (engine.context op)
      hidentity s.getSnapshot with hverified | ⟨verdict, hdone⟩
    · rw [hverified]
      exact Inquiry.mem_asked_self _
    · rw [hdone] at h
      cases h
  have hgone : LeaderGone engine.driver op identity := by
    unfold callsFor at h
    rcases decisionOf_cases engine.driver (engine.context op)
      hidentity s.getSnapshot with hdecision | ⟨verdict, hdone⟩
    · rw [hdecision, identityDecision, Inquiry.asked] at h
      unfold LeaderGone
      cases hanswer : engine.driver.answer (.verifyIdentity op.id identity) with
      | error =>
        rw [hanswer] at h
        cases List.mem_singleton.1 h
      | ok verification =>
        rw [hanswer] at h
        rcases List.mem_cons.1 h with hself | hlater
        · cases hself
        · cases verification with
          | notOriginalProcess => rfl
          | cannotDetermine => cases hlater
          | isOriginalProcess =>
            unfold aliveDecision at hlater
            rw [Inquiry.asked] at hlater
            split at hlater
            · rcases List.mem_cons.1 hlater with hself | hlast
              · cases hself
              · split at hlast <;> cases hlast
            · cases List.mem_singleton.1 hlater
    · rw [hdone] at h
      cases h
  have hfound : FoundGone engine op identity s := ⟨hverified, hgone⟩
  rw [(hfound.decision hidentity).1] at h
  have hdead := List.mem_of_ne_of_mem (by rintro ⟨⟩) h
  have hnotContained : ¬ CgroupContained op identity := by
    intro hcontained
    obtain ⟨path, hpath⟩ :=
      deadLeaderDecision_contained engine.driver (engine.context op) hcontained
    rw [hpath] at hdead
    exact cgroupDecision_asks_no_group hdead
  have haccounted : ¬ CgroupUnaccounted op identity := by
    intro hunaccounted
    obtain ⟨reason, guidance, durationMs, hisolated⟩ := deadLeaderDecision_unaccounted
      engine.driver (engine.context op) hunaccounted
    rw [hisolated] at hdead
    cases hdead
  rw [deadLeaderDecision_free hnotContained haccounted] at hdead
  obtain ⟨pgid', hpgid, halive⟩ := leaderlessDecision_asks hdead
  rw [(leaderlessDecision_alive (engine.context op) hpgid halive).1] at hdead
  have hgroup := List.mem_of_ne_of_mem (by rintro ⟨⟩) hdead
  have hsignals := groupDecision_signals engine.driver (engine.context op) op identity pgid'
  cases hsignals.only _ hgroup rfl
  have hnot : ¬ (Contradicted engine.driver (engine.context op) op identity pgid ∨
      engine.driver.terminateGroup = false) := by
    intro hagainst
    cases hsignals.silent hagainst _ hgroup
  rw [not_or, Bool.not_eq_false] at hnot
  exact ⟨hfound, halive, hpgid, hnotContained, haccounted, hnot.2, hnot.1⟩

end Verdict

/-! ## The recovery of a domain -/

section Recovered

variable [Crypto] {engine : RecoveryEngine} {op : StoredOperation} {identity : ProcessIdentity}
  {d₀ d d' : ExecutionDomain} {report : RecoveryReport}

/-- A kept operation is indeterminate. -/
theorem leftIndeterminate (h : Reopened d₀ d)
    (hop : op ∈ d.store.getUnfinishedOperations d.domainId)
    (hkept : ∀ verdict, judge engine op d.store = .ok verdict → verdict.released = false)
    (hrun : (recover engine).run d = (d', .ok report)) : LeftIndeterminate op d d' := by
  obtain ⟨verdict, hjudge, hstored, hleases⟩ := recover_stores h hrun op hop
  have hreleased := hkept verdict hjudge
  exact ⟨⟨_, _, hstored, rfl, (verdict.status_eq_indeterminate_iff _).2 hreleased⟩,
    hleases hreleased⟩

/-- An operation that was let go is not. -/
theorem kept_of_leftIndeterminate (h : Reopened d₀ d)
    (hop : op ∈ d.store.getUnfinishedOperations d.domainId)
    (hrun : (recover engine).run d = (d', .ok report)) (hleft : LeftIndeterminate op d d') :
    ∃ verdict, judge engine op d.store = .ok verdict ∧ verdict.released = false := by
  obtain ⟨verdict, hjudge, hstored, -⟩ := recover_stores h hrun op hop
  obtain ⟨⟨op', result, hop', hresult, hstatus⟩, -⟩ := hleft
  rw [hstored] at hop'
  cases hop'
  cases hresult
  exact ⟨verdict, hjudge, (verdict.status_eq_indeterminate_iff _).1 hstatus⟩

theorem signalsOnlyItsOwn_of_decidable (h : Reopened d₀ d)
    (hop : op ∈ d.store.getUnfinishedOperations d.domainId)
    (hidentity : op.processIdentity = some identity)
    (hdecidable : GroupDecidable engine op identity d.store) :
    SignalsOnlyItsOwn engine op identity d where
  signalled := fun opId pgid graceMs hasked => by
    have hsignalled := signalled_of_asked hidentity hasked
    have hevidence := (hdecidable pgid hsignalled.recorded hsignalled.gone hsignalled.alive).2
      hsignalled.notContained hsignalled.accounted hsignalled.able
    exact ⟨hsignalled.recorded, hevidence.resolve_left hsignalled.uncontradicted⟩
  otherwise := fun pgid hpgid hgone halive hunsignalled => by
    obtain ⟨hcalls, hjudge⟩ := hgone.decision hidentity
    -- the question for the leader is no signal
    have hsilent : (∀ call ∈ (deadLeaderDecision engine.driver (engine.context op) op
        identity).asked engine.driver.answer, call.signals = false) →
        ∀ call ∈ callsFor engine op d.store, call.signals = false := by
      intro hall call hcall
      rw [hcalls] at hcall
      rcases List.mem_cons.1 hcall with rfl | hlater
      · rfl
      · exact hall call hlater
    by_cases hcontained : CgroupContained op identity
    · -- no driver can settle the cgroup
      have hunable := (hdecidable pgid hpgid hgone halive).1 hcontained
      obtain ⟨path, hpath⟩ :=
        deadLeaderDecision_contained engine.driver (engine.context op) hcontained
      rw [hpath, cgroupDecision, hunable, if_pos (by rfl)] at hsilent hjudge
      refine ⟨hsilent fun call hcall => absurd hcall List.not_mem_nil, fun d' report hrun => ?_⟩
      refine leftIndeterminate h hop (fun verdict hverdict => ?_) hrun
      rw [hjudge] at hverdict
      cases hverdict
      rfl
    by_cases hunaccounted : CgroupUnaccounted op identity
    · obtain ⟨reason, guidance, durationMs, hisolated⟩ := deadLeaderDecision_unaccounted
        engine.driver (engine.context op) hunaccounted
      rw [hisolated] at hsilent hjudge
      refine ⟨hsilent fun call hcall => absurd hcall List.not_mem_nil, fun d' report hrun => ?_⟩
      refine leftIndeterminate h hop (fun verdict hverdict => ?_) hrun
      rw [hjudge] at hverdict
      cases hverdict
      rfl
    · -- the group decides, and it is not signalled
      obtain ⟨hasked, hdecided⟩ := leaderlessDecision_alive (engine.context op) hpgid halive
      rw [deadLeaderDecision_free hcontained hunaccounted] at hsilent hjudge hcalls
      rw [hasked] at hsilent hcalls
      rw [hdecided] at hjudge
      have hgroup := groupDecision_signals engine.driver (engine.context op) op identity pgid
      have hquiet : ∀ call ∈ (groupDecision engine.driver (engine.context op) op identity
          pgid).asked engine.driver.answer, call.signals = false := by
        intro call hcall
        by_contra hsignals
        have hthis := hgroup.only call hcall (by simpa using hsignals)
        apply hunsignalled 2000
        rw [hcalls, ← hthis]
        exact List.mem_cons_of_mem _ (List.mem_cons_of_mem _ hcall)
      refine ⟨hsilent fun call hcall => ?_, fun d' report hrun => ?_⟩
      · rcases List.mem_cons.1 hcall with rfl | hlater
        · rfl
        · exact hquiet call hlater
      · refine leftIndeterminate h hop (fun verdict hverdict => ?_) hrun
        rw [hjudge] at hverdict
        -- with a verdict, the group would have been signalled were nothing against it
        by_contra hreleased
        have hnot : ¬ (Contradicted engine.driver (engine.context op) op identity pgid ∨
            engine.driver.terminateGroup = false) :=
          fun hagainst => hreleased (hgroup.kept hagainst verdict hverdict)
        rw [not_or, Bool.not_eq_false] at hnot
        apply hunsignalled 2000
        rw [hcalls]
        exact List.mem_cons_of_mem _ (List.mem_cons_of_mem _
          (hgroup.signals hnot.1 hnot.2 ⟨verdict, hverdict⟩))

theorem decidable_of_signalsOnlyItsOwn (h : Reopened d₀ d)
    (hop : op ∈ d.store.getUnfinishedOperations d.domainId)
    (hidentity : op.processIdentity = some identity)
    (hrun : (recover engine).run d = (d', .ok report))
    (hsignals : SignalsOnlyItsOwn engine op identity d) :
    GroupDecidable engine op identity d.store := by
  intro pgid hpgid hgone halive
  obtain ⟨hcalls, hjudge⟩ := hgone.decision hidentity
  constructor
  · intro hcontained
    by_contra hable
    rw [Bool.not_eq_false] at hable
    obtain ⟨path, hpath⟩ :=
      deadLeaderDecision_contained engine.driver (engine.context op) hcontained
    have hunsignalled : ∀ graceMs,
        .terminateGroup op.id pgid graceMs ∉ callsFor engine op d.store := fun graceMs hasked =>
      (signalled_of_asked hidentity hasked).notContained hcontained
    obtain ⟨hsilent, hleft⟩ := hsignals.otherwise pgid hpgid hgone halive hunsignalled
    obtain ⟨verdict, hverdict, hkept⟩ := kept_of_leftIndeterminate h hop hrun (hleft d' report hrun)
    rw [hjudge, hpath, cgroupDecision, hable, if_neg (by simp)] at hverdict
    rw [hcalls, hpath, cgroupDecision, hable, if_neg (by simp)] at hsilent
    cases htree : engine.driver.answer (.settleTree op.id identity 0) with
    | error =>
      rw [run_of_error htree] at hverdict
      cases hverdict
    | ok tree =>
      rw [run_of_ok htree] at hverdict
      rw [asked_of_ok htree] at hsilent
      by_cases hempty : tree = .empty
      · rw [if_pos hempty] at hverdict
        cases hverdict
        cases hkept
      · rw [if_neg hempty] at hsilent
        cases hsilent (.terminate op.id identity 2000)
          (List.mem_cons_of_mem _ (List.mem_cons_of_mem _ (Inquiry.mem_asked_self _)))
  · intro hcontained hunaccounted hable
    by_contra hneither
    rw [not_or] at hneither
    obtain ⟨hasked, hdecided⟩ := leaderlessDecision_alive (engine.context op) hpgid halive
    obtain ⟨verdict, hverdict, -⟩ := recover_stores h hrun op hop
    have hdecision := groupDecision_signals engine.driver (engine.context op) op identity pgid
    have hmember := hdecision.signals hneither.1 hable
      ⟨verdict, by rw [← hdecided, ← deadLeaderDecision_free hcontained hunaccounted, ← hjudge,
        hverdict]⟩
    have hthis : .terminateGroup op.id pgid 2000 ∈ callsFor engine op d.store := by
      rw [hcalls, deadLeaderDecision_free hcontained hunaccounted, hasked]
      exact List.mem_cons_of_mem _ (List.mem_cons_of_mem _ hmember)
    exact hneither.2 (hsignals.signalled _ _ _ hthis).2

/-- Recovery signals only groups that are provably the operation's own, and isolates every other
    living group of a dead leader, where it can decide on groups; and in a recovery that comes to
    its end, only there. -/
theorem signalsOnlyItsOwn_iff (h : Reopened d₀ d) (engine : RecoveryEngine) :
    ∀ op ∈ d.store.getUnfinishedOperations d.domainId,
      ∀ identity, op.processIdentity = some identity →
        (GroupDecidable engine op identity d.store → SignalsOnlyItsOwn engine op identity d) ∧
        ((∃ d' report, (recover engine).run d = (d', .ok report)) →
          (SignalsOnlyItsOwn engine op identity d ↔ GroupDecidable engine op identity d.store)) := by
  intro op hop identity hidentity
  have henough : GroupDecidable engine op identity d.store → SignalsOnlyItsOwn engine op identity d :=
    signalsOnlyItsOwn_of_decidable h hop hidentity
  refine ⟨henough, ?_⟩
  rintro ⟨d', report, hrun⟩
  exact ⟨decidable_of_signalsOnlyItsOwn h hop hidentity hrun, henough⟩

end Recovered

/-! ## A crash with an orphaned group -/

/-- The leader of a group, started in a known boot session. -/
def orphanIdentity : ProcessIdentity :=
  { pid := 7, pgid := some 7, spawnTime := 2000, bootId := some "boot" }

/-- The leader of a group was running when the owner died. -/
@[irreducible]
def orphanStore : SqliteStore :=
  let _ := plainCrypto
  ((do
    SqliteStore.registerOperationIntent (Operation.sample "A" ["a"]) "d" 1
    SqliteStore.updateOperationStatus "A" .active (some orphanIdentity) none 2000 :
      StoreM Unit).run openedDomain.store).1

def orphanOperation : StoredOperation :=
  ⟨{ Operation.sample "A" ["a"] with
      status := .active, processIdentity := some orphanIdentity }, "d"⟩

/-- The domain of the next owner, before and after its isolation was rebuilt. -/
def orphanedDomain : ExecutionDomain := { openedDomain with store := orphanStore }

def adoptedDomain : ExecutionDomain :=
  orphanedDomain.rebuildIsolationFromStore.toOption.getD orphanedDomain

theorem orphanStore_facts :
    orphanedDomain.rebuildIsolationFromStore.isOk = true ∧
      SqliteStore.epochFencing "d" orphanStore = .ok () ∧
      orphanStore.getUnfinishedOperations "d" = [orphanOperation] ∧
      orphanStore.getPersistedResourceLeases "d" = [⟨"a", "A", "d", 1, none⟩] ∧
      orphanStore.db.journalEvents.hasEvent "A" "OPERATION_INTENT_REGISTERED" = true ∧
      orphanStore.db.journalEvents.hasEvent "A" "OPERATION_RESULT_RECORDED" = false := by
  decide +kernel

theorem adoptedDomain_rebuilt :
    orphanedDomain.rebuildIsolationFromStore = .ok adoptedDomain := by
  have hok := orphanStore_facts.1
  unfold adoptedDomain
  cases hrebuild : orphanedDomain.rebuildIsolationFromStore with
  | error =>
    rw [hrebuild] at hok
    cases hok
  | ok => rfl

theorem adoptedDomain_unfinished :
    adoptedDomain.store.getUnfinishedOperations adoptedDomain.domainId = [orphanOperation] := by
  have hsame := (ExecutionDomain.rebuildIsolationFromStore_ok adoptedDomain_rebuilt).same
  rw [hsame.store, hsame.domainId]
  exact orphanStore_facts.2.2.1

theorem reopened_orphaned : Reopened orphanedDomain adoptedDomain := by
  obtain ⟨-, hfenced, hops, hleases, -⟩ := orphanStore_facts
  refine ⟨⟨rfl, hfenced, by decide⟩, rfl, adoptedDomain_rebuilt, ⟨?_, ?_⟩, ?_, ?_⟩
  · show ∀ lease ∈ orphanStore.getPersistedResourceLeases "d", _ ∧
      ∀ other ∈ orphanStore.getPersistedResourceLeases "d", _
    rw [hleases]
    decide
  · show ∀ op ∈ orphanStore.getUnfinishedOperations "d", ∀ r ∈ op.requiredResources,
      (∀ other ∈ orphanStore.getUnfinishedOperations "d", _) ∧
        ∀ lease ∈ orphanStore.getPersistedResourceLeases "d", _
    rw [hops, hleases]
    decide
  · show ∀ op ∈ orphanStore.getUnfinishedOperations "d",
      ∀ lease ∈ orphanStore.getPersistedResourceLeases "d", _
    rw [hops, hleases]
    decide
  · show ∀ op ∈ orphanStore.getUnfinishedOperations "d", _
    rw [hops]
    unfold ServiceNamed
    decide

/-- A driver that finds the leader gone and the group alive in the same boot session, and lists
    these members. -/
def listing (members : List GroupMember) : PlatformDriver where
  readBootId := true
  getGroupEvidence := true
  terminateGroup := true
  answer
    | .verifyIdentity .. => .ok .notOriginalProcess
    | .terminate .. => .ok ⟨.confirmedStopped, none, none⟩
    | .settleTree .. => .ok .empty
    | .isGroupAlive .. => .ok true
    | .readBootId .. => .ok (some "boot")
    | .getGroupEvidence .. => .ok members
    | .terminateGroup .. => .ok ⟨.confirmedStopped, none, none⟩

def listingEngine (members : List GroupMember) : RecoveryEngine :=
  { probingEngine fun _ => false with driver := listing members }

/-- A group whose one member started after the operation is signalled rightly. -/
theorem later_member_signalled :
    let _ := plainCrypto
    SignalsOnlyItsOwn (listingEngine [⟨some 2500⟩]) orphanOperation orphanIdentity
      adoptedDomain := by
  intro _
  refine (signalsOnlyItsOwn_iff reopened_orphaned (listingEngine [⟨some 2500⟩]) orphanOperation
    (by rw [adoptedDomain_unfinished]; exact List.mem_cons_self) orphanIdentity rfl).1 ?_
  intro pgid hpgid _ _
  cases hpgid
  refine ⟨fun hcontained => absurd hcontained.1 (by decide), fun _ _ _ => .inr ?_⟩
  refine ⟨⟨"boot", rfl, rfl, _, rfl, rfl⟩, [⟨some 2500⟩], 2000, ⟨rfl, rfl⟩, by simp, rfl, ?_⟩
  intro m hm
  rw [List.mem_singleton.1 hm]
  exact ⟨2500, rfl, by decide⟩

/-- An empty list of members is no evidence, and the group is signalled all the same. -/
theorem unlisted_group_signalled :
    let _ := plainCrypto
    Reopened orphanedDomain adoptedDomain ∧
      orphanOperation ∈ adoptedDomain.store.getUnfinishedOperations adoptedDomain.domainId ∧
      orphanOperation.processIdentity = some orphanIdentity ∧
      ¬ SignalsOnlyItsOwn (listingEngine []) orphanOperation orphanIdentity adoptedDomain := by
  intro _
  refine ⟨reopened_orphaned, by rw [adoptedDomain_unfinished]; exact List.mem_cons_self, rfl, ?_⟩
  intro h
  have hasked : .terminateGroup "A" 7 2000 ∈
      callsFor (listingEngine []) orphanOperation adoptedDomain.store := by
    show _ ∈ [DriverCall.verifyIdentity "A" orphanIdentity, .isGroupAlive "A" 7, .readBootId "A",
      .getGroupEvidence "A" 7, .terminateGroup "A" 7 2000]
    simp
  obtain ⟨-, -, members, -, ⟨-, hmembers⟩, hne, -⟩ := h.signalled _ _ _ hasked
  have hempty : (.ok members : Except KernelError (List GroupMember)) = .ok [] := hmembers.symm
  cases hempty
  exact hne rfl

end Recovery
end XioFlow
