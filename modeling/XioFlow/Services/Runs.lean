/-
  XioFlow.Services.Runs

  A service that runs, that is between two instances, or whose process is on
  its way.  With what is known of a service that ends, every step keeps a
  service in its phases, and so does every run.
-/

import XioFlow.Services.Phases

namespace XioFlow

open Lib

namespace Services

namespace Service

variable {s : Service}

theorem Unstopped.unanswered (h : s.Unstopped) :
    ¬ (s.stopPromise = .resolved ∨ s.answered = true) := by
  rw [h.promise, h.answered]
  nofun

/-! ## A process that is watched -/

/-- A stop finds the process, and terminates it. -/
theorem stopOwned_watching (hc : Common s) (h : s.Watching) :
    Common s.stopOwned ∧ Ending s.stopOwned := by
  have hlocked := hc.locked_of_up h.up
  unfold stopOwned
  rw [if_neg (by rw [h.up]; exact Bool.false_ne_true)]
  simp only
  rw [if_neg (by rw [h.timer]; exact Bool.false_ne_true), if_pos h.handle]
  refine ⟨hc.carry rfl (fun _ => hlocked), ?_⟩
  refine ⟨h.spawning, h.timer, .inl h.cleanup, .inr h.unsettled, fun _ => rfl,
    fun _ => h.readiness, fun _ => ⟨h.handle, h.cleanup⟩, ?_, ?_, ?_⟩
  · intro hpending
    change s.pendingInstanceResult.isSome = true at hpending
    rw [h.pending] at hpending
    cases hpending
  · intro hmem
    change StopStage.awaitingExit true ∈ s.stops ++ [.terminating] at hmem
    rw [h.stops] at hmem
    cases List.mem_singleton.1 hmem
  · exact .ongoing h.open_ hlocked fun hanswer => (h.unanswered hanswer).elim

/-- A lifecycle that is rejected leaves its record open and its resources locked. -/
theorem rejectLifecycle_watching (hc : Common s) (h : s.Watching) :
    Common s.rejectLifecycle ∧ Ending s.rejectLifecycle := by
  refine ⟨hc.carry rfl nofun, ?_⟩
  refine ⟨h.spawning, h.timer, .inl h.cleanup, .inr h.unsettled, nofun, nofun, ?_,
    fun _ => rfl, ?_, ?_⟩
  · rintro (hup | harmed)
    · cases hup
    · cases harmed
  · intro hmem
    change StopStage.awaitingExit true ∈ s.stops at hmem
    rw [h.stops] at hmem
    cases hmem
  · exact .ongoing h.open_ (hc.locked_of_up h.up) fun hanswer =>
      (h.unanswered (hanswer.imp_left reject_eq_resolved)).elim

/-- The handling of an exit goes on to its next await. -/
theorem handling_watching (h : s.Watching) {exit : ExitHandling}
    (hexit : ∃ success, exit = .draining success true ∨ exit = .verifying success true ∨
      exit = .settling success) : Watching { s with exit, readinessArmed := false } :=
  ⟨⟨h.registered, h.requested, h.up, h.promise, h.answered, h.stops, h.pending⟩, h.spawning,
    h.timer, h.cleanup, h.handle, h.unsettled, h.open_, h.current, h.last, .inr hexit,
    fun _ => rfl⟩

theorem Common.exit (hc : Common s) (exit : ExitHandling) (readinessArmed : Bool) :
    Common { s with exit, readinessArmed } :=
  hc.carry rfl hc.locked

/-! ## A process that is gone -/

/-- A process whose tree is settled, while nobody has asked to stop it. -/
structure Exited (s : Service) : Prop extends Unstopped s where
  spawning : s.spawning = false
  timer : s.restartTimer = false
  cleanup : s.cleanup = none
  handle : s.currentProcessHandle = true
  unsettled : s.unsettled = []
  open_ : s.Open
  current : s.currentInstanceIndex = s.attemptCount + 1
  last : s.operations.length = s.currentInstanceIndex
  readiness : s.readinessArmed = false

/-- An exit concludes the service, or another instance is due. -/
theorem finishExit_exited (hc : Common s) (h : s.Exited) (success : Bool) :
    Common (s.finishExit success) ∧ Phase (s.finishExit success) := by
  unfold finishExit
  simp only
  generalize (if success = true then ProcessStatus.succeeded else ProcessStatus.failed) = result
  rw [if_neg (by rw [h.requested]; exact Bool.false_ne_true),
    recordOperationResult_of_open h.open_]
  have hexited : Common { s.setOperation (.done (.process result)) with
      onInstanceExit := s.onInstanceExit.resolve, exit := .over } :=
    (hc.setOperation _).carry rfl hc.locked
  have hconcluded : ∀ status : ServiceStatus, status.terminal = true → _ := fun status hterminal =>
    concluded hexited h.spawning h.timer h.cleanup h.unsettled h.readiness nofun hterminal
  simp only
  split
  · obtain ⟨hc', h'⟩ := hconcluded .stopped rfl
    exact ⟨hc', .ending h'⟩
  · split
    · obtain ⟨hc', h'⟩ := hconcluded .stopped rfl
      exact ⟨hc', .ending h'⟩
    · split
      · rename_i hmore
        have hc' := hc.setOperation (.done (.process result))
        have hcount : s.currentInstanceIndex ≤ s.attemptCount + 1 + 1 := by
          have := hc.counted
          omega
        refine ⟨⟨hc'.positive, hc'.numbered, hmore, hcount, hc'.recorded, hc'.locked⟩, .between ?_⟩
        exact {
          registered := h.registered
          requested := h.requested
          up := h.up
          promise := h.promise
          answered := h.answered
          stops := h.stops
          pending := h.pending
          spawning := h.spawning
          exit := rfl
          cleanup := h.cleanup
          unsettled := h.unsettled
          handle := h.handle
          readiness := h.readiness
          current := fun _ => h.current
          last := (setOperation_length _ s).trans h.last }
      · obtain ⟨hc', h'⟩ := hconcluded .failed rfl
        exact ⟨hc', .ending h'⟩

/-- A tree that cannot be confirmed leaves the instance to an adjudication. -/
theorem unconfirmed_watching (hc : Common s) (h : s.Watching) (hready : s.readinessArmed = false) :
    let t : Service := { s.setOperation (.done .indeterminate) with
      status := .failed, onInstanceExit := s.onInstanceExit.resolve, exit := .over }
    Common t.resolveStop ∧ Ending t.resolveStop := by
  have hc' := hc.setOperation (.done .indeterminate)
  intro t
  refine ⟨⟨hc'.positive, hc'.numbered, hc'.within, hc'.counted, hc'.recorded, nofun⟩, ?_⟩
  refine ⟨h.spawning, h.timer, .inl h.cleanup, .inr h.unsettled, nofun, nofun, ?_,
    fun _ => hready, ?_, .left ⟨indeterminate_setOperation h.open_, hc.locked_of_up h.up⟩⟩
  · rintro (hup | harmed)
    · cases hup
    · change s.readinessArmed = true at harmed
      rw [hready] at harmed
      cases harmed
  · intro hmem
    change StopStage.awaitingExit true ∈ s.stops at hmem
    rw [h.stops] at hmem
    cases hmem

theorem treeSettled_watching (hc : Common s) (h : s.Watching) (answer : TreeAnswer) :
    Common (s.treeSettled answer) ∧ Phase (s.treeSettled answer) := by
  unfold treeSettled
  split
  · obtain ⟨hc', h'⟩ := rejectLifecycle_watching hc h
    exact ⟨hc', .ending h'⟩
  · rename_i success hexit
    have hready : s.readinessArmed = false := h.readiness (by rw [hexit]; nofun)
    have hc' : Common s.vouched :=
      hc.carry rfl hc.locked
    refine finishExit_exited hc' ⟨⟨h.registered, h.requested, h.up, h.promise, h.answered, h.stops,
      h.pending⟩, h.spawning, h.timer, h.cleanup, h.handle, ?_, h.open_, h.current, h.last,
      hready⟩ success
    exact vouched_unsettled (.inr h.unsettled)
  · rename_i success hexit
    have hready : s.readinessArmed = false := h.readiness (by rw [hexit]; nofun)
    rw [if_neg (by rw [h.requested]; exact Bool.false_ne_true),
      recordOperationResult_of_open h.open_]
    obtain ⟨hc', h'⟩ := unconfirmed_watching hc h hready
    exact ⟨hc', .ending h'⟩
  · exact ⟨hc, .watching h⟩

theorem rootExited_watching (hc : Common s) (h : s.Watching) (success : Option Bool) :
    Common (s.rootExited success) ∧ Phase (s.rootExited success) := by
  unfold rootExited
  split
  · cases success with
    | none =>
      obtain ⟨hc', h'⟩ := rejectLifecycle_watching hc h
      exact ⟨hc', .ending h'⟩
    | some success =>
      refine ⟨hc.exit _ false, .watching ?_⟩
      apply handling_watching h
      exact ⟨success, .inl (by rw [h.handle])⟩
  · exact ⟨hc, .watching h⟩

/-- A process that is watched had a handle when its exit came. -/
theorem Watching.identified (h : s.Watching) {success identified : Bool}
    (hexit : s.exit = .draining success identified ∨ s.exit = .verifying success identified) :
    identified = true := by
  rcases h.exit with hwatched | ⟨success', hhandling⟩
  · rw [hwatched] at hexit
    rcases hexit with hexit | hexit <;> cases hexit
  · rcases hexit with hexit | hexit
    · rw [hexit] at hhandling
      rcases hhandling with hdraining | hverifying | hsettling
      · cases hdraining
        rfl
      · cases hverifying
      · cases hsettling
    · rw [hexit] at hhandling
      rcases hhandling with hdraining | hverifying | hsettling
      · cases hdraining
      · cases hverifying
        rfl
      · cases hsettling

theorem drained_watching (hc : Common s) (h : s.Watching) :
    Common s.drained ∧ Phase s.drained := by
  unfold drained
  split
  · rename_i success identified hexit
    have hready : s.readinessArmed = false := h.readiness (by rw [hexit]; nofun)
    have hidentified : identified = true := h.identified (.inl hexit)
    rw [if_pos hidentified, hidentified]
    have hnext := handling_watching h ⟨success, .inr (.inl rfl)⟩
    rw [← hready] at hnext
    exact ⟨hc.exit _ s.readinessArmed, .watching hnext⟩
  · exact ⟨hc, .watching h⟩

theorem verified_watching (hc : Common s) (h : s.Watching) :
    Common s.verified ∧ Phase s.verified := by
  unfold verified
  split
  · rename_i success identified hexit
    have hready : s.readinessArmed = false := h.readiness (by rw [hexit]; nofun)
    have hidentified : identified = true := h.identified (.inr hexit)
    rw [if_pos (by rw [h.requested, hidentified]; rfl)]
    have hnext := handling_watching h ⟨success, .inr (.inr rfl)⟩
    rw [← hready] at hnext
    exact ⟨hc.exit _ s.readinessArmed, .watching hnext⟩
  · exact ⟨hc, .watching h⟩

theorem readinessMatched_watching (hc : Common s) (h : s.Watching) :
    Common s.readinessMatched ∧ Phase s.readinessMatched := by
  unfold readinessMatched
  split
  · refine ⟨hc.carry rfl (fun _ => hc.locked_of_up h.up), .watching ?_⟩
    exact ⟨⟨h.registered, h.requested, rfl, h.promise, h.answered, h.stops, h.pending⟩, h.spawning,
      h.timer, h.cleanup, h.handle, h.unsettled, h.open_, h.current, h.last, h.exit, fun _ => rfl⟩
  · exact ⟨hc, .watching h⟩

theorem readinessTimedOut_watching (hc : Common s) (h : s.Watching) :
    Common s.readinessTimedOut ∧ Phase s.readinessTimedOut := by
  unfold readinessTimedOut
  split
  · have hc' : Common { s with readinessArmed := false, failureReason := true } :=
      hc.carry rfl hc.locked
    have h' : Watching { s with readinessArmed := false, failureReason := true } :=
      ⟨⟨h.registered, h.requested, h.up, h.promise, h.answered, h.stops, h.pending⟩, h.spawning,
        h.timer, h.cleanup, h.handle, h.unsettled, h.open_, h.current, h.last, h.exit, fun _ => rfl⟩
    obtain ⟨hc', h'⟩ := stopOwned_watching hc' h'
    simp only
    rw [if_pos h.registered]
    exact ⟨hc', .ending h'⟩
  · exact ⟨hc, .watching h⟩

theorem close_watching (hc : Common s) (h : s.Watching) : Common s.close ∧ Phase s.close := by
  obtain ⟨hc', h'⟩ := stopOwned_watching hc h
  obtain ⟨hc', h'⟩ := detached_ending hc' h' false _
  unfold close
  rw [if_pos h.registered, withoutTimer_eq h.timer]
  exact ⟨hc', .ending h'⟩

/-! ## Steps that find nothing to do -/

theorem spawnAnswered_of_not_spawning (h : s.spawning = false) (answer : SpawnAnswer) :
    s.spawnAnswered answer = s := by
  unfold spawnAnswered
  rw [h]
  rfl

theorem timerFired_of_no_timer (h : s.restartTimer = false) (accepted : Bool) :
    s.timerFired accepted = s := by
  unfold timerFired
  rw [h]
  rfl

theorem stopTerminated_of_no_stop (h : s.stops = []) (i : Nat) (confirmed : Bool) :
    s.stopTerminated i confirmed = s := by
  unfold stopTerminated
  rw [h]
  rfl

theorem stopRaced_of_no_stop (h : s.stops = []) (i : Nat) (timedOut : Bool) :
    s.stopRaced i timedOut = s := by
  unfold stopRaced
  rw [h]
  rfl

theorem rootExited_of_not_busy (h : s.exit.busy = false) (success : Option Bool) :
    s.rootExited success = s := by
  unfold rootExited
  rw [if_neg]
  intro hwatched
  rw [hwatched] at h
  cases h

theorem drained_of_not_busy (h : s.exit.busy = false) : s.drained = s := by
  unfold drained
  split
  · rename_i hexit
    rw [hexit] at h
    cases h
  · rfl

theorem verified_of_not_busy (h : s.exit.busy = false) : s.verified = s := by
  unfold verified
  split
  · rename_i hexit
    rw [hexit] at h
    cases h
  · rfl

theorem treeSettled_of_not_busy (h : s.exit.busy = false) (answer : TreeAnswer) :
    s.treeSettled answer = s := by
  unfold treeSettled
  split
  all_goals first | rfl | (rename_i hexit; rw [hexit] at h; cases h)

theorem readinessMatched_of_not_armed (h : s.readinessArmed = false) : s.readinessMatched = s := by
  unfold readinessMatched
  rw [h]
  rfl

theorem readinessTimedOut_of_not_armed (h : s.readinessArmed = false) :
    s.readinessTimedOut = s := by
  unfold readinessTimedOut
  rw [h]
  rfl

/-- What only a process that is watched, or a stop at work, gives an effect. -/
def ofProcess : ServiceEvent → Bool
  | .startService | .rootExited _ | .drained | .verified | .treeSettled _ | .stopTerminated _ _
  | .stopRaced _ _ | .readinessMatched | .readinessTimedOut => true
  | _ => false

variable {e : ServiceEvent}

theorem after_of_process (hexit : s.exit.busy = false) (hstops : s.stops = [])
    (hready : s.readinessArmed = false) (he : ofProcess e = true) : s.after e = s := by
  cases e with
  | startService => rfl
  | rootExited success => exact rootExited_of_not_busy hexit success
  | drained => exact drained_of_not_busy hexit
  | verified => exact verified_of_not_busy hexit
  | treeSettled answer => exact treeSettled_of_not_busy hexit answer
  | stopTerminated i confirmed => exact stopTerminated_of_no_stop hstops i confirmed
  | stopRaced i timedOut => exact stopRaced_of_no_stop hstops i timedOut
  | readinessMatched => exact readinessMatched_of_not_armed hready
  | readinessTimedOut => exact readinessTimedOut_of_not_armed hready
  | _ => cases he

/-- What only a startup that is being concluded gives an effect. -/
def ofCleanup : ServiceEvent → Bool
  | .startupFailed | .cleanupAnswered _ _ | .cleanupFinished => true
  | _ => false

theorem after_of_no_cleanup (h : s.cleanup = none) (he : ofCleanup e = true) : s.after e = s := by
  cases e with
  | startupFailed | cleanupAnswered | cleanupFinished =>
    simp only [after, settleStartupFailure, cleanupAnswered, cleanupFinished, h]
  | _ => cases he

/-! ## Every step -/

theorem Common.domainClosed (hc : Common s) : Common { s with domainClosed := true } :=
  hc.carry rfl hc.locked

theorem after_watching (hc : Common s) (h : s.Watching) (e : ServiceEvent) :
    Common (s.after e) ∧ Phase (s.after e) := by
  have hsame : Common s ∧ Phase s := ⟨hc, .watching h⟩
  cases e with
  | startService => exact hsame
  | spawnAnswered =>
    rw [after, spawnAnswered_of_not_spawning h.spawning]
    exact hsame
  | startupFailed | cleanupAnswered | cleanupFinished =>
    rw [after_of_no_cleanup h.cleanup rfl]
    exact hsame
  | rootExited success => exact rootExited_watching hc h success
  | drained => exact drained_watching hc h
  | verified => exact verified_watching hc h
  | treeSettled answer => exact treeSettled_watching hc h answer
  | timerFired =>
    rw [after, timerFired_of_no_timer h.timer]
    exact hsame
  | stopService =>
    obtain ⟨hc', h'⟩ := stopOwned_watching hc h
    rw [after, stopService, if_pos h.registered]
    exact ⟨hc', .ending h'⟩
  | stopTerminated =>
    rw [after, stopTerminated_of_no_stop h.stops]
    exact hsame
  | stopRaced =>
    rw [after, stopRaced_of_no_stop h.stops]
    exact hsame
  | readinessMatched => exact readinessMatched_watching hc h
  | readinessTimedOut => exact readinessTimedOut_watching hc h
  | close => exact close_watching hc h
  | domainClosed =>
    exact ⟨hc.domainClosed, .watching ⟨⟨h.registered, h.requested, h.up, h.promise, h.answered,
      h.stops, h.pending⟩, h.spawning, h.timer, h.cleanup, h.handle, h.unsettled, h.open_,
      h.current, h.last, h.exit, h.readiness⟩⟩

/-- A stop that comes while a process is on its way, or a failed startup is cleaned up. -/
theorem not_stopSafe (hup : s.status.up = true) (hexit : s.exit.busy = false)
    (htimer : s.restartTimer = false) (hstart : s.stopRequested = false ∨ s.cleanup ≠ none) :
    ¬ s.StopSafe := by
  intro hsafe
  rcases hsafe hup with hbusy | htimer' | ⟨hrequested, hcleanup⟩
  · rw [hexit] at hbusy
    cases hbusy
  · rw [htimer] at htimer'
    cases htimer'
  · rcases hstart with hnot | hcleaning
    · rw [hnot] at hrequested
      cases hrequested
    · exact hcleaning hcleanup

theorem after_failing (hc : Common s) (h : s.Failing) (hsafe : s.StepSafe e) :
    Common (s.after e) ∧ Phase (s.after e) := by
  have hsame : Common s ∧ Phase s := ⟨hc, .failing h⟩
  have hbusy : s.exit.busy = false := by rw [h.exit]; rfl
  have hcleaning : s.cleanup ≠ none := by
    rcases h.cleanup with ⟨hcaught, -⟩ | hterminating
    · rw [hcaught]
      nofun
    · rw [hterminating]
      nofun
  have hnotSafe : ¬ s.StopSafe := not_stopSafe h.up hbusy h.timer (.inr hcleaning)
  by_cases hprocess : ofProcess e = true
  · rw [after_of_process hbusy h.stops h.readiness hprocess]
    exact hsame
  cases e with
  | spawnAnswered =>
    rw [after, spawnAnswered_of_not_spawning h.spawning]
    exact hsame
  | startupFailed => exact startupFailed_failing hc h
  | cleanupAnswered confirmed exited => exact cleanupAnswered_failing hc h confirmed exited
  | cleanupFinished =>
    rw [after, cleanupFinished]
    rcases h.cleanup with ⟨hcaught, -⟩ | hterminating
    · rw [hcaught]
      exact hsame
    · rw [hterminating]
      exact hsame
  | timerFired =>
    rw [after, timerFired_of_no_timer h.timer]
    exact hsame
  | stopService => exact absurd (hsafe.1 h.registered) hnotSafe
  | close => exact absurd (hsafe h.registered).2 hnotSafe
  | domainClosed =>
    exact ⟨hc.domainClosed, .failing ⟨h.registered, h.up, h.promise, h.answered, h.stops,
      h.pending, h.spawning, h.timer, h.exit, h.readiness, h.cleanup, h.process, h.open_⟩⟩
  | _ => exact absurd rfl hprocess

/-! ## Another instance -/

/-- What an instance is spawned in: nothing of an earlier one is left. -/
structure Prepared (s : Service) : Prop extends Unstopped s where
  spawning : s.spawning = false
  timer : s.restartTimer = false
  cleanup : s.cleanup = none
  handle : s.currentProcessHandle = false
  unsettled : s.unsettled = []
  readiness : s.readinessArmed = false
  intent : s.intentRegistered = false
  current : s.currentInstanceIndex = s.attemptCount + 1
  last : s.operations.length = s.attemptCount

/-- The index of the next instance has no row. -/
theorem index_of_numbered
    (hnumbered : s.operations.map InstanceRecord.index = List.range' 1 s.operations.length)
    {op : InstanceRecord} (hop : op ∈ s.operations) : op.index < s.operations.length + 1 := by
  have hmem : op.index ∈ List.range' 1 s.operations.length := by
    rw [← hnumbered]
    exact List.mem_map_of_mem hop
  have hrange := List.mem_range'_1.1 hmem
  omega

theorem spawns_prepared (hc : Common s) (h : s.Prepared) (accepted : Bool) :
    let t : Service :=
      if accepted && !(s.operations.any fun op => op.index = s.currentInstanceIndex) then
        { s with
          operations := s.operations ++ [⟨s.currentInstanceIndex, .intentRegistered⟩]
          intentRegistered := true
          spawning := true
          exit := .unwatched }
      else { s with cleanup := some .caught, exit := .unwatched }
    Common t ∧ Phase t := by
  intro t
  have hfresh : ∀ op ∈ s.operations, op.index ≠ s.currentInstanceIndex := by
    intro op hop
    have hless := index_of_numbered hc.numbered hop
    have hcurrent := h.current
    have hlast := h.last
    omega
  by_cases hrow :
      (accepted && !(s.operations.any fun op => op.index = s.currentInstanceIndex)) = true
  · have ht : t = { s with
        operations := s.operations ++ [⟨s.currentInstanceIndex, .intentRegistered⟩]
        intentRegistered := true
        spawning := true
        exit := .unwatched } := if_pos hrow
    have hlength : t.operations.length = s.attemptCount + 1 := by
      rw [ht]
      change (s.operations ++ [_]).length = _
      rw [List.length_append, h.last]
      rfl
    have hnumbered : t.operations.map InstanceRecord.index = List.range' 1 t.operations.length := by
      rw [hlength, List.range'_1_concat, ← h.last, ← hc.numbered, ht]
      change (s.operations ++ [_]).map InstanceRecord.index = _
      rw [List.map_append, List.map_singleton, h.current, h.last, Nat.add_comm]
    have hopen : t.Open := by
      refine ⟨⟨s.currentInstanceIndex, .intentRegistered⟩, ?_, rfl⟩
      rw [ht]
      change (s.operations ++ [_]).find? (fun op : InstanceRecord => op.index = s.currentInstanceIndex) = _
      have hnone : s.operations.find? (fun op => op.index = s.currentInstanceIndex) = none :=
        List.find?_eq_none.2 fun op hop => by simpa using hfresh op hop
      rw [List.find?_append, hnone, Option.none_or, List.find?_singleton]
      simp
    have hcurrent := h.current
    rw [ht] at hnumbered hopen hlength ⊢
    refine ⟨⟨hc.positive, hnumbered, hc.within, hc.counted, ?_, hc.locked⟩, .spawning ?_⟩
    · rw [hlength]
      exact h.current.ge
    · exact ⟨⟨h.registered, h.requested, h.up, h.promise, h.answered, h.stops, h.pending⟩, rfl,
        h.timer, rfl, h.cleanup, h.handle, h.readiness, h.unsettled, hopen, h.current,
        hlength.trans h.current.symm, rfl⟩
  · have ht : t = { s with cleanup := some .caught, exit := .unwatched } := if_neg hrow
    rw [ht]
    refine ⟨hc.carry rfl hc.locked, .failing ?_⟩
    refine ⟨h.registered, h.up, h.promise, h.answered, h.stops, h.pending, h.spawning, h.timer, rfl,
      h.readiness, .inl ⟨rfl, h.requested⟩, .inl ⟨h.handle, h.unsettled, rfl⟩, ?_⟩
    intro hintent
    change s.intentRegistered = true at hintent
    rw [h.intent] at hintent
    cases hintent

/-- The instance that the service begins with has no predecessor to forget. -/
theorem startService_phase (spec : ServiceSpec) (accepted : Bool) :
    Common (startService spec accepted) ∧ Phase (startService spec accepted) := by
  have hc : Common { spec, lockedResources := spec.requiredResources } :=
    ⟨Nat.le_refl 1, rfl, Nat.zero_le _, Nat.le_refl 1, Nat.zero_le _, fun _ => rfl⟩
  have h : Prepared { spec, lockedResources := spec.requiredResources } :=
    ⟨⟨rfl, rfl, rfl, rfl, rfl, rfl, rfl⟩, rfl, rfl, rfl, rfl, rfl, rfl, rfl, rfl, rfl⟩
  exact spawns_prepared hc h accepted

theorem timerFired_between (hc : Common s) (h : s.Between) (accepted : Bool) :
    Common (s.timerFired accepted) ∧ Phase (s.timerFired accepted) := by
  cases htimer : s.restartTimer with
  | false =>
    rw [timerFired_of_no_timer htimer]
    exact ⟨hc, .between h⟩
  | true =>
    have hcurrent := h.current htimer
    have hpositive := hc.positive
    have hlast := h.last
    unfold timerFired
    rw [htimer]
    simp only [Bool.not_true, Bool.false_eq_true, if_false]
    split
    · refine ⟨hc.carry rfl hc.locked, ?_⟩
      exact .between ⟨⟨h.registered, h.requested, h.up, h.promise, h.answered, h.stops,
        h.pending⟩, h.spawning, h.exit, h.cleanup, h.unsettled, h.handle, h.readiness, nofun,
        h.last⟩
    · have hsecond : 1 < s.attemptCount + 1 := by omega
      have hc' : Common { s with
          restartTimer := false
          currentInstanceIndex := s.attemptCount + 1
          pendingInstanceResult := none
          intentRegistered := false
          currentProcessHandle := false
          onInstanceExit := .pending } := by
        refine ⟨Nat.le_add_left 1 _, hc.numbered, hc.within, Nat.le_refl _, ?_, hc.locked⟩
        change s.operations.length ≤ s.attemptCount + 1
        omega
      have h' : Prepared { s with
          restartTimer := false
          currentInstanceIndex := s.attemptCount + 1
          pendingInstanceResult := none
          intentRegistered := false
          currentProcessHandle := false
          onInstanceExit := .pending } :=
        ⟨⟨h.registered, h.requested, h.up, h.promise, h.answered, h.stops, rfl⟩, h.spawning, rfl,
          h.cleanup, rfl, h.unsettled, h.readiness, rfl, rfl, hlast.trans hcurrent⟩
      have hnext := spawns_prepared hc' h' accepted
      unfold spawnInstance
      simp only
      rw [if_pos hsecond]
      exact hnext

/-- A stop between two instances finds nothing alive. -/
theorem stopOwned_between (hc : Common s) (h : s.Between) (htimer : s.restartTimer = true) :
    Common s.stopOwned ∧ Ending s.stopOwned := by
  unfold stopOwned
  rw [if_neg (by rw [h.up]; exact Bool.false_ne_true)]
  simp only
  rw [if_pos htimer]
  refine ⟨hc.carry rfl nofun, ?_⟩
  have hover : s.exit.busy = false := by rw [h.exit]; rfl
  refine ⟨h.spawning, rfl, .inl h.cleanup, .inl h.unsettled, fun _ => rfl, ?_, ?_,
    fun _ => h.readiness, fun _ => h.unsettled, ?_⟩
  · intro hbusy
    change s.exit.busy = true at hbusy
    rw [hover] at hbusy
    cases hbusy
  · rintro (hup | harmed)
    · cases hup
    · change s.readinessArmed = true at harmed
      rw [h.readiness] at harmed
      cases harmed
  · exact .atRest (.of_unsettled h.spawning h.unsettled rfl rfl) rfl h.readiness

theorem after_between (hc : Common s) (h : s.Between) (hsafe : s.StepSafe e) :
    Common (s.after e) ∧ Phase (s.after e) := by
  have hsame : Common s ∧ Phase s := ⟨hc, .between h⟩
  have hbusy : s.exit.busy = false := by rw [h.exit]; rfl
  have hnotSafe : s.restartTimer = false → ¬ s.StopSafe := fun htimer =>
    not_stopSafe h.up hbusy htimer (.inl h.requested)
  by_cases hprocess : ofProcess e = true
  · rw [after_of_process hbusy h.stops h.readiness hprocess]
    exact hsame
  cases e with
  | spawnAnswered =>
    rw [after, spawnAnswered_of_not_spawning h.spawning]
    exact hsame
  | startupFailed | cleanupAnswered | cleanupFinished =>
    rw [after_of_no_cleanup h.cleanup rfl]
    exact hsame
  | timerFired accepted => exact timerFired_between hc h accepted
  | stopService =>
    rw [after, stopService, if_pos h.registered]
    cases htimer : s.restartTimer with
    | false => exact absurd (hsafe.1 h.registered) (hnotSafe htimer)
    | true =>
      obtain ⟨hc', h'⟩ := stopOwned_between hc h htimer
      exact ⟨hc', .ending h'⟩
  | close =>
    obtain ⟨htimer, hstop⟩ := hsafe h.registered
    exact absurd hstop (hnotSafe htimer)
  | domainClosed =>
    exact ⟨hc.domainClosed, .between ⟨⟨h.registered, h.requested, h.up, h.promise, h.answered,
      h.stops, h.pending⟩, h.spawning, h.exit, h.cleanup, h.unsettled, h.handle, h.readiness,
      h.current, h.last⟩⟩
  | _ => exact absurd rfl hprocess

/-! ## A process on its way -/

theorem setOperation_open (h : s.Open) {status : InstanceStatus} (hdone : status.isDone = false) :
    (s.setOperation status).Open := by
  obtain ⟨op, hop, -⟩ := h
  refine ⟨{ op with status }, ?_, hdone⟩
  rw [currentOperation_setOperation, hop, Option.map_some]

/-- The instance is active, and its exit is awaited. -/
theorem spawned_watching (hc : Common s) (h : s.Spawning) (status : ServiceStatus)
    (hup : status.up = true) (readinessArmed : Bool) :
    let t : Service := ({ s with
      spawning := false
      currentProcessHandle := true
      unsettled := s.unsettled ++ [s.currentInstanceIndex] } : Service).setOperation .active
    Common { t with status, readinessArmed, exit := .watched } ∧
      Watching { t with status, readinessArmed, exit := .watched } := by
  have hc' := hc.setOperation .active
  have hlocked := hc.locked_of_up h.up
  intro t
  have hunsettled : t.unsettled = [s.currentInstanceIndex] := by
    change s.unsettled ++ [s.currentInstanceIndex] = _
    rw [h.unsettled, List.nil_append]
  refine ⟨⟨hc'.positive, hc'.numbered, hc'.within, hc'.counted, hc'.recorded, fun _ => hlocked⟩, ?_⟩
  exact ⟨⟨h.registered, h.requested, hup, h.promise, h.answered, h.stops, h.pending⟩, rfl, h.timer,
    h.cleanup, rfl, hunsettled, setOperation_open h.open_ rfl, h.current,
    (setOperation_length .active s).trans h.last, .inl rfl, fun hnot => absurd rfl hnot⟩

theorem spawnAnswered_spawning (hc : Common s) (h : s.Spawning) (answer : SpawnAnswer) :
    Common (s.spawnAnswered answer) ∧ Phase (s.spawnAnswered answer) := by
  have hunsettled : s.unsettled ++ [s.currentInstanceIndex] = [s.currentInstanceIndex] := by
    rw [h.unsettled, List.nil_append]
  unfold spawnAnswered
  rw [h.spawning]
  simp only [Bool.not_true, Bool.false_eq_true, if_false]
  split
  · refine ⟨hc.carry rfl hc.locked, .failing ?_⟩
    exact ⟨h.registered, h.up, h.promise, h.answered, h.stops, h.pending, rfl, h.timer, h.exit,
      h.readiness, .inl ⟨rfl, h.requested⟩, .inl ⟨h.handle, h.unsettled, rfl⟩, fun _ => h.open_⟩
  · split
    · refine ⟨hc.carry rfl hc.locked,
        .failing ?_⟩
      exact ⟨h.registered, h.up, h.promise, h.answered, h.stops, h.pending, rfl, h.timer, h.exit,
        h.readiness, .inl ⟨rfl, h.requested⟩, .inr ⟨rfl, hunsettled, h.intent⟩, fun _ => h.open_⟩
    · have hsame : ∀ status : ServiceStatus, status.up = true → ∀ readinessArmed, _ :=
        fun status hup readinessArmed => spawned_watching hc h status hup readinessArmed
      split
      · split
        · obtain ⟨hc', h'⟩ := hsame .running rfl s.readinessArmed
          exact ⟨hc', .watching h'⟩
        · obtain ⟨hc', h'⟩ := hsame s.status h.up true
          exact ⟨hc', .watching h'⟩
      · obtain ⟨hc', h'⟩ := hsame s.status h.up s.readinessArmed
        exact ⟨hc', .watching h'⟩

theorem after_spawning (hc : Common s) (h : s.Spawning) (hsafe : s.StepSafe e) :
    Common (s.after e) ∧ Phase (s.after e) := by
  have hsame : Common s ∧ Phase s := ⟨hc, .spawning h⟩
  have hbusy : s.exit.busy = false := by rw [h.exit]; rfl
  have hnotSafe : ¬ s.StopSafe := not_stopSafe h.up hbusy h.timer (.inl h.requested)
  by_cases hprocess : ofProcess e = true
  · rw [after_of_process hbusy h.stops h.readiness hprocess]
    exact hsame
  cases e with
  | spawnAnswered answer => exact spawnAnswered_spawning hc h answer
  | startupFailed | cleanupAnswered | cleanupFinished =>
    rw [after_of_no_cleanup h.cleanup rfl]
    exact hsame
  | timerFired =>
    rw [after, timerFired_of_no_timer h.timer]
    exact hsame
  | stopService => exact absurd (hsafe.1 h.registered) hnotSafe
  | close => exact absurd (hsafe h.registered).2 hnotSafe
  | domainClosed =>
    exact ⟨hc.domainClosed, .spawning ⟨⟨h.registered, h.requested, h.up, h.promise, h.answered,
      h.stops, h.pending⟩, h.spawning, h.timer, h.exit, h.cleanup, h.handle, h.readiness,
      h.unsettled, h.open_, h.current, h.last, h.intent⟩⟩
  | _ => exact absurd rfl hprocess

/-! ## Every run -/

theorem after_phase (hc : Common s) (h : s.Phase) (hsafe : s.StepSafe e) :
    Common (s.after e) ∧ Phase (s.after e) := by
  cases h with
  | spawning h => exact after_spawning hc h hsafe
  | failing h => exact after_failing hc h hsafe
  | watching h => exact after_watching hc h e
  | between h => exact after_between hc h hsafe
  | ending h =>
    obtain ⟨hc', h'⟩ := after_ending hc h hsafe
    exact ⟨hc', .ending h'⟩

/-- A process on its way is counted with those that have one. -/
theorem Phase.single (h : s.Phase) : s.liveInstances.length ≤ 1 := by
  have hlive : s.spawning = false → s.unsettled.length ≤ 1 → s.liveInstances.length ≤ 1 := by
    intro hspawning hlength
    unfold liveInstances
    rw [hspawning]
    simpa using hlength
  cases h with
  | spawning h =>
    unfold liveInstances
    rw [h.unsettled, h.spawning]
    exact Nat.le_refl 1
  | failing h =>
    apply hlive h.spawning
    rcases h.process with ⟨-, hunsettled, -⟩ | ⟨-, hunsettled, -⟩
    · rw [hunsettled]
      exact Nat.zero_le 1
    · rw [hunsettled]
      exact Nat.le_refl 1
  | watching h =>
    apply hlive h.spawning
    rw [h.unsettled]
    exact Nat.le_refl 1
  | between h =>
    apply hlive h.spawning
    rw [h.unsettled]
    exact Nat.zero_le 1
  | ending h =>
    apply hlive h.spawning
    rcases h.unsettled with hunsettled | hunsettled
    · rw [hunsettled]
      exact Nat.zero_le 1
    · rw [hunsettled]
      exact Nat.le_refl 1

theorem Phase.stopped (h : s.Phase) (hanswer : s.stopPromise = .resolved ∨ s.answered = true) :
    s.Settled := by
  cases h with
  | spawning h | watching h | between h => exact (h.unanswered hanswer).elim
  | failing h =>
    rw [h.promise, h.answered] at hanswer
    rcases hanswer with hresolved | hanswered
    · cases hresolved
    · cases hanswered
  | ending h => exact h.outcome.settled hanswer

theorem Phase.sound (hc : Common s) (h : s.Phase) : s.Sound := by
  refine ⟨h.single, hc.numbered, ?_, hc.locked, h.stopped⟩
  have hrecorded := hc.recorded
  have hcounted := hc.counted
  have hwithin := hc.within
  omega

/-- A service keeps what is claimed of it in every run in which each stop finds something that it
    can stop. -/
theorem sound_of_stopSafe (spec : ServiceSpec) (accepted : Bool) (events : List ServiceEvent)
    (hsafe : Along Service.after StepSafe (startService spec accepted) events) :
    (afterAll Service.after (startService spec accepted) events).Sound := by
  have hkept := hsafe.invariant (I := fun s => Common s ∧ Phase s)
    (fun s e h hstep => after_phase h.1 h.2 hstep) (startService_phase spec accepted)
  exact hkept.2.sound hkept.1

/-- A database that restarts once, and whose stop is confirmed. -/
theorem stoppedDatabase_sound :
    let started := startService
      { serviceId := "db", requiredResources := ["port:5432"], restart := .onFailure 1 } true
    let s := afterAll Service.after started
      [.spawnAnswered (.spawned false), .rootExited (some false), .drained, .verified,
        .treeSettled .settled, .timerFired true, .spawnAnswered (.spawned false), .stopService,
        .stopTerminated 0 true, .rootExited (some false), .drained, .verified, .stopRaced 0 false]
    s.stopPromise = .resolved ∧ s.operations.length = 2 ∧ s.lockedResources = [] ∧ s.Sound := by
  refine ⟨rfl, rfl, rfl, sound_of_stopSafe _ _ _ ?_⟩
  have hregistered : ∀ t : Service, t.registered = true → (t.registered = false → t.Settled) := by
    intro t hin hout
    rw [hin] at hout
    cases hout
  exact ⟨trivial, trivial, trivial, trivial, trivial, trivial, trivial,
    ⟨fun _ _ => .inl rfl, hregistered _ rfl⟩, trivial, trivial, trivial, trivial, trivial, trivial⟩

/-- A stop that comes while the driver is spawning resolves, and the process comes up behind it. -/
theorem stopDuringSpawn_not_sound :
    let started := startService { serviceId := "db", requiredResources := ["port:5432"] } true
    let s := afterAll Service.after started [.stopService, .spawnAnswered (.spawned false)]
    s.stopPromise = .resolved ∧ s.status = .running ∧ s.liveInstances = [1] ∧ ¬ s.Sound := by
  refine ⟨rfl, rfl, rfl, fun hsound => ?_⟩
  rcases hsound.stopped (.inl rfl) with hrest | hleft
  · have halive := hrest.alive
    cases halive
  · obtain ⟨op, hop, hdone⟩ := hleft.indeterminate
    cases hop
    cases hdone

end Service

end Services
end XioFlow
