/-
  XioFlow.Services.Phases

  Each step of a service keeps it in one of its phases, as long as every stop
  finds something that it can stop.
-/

import XioFlow.Services.Lifecycle

namespace XioFlow

open Lib

namespace Services

namespace Service

variable {s : Service}

/-! ## Small facts -/

theorem not_terminal_of_up (h : s.status.up = true) : s.status.terminal = false := by
  cases hstatus : s.status <;> rw [hstatus] at h <;> first | rfl | cases h

theorem Common.locked_of_up (hc : Common s) (h : s.status.up = true) :
    s.lockedResources = s.spec.requiredResources := hc.locked (not_terminal_of_up h)

theorem vouched_unsettled (h : s.unsettled = [] ∨ s.unsettled = [s.currentInstanceIndex]) :
    s.vouched.unsettled = [] := by
  change s.unsettled.filter (fun index => index ≠ s.currentInstanceIndex) = []
  rcases h with h | h
  · rw [h, List.filter_nil]
  · rw [h]
    simp

/-- What holds in every phase does not look at the rest of the state. -/
theorem Common.carry {t : Service} (hc : Common s)
    (hsame : (t.currentInstanceIndex, t.operations, t.attemptCount, t.spec) =
      (s.currentInstanceIndex, s.operations, s.attemptCount, s.spec))
    (hlocked : t.status.terminal = false → t.lockedResources = t.spec.requiredResources) :
    Common t := by
  obtain ⟨hindex, hoperations, hattempts, hspec⟩ : _ ∧ _ ∧ _ ∧ _ := by simpa using hsame
  refine ⟨?_, ?_, ?_, ?_, ?_, hlocked⟩ <;> simp only [hindex, hoperations, hattempts, hspec]
  exacts [hc.positive, hc.numbered, hc.within, hc.counted, hc.recorded]

/-- A change of the records of the current instance keeps what holds in every phase. -/
theorem Common.setOperation (hc : Common s) (status : InstanceStatus) :
    Common (s.setOperation status) :=
  ⟨hc.positive, by rw [setOperation_index, setOperation_length]; exact hc.numbered, hc.within,
    hc.counted, by rw [setOperation_length]; exact hc.recorded, hc.locked⟩

theorem AtRest.of_unsettled (hspawning : s.spawning = false) (hunsettled : s.unsettled = [])
    (htimer : s.restartTimer = false) (hreleased : s.lockedResources = []) : s.AtRest := by
  refine ⟨?_, htimer, hreleased⟩
  unfold liveInstances
  rw [hunsettled, hspawning]
  rfl

theorem Outcome.settled (h : s.Outcome) (hanswer : s.stopPromise = .resolved ∨ s.answered = true) :
    s.Settled := by
  cases h with
  | ongoing hopen hlocked hsettled => exact .inl (hsettled hanswer)
  | atRest hrest => exact .inl hrest
  | left hleft => exact .inr hleft

theorem reject_eq_resolved {p : Promise} (h : p.reject = .resolved) : p = .resolved := by
  cases p with
  | pending => cases h
  | resolved => rfl
  | rejected => cases h

variable {t : Service}

/-- An outcome stands as long as nothing it is about is changed. -/
theorem Outcome.carry (h : s.Outcome) (hop : t.currentOperation = s.currentOperation)
    (hlocks : t.lockedResources = s.lockedResources) (hspec : t.spec = s.spec)
    (hrest : s.AtRest → t.AtRest) (hanswer : t.stopPromise = .resolved ∨ t.answered = true →
      s.stopPromise = .resolved ∨ s.answered = true)
    (hterminal : s.status.terminal = true → s.readinessArmed = false → t.status.terminal = true)
    (hready : s.readinessArmed = false → t.readinessArmed = false) : t.Outcome := by
  cases h with
  | ongoing hopen hlocked hsettled =>
    refine .ongoing ?_ ?_ fun h => hrest (hsettled (hanswer h))
    · unfold Open at hopen ⊢
      rw [hop]
      exact hopen
    · rw [hlocks, hspec]
      exact hlocked
  | atRest hat hstatus harmed =>
    exact .atRest (hrest hat) (hterminal hstatus harmed) (hready harmed)
  | left hleft =>
    refine .left ⟨?_, ?_⟩
    · rw [hop]
      exact hleft.indeterminate
    · rw [hlocks, hspec]
      exact hleft.locked

/-- What ended with an open record is still going on, or never had more to release. -/
theorem Outcome.not_left (hopen : s.Open) : ¬ s.LeftToAdjudicate := by
  rintro ⟨⟨op, hop, hstatus⟩, -⟩
  obtain ⟨op', hop', hdone⟩ := hopen
  rw [hop] at hop'
  cases hop'
  rw [hstatus] at hdone
  cases hdone

/-! ## Failed startups -/

/-- What a service in a failed startup is: nothing but its process is at work. -/
structure Halted (s : Service) : Prop where
  spawning : s.spawning = false
  timer : s.restartTimer = false
  exit : s.exit = .unwatched
  stops : s.stops = []
  pending : s.pendingInstanceResult = none
  readiness : s.readinessArmed = false
  unsettled : s.unsettled = [] ∨ s.unsettled = [s.currentInstanceIndex]

/-- Its outcome is not recorded yet. -/
structure Unstarted (s : Service) : Prop extends Halted s where
  locked : s.lockedResources = s.spec.requiredResources
  open_ : s.intentRegistered = true → s.Open

/-- The outcome of the cleanup is recorded, and the drainer of the output is awaited. -/
theorem Halted.finishing (hc : Common s) (h : s.Halted) (locked : List String)
    (confirmed exited : Bool) :
    let t : Service := { s with
      lockedResources := locked, status := .failed, cleanup := some (.finishing confirmed exited) }
    t.Outcome → (confirmed = true → t.Settled) → Common t ∧ Ending t := by
  intro t houtcome hsettled
  have hidle : s.exit.busy = true → False := by
    rw [h.exit]
    nofun
  refine ⟨⟨hc.positive, hc.numbered, hc.within, hc.counted, hc.recorded, nofun⟩, ?_⟩
  exact {
    spawning := h.spawning
    timer := h.timer
    cleanup := .inr ⟨confirmed, exited, rfl, rfl, h.readiness, h.stops, hsettled⟩
    unsettled := h.unsettled
    requested := fun hbusy => (hidle hbusy).elim
    handled := fun hbusy => (hidle hbusy).elim
    handle := by
      rintro (hup | harmed)
      · cases hup
      · change s.readinessArmed = true at harmed
        rw [h.readiness] at harmed
        cases harmed
    pending := fun _ => h.readiness
    confirmed := fun hmem => by
      change StopStage.awaitingExit true ∈ s.stops at hmem
      rw [h.stops] at hmem
      cases hmem
    outcome := houtcome }

/-- A confirmed cleanup gives the resources back. -/
theorem settleStartup_confirmed (hc : Common s) (h : s.Unstarted) (hgone : s.unsettled = [])
    (exited : Bool) :
    Common (s.settleStartup true exited) ∧ Ending (s.settleStartup true exited) := by
  have hends : ∀ t : Service, Common t → t.Halted → t.unsettled = [] →
      let t' : Service := { t.releaseResources with
        status := .failed, cleanup := some (.finishing true exited) }
      Common t' ∧ Ending t' := by
    intro t hct ht hunsettled t'
    have hrest : t'.AtRest := .of_unsettled ht.spawning hunsettled ht.timer rfl
    exact ht.finishing hct [] true exited (.atRest hrest rfl ht.readiness) fun _ => .inl hrest
  unfold settleStartup
  simp only [if_true]
  cases hintent : s.intentRegistered with
  | false =>
    simp only [Bool.false_eq_true, if_false]
    exact hends s hc h.toHalted hgone
  | true =>
    simp only [if_true]
    rw [recordUnlessDone_of_open (h.open_ hintent)]
    exact hends (s.setOperation _) (hc.setOperation _) ⟨h.spawning, h.timer, h.exit, h.stops,
      h.pending, h.readiness, h.unsettled⟩ hgone

/-- A cleanup that is not confirmed leaves the instance to a decision. -/
theorem settleStartup_unconfirmed (hc : Common s) (h : s.Unstarted)
    (hintent : s.intentRegistered = true) (exited : Bool) :
    Common (s.settleStartup false exited) ∧ Ending (s.settleStartup false exited) := by
  have hopen := h.open_ hintent
  unfold settleStartup
  simp only [hintent, if_true, Bool.false_eq_true, if_false]
  rw [recordUnlessDone_of_open hopen]
  have hhalted : Halted (s.setOperation (.done .indeterminate)) :=
    ⟨h.spawning, h.timer, h.exit, h.stops, h.pending, h.readiness, h.unsettled⟩
  exact hhalted.finishing (hc.setOperation _) s.lockedResources false exited
    (.left ⟨indeterminate_setOperation hopen, h.locked⟩) nofun

theorem startupFailed_failing (hc : Common s) (h : s.Failing) :
    Common s.settleStartupFailure ∧ Phase s.settleStartupFailure := by
  have hlocked := hc.locked_of_up h.up
  unfold settleStartupFailure
  split
  · rename_i hcaught
    simp only
    split
    · rename_i hhandle
      refine ⟨hc.carry rfl hc.locked, ?_⟩
      have hprocess : s.unsettled = [s.currentInstanceIndex] ∧ s.intentRegistered = true := by
        rcases h.process with ⟨hnone, -, -⟩ | ⟨-, hunsettled, hintent⟩
        · rw [hnone] at hhandle
          cases hhandle
        · exact ⟨hunsettled, hintent⟩
      exact .failing {
        registered := h.registered
        up := h.up
        promise := h.promise
        answered := h.answered
        stops := h.stops
        pending := h.pending
        spawning := h.spawning
        timer := h.timer
        exit := h.exit
        readiness := rfl
        cleanup := .inr rfl
        process := .inr ⟨hhandle, hprocess⟩
        open_ := h.open_ }
    · rename_i hhandle
      have hunsettled : s.unsettled = [] := by
        rcases h.process with ⟨-, hunsettled, -⟩ | ⟨hsome, -, -⟩
        · exact hunsettled
        · exact absurd hsome hhandle
      have hunstarted : Unstarted { s with stopRequested := true, readinessArmed := false } :=
        ⟨⟨h.spawning, h.timer, h.exit, h.stops, h.pending, rfl, .inl hunsettled⟩, hlocked, h.open_⟩
      have hcommon : Common { s with stopRequested := true, readinessArmed := false } :=
        hc.carry rfl hc.locked
      obtain ⟨hcommon', hending⟩ := settleStartup_confirmed hcommon hunstarted hunsettled false
      exact ⟨hcommon', .ending hending⟩
  · exact ⟨hc, .failing h⟩

theorem cleanupAnswered_failing (hc : Common s) (h : s.Failing) (confirmed exited : Bool) :
    Common (s.cleanupAnswered confirmed exited) ∧ Phase (s.cleanupAnswered confirmed exited) := by
  have hlocked := hc.locked_of_up h.up
  unfold cleanupAnswered
  rcases h.cleanup with ⟨hcaught, -⟩ | hterminating
  · rw [hcaught]
    exact ⟨hc, .failing h⟩
  · rw [hterminating]
    simp only
    have hprocess : s.unsettled = [s.currentInstanceIndex] ∧ s.intentRegistered = true := by
      rcases h.process with ⟨-, -, hcaught⟩ | ⟨-, hunsettled, hintent⟩
      · rw [hterminating] at hcaught
        cases hcaught
      · exact ⟨hunsettled, hintent⟩
    obtain ⟨hunsettled, hintent⟩ := hprocess
    have hunstarted : s.Unstarted := ⟨⟨h.spawning, h.timer, h.exit, h.stops, h.pending,
      h.readiness, .inr hunsettled⟩, hlocked, h.open_⟩
    have hvouched : s.vouched.unsettled = [] := vouched_unsettled (.inr hunsettled)
    have hunstarted' : s.vouched.Unstarted := ⟨⟨h.spawning, h.timer, h.exit, h.stops, h.pending,
      h.readiness, .inl hvouched⟩, hlocked, h.open_⟩
    have hc' : Common s.vouched := hc.carry rfl hc.locked
    cases confirmed with
    | false =>
      obtain ⟨hcommon, hending⟩ := settleStartup_unconfirmed hc hunstarted hintent exited
      exact ⟨hcommon, .ending hending⟩
    | true =>
      cases exited with
      | true =>
        obtain ⟨hcommon, hending⟩ := settleStartup_confirmed hc' hunstarted' hvouched true
        exact ⟨hcommon, .ending hending⟩
      | false =>
        obtain ⟨hcommon, hending⟩ := settleStartup_unconfirmed hc' hunstarted' hintent false
        exact ⟨hcommon, .ending hending⟩

/-- The last stretch of a failed startup settles the promises. -/
theorem cleanupFinished_ending (hc : Common s) (h : s.Ending) :
    Common s.cleanupFinished ∧ Ending s.cleanupFinished := by
  unfold cleanupFinished
  split
  · rename_i confirmed exited hcleanup
    obtain ⟨confirmed', exited', hfinishing, hfailed, hreadiness, -, hsettled⟩ :=
      h.cleanup.resolve_left (by rw [hcleanup]; nofun)
    rw [hcleanup] at hfinishing
    cases hfinishing
    have hdown : s.status.up = true ∨ s.readinessArmed = true → False := by
      rw [hfailed, hreadiness]
      rintro (h | h) <;> cases h
    cases confirmed with
    | true =>
      refine ⟨hc.carry rfl hc.locked, ?_⟩
      refine ⟨h.spawning, h.timer, .inl rfl, h.unsettled, h.requested, h.handled,
        fun hup => (hdown hup).elim, h.pending, h.confirmed, ?_⟩
      rcases hsettled rfl with hrest | hleft
      · refine .atRest ⟨hrest.alive, hrest.restart, hrest.released⟩ ?_ hreadiness
        change s.status.terminal = true
        rw [hfailed]
        rfl
      · exact .left ⟨hleft.indeterminate, hleft.locked⟩
    | false =>
      refine ⟨hc.carry rfl hc.locked, ?_⟩
      refine ⟨h.spawning, h.timer, .inl rfl, h.unsettled, h.requested, h.handled,
        fun hup => (hdown hup).elim, h.pending, h.confirmed, ?_⟩
      exact h.outcome.carry rfl rfl rfl (fun hrest => ⟨hrest.alive, hrest.restart, hrest.released⟩)
        (Or.imp_left reject_eq_resolved) (fun hterminal _ => hterminal) id
  · exact ⟨hc, h⟩

/-! ## A service that is ending -/

theorem Settled.carry (h : s.Settled) (hop : t.currentOperation = s.currentOperation)
    (hlocks : t.lockedResources = s.lockedResources) (hspec : t.spec = s.spec)
    (hrest : s.AtRest → t.AtRest) : t.Settled := by
  rcases h with hat | hleft
  · exact .inl (hrest hat)
  · refine .inr ⟨?_, ?_⟩
    · rw [hop]
      exact hleft.indeterminate
    · rw [hlocks, hspec]
      exact hleft.locked

/-- A startup that is being concluded stays so. -/
theorem Ending.cleanup_carry (h : s.Ending) (hcleanup : t.cleanup = s.cleanup)
    (hstatus : s.status = .failed → t.status = .failed)
    (hready : s.readinessArmed = false → t.readinessArmed = false)
    (hstops : s.stops = [] → t.stops = []) (hsettled : s.Settled → t.Settled) :
    t.cleanup = none ∨ ∃ confirmed exited, t.cleanup = some (.finishing confirmed exited) ∧
      t.status = .failed ∧ t.readinessArmed = false ∧ t.stops = [] ∧
        (confirmed = true → t.Settled) := by
  rw [hcleanup]
  rcases h.cleanup with hnone | ⟨confirmed, exited, hfinishing, hfailed, harmed, halone, hdone⟩
  · exact .inl hnone
  · exact .inr ⟨confirmed, exited, hfinishing, hstatus hfailed, hready harmed, hstops halone,
      fun hconfirmed => hsettled (hdone hconfirmed)⟩

/-- What does not change about a service that is ending while its stops, the handling of its exit
    and its promises go on. -/
def core (s : Service) :=
  ((s.spec, s.status, s.operations, s.currentInstanceIndex, s.attemptCount, s.lockedResources),
    s.spawning, s.restartTimer, s.cleanup, s.unsettled, s.currentProcessHandle)

theorem Ending.carry (h : s.Ending) (hc : Common s) (hcore : t.core = s.core)
    (hready : t.readinessArmed = true → s.readinessArmed = true)
    (hanswer : t.stopPromise = .resolved ∨ t.answered = true →
      s.stopPromise = .resolved ∨ s.answered = true)
    (hrequested : t.exit.busy = true → t.stopRequested = true)
    (hhandled : t.exit.busy = true → t.exit ≠ .watched → t.readinessArmed = false)
    (hpending : t.pendingInstanceResult.isSome = true → t.readinessArmed = false)
    (hstops : s.stops = [] → t.stops = [])
    (hconfirmed : .awaitingExit true ∈ t.stops → s.unsettled = []) : Common t ∧ t.Ending := by
  simp only [core, Prod.mk.injEq] at hcore
  obtain ⟨⟨hspec, hstatus, hoperations, hindex, hattempts, hlocked⟩, hspawning, htimer, hcleanup,
    hunsettled, hhandle⟩ := hcore
  have hrest : s.AtRest → t.AtRest := fun hat =>
    .of_unsettled (hspawning.trans h.spawning)
      (hunsettled.trans (List.append_eq_nil_iff.1 hat.alive).1) (htimer.trans hat.restart)
      (hlocked.trans hat.released)
  have hop : t.currentOperation = s.currentOperation := by
    unfold currentOperation
    rw [hoperations, hindex]
  have hoff : s.readinessArmed = false → t.readinessArmed = false := by
    simpa only [← Bool.not_eq_true] using mt hready
  refine ⟨hc.carry (by rw [hindex, hoperations, hattempts, hspec]) ?_,
    hspawning.trans h.spawning, htimer.trans h.timer, ?_, ?_, hrequested, hhandled, ?_, hpending,
    fun hmem => hunsettled.trans (hconfirmed hmem), ?_⟩
  · rw [hstatus, hlocked, hspec]
    exact hc.locked
  · exact h.cleanup_carry hcleanup hstatus.trans hoff hstops
      fun hs => hs.carry hop hlocked hspec hrest
  · rw [hunsettled, hindex]
    exact h.unsettled
  · rw [hstatus, hhandle, hcleanup]
    exact fun hup => h.handle (hup.imp_right hready)
  · exact h.outcome.carry hop hlocked hspec hrest hanswer
      (fun hterminal _ => hstatus ▸ hterminal) hoff

theorem rejectLifecycle_ending (hc : Common s) (h : s.Ending) :
    Common s.rejectLifecycle ∧ Ending s.rejectLifecycle := by
  have hrest : s.AtRest → s.rejectLifecycle.AtRest :=
    fun hat => ⟨hat.alive, hat.restart, hat.released⟩
  refine ⟨hc.carry rfl nofun, ?_⟩
  refine ⟨h.spawning, h.timer, ?_, h.unsettled, nofun, nofun, ?_, fun _ => rfl, h.confirmed, ?_⟩
  · exact h.cleanup_carry rfl (fun _ => rfl) (fun _ => rfl) id fun hs => hs.carry rfl rfl rfl hrest
  · rintro (hup | harmed)
    · cases hup
    · cases harmed
  · exact h.outcome.carry rfl rfl rfl hrest (Or.imp_left reject_eq_resolved) (fun _ _ => rfl)
      fun _ => rfl

theorem finishExit_ending (hc : Common s) (h : s.Ending) (hrequested : s.stopRequested = true)
    (hready : s.readinessArmed = false) (success : Bool) :
    Common (s.finishExit success) ∧ Ending (s.finishExit success) := by
  unfold finishExit
  rw [if_pos hrequested]
  exact h.carry hc rfl id id nofun nofun (fun _ => hready) id h.confirmed

theorem vouched_ending (hc : Common s) (h : s.Ending) : Common s.vouched ∧ Ending s.vouched := by
  have hnone : s.vouched.unsettled = [] := vouched_unsettled h.unsettled
  have hrest : s.AtRest → s.vouched.AtRest := fun hat =>
    .of_unsettled h.spawning hnone hat.restart hat.released
  refine ⟨hc.carry rfl hc.locked, ?_⟩
  refine ⟨h.spawning, h.timer, ?_, .inl hnone, h.requested, h.handled, h.handle, h.pending,
    fun _ => hnone, ?_⟩
  · exact h.cleanup_carry rfl id id id fun hs => hs.carry rfl rfl rfl hrest
  · exact h.outcome.carry rfl rfl rfl hrest id (fun hterminal _ => hterminal) id

/-- The handling of an exit goes on to its next await. -/
theorem handling_ending (hc : Common s) (h : s.Ending) {exit : ExitHandling}
    (hrequested : s.stopRequested = true) :
    Common { s with exit, readinessArmed := false } ∧
      Ending { s with exit, readinessArmed := false } :=
  h.carry hc rfl nofun id (fun _ => hrequested) (fun _ _ => rfl) (fun _ => rfl) id h.confirmed

theorem rootExited_ending (hc : Common s) (h : s.Ending) (success : Option Bool) :
    Common (s.rootExited success) ∧ Ending (s.rootExited success) := by
  unfold rootExited
  split
  · rename_i hwatched
    have hrequested : s.stopRequested = true := h.requested (by rw [hwatched]; rfl)
    cases success with
    | none => exact rejectLifecycle_ending hc h
    | some => exact handling_ending hc h hrequested
  · exact ⟨hc, h⟩

theorem drained_ending (hc : Common s) (h : s.Ending) : Common s.drained ∧ Ending s.drained := by
  unfold drained
  split
  · rename_i success identified hexit
    have hrequested : s.stopRequested = true := h.requested (by rw [hexit]; rfl)
    have hready : s.readinessArmed = false := h.handled (by rw [hexit]; rfl) (by rw [hexit]; nofun)
    split
    · have hnext : Common { s with exit := .verifying success identified, readinessArmed := false } ∧
          Ending { s with exit := .verifying success identified, readinessArmed := false } :=
        handling_ending hc h hrequested
      rw [← hready] at hnext
      exact hnext
    · exact finishExit_ending hc h hrequested hready success
  · exact ⟨hc, h⟩

theorem verified_ending (hc : Common s) (h : s.Ending) :
    Common s.verified ∧ Ending s.verified := by
  unfold verified
  split
  · rename_i success identified hexit
    have hrequested : s.stopRequested = true := h.requested (by rw [hexit]; rfl)
    have hready : s.readinessArmed = false := h.handled (by rw [hexit]; rfl) (by rw [hexit]; nofun)
    rw [hrequested]
    exact finishExit_ending hc h hrequested hready success
  · exact ⟨hc, h⟩

theorem treeSettled_ending (hc : Common s) (h : s.Ending) (answer : TreeAnswer) :
    Common (s.treeSettled answer) ∧ Ending (s.treeSettled answer) := by
  have hbusy : ∀ success, s.exit = .settling success →
      s.stopRequested = true ∧ s.readinessArmed = false := fun success hexit =>
    ⟨h.requested (by rw [hexit]; rfl), h.handled (by rw [hexit]; rfl) (by rw [hexit]; nofun)⟩
  unfold treeSettled
  split
  · exact rejectLifecycle_ending hc h
  · rename_i success hexit
    obtain ⟨hrequested, hready⟩ := hbusy success hexit
    obtain ⟨hc', h'⟩ := vouched_ending hc h
    exact finishExit_ending hc' h' hrequested hready success
  · rename_i success hexit
    obtain ⟨hrequested, hready⟩ := hbusy success hexit
    rw [if_pos hrequested]
    exact finishExit_ending hc h hrequested hready success
  · exact ⟨hc, h⟩

/-! ## Stops of a service that is ending -/

/-- A stop that finds a service that is up joins what is at work. -/
theorem stopOwned_ending (hc : Common s) (h : s.Ending) :
    Common s.stopOwned ∧ Ending s.stopOwned := by
  unfold stopOwned
  split
  · exact ⟨hc, h⟩
  · rename_i hnot
    have hup : s.status.up = true := by simpa using hnot
    have hlocked := hc.locked_of_up hup
    obtain ⟨hhandle, hcleanup⟩ := h.handle (.inl hup)
    simp only
    rw [if_neg (by rw [h.timer]; exact Bool.false_ne_true), if_pos hhandle]
    refine ⟨hc.carry rfl (fun _ => hlocked), ?_⟩
    refine ⟨h.spawning, h.timer, .inl hcleanup, h.unsettled, fun _ => rfl, h.handled, ?_,
      h.pending, fun hmem => ?_, ?_⟩
    · rintro (hstopping | harmed)
      · cases hstopping
      · exact ⟨hhandle, hcleanup⟩
    · apply h.confirmed
      rcases List.mem_append.1 hmem with hold | hnew
      · exact hold
      · cases List.mem_singleton.1 hnew
    · cases h.outcome with
      | ongoing hopen hlocked hsettled =>
        refine .ongoing hopen hlocked fun hanswer => ?_
        have hrest := hsettled hanswer
        exact ⟨hrest.alive, hrest.restart, hrest.released⟩
      | atRest hrest hterminal =>
        rw [not_terminal_of_up hup] at hterminal
        cases hterminal
      | left hleft => exact .left ⟨hleft.indeterminate, hleft.locked⟩

theorem stopTerminated_ending (hc : Common s) (h : s.Ending) (i : Nat) (confirmed : Bool) :
    Common (s.stopTerminated i confirmed) ∧ Ending (s.stopTerminated i confirmed) := by
  have hempty : s.stops = [] → s.stops.set i (.awaitingExit confirmed) = [] := by
    intro hnone
    rw [hnone, List.set_nil]
  unfold stopTerminated
  split
  · cases confirmed with
    | false =>
      refine h.carry hc rfl id id h.requested h.handled h.pending hempty fun hmem => ?_
      apply h.confirmed
      rcases List.mem_or_eq_of_mem_set hmem with hold | hnew
      · exact hold
      · cases hnew
    | true =>
      obtain ⟨hc', h'⟩ := vouched_ending hc h
      exact h'.carry hc' rfl id id h.requested h.handled h.pending hempty
        fun _ => vouched_unsettled h.unsettled
  · exact ⟨hc, h⟩

/-- A stop leaves. -/
theorem leave_ending (hc : Common s) (h : s.Ending) {stops : List StopStage}
    (hsub : stops ⊆ s.stops) : Common { s with stops } ∧ Ending { s with stops } := by
  refine h.carry hc rfl id id h.requested h.handled h.pending (fun hnone => ?_)
    fun hmem => h.confirmed (hsub hmem)
  rw [hnone] at hsub
  exact List.subset_nil.1 hsub

/-- The result that was kept for a stop is taken. -/
theorem taken_ending (hc : Common s) (h : s.Ending) :
    Common { s with pendingInstanceResult := none } ∧
      Ending { s with pendingInstanceResult := none } :=
  h.carry hc rfl id id h.requested h.handled nofun id h.confirmed

/-- A service whose process is gone is concluded, and gives its resources back. -/
theorem concluded (hc : Common s) (hspawning : s.spawning = false) (htimer : s.restartTimer = false)
    (hcleanup : s.cleanup = none) (hgone : s.unsettled = []) (hready : s.readinessArmed = false)
    (hrequested : s.exit.busy = true → s.stopRequested = true) {status : ServiceStatus}
    (hterminal : status.terminal = true) :
    Common (s.conclude status) ∧ Ending (s.conclude status) := by
  have hat : AtRest (s.conclude status) := .of_unsettled hspawning hgone htimer rfl
  have hnot : status.terminal = false → False := by
    rw [hterminal]
    nofun
  refine ⟨hc.carry rfl fun hup => (hnot hup).elim, ?_⟩
  refine ⟨hspawning, htimer, .inl hcleanup, .inl hgone, hrequested, fun _ _ => hready, ?_,
    fun _ => hready, fun _ => hgone, .atRest hat hterminal hready⟩
  rintro (hup | harmed)
  · exact (hnot (not_terminal_of_up hup)).elim
  · change s.readinessArmed = true at harmed
    rw [hready] at harmed
    cases harmed

/-- A stop that is not confirmed leaves the service to an adjudication, unless it is at rest. -/
theorem adjudicate_ending (hc : Common s) (h : s.Ending) (hcleanup : s.cleanup = none) :
    Common ({ s.recordUnlessDone .indeterminate with status := .failed } : Service).resolveStop ∧
      Ending ({ s.recordUnlessDone .indeterminate with status := .failed } :
        Service).resolveStop := by
  have hdown : (ServiceStatus.failed.up = true ∨ s.readinessArmed = true) →
      s.currentProcessHandle = true ∧ s.cleanup = none := by
    rintro (hup | harmed)
    · cases hup
    · exact h.handle (.inr harmed)
  by_cases hopen : s.Open
  · rw [recordUnlessDone_of_open hopen]
    have hc' := hc.setOperation (.done .indeterminate)
    refine ⟨⟨hc'.positive, hc'.numbered, hc'.within, hc'.counted, hc'.recorded, nofun⟩, ?_⟩
    refine ⟨h.spawning, h.timer, .inl hcleanup, h.unsettled, h.requested, h.handled, hdown,
      h.pending, h.confirmed, ?_⟩
    cases h.outcome with
    | ongoing hopen hlocked => exact .left ⟨indeterminate_setOperation hopen, hlocked⟩
    | atRest hrest hterminal hready =>
      exact .atRest ⟨hrest.alive, hrest.restart, hrest.released⟩ rfl hready
    | left hleft => exact absurd hleft (Outcome.not_left hopen)
  · rw [recordUnlessDone_of_not_open hopen]
    refine ⟨hc.carry rfl nofun, ?_⟩
    refine ⟨h.spawning, h.timer, .inl hcleanup, h.unsettled, h.requested, h.handled, hdown,
      h.pending, h.confirmed, ?_⟩
    cases h.outcome with
    | ongoing hopen' => exact absurd hopen' hopen
    | atRest hrest hterminal hready =>
      exact .atRest ⟨hrest.alive, hrest.restart, hrest.released⟩ rfl hready
    | left hleft => exact .left ⟨hleft.indeterminate, hleft.locked⟩

theorem finalizeStop_ending (hc : Common s) (h : s.Ending) (hcleanup : s.cleanup = none)
    {stopConfirmed : Bool} (hgone : stopConfirmed = true → s.unsettled = []) (rootExited : Bool) :
    Common (s.finalizeStop stopConfirmed rootExited) ∧
      Ending (s.finalizeStop stopConfirmed rootExited) := by
  obtain ⟨hc', h'⟩ := taken_ending hc h
  unfold finalizeStop
  simp only
  split
  · rename_i hall
    simp only [Bool.and_eq_true] at hall
    obtain ⟨⟨hconfirmed, -⟩, hpending⟩ := hall
    split
    · exact ⟨hc', h'⟩
    · rename_i s' hrecord
      obtain ⟨-, rfl⟩ := recordOperationResult_some hrecord
      have hterminal : (if s.failureReason then ServiceStatus.failed else .stopped).terminal = true := by
        split <;> rfl
      exact concluded (hc'.setOperation _) h'.spawning h'.timer hcleanup (hgone hconfirmed)
        (h.pending hpending) h'.requested hterminal
  · exact adjudicate_ending hc' h' hcleanup

theorem stopRaced_ending (hc : Common s) (h : s.Ending) (i : Nat) (timedOut : Bool) :
    Common (s.stopRaced i timedOut) ∧ Ending (s.stopRaced i timedOut) := by
  unfold stopRaced
  split
  · rename_i confirmed hstage
    have hmem := List.mem_of_getElem? hstage
    -- A startup that is being concluded has no stop at work.
    have hcleanup : s.cleanup = none := by
      rcases h.cleanup with hnone | ⟨-, -, -, -, -, halone, -⟩
      · exact hnone
      · rw [halone] at hmem
        cases hmem
    have hgone : confirmed = true → s.unsettled = [] := by
      rintro rfl
      exact h.confirmed hmem
    obtain ⟨hc', h'⟩ := leave_ending hc h (List.eraseIdx_subset (l := s.stops) (k := i))
    simp only
    split
    · exact finalizeStop_ending hc' h' hcleanup hgone false
    · split
      · exact ⟨hc, h⟩
      · exact finalizeStop_ending hc' h' hcleanup hgone true
      · exact ⟨hc', h'⟩
  · exact ⟨hc, h⟩

theorem readinessMatched_ending (hc : Common s) (h : s.Ending) :
    Common s.readinessMatched ∧ Ending s.readinessMatched := by
  unfold readinessMatched
  split
  · rename_i harmed
    obtain ⟨hhandle, hcleanup⟩ := h.handle (.inr harmed)
    have hlocked : s.lockedResources = s.spec.requiredResources := by
      cases h.outcome with
      | ongoing hopen hlocked => exact hlocked
      | atRest hrest hterminal hready =>
        rw [harmed] at hready
        cases hready
      | left hleft => exact hleft.locked
    refine ⟨hc.carry rfl (fun _ => hlocked), ?_⟩
    refine ⟨h.spawning, h.timer, .inl hcleanup, h.unsettled, h.requested, fun _ _ => rfl,
      fun _ => ⟨hhandle, hcleanup⟩, fun _ => rfl, h.confirmed, ?_⟩
    cases h.outcome with
    | ongoing hopen hlocked hsettled =>
      refine .ongoing hopen hlocked fun hanswer => ?_
      have hrest := hsettled hanswer
      exact ⟨hrest.alive, hrest.restart, hrest.released⟩
    | atRest hrest hterminal hready =>
      rw [harmed] at hready
      cases hready
    | left hleft => exact .left ⟨hleft.indeterminate, hleft.locked⟩
  · exact ⟨hc, h⟩

theorem readinessTimedOut_ending (hc : Common s) (h : s.Ending) :
    Common s.readinessTimedOut ∧ Ending s.readinessTimedOut := by
  unfold readinessTimedOut
  split
  · obtain ⟨hc', h'⟩ : Common { s with readinessArmed := false, failureReason := true } ∧
        Ending { s with readinessArmed := false, failureReason := true } :=
      h.carry hc rfl nofun id h.requested (fun _ _ => rfl) (fun _ => rfl) id h.confirmed
    simp only
    split
    · exact stopOwned_ending hc' h'
    · exact ⟨hc', h'⟩
  · exact ⟨hc, h⟩

/-- The domain and its map say nothing about a service that is ending. -/
theorem detached_ending (hc : Common s) (h : s.Ending) (registered domainClosed : Bool) :
    Common { s with registered, domainClosed } ∧ Ending { s with registered, domainClosed } :=
  h.carry hc rfl id id h.requested h.handled h.pending id h.confirmed

theorem withoutTimer_eq (h : s.restartTimer = false) :
    ({ s with restartTimer := false } : Service) = s := by
  rw [← h]

theorem close_ending (hc : Common s) (h : s.Ending) : Common s.close ∧ Ending s.close := by
  unfold close
  split
  · rw [withoutTimer_eq h.timer]
    obtain ⟨hc', h'⟩ := stopOwned_ending hc h
    exact detached_ending hc' h' false _
  · exact ⟨hc, h⟩

/-- A stop of a service that is no longer in the map is answered where it is settled. -/
theorem stopService_ending (hc : Common s) (h : s.Ending)
    (hsettled : s.registered = false → s.Settled) :
    Common s.stopService ∧ Ending s.stopService := by
  unfold stopService
  split
  · exact stopOwned_ending hc h
  · rename_i hregistered
    have hdone : s.Settled := hsettled (by simpa using hregistered)
    have hrest : s.AtRest → AtRest { s with answered := true } :=
      fun hat => ⟨hat.alive, hat.restart, hat.released⟩
    refine ⟨hc.carry rfl hc.locked, ?_⟩
    refine ⟨h.spawning, h.timer, ?_, h.unsettled, h.requested, h.handled, h.handle, h.pending,
      h.confirmed, ?_⟩
    · exact h.cleanup_carry rfl id id id fun hs => hs.carry rfl rfl rfl hrest
    · cases h.outcome with
      | ongoing hopen hlocked =>
        refine .ongoing hopen hlocked fun _ => ?_
        rcases hdone with hat | hleft
        · exact hrest hat
        · exact absurd hleft (Outcome.not_left hopen)
      | atRest hat hterminal hready => exact .atRest (hrest hat) hterminal hready
      | left hleft => exact .left ⟨hleft.indeterminate, hleft.locked⟩

/-- A service that is ending does not start again. -/
theorem after_ending (hc : Common s) (h : s.Ending) {e : ServiceEvent} (hsafe : s.StepSafe e) :
    Common (s.after e) ∧ Ending (s.after e) := by
  cases e with
  | startService => exact ⟨hc, h⟩
  | spawnAnswered answer =>
    change Common (s.spawnAnswered answer) ∧ Ending (s.spawnAnswered answer)
    unfold spawnAnswered
    rw [h.spawning]
    exact ⟨hc, h⟩
  | startupFailed =>
    change Common s.settleStartupFailure ∧ Ending s.settleStartupFailure
    unfold settleStartupFailure
    rcases h.cleanup with hcleanup | ⟨_, _, hcleanup, -⟩
    · rw [hcleanup]
      exact ⟨hc, h⟩
    · rw [hcleanup]
      exact ⟨hc, h⟩
  | cleanupAnswered confirmed exited =>
    change Common (s.cleanupAnswered confirmed exited) ∧ Ending (s.cleanupAnswered confirmed exited)
    unfold cleanupAnswered
    rcases h.cleanup with hcleanup | ⟨_, _, hcleanup, -⟩
    · rw [hcleanup]
      exact ⟨hc, h⟩
    · rw [hcleanup]
      exact ⟨hc, h⟩
  | cleanupFinished => exact cleanupFinished_ending hc h
  | rootExited success => exact rootExited_ending hc h success
  | drained => exact drained_ending hc h
  | verified => exact verified_ending hc h
  | treeSettled answer => exact treeSettled_ending hc h answer
  | timerFired accepted =>
    change Common (s.timerFired accepted) ∧ Ending (s.timerFired accepted)
    unfold timerFired
    rw [h.timer]
    exact ⟨hc, h⟩
  | stopService => exact stopService_ending hc h hsafe.2
  | stopTerminated i confirmed => exact stopTerminated_ending hc h i confirmed
  | stopRaced i timedOut => exact stopRaced_ending hc h i timedOut
  | readinessMatched => exact readinessMatched_ending hc h
  | readinessTimedOut => exact readinessTimedOut_ending hc h
  | close => exact close_ending hc h
  | domainClosed => exact detached_ending hc h _ true

end Service

end Services
end XioFlow
