/-
  XioFlow.Supervisor.Verdicts

  The verdict of an operation over a whole run: the steps of the monitor, the
  result after it is built, and the runs in which it is not consistent.
-/

import XioFlow.Supervisor.FirstReason

namespace XioFlow

open Lib
open Recovery (IdentityVerificationResult StopProcessResult)

namespace Supervisor
namespace Termination

open Supervised

section Steps

variable {s : Supervised}

/-! ## The race -/

theorem raceWon_of_racing (hrace : s.opState.awaiting = .rootOutcome) (outcome : RootOutcome) :
    raceWon outcome s =
      (s.withSampler fun b => { b with stopped := true }).awaitAt (.samples outcome) := by
  rw [raceWon.eq_def, hrace]

theorem raceWon_of_not_racing (hrace : s.opState.awaiting ≠ .rootOutcome) (outcome : RootOutcome) :
    raceWon outcome s = s := by
  rw [raceWon.eq_def]
  split
  · rename_i heq
    exact absurd heq hrace
  · rfl

/-- The race is won by an exit that was observed, or by a stop that was asked for. -/
theorem Flagged.raceWon (h : Flagged s) (hreport : s.report = none) {outcome : RootOutcome}
    (htimeout : timeoutPending (.samples outcome) = false)
    (hstop : ∀ stopRes, outcome = .stop stopRes → s.fired ≠ [])
    (hexit : ∀ res, outcome = .exit res → s.rootExit = some res) : Kept (raceWon outcome s) := by
  by_cases hrace : s.opState.awaiting = .rootOutcome
  · rw [raceWon_of_racing hrace]
    have hracing : racing s.opState.awaiting = true := by
      rw [hrace]
      rfl
    have hstopped : Flagged (s.withSampler fun b => { b with stopped := true }) :=
      h.withSampler id rfl rfl fun _ => hracing
    refine Kept.of_flagged (hstopped.awaitAt nofun ?_ ?_ ?_ ?_ ?_ (fun _ => rfl) rfl) hreport
    · exact (congrArg launching hrace).symm
    · exact htimeout.trans (congrArg timeoutPending hrace).symm
    · intro stopRes heq
      exact hstop stopRes (Awaiting.samples.inj heq)
    · intro res hres
      have hnone : exitFacts? s.opState.awaiting = some res := hres
      rw [hrace] at hnone
      cases hnone
    · intro res hres
      apply Or.inl
      cases outcome with
      | exit => exact hexit res (congrArg RootOutcome.exit (Option.some.inj hres))
      | stop | timeout => cases hres
  · rw [raceWon_of_not_racing hrace]
    exact Kept.of_flagged h hreport

theorem Flagged.rootExited (h : Flagged s) (hreport : s.report = none) (res : ExitFacts) :
    Kept (rootExited res s) := by
  rw [Termination.rootExited]
  split
  · rename_i hfirst
    have hnone : s.rootExit = none :=
      Option.isNone_iff_eq_none.1 (Bool.and_eq_true_iff.1 hfirst).2
    have hobserved : Flagged { s with rootExit := some res } := by
      refine h.same ⟨rfl, rfl, rfl, rfl, rfl, rfl, .inl⟩ id rfl rfl h.stopWon h.peaks ?_ h.sample
        h.ongoing
      intro res' hres'
      rcases h.exit res' hres' with hsome | hsignal
      · rw [hnone] at hsome
        cases hsome
      · exact .inr hsignal
    refine hobserved.raceWon hreport rfl nofun fun res' heq => ?_
    cases heq
    rfl
  · exact Kept.of_flagged h hreport

/-- A race that the timeout wins has seen no trigger before it. -/
theorem Flagged.timeout (h : Flagged s) (hreport : s.report = none)
    (hfree : ∀ reason, Step.timeout.sets s = some reason → Free s reason) : Kept (timeout s) := by
  rw [Termination.timeout.eq_def]
  split
  · rename_i hrace
    split
    · rename_i harmed
      have hfirst : (s.fired ++ [TerminationReason.timedOut]).head? = some .timedOut := by
        have hreason : s.opState.terminationReason = s.fired.head? :=
          h.first (hrace ▸ rfl) (hrace ▸ rfl)
        rw [List.head?_append, ← hreason]
        rcases hfree .timedOut (by rw [Step.sets, hrace]; exact if_pos harmed) with
          hnone | hsame | hpend | hbuilt
        · rw [hnone]
          rfl
        · rw [hsame]
          rfl
        · rw [hrace] at hpend
          cases hpend
        · rw [hreport] at hbuilt
          cases hbuilt
      have hne : s.fired ++ [TerminationReason.timedOut] ≠ [] := by simp
      rw [raceWon_of_racing (s := s.fire .timedOut) hrace]
      refine Kept.of_flagged ?_ hreport
      exact
        { triggers := by
            intro reason hreason
            rcases List.mem_append.1 hreason with hold | hnew
            · exact h.triggers reason hold
            · rw [List.mem_singleton.1 hnew]
              exact .inr rfl
          cancelled := by
            refine h.cancelled.trans ?_
            show _ ↔ _ ∈ s.fired ++ [TerminationReason.timedOut]
            rw [List.mem_append, List.mem_singleton]
            exact (or_iff_left (by decide)).symm
          launch := fun h => Bool.noConfusion h
          recorded := fun _ => hne
          first := fun _ h => Bool.noConfusion h
          pending := fun _ => hfirst
          timed := fun _ => hfirst
          settled := fun _ => .inl rfl
          promise := fun _ => hne
          stopWon := fun _ h => by cases h
          output := h.output
          peaks := fun _ _ _ _ => .inl hne
          exit := fun _ h => by cases h
          sample := fun _ => rfl
          ongoing := rfl }
    · exact Kept.of_flagged h hreport
  · exact Kept.of_flagged h hreport

theorem Flagged.stopConfirmed (h : Flagged s) (hreport : s.report = none)
    (unreapedPids : Option (List Nat)) : Kept (stopConfirmed unreapedPids s) := by
  rw [Termination.stopConfirmed]
  split
  · rename_i hrunning
    have hne : s.fired ≠ [] := by
      apply h.promise
      unfold ActiveOperationState.stopRunning at hrunning
      split at hrunning
      · rename_i hpromise
        rw [hpromise]
        rfl
      · cases hrunning
    have hconfirmed : Flagged (s.update fun a =>
        { a with stopPromise := some (.settled (.ok { confirmedStop with unreapedPids })) }) :=
      h.same ⟨rfl, rfl, rfl, rfl, rfl, rfl, fun _ => .inr hne⟩ id rfl rfl h.stopWon h.peaks h.exit
        h.sample h.ongoing
    exact hconfirmed.raceWon hreport rfl (fun _ _ => hne) nofun
  · exact Kept.of_flagged h hreport

/-! ## The launch -/

theorem head?_of_forall {α : Type} {l : List α} {a : α} (h : ∀ b ∈ l, b = a) (hne : l ≠ []) :
    l.head? = some a := by
  cases l with
  | nil => exact absurd rfl hne
  | cons b => exact congrArg some (h b List.mem_cons_self)

/-- Before there is a process only a cancellation can have come. -/
theorem Flagged.cancelledFirst (h : Flagged s) (hunstarted : unstarted s.opState.awaiting = true)
    (hcancelled : s.opState.cancelRequested = true) : s.fired.head? = some .userCancelled :=
  head?_of_forall (h.launch hunstarted) (List.ne_nil_of_mem (h.cancelled.1 hcancelled))

theorem Flagged.quiet (h : Flagged s) (hunstarted : unstarted s.opState.awaiting = true)
    (hcancelled : s.opState.cancelRequested ≠ true) : s.fired = [] := by
  apply List.eq_nil_iff_forall_not_mem.2
  intro reason hreason
  have huser : reason = .userCancelled := h.launch hunstarted reason hreason
  exact hcancelled (h.cancelled.2 (huser ▸ hreason))

theorem consistent_cancelResult {clock : Clock} (hfirst : s.fired.head? = some .userCancelled) :
    Consistent s { result := cancelResult s.opState clock } where
  succeeded := nofun
  cancelled := iff_of_true rfl rfl
  limited reason hreason hlimit := by
    rw [← Option.some.inj hreason] at hlimit
    cases hlimit
  first _ hreason _ := hfirst.trans hreason

theorem Flagged.granted (h : Flagged s) (hreport : s.report = none) (clock : Clock) :
    Kept (granted clock s) := by
  rw [Termination.granted.eq_def]
  split
  · rename_i hresources
    have hunstarted : unstarted s.opState.awaiting = true := by
      rw [hresources]
      rfl
    split
    · rename_i hcancelled
      have hcons : Consistent s { result := cancelResult s.opState clock } :=
        consistent_cancelResult (h.cancelledFirst hunstarted hcancelled)
      exact kept_record (s := s.update fun a => { a with phase := .done })
        ⟨hcons.succeeded, hcons.cancelled, hcons.limited, hcons.first⟩
        (h.idle (by rw [hresources]; rfl))
    · rename_i hcancelled
      have hquiet : s.fired = [] := h.quiet hunstarted hcancelled
      have hreason : s.opState.terminationReason = none := by
        cases hsome : s.opState.terminationReason with
        | none => rfl
        | some => exact absurd hquiet (h.recorded (by rw [hsome]; rfl))
      have hidle : s.sampler.pending = none := h.idle (by rw [hresources]; rfl)
      refine Kept.of_flagged ?_ hreport
      exact
        { triggers := h.triggers
          cancelled := h.cancelled
          launch := fun _ => h.launch hunstarted
          recorded := h.recorded
          first := fun _ _ => by
            show s.opState.terminationReason = s.fired.head?
            rw [hreason, hquiet]
            rfl
          pending := nofun
          timed := h.timed
          settled := fun hhead => by
            have hempty : s.fired.head? = some .timedOut := hhead
            rw [hquiet] at hempty
            cases hempty
          promise := h.promise
          stopWon := nofun
          output := h.output
          peaks := fun budget hsoft hok hover => by
            rcases h.peaks budget hsoft hok hover with hfired | ⟨res, hres, -⟩
            · exact .inl hfired
            · rw [hresources] at hres
              cases hres
          exit := nofun
          sample := fun hpending => by
            have hsome : s.sampler.pending.isSome = true := hpending
            rw [hidle] at hsome
            cases hsome
          ongoing := rfl }
  · exact Kept.of_flagged h hreport

theorem Flagged.spawnFailed (h : Flagged s) (hreport : s.report = none) (message : String)
    (clock : Clock) : Kept (spawnFailed message clock s) := by
  rw [Termination.spawnFailed.eq_def]
  split
  · rename_i hspawn
    exact kept_record (consistent_plain nofun nofun rfl) (h.idle (by rw [hspawn]; rfl))
  · exact Kept.of_flagged h hreport

/-- Asking for a stop for the reason that is recorded. -/
theorem Flagged.piped {s' : Supervised} (h : Flagged s) (hpiped : Piped s s') (hne : s.fired ≠ []) :
    Flagged s' := by
  have hsame : SameFlags s s' := ⟨hpiped.fired, hpiped.cancelRequested, hpiped.timedOut,
    hpiped.terminationReason, hpiped.options, hpiped.totalOutputBytes, fun _ => .inr hne⟩
  refine h.same hsame ?_ ?_ ?_ ?_ (fun _ _ _ _ => .inl ?_) ?_ ?_ ?_
  · rw [hpiped.awaiting]
    exact id
  · rw [hpiped.awaiting]
  · rw [hpiped.awaiting]
  · rw [hpiped.awaiting]
    exact h.stopWon
  · rw [hpiped.fired]
    exact hne
  · unfold ExitAccounted
    rw [hpiped.awaiting, hpiped.rootExit]
    exact h.exit
  · rw [hpiped.awaiting, hpiped.sampler]
    exact h.sample
  · rw [hpiped.awaiting]
    exact h.ongoing

theorem Flagged.spawned (h : Flagged s) (hreport : s.report = none) (identity : ProcessIdentity) :
    Kept (spawned identity s) := by
  rw [Termination.spawned.eq_def]
  split
  · rename_i hspawn
    have hunstarted : unstarted s.opState.awaiting = true := by
      rw [hspawn]
      rfl
    have hactive : Flagged (s.update fun a => { a with handle := some identity, phase := .active }) :=
      h.same ⟨rfl, rfl, rfl, rfl, rfl, rfl, .inl⟩ id rfl rfl h.stopWon h.peaks h.exit h.sample
        h.ongoing
    -- the monitor waits for the root, whether it is being stopped or not
    have hwaits : ∀ s' : Supervised, Flagged s' → s'.opState.awaiting = .spawn → s'.report = none →
        Kept (s'.awaitAt .rootOutcome) := by
      intro s' h' hspawn' hreport'
      refine Kept.of_flagged (h'.awaitAt nofun ?_ ?_ nofun ?_ nofun (fun _ => rfl) rfl) hreport'
      · rw [hspawn']
        rfl
      · rw [hspawn']
        rfl
      · intro res hres
        rw [hspawn'] at hres
        cases hres
    simp only
    split
    · rename_i hcancelled
      have hcancelled' : s.opState.cancelRequested = true := hcancelled
      have hfirst := h.cancelledFirst hunstarted hcancelled'
      have hreason : s.opState.terminationReason = some .userCancelled :=
        (h.first (by rw [hspawn]; rfl) (by rw [hspawn]; rfl)).trans hfirst
      have hpiped := piped_handleStopPipeline
        (s := s.update fun a => { a with handle := some identity, phase := .active })
        hreason fun _ => hcancelled'
      refine hwaits _ (hactive.piped hpiped ?_) (hpiped.awaiting.trans hspawn)
        (hpiped.report.trans hreport)
      exact List.ne_nil_of_mem (h.cancelled.1 hcancelled')
    · exact hwaits _ hactive hspawn hreport
  · exact Kept.of_flagged h hreport

/-! ## The monitor -/

/-- The rest of `settle` takes one more sample, or fails at it. -/
theorem settleSampler_cases (sampling : Bool) (answer : Option ProcessMetrics)
    (b : BudgetSampler) :
    (∃ metrics, answer = some metrics ∧ sampling = true ∧ b.failed = false ∧
      settleSampler sampling answer b = b.observe metrics) ∨
    ∃ failed, settleSampler sampling answer b = { b with failed } ∧
      (failed = false → b.failed = false) := by
  unfold settleSampler
  split
  · rename_i htaken
    obtain ⟨hok, hsampling⟩ := Bool.and_eq_true_iff.1 htaken
    rw [Bool.not_eq_true'] at hok
    split
    · rename_i metrics
      split
      · exact .inl ⟨metrics, rfl, hsampling, hok, rfl⟩
      · exact .inr ⟨b.failed, rfl, id⟩
    · exact .inr ⟨!b.observed, rfl, fun _ => hok⟩
  · exact .inr ⟨b.failed, rfl, id⟩

theorem settleSampler_pending (sampling : Bool) (answer : Option ProcessMetrics)
    (b : BudgetSampler) : (settleSampler sampling answer b).pending = b.pending := by
  rcases settleSampler_cases sampling answer b with ⟨metrics, -, -, -, heq⟩ | ⟨failed, heq, -⟩
  · rw [heq]
    rfl
  · rw [heq]

variable {answer : Option ProcessMetrics} {exit : ExitFacts} {l : Step}

/-- The last sample is accounted for, where a success does not hang on it. -/
theorem Flagged.peaks_settle (h : Flagged s) {res : ExitFacts}
    (hexit : s.opState.awaiting = .samples (.exit res))
    (hfinal : ∀ metrics, answer = some metrics → FinalWithin s metrics) :
    PeaksAccounted (s.withSampler (settleSampler s.sampling answer)) := by
  -- a sample that is taken makes a difference to a success alone
  have hobserved : ∀ metrics, answer = some metrics → s.sampling = true → s.sampler.failed = false →
      PeaksAccounted (s.withSampler (BudgetSampler.observe metrics)) := by
    intro metrics hanswer hsampling hok
    by_cases hcode : res.exitCode = some 0
    · by_cases hreason : s.opState.terminationReason = none
      · apply h.peaks_observe
        intro budget hsoft
        exact hfinal metrics hanswer res budget hexit hcode hreason hsoft hsampling hok
      · intro _ _ _ _
        exact .inl (h.recorded (Option.isSome_iff_ne_none.2 hreason))
    · intro _ _ _ _
      exact .inr ⟨res, congrArg exitFacts? hexit, hcode⟩
  rcases settleSampler_cases s.sampling answer s.sampler with
    ⟨metrics, hanswer, hsampling, hok, heq⟩ | ⟨failed, heq, hok⟩
  · have hstate : s.withSampler (settleSampler s.sampling answer) =
        s.withSampler (BudgetSampler.observe metrics) := by
      unfold Supervised.withSampler
      rw [heq]
    rw [hstate]
    exact hobserved metrics hanswer hsampling hok
  · have hstate : s.withSampler (settleSampler s.sampling answer) =
        s.withSampler fun b => { b with failed } := by
      unfold Supervised.withSampler
      rw [heq]
    rw [hstate]
    exact h.peaks.same ⟨rfl, rfl, rfl, rfl, rfl, rfl, .inl⟩ hok rfl rfl fun _ => id

theorem Flagged.settleExit (h : Flagged s) (hreport : s.report = none) {res : ExitFacts}
    (hexit : s.opState.awaiting = .samples (.exit res)) (hpending : s.sampler.pending = none)
    (hfinal : ∀ metrics, answer = some metrics → FinalWithin s metrics) :
    Kept ((s.withSampler (settleSampler s.sampling answer)).awaitAt (.drain res true)) := by
  have hpeaks := h.peaks_settle hexit hfinal
  have hnone : (settleSampler s.sampling answer s.sampler).pending = none :=
    (settleSampler_pending _ _ _).trans hpending
  refine Kept.of_flagged (h.same ⟨rfl, rfl, rfl, rfl, rfl, rfl, .inl⟩ nofun ?_ ?_ nofun ?_ ?_ ?_ rfl)
    hreport
  · rw [hexit]
    rfl
  · rw [hexit]
    rfl
  · intro budget hsoft hok hover
    rcases hpeaks budget hsoft hok hover with hfired | ⟨res', hres', hcode⟩
    · exact .inl hfired
    · have hsome : exitFacts? s.opState.awaiting = some res' := hres'
      rw [hexit] at hsome
      exact .inr ⟨res', hsome, hcode⟩
  · intro res' hres'
    apply h.exit res'
    rw [hexit]
    exact hres'
  · intro hsome
    have hsome' : (settleSampler s.sampling answer s.sampler).pending.isSome = true := hsome
    rw [hnone] at hsome'
    cases hsome'

/-- The stop has won the race, and the exit is waited for. -/
theorem Flagged.settleStop (h : Flagged s) (hreport : s.report = none)
    {stopRes : StopProcessResult} (hstop : s.opState.awaiting = .samples (.stop stopRes))
    (hpending : s.sampler.pending = none) :
    Kept ((s.withSampler (settleSampler s.sampling answer)).awaitAt (.rootExit stopRes false)) := by
  have hnone : (settleSampler s.sampling answer s.sampler).pending = none :=
    (settleSampler_pending _ _ _).trans hpending
  refine Kept.of_flagged (h.same ⟨rfl, rfl, rfl, rfl, rfl, rfl, .inl⟩ nofun ?_ ?_ nofun
    (fun _ _ _ _ => .inl (h.stopWon stopRes hstop)) nofun ?_ rfl) hreport
  · rw [hstop]
    rfl
  · rw [hstop]
    rfl
  · intro hsome
    have hsome' : (settleSampler s.sampling answer s.sampler).pending.isSome = true := hsome
    rw [hnone] at hsome'
    cases hsome'

/-- The timeout has won the race, and is written now. -/
theorem Flagged.settleTimeout (h : Flagged s) (hreport : s.report = none)
    (htimeout : s.opState.awaiting = .samples .timeout) (hpending : s.sampler.pending = none) :
    Kept (settleRootOutcome .timeout (s.withSampler (settleSampler s.sampling answer))) := by
  have hfirst : s.fired.head? = some .timedOut := h.pending (by rw [htimeout]; rfl)
  have hne : s.fired ≠ [] := by
    intro hempty
    rw [hempty] at hfirst
    cases hfirst
  have hnone : (settleSampler s.sampling answer s.sampler).pending = none :=
    (settleSampler_pending _ _ _).trans hpending
  have hpiped := piped_handleStopPipeline (r := .timedOut)
    (s := (s.withSampler (settleSampler s.sampling answer)).update fun a =>
      { a with timedOut := true, terminationReason := some .timedOut }) rfl nofun
  have hfired : (settleRootOutcome .timeout
      (s.withSampler (settleSampler s.sampling answer))).fired = s.fired := hpiped.fired
  have hreason : (settleRootOutcome .timeout
      (s.withSampler (settleSampler s.sampling answer))).opState.terminationReason =
        some .timedOut := hpiped.terminationReason
  refine Kept.of_flagged ?_ (hpiped.report.trans hreport)
  exact
    { triggers := hfired ▸ h.triggers
      cancelled := by
        rw [hfired]
        exact (iff_of_eq (congrArg (· = true) hpiped.cancelRequested)).trans h.cancelled
      launch := nofun
      recorded := fun _ => hfired ▸ hne
      first := fun _ _ => by rw [hreason, hfired, hfirst]
      pending := nofun
      timed := fun _ => by rw [hfired, hfirst]
      settled := fun _ => .inr hpiped.timedOut
      promise := fun _ => hfired ▸ hne
      stopWon := nofun
      output := fun _ _ _ => by rw [hreason]; rfl
      peaks := fun _ _ _ _ => .inl (hfired ▸ hne)
      exit := nofun
      sample := fun hsome => by
        have hsampler : (settleRootOutcome .timeout
            (s.withSampler (settleSampler s.sampling answer))).sampler =
              settleSampler s.sampling answer s.sampler := hpiped.sampler
        rw [hsampler, hnone] at hsome
        cases hsome
      ongoing := rfl }

theorem Flagged.samplesSettled (h : Flagged s) (hreport : s.report = none)
    (hfinal : ∀ metrics, answer = some metrics → FinalWithin s metrics) :
    Kept (samplesSettled answer s) := by
  rw [Termination.samplesSettled.eq_def]
  split
  · rename_i outcome hsamples
    split
    · rename_i hidle
      have hpending : s.sampler.pending = none := Option.isNone_iff_eq_none.1 hidle
      cases outcome with
      | exit => exact h.settleExit hreport hsamples hpending hfinal
      | stop => exact h.settleStop hreport hsamples hpending
      | timeout => exact h.settleTimeout hreport hsamples hpending
    · exact Kept.of_flagged h hreport
  · exact Kept.of_flagged h hreport

/-- Past the race the call goes on to wait elsewhere. -/
theorem Flagged.next (h : Flagged s) (hreport : s.report = none) {awaiting : Awaiting}
    (hracing : racing s.opState.awaiting = false) (hsame : unstarted s.opState.awaiting = false)
    (hlater : racing awaiting = false) (hstarted : unstarted awaiting = false)
    (hongoing : ending awaiting = false)
    (hkeeps : ∀ res, exitFacts? s.opState.awaiting = some res → exitFacts? awaiting = some res)
    (hexit : ∀ res, exitFacts? awaiting = some res → s.rootExit = some res ∨ res.exitCode = none) :
    Kept (s.awaitAt awaiting) := by
  have hlaunching : ∀ {a : Awaiting}, unstarted a = false → launching a = false := by
    intro a ha
    cases a <;> first | rfl | cases ha
  have htimeout : ∀ {a : Awaiting}, racing a = false → timeoutPending a = false := by
    intro a ha
    cases a <;> first | rfl | cases ha
  refine Kept.of_flagged (h.awaitAt ?_ ?_ ?_ ?_ hkeeps hexit ?_ hongoing) hreport
  · intro hun
    rw [hstarted] at hun
    cases hun
  · rw [hlaunching hstarted, hlaunching hsame]
  · rw [htimeout hlater, htimeout hracing]
  · rintro stopRes rfl
    cases hlater
  · intro hsome
    rw [h.idle hracing] at hsome
    cases hsome

theorem Flagged.timeoutStopped (h : Flagged s) (hreport : s.report = none) :
    Kept (timeoutStopped s) := by
  rw [Termination.timeoutStopped.eq_def]
  split
  · rename_i hstop _
    refine h.next hreport ?_ ?_ rfl rfl rfl (fun res hres => ?_) nofun
    · rw [hstop]
      rfl
    · rw [hstop]
      rfl
    · rw [hstop] at hres
      cases hres
  · exact Kept.of_flagged h hreport

theorem Flagged.recordIndeterminate (h : Flagged s) (reason : String) (clock : Clock)
    (hracing : racing s.opState.awaiting = false) : Kept (recordIndeterminate reason clock s) :=
  kept_record (consistent_plain nofun nofun rfl) (h.idle hracing)

theorem Flagged.rootExitKnown (h : Flagged s) (hreport : s.report = none) (clock : Clock) :
    Kept (rootExitKnown clock s) := by
  rw [Termination.rootExitKnown.eq_def]
  split
  · rename_i stopRes timedOut hwait
    have hracing : racing s.opState.awaiting = false := by
      rw [hwait]
      rfl
    split
    · exact h.recordIndeterminate _ clock hracing
    · refine h.next hreport hracing ?_ rfl rfl rfl (fun res hres => ?_) fun res hres => ?_
      · rw [hwait]
        rfl
      · rw [hwait] at hres
        cases hres
      · -- without an exit the root was killed
        rw [← Option.some.inj hres]
        cases s.rootExit with
        | none => exact .inr rfl
        | some => exact .inl rfl
  · exact Kept.of_flagged h hreport

theorem Flagged.drained (h : Flagged s) (hreport : s.report = none) (held : Option String)
    (clock : Clock) : Kept (drained held clock s) := by
  rw [Termination.drained.eq_def]
  split
  · rename_i exit exitedNaturally hdrain
    have hracing : racing s.opState.awaiting = false := by
      rw [hdrain]
      rfl
    have hknown : ∀ res, exitFacts? s.opState.awaiting = some res ↔ exit = res := by
      intro res
      rw [hdrain]
      exact ⟨Option.some.inj, congrArg some⟩
    split
    · exact h.recordIndeterminate _ clock hracing
    · have hun : unstarted s.opState.awaiting = false := by
        rw [hdrain]
        rfl
      split
      · exact h.next hreport hracing hun rfl rfl rfl (fun res hres => congrArg some ((hknown res).1 hres))
          fun res hres => h.exit res ((hknown res).2 (Option.some.inj hres))
      · exact h.next hreport hracing hun rfl rfl rfl (fun res hres => congrArg some ((hknown res).1 hres))
          fun res hres => h.exit res ((hknown res).2 (Option.some.inj hres))
  · exact Kept.of_flagged h hreport

theorem Flagged.limitHitsRead (h : Flagged s) (hreport : s.report = none)
    {hits : Option LimitEvents}
    (hfree : ∀ reason, (Step.limitHitsRead hits).sets s = some reason → Free s reason) :
    Kept (limitHitsRead hits s) := by
  rw [Termination.limitHitsRead.eq_def]
  split
  · rename_i exit hwait
    have hidle : s.sampler.pending = none := h.idle (by rw [hwait]; rfl)
    -- whatever was hit, the call waits for the identity of the process
    have hgoes : ∀ s' : Supervised, Flagged s' → s'.opState.awaiting = .limitHits exit →
        s'.report = none → Kept (s'.awaitAt (.identity exit)) := by
      intro s' h' hwait' hreport'
      have hknown : ∀ res, exitFacts? s'.opState.awaiting = some res ↔ exit = res := by
        intro res
        rw [hwait']
        exact ⟨Option.some.inj, congrArg some⟩
      refine h'.next hreport' ?_ ?_ rfl rfl rfl (fun res hres => congrArg some ((hknown res).1 hres))
        fun res hres => h'.exit res ((hknown res).2 (Option.some.inj hres))
      · rw [hwait']
        rfl
      · rw [hwait']
        rfl
    split
    · rename_i reason hhit
      obtain ⟨hlimit, hnot⟩ := kind_of_limitHit hhit
      have hother : reason ≠ .userCancelled := by
        rintro rfl
        cases hlimit
      have hsets : (Step.limitHitsRead hits).sets s = some reason := by
        rw [Step.sets, hwait]
        exact hhit
      refine hgoes _ (h.triggered (t := (s.fire reason).update fun a =>
        { a with terminationReason := some reason }) ⟨rfl, (or_iff_left hother).symm, rfl, .inl rfl,
          rfl, rfl, rfl⟩ hreport (fun _ => hfree reason hsets) (.inr hlimit) hnot (fun hun => ?_)
          fun hsome => ?_) hwait hreport
      · rw [hwait] at hun
        cases hun
      · have hsome' : s.sampler.pending.isSome = true := hsome
        rw [hidle] at hsome'
        cases hsome'
    · exact hgoes s h hwait hreport
  · exact Kept.of_flagged h hreport

/-! ## The result -/

/-- Whose stop it was, by the first trigger. -/
theorem Flagged.resourceOrTimeoutStopped_iff (h : Flagged s)
    (hlaunched : launching s.opState.awaiting = false)
    (hacted : timeoutPending s.opState.awaiting = false) :
    resourceOrTimeoutStopped s.opState = true ↔
      ∃ reason, s.fired.head? = some reason ∧ limitReason reason = true := by
  have hreason : s.opState.terminationReason = s.fired.head? := h.first hlaunched hacted
  unfold resourceOrTimeoutStopped
  rw [hreason, Bool.or_eq_true]
  constructor
  · rintro (htimed | hlimit)
    · exact ⟨.timedOut, h.timed htimed, rfl⟩
    · cases hhead : s.fired.head? with
      | none =>
        rw [hhead] at hlimit
        cases hlimit
      | some reason =>
        rw [hhead] at hlimit
        refine ⟨reason, rfl, ?_⟩
        cases reason <;> first | rfl | cases hlimit
  · rintro ⟨reason, hhead, hlimit⟩
    by_cases htimed : reason = .timedOut
    · have hpast := h.settled (htimed ▸ hhead)
      rw [hacted] at hpast
      exact .inl (hpast.resolve_left Bool.false_ne_true)
    · refine .inr ?_
      rw [hhead]
      cases reason <;> first | rfl | exact absurd rfl htimed | cases hlimit

/-- The status and the reason, by the first trigger. -/
inductive Verdict (s : Supervised) (exit : ExitFacts) (result : ProcessOperationResult) : Prop where
  | untouched (quiet : s.fired = [])
      (status : result.status = if exit.exitCode = some 0 then .succeeded else .failed)
      (reason : ∀ reason, result.terminationReason = some reason → reason = .completed)
  | stopped (reason : TerminationReason) (first : s.fired.head? = some reason)
      (limit : limitReason reason = true) (status : result.status = .failed)
      (recorded : result.terminationReason = some reason)
  | cancelled (first : s.fired.head? = some .userCancelled) (status : result.status = .cancelled)
      (recorded : result.terminationReason = some .userCancelled)

theorem Flagged.verdict (h : Flagged s) (hwait : s.opState.awaiting = .identity exit)
    (identityVerification : IdentityVerificationResult) (measured : Measured) (clock : Clock) :
    Verdict s exit (buildProcessResult s.opState exit identityVerification measured clock) := by
  have hlaunched : launching s.opState.awaiting = false := by
    rw [hwait]
    rfl
  have hacted : timeoutPending s.opState.awaiting = false := by
    rw [hwait]
    rfl
  have hreason : s.opState.terminationReason = s.fired.head? := h.first hlaunched hacted
  have hstopped := h.resourceOrTimeoutStopped_iff hlaunched hacted
  cases hfired : s.fired with
  | nil =>
    rw [hfired] at hstopped hreason
    have hnot : resourceOrTimeoutStopped s.opState ≠ true := by
      intro hs
      obtain ⟨reason, hhead, -⟩ := hstopped.1 hs
      cases hhead
    have huncancelled : s.opState.cancelRequested ≠ true := by
      intro hc
      have hmem := h.cancelled.1 hc
      rw [hfired] at hmem
      cases hmem
    refine .untouched hfired ?_ fun reason hsome => ?_
    · show finalStatus s.opState exit = _
      rw [finalStatus, if_neg hnot, if_neg huncancelled]
    · have hor : s.opState.terminationReason.or (if finalStatus s.opState exit = .succeeded then
          some .completed else none) = some reason := hsome
      rw [hreason] at hor
      have hcompleted : (if finalStatus s.opState exit = .succeeded then
          some TerminationReason.completed else none) = some reason := hor
      split at hcompleted
      · exact (Option.some.inj hcompleted).symm
      · cases hcompleted
  | cons reason =>
    have hhead : s.fired.head? = some reason := by
      rw [hfired]
      rfl
    have hrecorded : s.opState.terminationReason.or (if finalStatus s.opState exit = .succeeded then
        some .completed else none) = some reason := by
      rw [hreason, hhead]
      rfl
    rcases h.triggers reason (hfired ▸ List.mem_cons_self) with huser | hlimit
    · subst huser
      have hnot : resourceOrTimeoutStopped s.opState ≠ true := by
        intro hs
        obtain ⟨reason, hfirst, hlimit⟩ := hstopped.1 hs
        rw [hhead] at hfirst
        rw [← Option.some.inj hfirst] at hlimit
        cases hlimit
      have hcancelled : s.opState.cancelRequested = true :=
        h.cancelled.2 (hfired ▸ List.mem_cons_self)
      refine .cancelled hhead ?_ hrecorded
      show finalStatus s.opState exit = _
      rw [finalStatus, if_neg hnot, if_pos hcancelled]
    · refine .stopped reason hhead hlimit ?_ hrecorded
      show finalStatus s.opState exit = _
      rw [finalStatus, if_pos (hstopped.2 ⟨reason, hhead, hlimit⟩)]

/-- What is reported of an operation that nothing has touched is within the soft budget. -/
theorem Flagged.withinSoft (h : Flagged s) (hwait : s.opState.awaiting = .identity exit)
    (hquiet : s.fired = []) (hcode : exit.exitCode = some 0) {report : Report}
    (hmemory : report.peakMemoryBytes = s.sampler.reported s.sampler.peakMemoryBytes)
    (hcpu : report.cpuTimeMs = s.sampler.reported s.sampler.peakCpuTimeMs)
    (houtput : report.outputBytes = s.totalOutputBytes) : WithinSoft s report := by
  intro budget hsoft
  have hpeaks : s.sampler.failed = false →
      ¬ (exceeds budget.maxMemoryBytes s.sampler.peakMemoryBytes = true ∨
        exceeds budget.maxCpuTimeMs s.sampler.peakCpuTimeMs = true) := by
    intro hok hover
    rcases h.peaks budget hsoft hok hover with hfired | ⟨res, hres, hfailed⟩
    · exact hfired hquiet
    · rw [hwait] at hres
      rw [← Option.some.inj hres] at hfailed
      exact hfailed hcode
  have hreported : ∀ {peak value : Nat}, s.sampler.reported peak = some value →
      s.sampler.failed = false ∧ peak = value := by
    intro peak value hsome
    unfold BudgetSampler.reported at hsome
    split at hsome
    · rename_i hseen
      have hok := (Bool.and_eq_true_iff.1 hseen).2
      rw [Bool.not_eq_true'] at hok
      exact ⟨hok, Option.some.inj hsome⟩
    · cases hsome
  refine ⟨fun peak hpeak => ?_, fun peak hpeak => ?_, ?_⟩
  · rw [hmemory] at hpeak
    obtain ⟨hok, rfl⟩ := hreported hpeak
    exact Bool.eq_false_iff.2 fun hover => hpeaks hok (.inl hover)
  · rw [hcpu] at hpeak
    obtain ⟨hok, rfl⟩ := hreported hpeak
    exact Bool.eq_false_iff.2 fun hover => hpeaks hok (.inr hover)
  · rw [houtput]
    exact Bool.eq_false_iff.2 fun hover => h.recorded (h.output budget hsoft hover) hquiet

theorem Flagged.consistent (h : Flagged s) (hwait : s.opState.awaiting = .identity exit)
    {result : ProcessOperationResult} (hverdict : Verdict s exit result) {report : Report}
    (hresult : report.result = .process result)
    (hmemory : report.peakMemoryBytes = s.sampler.reported s.sampler.peakMemoryBytes)
    (hcpu : report.cpuTimeMs = s.sampler.reported s.sampler.peakCpuTimeMs)
    (houtput : report.outputBytes = s.totalOutputBytes) : Consistent s report := by
  have hstatus : report.result.status = result.status.toResultStatus := by
    rw [hresult]
    rfl
  have hreason : report.result.terminationReason = result.terminationReason := by
    rw [hresult]
    rfl
  cases hverdict with
  | untouched hquiet hs hr =>
    refine ⟨fun hsucceeded => ?_, ?_, fun reason hsome hlimit => ?_, fun reason hsome hnot => ?_⟩
    · have hcode : exit.exitCode = some 0 := by
        by_contra hne
        rw [hstatus, hs, if_neg hne] at hsucceeded
        cases hsucceeded
      refine ⟨⟨exit, ?_, hcode⟩, hquiet, h.withinSoft hwait hquiet hcode hmemory hcpu houtput⟩
      refine (h.exit exit (by rw [hwait]; rfl)).resolve_right fun hnone => ?_
      rw [hnone] at hcode
      cases hcode
    · rw [hstatus, hreason, hs]
      refine iff_of_false ?_ fun hsome => ?_
      · split <;> nofun
      · cases hr _ hsome
    · rw [hreason] at hsome
      rw [hr reason hsome] at hlimit
      cases hlimit
    · rw [hreason] at hsome
      exact absurd (hr reason hsome) hnot
  | stopped reason hfirst hlimit hs hr =>
    rw [← hr, ← hreason] at hfirst
    refine ⟨fun hsucceeded => ?_, ?_, fun reason' hsome _ => ⟨?_, ?_⟩, fun reason' hsome _ => ?_⟩
    · rw [hstatus, hs] at hsucceeded
      cases hsucceeded
    · rw [hstatus, hs, hreason, hr]
      refine iff_of_false nofun fun heq => ?_
      rw [Option.some.inj heq] at hlimit
      cases hlimit
    · rw [hsome] at hfirst
      exact List.mem_of_head? hfirst
    · rw [hstatus, hs]
      rfl
    · exact hfirst.trans hsome
  | cancelled hfirst hs hr =>
    rw [← hr, ← hreason] at hfirst
    refine ⟨fun hsucceeded => ?_, ?_, fun reason' hsome hlimit => ?_, fun reason' hsome _ => ?_⟩
    · rw [hstatus, hs] at hsucceeded
      cases hsucceeded
    · rw [hstatus, hs, hreason, hr]
      exact iff_of_true rfl rfl
    · rw [hreason, hr] at hsome
      rw [← Option.some.inj hsome] at hlimit
      cases hlimit
    · exact hfirst.trans hsome

theorem Flagged.identityAnswered (h : Flagged s) (hreport : s.report = none)
    (identityVerification : IdentityVerificationResult) (measured : Measured) (clock : Clock) :
    Kept (identityAnswered identityVerification measured clock s) := by
  rw [Termination.identityAnswered.eq_def]
  split
  · rename_i exit hwait
    have hcons : Consistent s {
        result := .process (buildProcessResult s.opState exit identityVerification measured clock)
        peakMemoryBytes := s.sampler.reported s.sampler.peakMemoryBytes
        cpuTimeMs := s.sampler.reported s.sampler.peakCpuTimeMs
        outputBytes := s.totalOutputBytes } :=
      h.consistent hwait (h.verdict hwait identityVerification measured clock) rfl rfl rfl rfl
    have hidle : s.sampler.pending = none := h.idle (by rw [hwait]; rfl)
    simp only
    split
    · -- the operation was stopped, so it has not succeeded
      rename_i hpromise
      refine ⟨nofun, fun report hsome => ?_⟩
      cases hsome
      refine ⟨⟨hcons.succeeded, hcons.cancelled, hcons.limited, hcons.first⟩, rfl, hidle,
        fun hsucceeded => ?_, fun result collects heq => ?_⟩
      · exact absurd (hcons.succeeded hsucceeded).2.1 (h.promise hpromise)
      · cases heq
        rfl
    · exact kept_record hcons hidle
  · exact Kept.of_flagged h hreport

/-! ## After the result is built -/

/-- The steps that still do something once the result is built. -/
def Step.late : Step → Bool
  | .cancelOperation | .rootExited _ | .stopConfirmed _ | .stopResultKnown => true
  | _ => false

theorem after_of_ending (hending : ending s.opState.awaiting = true)
    (hidle : s.sampler.pending = none) (hlate : l.late = false) : l.after s = s := by
  have hwaits : (∃ result collects, s.opState.awaiting = .stopResult result collects) ∨
      ∃ outcome, s.opState.awaiting = .supervised outcome := by
    cases hawaiting : s.opState.awaiting <;> rw [hawaiting] at hending <;>
      first | exact .inl ⟨_, _, rfl⟩ | exact .inr ⟨_, rfl⟩ | cases hending
  cases l with
  | cancelOperation | rootExited _ | stopConfirmed _ | stopResultKnown => cases hlate
  | onChunk =>
    rw [Step.after, onChunk, if_neg]
    rcases hwaits with ⟨_, _, h⟩ | ⟨_, h⟩ <;> rw [h] <;> exact Bool.false_ne_true
  | metricsAnswered =>
    rw [Step.after, metricsAnswered, hidle]
    exact if_neg (Option.some_ne_none _).symm
  | limitEventsAnswered =>
    rw [Step.after, limitEventsAnswered, hidle]
    exact if_neg (Option.some_ne_none _).symm
  | sampleFailed =>
    rw [Step.after, sampleFailed, hidle]
    exact if_neg (not_or.2 ⟨(Option.some_ne_none _).symm, (Option.some_ne_none _).symm⟩)
  | sampleStopped => rw [Step.after, sampleStopped.eq_def, hidle]
  | tick | timeout | granted | spawnFailed | spawned | samplesSettled | timeoutStopped
  | rootExitKnown | drained | limitHitsRead | identityAnswered =>
    -- none of these is what the operation waits for now
    rcases hwaits with ⟨_, _, h⟩ | ⟨_, h⟩ <;>
      simp only [Step.after, tick.eq_def, timeout.eq_def, granted.eq_def, spawnFailed.eq_def,
        spawned.eq_def, samplesSettled.eq_def, timeoutStopped.eq_def, rootExitKnown.eq_def,
        drained.eq_def, limitHitsRead.eq_def, identityAnswered.eq_def, h]

variable {report : Report}

theorem Kept.of_reported (h : Reported s report) (hreport : s.report = some report) : Kept s := by
  refine ⟨fun hnone => ?_, fun report' hsome => ?_⟩
  · rw [hreport] at hnone
    cases hnone
  · rw [hreport] at hsome
    exact Option.some.inj hsome ▸ h

theorem not_racing_of_ending (h : ending s.opState.awaiting = true) :
    s.opState.awaiting ≠ .rootOutcome := by
  intro heq
  rw [heq] at h
  cases h

/-- A cancellation that comes while the stop is waited for changes the triggers alone. -/
theorem Reported.cancel (h : Reported s report) (hreport : s.report = some report) :
    Kept (cancelOperation s) := by
  cases hended : ended s.opState.awaiting with
  | true =>
    rw [Termination.cancelOperation, if_pos hended]
    exact Kept.of_reported h hreport
  | false =>
    obtain ⟨ht, hsampler, hsame⟩ := triggered_cancelOperation hended
    have hnot : report.result.status ≠ .succeeded := by
      intro hsucceeded
      rw [h.settled hsucceeded] at hended
      cases hended
    refine Kept.of_reported ?_ (hsame.trans hreport)
    refine ⟨⟨fun hsucceeded => absurd hsucceeded hnot, h.cancelled, fun reason hsome hlimit => ?_,
      fun reason hsome hother => ?_⟩, ?_, ?_, fun hsucceeded => absurd hsucceeded hnot, ?_⟩
    · obtain ⟨hmem, hfailed⟩ := h.limited reason hsome hlimit
      rw [ht.fired]
      exact ⟨List.mem_append_left _ hmem, hfailed⟩
    · rw [ht.fired]
      exact head?_append_some (h.first reason hsome hother)
    · rw [ht.awaiting]
      exact h.ending
    · rw [hsampler]
      exact h.idle
    · rw [ht.awaiting]
      exact h.awaited

theorem Reported.rootExited (h : Reported s report) (hreport : s.report = some report)
    (res : ExitFacts) : Kept (rootExited res s) := by
  rw [Termination.rootExited]
  split
  · rename_i hfirst
    have hnone : s.rootExit = none :=
      Option.isNone_iff_eq_none.1 (Bool.and_eq_true_iff.1 hfirst).2
    rw [raceWon_of_not_racing (s := { s with rootExit := some res }) (not_racing_of_ending h.ending)]
    refine Kept.of_reported ?_ hreport
    refine ⟨⟨fun hsucceeded => ?_, h.cancelled, h.limited, h.first⟩, h.ending, h.idle, h.settled,
      h.awaited⟩
    obtain ⟨⟨res', hsome, -⟩, -⟩ := h.succeeded hsucceeded
    rw [hnone] at hsome
    cases hsome
  · exact Kept.of_reported h hreport

theorem Reported.stopConfirmed (h : Reported s report) (hreport : s.report = some report)
    (unreapedPids : Option (List Nat)) : Kept (stopConfirmed unreapedPids s) := by
  rw [Termination.stopConfirmed]
  split
  · rw [raceWon_of_not_racing (s := s.update fun a =>
      { a with stopPromise := some (.settled (.ok { confirmedStop with unreapedPids })) })
      (not_racing_of_ending h.ending)]
    exact Kept.of_reported ⟨⟨h.succeeded, h.cancelled, h.limited, h.first⟩,
      h.ending, h.idle, h.settled, h.awaited⟩ hreport
  · exact Kept.of_reported h hreport

/-- What is recorded is what was built, with the processes that the stop has left. -/
theorem Reported.stopResultKnown (h : Reported s report) (hreport : s.report = some report) :
    Kept (stopResultKnown s) := by
  rw [Termination.stopResultKnown.eq_def]
  split
  · rename_i result collects stopRes report' hwait _ hsome
    rw [hreport] at hsome
    cases hsome
    have hresult : report.result = .process result := h.awaited result collects hwait
    have hstatus : report.result.status = result.status.toResultStatus := by
      rw [hresult]
      rfl
    have hreason : report.result.terminationReason = result.terminationReason := by
      rw [hresult]
      rfl
    refine kept_record ⟨fun hsucceeded => ?_, ?_, fun reason => ?_, fun reason => ?_⟩ h.idle
    · exact h.succeeded (hstatus.trans hsucceeded)
    · show result.status.toResultStatus = .cancelled ↔ result.terminationReason = some .userCancelled
      rw [← hstatus, ← hreason]
      exact h.cancelled
    · show result.terminationReason = some reason → limitReason reason = true →
        reason ∈ s.fired ∧ result.status.toResultStatus = .failed
      rw [← hstatus, ← hreason]
      exact h.limited reason
    · show result.terminationReason = some reason → reason ≠ .completed →
        s.fired.head? = some reason
      rw [← hreason]
      exact h.first reason
  · exact Kept.of_reported h hreport

theorem Reported.after (h : Reported s report) (hreport : s.report = some report) (l : Step) :
    Kept (l.after s) := by
  cases hlate : l.late with
  | false =>
    rw [after_of_ending h.ending h.idle hlate]
    exact Kept.of_reported h hreport
  | true =>
    cases l with
    | cancelOperation => exact h.cancel hreport
    | rootExited res => exact h.rootExited hreport res
    | stopConfirmed unreapedPids => exact h.stopConfirmed hreport unreapedPids
    | stopResultKnown => exact h.stopResultKnown hreport
    | _ => cases hlate

/-! ## Runs -/

theorem Flagged.after (h : Flagged s) (hreport : s.report = none) (hl : Orderly s l) :
    Kept (l.after s) := by
  cases l with
  | cancelOperation => exact h.cancel hreport (hl.free _ rfl)
  | onChunk bytes => exact h.onChunk hreport bytes
  | tick => exact h.tick hreport
  | metricsAnswered => exact h.metricsAnswered hreport hl.free
  | limitEventsAnswered => exact h.limitEventsAnswered hreport hl.free
  | sampleFailed => exact h.sampleFailed hreport
  | sampleStopped => exact h.sampleStopped hreport
  | rootExited res => exact h.rootExited hreport res
  | timeout => exact h.timeout hreport hl.free
  | stopConfirmed unreapedPids => exact h.stopConfirmed hreport unreapedPids
  | granted clock => exact h.granted hreport clock
  | spawnFailed message clock => exact h.spawnFailed hreport message clock
  | spawned identity => exact h.spawned hreport identity
  | samplesSettled =>
    exact h.samplesSettled hreport fun metrics heq => hl.final metrics (heq ▸ rfl)
  | timeoutStopped => exact h.timeoutStopped hreport
  | rootExitKnown clock => exact h.rootExitKnown hreport clock
  | drained held clock => exact h.drained hreport held clock
  | limitHitsRead => exact h.limitHitsRead hreport hl.free
  | identityAnswered identityVerification measured clock =>
    exact h.identityAnswered hreport identityVerification measured clock
  | stopResultKnown =>
    show Kept (Termination.stopResultKnown s)
    rw [Termination.stopResultKnown.eq_def, hreport]
    split
    · rename_i hsome
      cases hsome
    · exact Kept.of_flagged h hreport

theorem Kept.after (h : Kept s) (hl : Orderly s l) : Kept (l.after s) := by
  cases hreport : s.report with
  | none => exact (h.flagged hreport).after hreport hl
  | some report => exact (h.reported report hreport).after hreport l

end Steps

/-- An operation begins without a reason; an aborted request has been cancelled. -/
theorem kept_start (driver : DriverCalls) (scope : ProcessScope) (facts : RequestFacts)
    (clock : Clock) : Kept (Supervised.start driver scope facts clock) := by
  have hempty : ∀ limit, exceeds limit 0 ≠ true := by
    intro limit h
    cases limit with
    | none => cases h
    | some max =>
      have hlt := (Bool.and_eq_true_iff.1 h).2
      exact absurd (of_decide_eq_true hlt) (Nat.not_lt_zero max)
  have huser : ∀ reason ∈ (Supervised.start driver scope facts clock).fired,
      reason = .userCancelled := by
    intro reason hreason
    have hmem : reason ∈ if scope.options.aborted then [TerminationReason.userCancelled] else [] :=
      hreason
    split at hmem
    · exact List.mem_singleton.1 hmem
    · cases hmem
  refine Kept.of_flagged ?_ rfl
  exact
    { triggers := fun reason hreason => .inl (huser reason hreason)
      cancelled := by
        show scope.options.aborted = true ↔
          .userCancelled ∈ if scope.options.aborted then [TerminationReason.userCancelled] else []
        cases scope.options.aborted <;> decide
      launch := fun _ => huser
      recorded := nofun
      first := nofun
      pending := nofun
      timed := nofun
      settled := fun hhead => by
        cases huser _ (List.mem_of_head? hhead)
      promise := nofun
      stopWon := nofun
      output := fun budget _ hover => absurd hover (hempty budget.maxOutputBytes)
      peaks := fun budget _ _ hover => by
        rcases hover with hover | hover
        · exact absurd hover (hempty _)
        · exact absurd hover (hempty _)
      exit := nofun
      sample := nofun
      ongoing := rfl }

theorem kept_of_orderly {driver : DriverCalls} {scope : ProcessScope} {facts : RequestFacts}
    {clock : Clock} {ls : List Step}
    (h : Along Step.after Orderly (Supervised.start driver scope facts clock) ls) :
    Kept (afterAll Step.after (Supervised.start driver scope facts clock) ls) :=
  h.invariant (fun _ _ hkept hl => hkept.after hl) (kept_start driver scope facts clock)

/-- In an orderly run the status and the reason of what is recorded agree with each other and with
    the first trigger. -/
theorem verdict_consistent (driver : DriverCalls) (scope : ProcessScope) (facts : RequestFacts)
    (clock : Clock) (ls : List Step)
    (h : Along Step.after Orderly (Supervised.start driver scope facts clock) ls) :
    ∀ pre, pre <+: ls → ∀ report,
      (afterAll Step.after (Supervised.start driver scope facts clock) pre).report = some report →
        Consistent (afterAll Step.after (Supervised.start driver scope facts clock) pre) report := by
  rintro pre ⟨post, rfl⟩ report hreport
  have hpre := (along_append.1 h).1
  exact ((kept_of_orderly hpre).reported report hreport).toConsistent

/-! ## Two triggers -/

/-- A request with a timeout and a soft budget. -/
def budgeted : ProcessScope where
  options := {
    runId := "run"
    opId := "op"
    name := "build"
    cwd := "/work"
    inputFingerprint := "fingerprint"
    timeoutMs := some 1000
    resourceBudget := some { maxMemoryBytes := some 10, enforcement := .soft } }
  mutationRoots := []
  capAdmission := none

def noon : Clock := ⟨0, fun _ => 0⟩

/-- The operation of the request, once its process runs. -/
def launched : List Step := [.granted noon, .spawned { pid := 7, spawnTime := 0 }]

def measuring : DriverCalls := ⟨true, false⟩

def snapshot : RequestConfigSnapshot where
  schemaVersion := "1"
  driverName := "node"
  driverVersion := "1"
  driverCapabilities := []
  retentionVersion := "1"
  redactionVersion := "1"
  config := []
  digest := "digest"
  createdAt := 0

def begun : Supervised :=
  Supervised.start measuring budgeted { configSnapshot := snapshot } noon

/-- The monitor after the race, up to the result. -/
def concluding : List Step := [.drained none noon, .identityAnswered .notOriginalProcess {} noon]

/-- The process takes too much memory and is stopped. -/
def stoppedForMemory : List Step :=
  launched ++ [.tick, .metricsAnswered ⟨20, 0, 1⟩, .stopConfirmed none, .sampleStopped,
    .rootExited ⟨none, some "SIGTERM"⟩, .samplesSettled (some ⟨0, 0, 0⟩), .rootExitKnown noon] ++
    concluding ++ [.stopResultKnown]

/-- The caller cancels while the stop that the timeout asked for is under way. -/
def cancelledAfterTimeout : List Step :=
  launched ++ [.timeout, .samplesSettled none, .cancelOperation, .stopConfirmed none,
    .rootExited ⟨none, some "SIGTERM"⟩, .timeoutStopped, .rootExitKnown noon] ++
    concluding ++ [.stopResultKnown]

/-- A sample is answered while the stop that the caller asked for is under way. -/
def exceededAfterCancel : List Step :=
  launched ++ [.tick, .cancelOperation, .metricsAnswered ⟨20, 0, 1⟩, .stopConfirmed none,
    .sampleStopped, .rootExited ⟨none, some "SIGTERM"⟩, .samplesSettled none, .rootExitKnown noon] ++
    concluding ++ [.stopResultKnown]

/-- The last sample is over the budget, and the process has ended well. -/
def exceededAtTheEnd : List Step :=
  launched ++ [.rootExited ⟨some 0, none⟩, .samplesSettled (some ⟨20, 0, 1⟩)] ++ concluding

theorem stoppedForMemory_consistent :
    ∃ report, (afterAll Step.after begun stoppedForMemory).report = some report ∧
      report.result.status = .failed ∧ report.result.terminationReason = some .memoryExceeded ∧
      Consistent (afterAll Step.after begun stoppedForMemory) report := by
  have horderly : Along Step.after Orderly begun stoppedForMemory := by
    refine ⟨⟨nofun, nofun⟩, ⟨nofun, nofun⟩, ⟨nofun, nofun⟩, ⟨fun _ _ => .inl rfl, nofun⟩,
      ⟨nofun, nofun⟩, ⟨nofun, nofun⟩, ⟨nofun, nofun⟩, ⟨nofun, fun _ _ _ _ => nofun⟩, ⟨nofun, nofun⟩,
      ⟨nofun, nofun⟩, ⟨nofun, nofun⟩, ⟨nofun, nofun⟩, trivial⟩
  exact ⟨_, rfl, rfl, rfl, verdict_consistent measuring budgeted { configSnapshot := snapshot } noon
    stoppedForMemory horderly stoppedForMemory List.prefix_rfl _ rfl⟩

/-- Two triggers that overlap disagree about the verdict, and the last sample about the budget. -/
theorem overlaps_disagree :
    (∃ report, (afterAll Step.after begun cancelledAfterTimeout).report = some report ∧
      report.result.status = .failed ∧ report.result.terminationReason = some .userCancelled ∧
      ¬ Consistent (afterAll Step.after begun cancelledAfterTimeout) report) ∧
    (∃ report, (afterAll Step.after begun exceededAfterCancel).report = some report ∧
      report.result.status = .failed ∧ report.result.terminationReason = some .memoryExceeded ∧
      (afterAll Step.after begun exceededAfterCancel).fired = [.userCancelled, .memoryExceeded] ∧
      ¬ Consistent (afterAll Step.after begun exceededAfterCancel) report) ∧
    ∃ report, (afterAll Step.after begun exceededAtTheEnd).report = some report ∧
      report.result.status = .succeeded ∧ report.peakMemoryBytes = some 20 ∧
      ¬ Consistent (afterAll Step.after begun exceededAtTheEnd) report := by
  refine ⟨⟨_, rfl, rfl, rfl, fun h => ?_⟩, ⟨_, rfl, rfl, rfl, rfl, fun h => ?_⟩,
    ⟨_, rfl, rfl, rfl, fun h => ?_⟩⟩
  · cases h.cancelled.2 rfl
  · cases h.first .memoryExceeded rfl nofun
  · obtain ⟨-, -, hwithin⟩ := h.succeeded rfl
    cases (hwithin _ rfl).1 20 rfl

end Termination
end Supervisor
end XioFlow
