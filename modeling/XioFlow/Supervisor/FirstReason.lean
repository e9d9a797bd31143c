/-
  XioFlow.Supervisor.FirstReason

  When the status and the termination reason of an operation agree with each
  other and with the first trigger that fired.

  Some writers of the reason look whether there is one, the others write over
  it.  `Flagged` is the invariant of the runs in which none of the latter fires
  while another reason is recorded: the reason is that of the first trigger,
  and a timeout that has won the race is the first trigger before it is acted
  on.  The last sample is not compared with a soft budget, so a run must keep
  it within the budget where nothing else has happened.
-/

import XioFlow.Supervisor.Termination

namespace XioFlow

open Lib
open Recovery (IdentityVerificationResult)

namespace Supervisor
namespace Termination

open Supervised

/-! ## Consistent results -/

/-- The reasons of a stop that nobody asked for. -/
def limitReason : TerminationReason → Bool
  | .timedOut | .memoryExceeded | .cpuExceeded | .pidsExceeded | .outputExceeded
  | .observationFailed => true
  | _ => false

/-- What the result reports is within the soft budget. -/
def WithinSoft (s : Supervised) (report : Report) : Prop :=
  ∀ budget, s.soft = some budget →
    (∀ peak, report.peakMemoryBytes = some peak → exceeds budget.maxMemoryBytes peak = false) ∧
    (∀ peak, report.cpuTimeMs = some peak → exceeds budget.maxCpuTimeMs peak = false) ∧
    exceeds budget.maxOutputBytes report.outputBytes = false

structure Consistent (s : Supervised) (report : Report) : Prop where
  succeeded : report.result.status = .succeeded →
    (∃ res, s.rootExit = some res ∧ res.exitCode = some 0) ∧ s.fired = [] ∧ WithinSoft s report
  cancelled : report.result.status = .cancelled ↔
    report.result.terminationReason = some .userCancelled
  limited : ∀ reason, report.result.terminationReason = some reason → limitReason reason = true →
    reason ∈ s.fired ∧ report.result.status = .failed
  first : ∀ reason, report.result.terminationReason = some reason → reason ≠ .completed →
    s.fired.head? = some reason

/-! ## Runs without an overlap of triggers -/

/-- The reason that a step writes whatever was there before. -/
def Step.sets (s : Supervised) : Step → Option TerminationReason
  | .cancelOperation => some .userCancelled
  | .timeout =>
    match s.opState.awaiting with
    | .rootOutcome =>
      if s.opState.options.timeoutMs.any fun timeoutMs => 0 < timeoutMs then some .timedOut
      else none
    | _ => none
  | .metricsAnswered metrics =>
    if s.sampler.pending = some .metrics ∧ s.sampler.stopped = false then
      s.soft.bind fun budget => exceeded? budget metrics
    else none
  | .limitEventsAnswered hits =>
    if s.sampler.pending = some .limitEvents then
      (hits.bind limitHit).filter fun reason => reason ≠ .memoryExceeded
    else none
  | .limitHitsRead hits =>
    match s.opState.awaiting with
    | .limitHits _ => hits.bind limitHit
    | _ => none
  | _ => none

/-- Writing the reason loses no other: there is none, or the same, or a timeout is about to be
    written, or the result is built. -/
def Free (s : Supervised) (reason : TerminationReason) : Prop :=
  s.opState.terminationReason = none ∨ s.opState.terminationReason = some reason ∨
    timeoutPending s.opState.awaiting = true ∨ s.report.isSome = true

/-- The last sample of an operation that is about to succeed is within the soft budget. -/
def FinalWithin (s : Supervised) (metrics : ProcessMetrics) : Prop :=
  ∀ res budget, s.opState.awaiting = .samples (.exit res) → res.exitCode = some 0 →
    s.opState.terminationReason = none → s.soft = some budget → s.sampling = true →
    s.sampler.failed = false →
    exceeds budget.maxMemoryBytes metrics.rssBytes = false ∧
      exceeds budget.maxCpuTimeMs metrics.cpuTimeMs = false

structure Orderly (s : Supervised) (l : Step) : Prop where
  free : ∀ reason, l.sets s = some reason → Free s reason
  final : ∀ metrics, l = .samplesSettled (some metrics) → FinalWithin s metrics

/-! ## The invariant -/

/-- A peak over the soft budget has fired a trigger, or the process has failed by itself. -/
def PeaksAccounted (s : Supervised) : Prop :=
  ∀ budget, s.soft = some budget → s.sampler.failed = false →
    (exceeds budget.maxMemoryBytes s.sampler.peakMemoryBytes = true ∨
      exceeds budget.maxCpuTimeMs s.sampler.peakCpuTimeMs = true) →
    s.fired ≠ [] ∨ ∃ res, exitFacts? s.opState.awaiting = some res ∧ res.exitCode ≠ some 0

def OutputAccounted (s : Supervised) : Prop :=
  ∀ budget, s.soft = some budget → exceeds budget.maxOutputBytes s.totalOutputBytes = true →
    s.opState.terminationReason.isSome = true

/-- The exit with which a result will be built is the one observed, or that of a stop. -/
def ExitAccounted (s : Supervised) : Prop :=
  ∀ res, exitFacts? s.opState.awaiting = some res → s.rootExit = some res ∨ res.exitCode = none

/-- What holds until the result is built. -/
structure Flagged (s : Supervised) : Prop where
  triggers : ∀ reason ∈ s.fired, reason = .userCancelled ∨ limitReason reason = true
  cancelled : s.opState.cancelRequested = true ↔ .userCancelled ∈ s.fired
  launch : unstarted s.opState.awaiting = true → ∀ reason ∈ s.fired, reason = .userCancelled
  recorded : s.opState.terminationReason.isSome = true → s.fired ≠ []
  first : launching s.opState.awaiting = false → timeoutPending s.opState.awaiting = false →
    s.opState.terminationReason = s.fired.head?
  pending : timeoutPending s.opState.awaiting = true → s.fired.head? = some .timedOut
  timed : s.opState.timedOut = true → s.fired.head? = some .timedOut
  settled : s.fired.head? = some .timedOut →
    timeoutPending s.opState.awaiting = true ∨ s.opState.timedOut = true
  promise : s.opState.stopPromise.isSome = true → s.fired ≠ []
  stopWon : ∀ stopRes, s.opState.awaiting = .samples (.stop stopRes) → s.fired ≠ []
  output : OutputAccounted s
  peaks : PeaksAccounted s
  exit : ExitAccounted s
  sample : s.sampler.pending.isSome = true → racing s.opState.awaiting = true
  ongoing : ending s.opState.awaiting = false

/-- What holds once the result is built. -/
structure Reported (s : Supervised) (report : Report) : Prop extends Consistent s report where
  ending : Termination.ending s.opState.awaiting = true
  idle : s.sampler.pending = none
  settled : report.result.status = .succeeded → ended s.opState.awaiting = true
  awaited : ∀ result collects, s.opState.awaiting = .stopResult result collects →
    report.result = .process result

structure Kept (s : Supervised) : Prop where
  flagged : s.report = none → Flagged s
  reported : ∀ report, s.report = some report → Reported s report

/-! ## Steps that fire no trigger -/

/-- The flags, the triggers and what the result will report of the output are the same. -/
structure SameFlags (s s' : Supervised) : Prop where
  fired : s'.fired = s.fired
  cancelRequested : s'.opState.cancelRequested = s.opState.cancelRequested
  timedOut : s'.opState.timedOut = s.opState.timedOut
  terminationReason : s'.opState.terminationReason = s.opState.terminationReason
  options : s'.opState.options = s.opState.options
  totalOutputBytes : s'.totalOutputBytes = s.totalOutputBytes
  stopPromise : s'.opState.stopPromise.isSome = true →
    s.opState.stopPromise.isSome = true ∨ s.fired ≠ []

section Frames

variable {s s' : Supervised}

theorem soft_congr (h : s'.opState.options = s.opState.options) : s'.soft = s.soft := by
  unfold Supervised.soft Supervised.budget
  rw [h]

theorem Flagged.same (h : Flagged s) (hsame : SameFlags s s')
    (hunstarted : unstarted s'.opState.awaiting = true → unstarted s.opState.awaiting = true)
    (hlaunching : launching s'.opState.awaiting = launching s.opState.awaiting)
    (hpending : timeoutPending s'.opState.awaiting = timeoutPending s.opState.awaiting)
    (hstop : ∀ stopRes, s'.opState.awaiting = .samples (.stop stopRes) → s.fired ≠ [])
    (hpeaks : PeaksAccounted s') (hexit : ExitAccounted s')
    (hsample : s'.sampler.pending.isSome = true → racing s'.opState.awaiting = true)
    (hongoing : ending s'.opState.awaiting = false) : Flagged s' where
  triggers := hsame.fired ▸ h.triggers
  cancelled := by
    rw [hsame.cancelRequested, hsame.fired]
    exact h.cancelled
  launch := by
    rw [hsame.fired]
    exact fun hu => h.launch (hunstarted hu)
  recorded := by
    rw [hsame.terminationReason, hsame.fired]
    exact h.recorded
  first := by
    rw [hlaunching, hpending, hsame.terminationReason, hsame.fired]
    exact h.first
  pending := by
    rw [hpending, hsame.fired]
    exact h.pending
  timed := by
    rw [hsame.timedOut, hsame.fired]
    exact h.timed
  settled := by
    rw [hpending, hsame.timedOut, hsame.fired]
    exact h.settled
  promise := by
    intro hpromise
    rw [hsame.fired]
    exact (hsame.stopPromise hpromise).elim h.promise id
  stopWon := hsame.fired ▸ hstop
  output := by
    unfold OutputAccounted
    rw [soft_congr hsame.options, hsame.totalOutputBytes, hsame.terminationReason]
    exact h.output
  peaks := hpeaks
  exit := hexit
  sample := hsample
  ongoing := hongoing

/-- The peaks are accounted for as before when neither they nor the exit have changed. -/
theorem PeaksAccounted.same (h : PeaksAccounted s) (hsame : SameFlags s s')
    (hfailed : s'.sampler.failed = false → s.sampler.failed = false)
    (hmemory : s'.sampler.peakMemoryBytes = s.sampler.peakMemoryBytes)
    (hcpu : s'.sampler.peakCpuTimeMs = s.sampler.peakCpuTimeMs)
    (hexit : ∀ res, exitFacts? s.opState.awaiting = some res →
      exitFacts? s'.opState.awaiting = some res) : PeaksAccounted s' := by
  intro budget hsoft hok hover
  rw [soft_congr hsame.options] at hsoft
  rw [hmemory, hcpu] at hover
  rcases h budget hsoft (hfailed hok) hover with hfired | ⟨res, hres, hcode⟩
  · exact .inl (hsame.fired ▸ hfired)
  · exact .inr ⟨res, hexit res hres, hcode⟩

/-- A change of the sampler alone. -/
theorem Flagged.withSampler (h : Flagged s) {f : BudgetSampler → BudgetSampler}
    (hfailed : (f s.sampler).failed = false → s.sampler.failed = false)
    (hmemory : (f s.sampler).peakMemoryBytes = s.sampler.peakMemoryBytes)
    (hcpu : (f s.sampler).peakCpuTimeMs = s.sampler.peakCpuTimeMs)
    (hsample : (f s.sampler).pending.isSome = true → racing s.opState.awaiting = true) :
    Flagged (s.withSampler f) := by
  have hsame : SameFlags s (s.withSampler f) := ⟨rfl, rfl, rfl, rfl, rfl, rfl, .inl⟩
  exact h.same hsame id rfl rfl h.stopWon (h.peaks.same hsame hfailed hmemory hcpu fun _ => id)
    h.exit hsample h.ongoing

theorem Flagged.sampleDone (h : Flagged s) : Flagged s.sampleDone :=
  h.withSampler id rfl rfl nofun

/-- The call goes on to wait elsewhere, with the same exit. -/
theorem Flagged.awaitAt (h : Flagged s) {awaiting : Awaiting}
    (hunstarted : unstarted awaiting = true → unstarted s.opState.awaiting = true)
    (hlaunching : launching awaiting = launching s.opState.awaiting)
    (hpending : timeoutPending awaiting = timeoutPending s.opState.awaiting)
    (hstop : ∀ stopRes, awaiting = .samples (.stop stopRes) → s.fired ≠ [])
    (hkeeps : ∀ res, exitFacts? s.opState.awaiting = some res → exitFacts? awaiting = some res)
    (hexit : ∀ res, exitFacts? awaiting = some res → s.rootExit = some res ∨ res.exitCode = none)
    (hsample : s.sampler.pending.isSome = true → racing awaiting = true)
    (hongoing : ending awaiting = false) : Flagged (s.awaitAt awaiting) := by
  have hsame : SameFlags s (s.awaitAt awaiting) := ⟨rfl, rfl, rfl, rfl, rfl, rfl, .inl⟩
  exact h.same hsame hunstarted hlaunching hpending hstop (h.peaks.same hsame id rfl rfl hkeeps)
    hexit hsample hongoing

end Frames

/-! ## Triggers -/

/-- A trigger has fired: it is the reason now, or another one is and stays. -/
structure Triggered (reason : TerminationReason) (s s' : Supervised) : Prop where
  fired : s'.fired = s.fired ++ [reason]
  cancelRequested : s'.opState.cancelRequested = true ↔
    s.opState.cancelRequested = true ∨ reason = .userCancelled
  timedOut : s'.opState.timedOut = s.opState.timedOut
  terminationReason : s'.opState.terminationReason = some reason ∨
    s'.opState.terminationReason = s.opState.terminationReason.or (some reason)
  options : s'.opState.options = s.opState.options
  awaiting : s'.opState.awaiting = s.opState.awaiting
  rootExit : s'.rootExit = s.rootExit

theorem head?_append_some {α : Type} {l : List α} {a b : α} (h : l.head? = some a) :
    (l ++ [b]).head? = some a := by
  rw [List.head?_append, h]
  rfl

variable {s : Supervised}

theorem Flagged.triggered {t : Supervised} {reason : TerminationReason} (h : Flagged s)
    (ht : Triggered reason s t) (hreport : s.report = none)
    (hfree : t.opState.terminationReason = some reason → Free s reason)
    (hkind : reason = .userCancelled ∨ limitReason reason = true) (hother : reason ≠ .timedOut)
    (hlaunch : unstarted s.opState.awaiting = true → reason = .userCancelled)
    (hsample : t.sampler.pending.isSome = true → racing s.opState.awaiting = true) : Flagged t := by
  have hne : t.fired ≠ [] := by
    rw [ht.fired]
    simp
  have hsome : t.opState.terminationReason.isSome = true := by
    rcases ht.terminationReason with heq | heq
    · rw [heq]
      rfl
    · rw [heq, Option.isSome_or]
      simp
  refine
    { triggers := ?_, cancelled := ?_, launch := ?_, recorded := fun _ => hne, first := ?_
      pending := ?_, timed := ?_, settled := ?_, promise := fun _ => hne
      stopWon := fun _ _ => hne, output := fun _ _ _ => hsome, peaks := fun _ _ _ _ => .inl hne, exit := ?_
      sample := ht.awaiting ▸ hsample, ongoing := ht.awaiting ▸ h.ongoing }
  · rw [ht.fired]
    intro r hr
    rcases List.mem_append.1 hr with hr | hr
    · exact h.triggers r hr
    · rw [List.mem_singleton.1 hr]
      exact hkind
  · rw [ht.cancelRequested, ht.fired, List.mem_append, List.mem_singleton, h.cancelled,
      eq_comm (a := reason)]
  · rw [ht.awaiting, ht.fired]
    intro hl r hr
    rcases List.mem_append.1 hr with hr | hr
    · exact h.launch hl r hr
    · rw [List.mem_singleton.1 hr]
      exact hlaunch hl
  · rw [ht.awaiting]
    intro hl hp
    have hfirst := h.first hl hp
    have hor : s.opState.terminationReason.or (some reason) = t.fired.head? := by
      rw [ht.fired, List.head?_append, hfirst]
      rfl
    rcases ht.terminationReason with heq | heq
    · rcases hfree heq with hnone | hsame | hpend | hbuilt
      · rw [heq, ← hor, hnone]
        rfl
      · rw [heq, ← hor, hsame]
        rfl
      · rw [hp] at hpend
        cases hpend
      · rw [hreport] at hbuilt
        cases hbuilt
    · rw [heq, hor]
  · rw [ht.awaiting, ht.fired]
    exact fun hp => head?_append_some (h.pending hp)
  · rw [ht.timedOut, ht.fired]
    exact fun hp => head?_append_some (h.timed hp)
  · rw [ht.awaiting, ht.timedOut, ht.fired]
    cases hhead : s.fired.head? with
    | none =>
      rw [List.head?_append, hhead]
      intro heq
      exact absurd (Option.some.inj heq) hother
    | some =>
      rw [head?_append_some hhead, ← hhead]
      exact h.settled
  · unfold ExitAccounted
    rw [ht.awaiting, ht.rootExit]
    exact h.exit

/-! ## The stop pipeline -/

/-- What asking for a stop leaves alone, once the reason is set. -/
structure Piped (s s' : Supervised) : Prop where
  fired : s'.fired = s.fired
  sampler : s'.sampler = s.sampler
  rootExit : s'.rootExit = s.rootExit
  report : s'.report = s.report
  totalOutputBytes : s'.totalOutputBytes = s.totalOutputBytes
  cancelRequested : s'.opState.cancelRequested = s.opState.cancelRequested
  timedOut : s'.opState.timedOut = s.opState.timedOut
  terminationReason : s'.opState.terminationReason = s.opState.terminationReason
  options : s'.opState.options = s.opState.options
  awaiting : s'.opState.awaiting = s.opState.awaiting

theorem piped_handleStopPipeline {r : TerminationReason}
    (hreason : s.opState.terminationReason = some r)
    (hcancelled : r = .userCancelled → s.opState.cancelRequested = true) :
    Piped s (handleStopPipeline r s) := by
  unfold handleStopPipeline
  split
  · exact ⟨rfl, rfl, rfl, rfl, rfl, rfl, rfl, rfl, rfl, rfl⟩
  · refine ⟨rfl, rfl, rfl, rfl, rfl, ?_, rfl, hreason.symm, rfl, rfl⟩
    show (s.opState.cancelRequested || decide (r = .userCancelled)) = s.opState.cancelRequested
    by_cases h : r = .userCancelled
    · rw [hcancelled h, Bool.true_or]
    · rw [decide_eq_false h, Bool.or_false]

/-- A trigger that is no cancellation. -/
theorem triggered_stopWith {r : TerminationReason} (hother : r ≠ .userCancelled) :
    Triggered r s (stopWith r s) ∧ (stopWith r s).sampler = s.sampler ∧
      (stopWith r s).report = s.report := by
  have hpiped : Piped ((s.fire r).update fun a => { a with terminationReason := some r })
      (stopWith r s) := piped_handleStopPipeline rfl fun h => absurd h hother
  refine ⟨⟨hpiped.fired, ?_, hpiped.timedOut, .inl hpiped.terminationReason, hpiped.options,
    hpiped.awaiting, hpiped.rootExit⟩, hpiped.sampler, hpiped.report⟩
  rw [hpiped.cancelRequested]
  exact (or_iff_left hother).symm

theorem triggered_cancelOperation (h : ended s.opState.awaiting = false) :
    Triggered .userCancelled s (cancelOperation s) ∧ (cancelOperation s).sampler = s.sampler ∧
      (cancelOperation s).report = s.report := by
  rw [cancelOperation, h, if_neg Bool.false_ne_true]
  simp only
  split
  · have hpiped : Piped ((s.fire .userCancelled).update fun a =>
        { a with cancelRequested := true, terminationReason := some .userCancelled }) _ :=
      piped_handleStopPipeline rfl fun _ => rfl
    refine ⟨⟨hpiped.fired, ?_, hpiped.timedOut, .inl hpiped.terminationReason, hpiped.options,
      hpiped.awaiting, hpiped.rootExit⟩, hpiped.sampler, hpiped.report⟩
    rw [hpiped.cancelRequested]
    exact ⟨fun _ => .inr rfl, fun _ => rfl⟩
  · split
    · exact ⟨⟨rfl, ⟨fun _ => .inr rfl, fun _ => rfl⟩, rfl, .inl rfl, rfl, rfl, rfl⟩, rfl, rfl⟩
    · exact ⟨⟨rfl, ⟨fun _ => .inr rfl, fun _ => rfl⟩, rfl, .inl rfl, rfl, rfl, rfl⟩, rfl, rfl⟩

/-! ## Steps before the result is built -/

theorem Kept.of_flagged (h : Flagged s) (hreport : s.report = none) : Kept s :=
  ⟨fun _ => h, fun report hsome => by rw [hreport] at hsome; cases hsome⟩

theorem kept_record {report : Report} (h : Consistent s report) (hidle : s.sampler.pending = none) :
    Kept (record report s) := by
  refine ⟨fun hnone => ?_, fun report' hsome => ?_⟩
  · cases hnone
  cases hsome
  refine ⟨⟨h.succeeded, h.cancelled, h.limited, h.first⟩, rfl, hidle, fun _ => rfl, ?_⟩
  intro result collects hawaiting
  have hended : ended (.stopResult result collects) = true := hawaiting ▸ rfl
  cases hended

/-- A result that carries no reason, and is neither a success nor a cancellation. -/
theorem consistent_plain {report : Report} (hsucceeded : report.result.status ≠ .succeeded)
    (hcancelled : report.result.status ≠ .cancelled)
    (hreason : report.result.terminationReason = none) : Consistent s report where
  succeeded h := absurd h hsucceeded
  cancelled := by
    rw [hreason]
    exact iff_of_false hcancelled nofun
  limited reason h := by
    rw [hreason] at h
    cases h
  first reason h := by
    rw [hreason] at h
    cases h

section Steps

variable {s : Supervised}

/-- Outside the race no sample is in flight. -/
theorem Flagged.idle (h : Flagged s) (hracing : racing s.opState.awaiting = false) :
    s.sampler.pending = none := by
  cases hp : s.sampler.pending with
  | none => rfl
  | some =>
    have := h.sample (by rw [hp]; rfl)
    rw [hracing] at this
    cases this

variable {awaiting : Awaiting}

theorem ended_of_not_ending (h : ending awaiting = false) : ended awaiting = false := by
  cases awaiting <;> first | rfl | cases h

theorem not_unstarted_of_capturing (h : capturing awaiting = true) :
    unstarted awaiting = false := by
  cases awaiting <;> first | rfl | cases h

theorem not_unstarted_of_racing (h : racing awaiting = true) : unstarted awaiting = false := by
  cases awaiting <;> first | rfl | cases h

theorem Flagged.cancel (h : Flagged s) (hreport : s.report = none)
    (hfree : Free s .userCancelled) : Kept (cancelOperation s) := by
  obtain ⟨ht, hsampler, hsame⟩ := triggered_cancelOperation (ended_of_not_ending h.ongoing)
  refine Kept.of_flagged ?_ (hsame.trans hreport)
  exact h.triggered ht hreport (fun _ => hfree) (.inl rfl) (by decide) (fun _ => rfl)
    (hsampler ▸ h.sample)

theorem Flagged.onChunk (h : Flagged s) (hreport : s.report = none) (bytes : Nat) :
    Kept (onChunk bytes s) := by
  rw [Termination.onChunk]
  by_cases hcapturing : capturing s.opState.awaiting = true
  · rw [if_pos hcapturing]
    simp only
    split
    · -- the budget is crossed, and no reason is known
      rename_i hcross
      have hnone : s.opState.terminationReason = none :=
        Option.isNone_iff_eq_none.1 (Bool.and_eq_true_iff.1 hcross).2
      obtain ⟨ht, hsampler, hsame⟩ := triggered_stopWith (r := .outputExceeded)
        (s := { s with totalOutputBytes := s.totalOutputBytes + bytes }) (by decide)
      refine Kept.of_flagged ?_ (hsame.trans hreport)
      refine h.triggered ⟨ht.fired, ht.cancelRequested, ht.timedOut, ht.terminationReason,
        ht.options, ht.awaiting, ht.rootExit⟩ hreport (fun _ => .inl hnone) (.inr rfl)
        (by decide) (fun hu => ?_) (fun hp => h.sample ?_)
      · rw [not_unstarted_of_capturing hcapturing] at hu
        cases hu
      · rw [hsampler] at hp
        exact hp
    · rename_i hcross
      refine Kept.of_flagged ?_ hreport
      exact
        { triggers := h.triggers, cancelled := h.cancelled, launch := h.launch
          recorded := h.recorded, first := h.first, pending := h.pending, timed := h.timed
          settled := h.settled, promise := h.promise, stopWon := h.stopWon
          output := by
            intro budget hsoft hover
            have hsoft' : s.soft = some budget := hsoft
            by_contra hreason
            rw [Bool.not_eq_true, Option.isSome_eq_false_iff] at hreason
            have hany : (Supervised.soft { s with
                totalOutputBytes := s.totalOutputBytes + bytes }).any (fun budget =>
                  exceeds budget.maxOutputBytes (s.totalOutputBytes + bytes)) = true := by
              rw [show Supervised.soft { s with
                totalOutputBytes := s.totalOutputBytes + bytes } = some budget from hsoft']
              exact hover
            exact hcross (Bool.and_eq_true_iff.2 ⟨hany, hreason⟩)
          peaks := h.peaks, exit := h.exit, sample := h.sample, ongoing := h.ongoing }
  · rw [if_neg hcapturing]
    exact Kept.of_flagged h hreport

theorem Flagged.tick (h : Flagged s) (hreport : s.report = none) : Kept (tick s) := by
  unfold Termination.tick
  split
  · rename_i hrace
    split
    · refine Kept.of_flagged (h.withSampler id rfl rfl fun _ => ?_) hreport
      rw [hrace]
      rfl
    · exact Kept.of_flagged h hreport
  · exact Kept.of_flagged h hreport

/-! ### Samples -/

theorem exceeds_max {limit : Option Nat} {a b : Nat} (h : exceeds limit (max a b) = true) :
    exceeds limit a = true ∨ exceeds limit b = true := by
  rcases Nat.le_total a b with hle | hle
  · rw [Nat.max_eq_right hle] at h
    exact .inr h
  · rw [Nat.max_eq_left hle] at h
    exact .inl h

variable {metrics : ProcessMetrics} {reason : TerminationReason}

/-- A sample within the soft budget is accounted for. -/
theorem Flagged.peaks_observe (h : Flagged s) (hwithin : ∀ budget, s.soft = some budget →
      exceeds budget.maxMemoryBytes metrics.rssBytes = false ∧
        exceeds budget.maxCpuTimeMs metrics.cpuTimeMs = false) :
    PeaksAccounted (s.withSampler (BudgetSampler.observe metrics)) := by
  intro budget hsoft hok hover
  obtain ⟨hmemory, hcpu⟩ := hwithin budget hsoft
  apply h.peaks budget hsoft hok
  rcases hover with hover | hover
  · rcases exceeds_max hover with hold | hnew
    · exact .inl hold
    · rw [hmemory] at hnew
      cases hnew
  · rcases exceeds_max hover with hold | hnew
    · exact .inr hold
    · rw [hcpu] at hnew
      cases hnew

theorem within_of_exceeded?_none {budget : ResourceBudget} (h : exceeded? budget metrics = none) :
    exceeds budget.maxMemoryBytes metrics.rssBytes = false ∧
      exceeds budget.maxCpuTimeMs metrics.cpuTimeMs = false := by
  unfold exceeded? at h
  split at h
  · cases h
  · rename_i hmemory
    split at h
    · cases h
    · rename_i hcpu
      exact ⟨Bool.eq_false_iff.2 hmemory, Bool.eq_false_iff.2 hcpu⟩

theorem kind_of_exceeded? {budget : ResourceBudget} (h : exceeded? budget metrics = some reason) :
    limitReason reason = true ∧ reason ≠ .timedOut := by
  unfold exceeded? at h
  repeat' split at h
  all_goals first | (cases h; decide) | cases h

theorem kind_of_limitHit {hits : Option LimitEvents} (h : hits.bind limitHit = some reason) :
    limitReason reason = true ∧ reason ≠ .timedOut := by
  obtain ⟨events, -, hhit⟩ := Option.bind_eq_some_iff.1 h
  unfold limitHit at hhit
  repeat' split at hhit
  all_goals first | (cases hhit; decide) | cases hhit

/-- The sampler asks for a stop, after a change of its own variables. -/
theorem Flagged.stopFor (h : Flagged s) (hreport : s.report = none)
    {f : BudgetSampler → BudgetSampler} (hfree : Free s reason)
    (hlimit : limitReason reason = true) (hother : reason ≠ .timedOut)
    (hracing : racing s.opState.awaiting = true) : Kept (stopFor reason (s.withSampler f)) := by
  have hreason : reason ≠ .userCancelled := by
    rintro rfl
    cases hlimit
  obtain ⟨ht, hsampler, hsame⟩ := triggered_stopWith
    (s := (s.withSampler f).withSampler fun b => { b with stopped := true, pending := some .stop })
    hreason
  refine Kept.of_flagged ?_ (hsame.trans hreport)
  refine h.triggered ⟨ht.fired, ht.cancelRequested, ht.timedOut, ht.terminationReason, ht.options,
    ht.awaiting, ht.rootExit⟩ hreport (fun _ => hfree) (.inr hlimit) hother (fun hu => ?_)
    fun _ => hracing
  rw [not_unstarted_of_racing hracing] at hu
  cases hu

theorem soft_of_enforcement (henforced : s.budget.map ResourceBudget.enforcement = some .soft) :
    s.soft = s.budget := by
  cases hbudget : s.budget with
  | none =>
    unfold Supervised.soft
    rw [hbudget]
    rfl
  | some =>
    rw [hbudget] at henforced
    unfold Supervised.soft
    rw [hbudget]
    exact Option.filter_some_pos (decide_eq_true (Option.some.inj henforced))

theorem soft_of_other {enforcement : Enforcement}
    (henforced : s.budget.map ResourceBudget.enforcement = some enforcement)
    (hother : enforcement ≠ .soft) : s.soft = none := by
  cases hbudget : s.budget with
  | none =>
    rw [hbudget] at henforced
    cases henforced
  | some =>
    rw [hbudget] at henforced
    unfold Supervised.soft
    rw [hbudget]
    refine Option.filter_some_neg (decide_eq_false ?_)
    rw [Option.some.inj henforced]
    exact hother

theorem Flagged.metricsAnswered (h : Flagged s) (hreport : s.report = none)
    (hfree : ∀ reason, (Step.metricsAnswered metrics).sets s = some reason → Free s reason) :
    Kept (metricsAnswered metrics s) := by
  unfold Termination.metricsAnswered
  by_cases hpending : s.sampler.pending = some .metrics
  · have hracing : racing s.opState.awaiting = true := h.sample (by rw [hpending]; rfl)
    rw [if_pos hpending]
    cases hstopped : s.sampler.stopped with
    | true => exact Kept.of_flagged h.sampleDone hreport
    | false =>
      rw [if_neg Bool.false_ne_true]
      simp only
      -- under another budget than a soft one nothing is compared
      have hother : ∀ pending, s.soft = none → Kept ((s.withSampler (BudgetSampler.observe
          metrics)).withSampler fun b => { b with pending }) := by
        intro pending hsoft
        refine Kept.of_flagged (h.same ⟨rfl, rfl, rfl, rfl, rfl, rfl, .inl⟩ id rfl rfl
          h.stopWon (fun budget hbudget => ?_) h.exit (fun _ => hracing) h.ongoing) hreport
        have hnone : s.soft = some budget := hbudget
        rw [hsoft] at hnone
        cases hnone
      split
      · rename_i henforced
        exact hother _ (soft_of_other henforced (by decide))
      · rename_i henforced
        have hsoft : s.soft = s.budget := soft_of_enforcement henforced
        split
        · rename_i reason hexceeded
          have hexceeded' : s.budget.bind (fun budget => exceeded? budget metrics) =
              some reason := hexceeded
          obtain ⟨budget, -, hover⟩ := Option.bind_eq_some_iff.1 hexceeded'
          obtain ⟨hlimit, hnot⟩ := kind_of_exceeded? hover
          refine h.stopFor hreport (hfree reason ?_) hlimit hnot hracing
          rw [Step.sets, if_pos ⟨hpending, hstopped⟩, hsoft]
          exact hexceeded'
        · rename_i hexceeded
          have hwithin : ∀ budget, s.soft = some budget →
              exceeds budget.maxMemoryBytes metrics.rssBytes = false ∧
                exceeds budget.maxCpuTimeMs metrics.cpuTimeMs = false := by
            intro budget hbudget
            apply within_of_exceeded?_none
            have hexceeded' : s.budget.bind (fun budget => exceeded? budget metrics) = none :=
              hexceeded
            rw [← hsoft, hbudget] at hexceeded'
            exact hexceeded'
          exact Kept.of_flagged (h.same ⟨rfl, rfl, rfl, rfl, rfl, rfl, .inl⟩ id rfl rfl
            h.stopWon (h.peaks_observe hwithin) h.exit nofun h.ongoing) hreport
      · rename_i hhard hsoft
        apply hother none
        cases henforced : s.budget.map ResourceBudget.enforcement with
        | none =>
          rw [Option.map_eq_none_iff] at henforced
          unfold Supervised.soft
          rw [henforced]
          rfl
        | some =>
          refine soft_of_other henforced ?_
          rintro rfl
          exact hsoft henforced
  · rw [if_neg hpending]
    exact Kept.of_flagged h hreport

theorem Flagged.limitEventsAnswered (h : Flagged s) (hreport : s.report = none)
    {hits : Option LimitEvents}
    (hfree : ∀ reason, (Step.limitEventsAnswered hits).sets s = some reason → Free s reason) :
    Kept (limitEventsAnswered hits s) := by
  unfold Termination.limitEventsAnswered
  by_cases hpending : s.sampler.pending = some .limitEvents
  · have hracing : racing s.opState.awaiting = true := h.sample (by rw [hpending]; rfl)
    rw [if_pos hpending]
    split
    · -- the reason is kept where there is one
      refine Kept.of_flagged (h.triggered
        (t := ((s.fire .memoryExceeded).update fun a => { a with
          terminationReason := a.terminationReason.or (some .memoryExceeded) }).sampleDone)
        ⟨rfl, ?_, rfl, .inr rfl, rfl, rfl, rfl⟩ hreport (fun hreason => ?_) (.inr rfl)
        (by decide) (fun hu => ?_) nofun) hreport
      · exact (or_iff_left (by decide)).symm
      · have hor : s.opState.terminationReason.or (some .memoryExceeded) =
            some .memoryExceeded := hreason
        cases hs : s.opState.terminationReason with
        | none => exact .inl hs
        | some =>
          rw [hs] at hor
          exact .inr (.inl (hs.trans hor))
      · rw [not_unstarted_of_racing hracing] at hu
        cases hu
    · rename_i reason hmemory hhit
      obtain ⟨hlimit, hnot⟩ := kind_of_limitHit hhit
      refine h.stopFor (f := id) hreport (hfree reason ?_) hlimit hnot hracing
      rw [Step.sets, if_pos hpending, hhit]
      refine Option.filter_some_pos (decide_eq_true ?_)
      rintro rfl
      exact hmemory rfl
    · exact Kept.of_flagged h.sampleDone hreport
  · rw [if_neg hpending]
    exact Kept.of_flagged h hreport

theorem Flagged.sampleFailed (h : Flagged s) (hreport : s.report = none) :
    Kept (sampleFailed s) := by
  unfold Termination.sampleFailed
  by_cases hpending : s.sampler.pending = some .metrics ∨ s.sampler.pending = some .limitEvents
  · have hracing : racing s.opState.awaiting = true := by
      apply h.sample
      rcases hpending with hp | hp <;> rw [hp] <;> rfl
    rw [if_pos hpending]
    simp only
    split
    · rename_i hfails
      have hnone : s.opState.terminationReason = none :=
        Option.isNone_iff_eq_none.1 (Bool.and_eq_true_iff.1 hfails).2
      exact h.stopFor hreport (.inl hnone) rfl (by decide) hracing
    · have hfailed := h.withSampler (f := fun b => { b with failed := true }) nofun rfl rfl h.sample
      exact Kept.of_flagged hfailed.sampleDone hreport
  · rw [if_neg hpending]
    exact Kept.of_flagged h hreport

theorem Flagged.sampleStopped (h : Flagged s) (hreport : s.report = none) :
    Kept (sampleStopped s) := by
  unfold Termination.sampleStopped
  split
  · exact Kept.of_flagged h.sampleDone hreport
  · exact Kept.of_flagged h hreport

end Steps

end Termination
end Supervisor
end XioFlow
