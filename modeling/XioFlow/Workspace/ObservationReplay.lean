/-
  XioFlow.Workspace.ObservationReplay

  A recorded log of observations, replayed on a fork up to the first entry that
  comes out differently.

  The adapter of the host is asked once for each entry.  It sees the tree that
  the fork was made from and the entries that were replayed on it before, and
  may answer anything, or throw.
-/

import Mathlib.Data.List.Basic

namespace XioFlow.ObservationReplay

/-! ## Logs -/

inductive EntryKind where
  | observe
  | mutate
  deriving DecidableEq

/-- `ObservationEntry`.  The host defines what a call is. -/
structure LogEntry (α : Type) where
  kind : EntryKind
  call : α
  resultHash : Option String := none
  cutoffHash : Option String := none

/-- What `replay` resolves to: a result hash, nothing, or an `ObservationStepOutcome`. -/
inductive RawOutcome where
  | hash (resultHash : String)
  | nothing
  | outcome (resultHash cutoffHash : Option String) (cutoff : Bool)

structure StepOutcome where
  resultHash : Option String := none
  cutoffHash : Option String := none
  cutoff : Bool := false

def normalizeStepOutcome : RawOutcome → StepOutcome
  | .hash resultHash => { resultHash := some resultHash }
  | .nothing => {}
  | .outcome resultHash cutoffHash cutoff => { resultHash, cutoffHash, cutoff }

/-- A log and the adapter of the host that replays it. -/
structure ObservationValidation (τ α : Type) where
  log : List (LogEntry α)
  closedWorld : Bool := true
  replay : τ → List (LogEntry α) → LogEntry α → Except String RawOutcome
  canCutoff : Option (τ → List (LogEntry α) → LogEntry α → StepOutcome → Except String Bool) := none

/-! ## Replay -/

inductive DivergenceReason where
  | observationChanged
  | mutationNotApplicable
  deriving DecidableEq

structure Divergence where
  divergedAt : Nat
  reason : DivergenceReason
  error : Option String := none
  cutoffIndices : List Nat
  deriving DecidableEq

inductive ObservationReplayResult where
  | matched (matchedSteps : Nat) (cutoffIndices : List Nat)
  | diverged (d : Divergence)
  deriving DecidableEq

/-- How one replayed entry compares with the recorded one. -/
inductive StepVerdict where
  | same
  | cutoff
  | changed
  deriving DecidableEq

variable {τ α : Type}

/-- `canCutoff`, when the host has one -/
def callbackCutoff (v : ObservationValidation τ α) (tree : τ) (done : List (LogEntry α))
    (entry : LogEntry α) (seen : StepOutcome) : Except String Bool :=
  match v.canCutoff with
  | none => .ok false
  | some canCutoff => canCutoff tree done entry seen

/-- The recorded projection of an entry is the one that was seen. -/
def hashCutoff (entry : LogEntry α) (seen : StepOutcome) : Bool :=
  entry.cutoffHash.isSome && seen.cutoffHash.isSome && seen.cutoffHash == entry.cutoffHash

/-- The body of the loop over the log, for one entry. -/
def replayStep (v : ObservationValidation τ α) (tree : τ) (done : List (LogEntry α))
    (entry : LogEntry α) : Except String StepVerdict := do
  let raw ← v.replay tree done entry
  let seen := normalizeStepOutcome raw
  if (entry.kind = .observe ∨ entry.resultHash.isSome) ∧ seen.resultHash ≠ entry.resultHash then
    if seen.cutoff || hashCutoff entry seen then return .cutoff
    let proved ← callbackCutoff v tree done entry seen
    return if proved then .cutoff else .changed
  else return .same

def replayFrom (v : ObservationValidation τ α) (tree : τ) (done : List (LogEntry α))
    (cutoffIndices : List Nat) : List (LogEntry α) → ObservationReplayResult
  | [] => .matched done.length cutoffIndices
  | entry :: rest =>
    match replayStep v tree done entry with
    | .ok .same => replayFrom v tree (done ++ [entry]) cutoffIndices rest
    | .ok .cutoff => replayFrom v tree (done ++ [entry]) (cutoffIndices ++ [done.length]) rest
    | .ok .changed =>
      .diverged { divergedAt := done.length, reason := .observationChanged, cutoffIndices }
    | .error message =>
      .diverged {
        divergedAt := done.length
        reason := match entry.kind with
          | .mutate => .mutationNotApplicable
          | .observe => .observationChanged
        error := some message
        cutoffIndices }

def replayObservationLog (v : ObservationValidation τ α) (tree : τ) : ObservationReplayResult :=
  replayFrom v tree [] [] v.log

/-- How often the adapter was asked to replay an entry. -/
def ObservationReplayResult.calls : ObservationReplayResult → Nat
  | .matched matchedSteps _ => matchedSteps
  | .diverged d => d.divergedAt + 1

def ObservationReplayResult.isMatched : ObservationReplayResult → Bool
  | .matched _ _ => true
  | .diverged _ => false

/-- A divergence lies in the log. -/
theorem replayFrom_diverged {v : ObservationValidation τ α} {tree : τ}
    {log done : List (LogEntry α)} {cutoffIndices : List Nat} {d : Divergence}
    (h : replayFrom v tree done cutoffIndices log = .diverged d) :
    ∃ k < log.length, d.divergedAt = done.length + k := by
  induction log generalizing done cutoffIndices with
  | nil =>
    unfold replayFrom at h
    cases h
  | cons entry rest ih =>
    have hlater : ∀ {cutoffs : List Nat},
        replayFrom v tree (done ++ [entry]) cutoffs rest = .diverged d →
          ∃ k < (entry :: rest).length, d.divergedAt = done.length + k := by
      intro cutoffs hcontinued
      obtain ⟨k, hk, hat⟩ := ih hcontinued
      rw [List.length_append, List.length_singleton] at hat
      exact ⟨k + 1, by simp only [List.length_cons]; omega, by omega⟩
    unfold replayFrom at h
    cases hverdict : replayStep v tree done entry with
    | error =>
      rw [hverdict] at h
      cases h
      exact ⟨0, by simp, rfl⟩
    | ok verdict =>
      rw [hverdict] at h
      cases verdict with
      | changed =>
        cases h
        exact ⟨0, by simp, rfl⟩
      | same | cutoff => exact hlater h

/-! ## Equal logs -/

section Equal

variable [BEq α]

/-- `isDeepStrictEqual` of two entries -/
def LogEntry.isDeepStrictEqual (a b : LogEntry α) : Bool :=
  a.kind = b.kind && a.call == b.call && a.resultHash = b.resultHash &&
    a.cutoffHash = b.cutoffHash

/-- `isDeepStrictEqual` of two logs -/
def isDeepStrictEqual (log log' : List (LogEntry α)) : Bool :=
  log.isEqv log' LogEntry.isDeepStrictEqual

/-- Two adapters give one outcome for an entry, when the entries before it are the same and the
    tree is. -/
def SameOutcomes (v v' : ObservationValidation τ α) : Prop :=
  ∀ tree done done' entry entry',
    isDeepStrictEqual (done ++ [entry]) (done' ++ [entry']) = true →
      v.replay tree done entry = v'.replay tree done' entry' ∧
        ∀ seen, callbackCutoff v tree done entry seen = callbackCutoff v' tree done' entry' seen

variable {done done' : List (LogEntry α)}

theorem isDeepStrictEqual_snoc {entry entry' : LogEntry α}
    (hdone : isDeepStrictEqual done done' = true) (hentry : entry.isDeepStrictEqual entry' = true) :
    isDeepStrictEqual (done ++ [entry]) (done' ++ [entry']) = true := by
  unfold isDeepStrictEqual at hdone ⊢
  induction done generalizing done' with
  | nil =>
    cases done' with
    | nil => simpa [List.isEqv] using hentry
    | cons => simp [List.isEqv] at hdone
  | cons a done ih =>
    cases done' with
    | nil => simp [List.isEqv] at hdone
    | cons =>
      simp only [List.cons_append, List.isEqv_cons_cons, Bool.and_eq_true] at hdone ⊢
      exact ⟨hdone.1, ih hdone.2⟩

theorem length_of_isDeepStrictEqual {log log' : List (LogEntry α)}
    (h : isDeepStrictEqual log log' = true) : log.length = log'.length := by
  unfold isDeepStrictEqual at h
  induction log generalizing log' with
  | nil =>
    cases log' with
    | nil => rfl
    | cons => simp [List.isEqv] at h
  | cons a log ih =>
    cases log' with
    | nil => simp [List.isEqv] at h
    | cons =>
      simp only [List.isEqv_cons_cons, Bool.and_eq_true] at h
      simp only [List.length_cons, ih h.2]

theorem LogEntry.fields_of_isDeepStrictEqual {a b : LogEntry α}
    (h : a.isDeepStrictEqual b = true) :
    a.kind = b.kind ∧ a.resultHash = b.resultHash ∧ a.cutoffHash = b.cutoffHash := by
  unfold LogEntry.isDeepStrictEqual at h
  simp only [Bool.and_eq_true, decide_eq_true_eq] at h
  exact ⟨h.1.1.1, h.1.2, h.2⟩

/-- The same entry after the same entries gets the same verdict. -/
theorem replayStep_congr {v v' : ObservationValidation τ α} (hsame : SameOutcomes v v') (tree : τ)
    {entry entry' : LogEntry α} (hdone : isDeepStrictEqual done done' = true)
    (hentry : entry.isDeepStrictEqual entry' = true) :
    replayStep v tree done entry = replayStep v' tree done' entry' := by
  obtain ⟨hreplay, hcallback⟩ :=
    hsame tree done done' entry entry' (isDeepStrictEqual_snoc hdone hentry)
  obtain ⟨hkind, hresult, hprojection⟩ := LogEntry.fields_of_isDeepStrictEqual hentry
  unfold replayStep hashCutoff
  rw [hreplay, hkind, hresult, hprojection]
  simp only [hcallback]

/-- A divergence shows again in every log that starts with what led to it. -/
theorem replayFrom_again {v v' : ObservationValidation τ α} (hsame : SameOutcomes v v') (tree : τ)
    {log log' : List (LogEntry α)} {cutoffIndices : List Nat} {d : Divergence} {k : Nat}
    (hdone : isDeepStrictEqual done done' = true)
    (h : replayFrom v tree done cutoffIndices log = .diverged d)
    (hat : d.divergedAt = done.length + k)
    (hstart : isDeepStrictEqual (log.take (k + 1)) (log'.take (k + 1)) = true) :
    replayFrom v' tree done' cutoffIndices log' = .diverged d := by
  induction log generalizing log' done done' cutoffIndices k with
  | nil =>
    unfold replayFrom at h
    cases h
  | cons entry rest ih =>
    cases log' with
    | nil =>
      unfold isDeepStrictEqual at hstart
      simp at hstart
    | cons entry' rest' =>
      unfold isDeepStrictEqual at hstart
      simp only [List.take_succ_cons, List.isEqv_cons_cons, Bool.and_eq_true] at hstart
      obtain ⟨hentry, hrest⟩ := hstart
      have hstep := replayStep_congr hsame tree hdone hentry
      have hkind := (LogEntry.fields_of_isDeepStrictEqual hentry).1
      have hlength := length_of_isDeepStrictEqual hdone
      have hsnoc := isDeepStrictEqual_snoc hdone hentry
      -- The loop goes on only to a later divergence.
      have hlater : ∀ {cutoffs : List Nat},
          replayFrom v tree (done ++ [entry]) cutoffs rest = .diverged d →
            replayFrom v' tree (done' ++ [entry']) cutoffs rest' = .diverged d := by
        intro cutoffs hcontinued
        obtain ⟨j, hj, hat'⟩ := replayFrom_diverged hcontinued
        rw [List.length_append, List.length_singleton] at hat'
        obtain ⟨k', rfl⟩ : ∃ k', k = k' + 1 := ⟨k - 1, by omega⟩
        refine ih hsnoc hcontinued ?_ hrest
        rw [List.length_append, List.length_singleton]
        omega
      unfold replayFrom at h ⊢
      rw [← hstep]
      cases hverdict : replayStep v tree done entry with
      | error =>
        rw [hverdict] at h
        simp only [← hkind, ← hlength]
        exact h
      | ok verdict =>
        rw [hverdict] at h
        cases verdict with
        | changed =>
          simp only [← hlength]
          exact h
        | same => exact hlater h
        | cutoff =>
          simp only [← hlength]
          exact hlater h

end Equal

end XioFlow.ObservationReplay
