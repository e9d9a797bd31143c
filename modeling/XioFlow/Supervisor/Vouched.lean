/-
  XioFlow.Supervisor.Vouched

  What a rollback that reports `complete` can be held to, and which history
  behind the snapshot makes the report true.
-/

import XioFlow.Supervisor.Coverage

namespace XioFlow

open Lib
open Recovery (deriveRollbackCoverage IgnoredManifestState)

namespace Supervisor

/-! ## Ignored files -/

/-- The file is as the manifest has it; `mtime` up to the precision of `utimes`. -/
structure IgnoredManifestEntry.SameAs (now old : IgnoredManifestEntry) : Prop where
  path : now.path = old.path
  size : now.size = old.size
  mode : now.mode = old.mode
  ctime : now.ctimeNs = old.ctimeNs
  mtime : sameMtime now.mtimeNs old.mtimeNs = true

/-- No ignored file was added, removed or touched. -/
structure IgnoredUnchanged (before after : List IgnoredManifestEntry) : Prop where
  kept : ∀ old ∈ before, ∃ now ∈ after, now.SameAs old
  known : ∀ now ∈ after, ∃ old ∈ before, old.path = now.path

/-- Nothing was found to differ so far. -/
structure IgnoredDiff.Clean (d : IgnoredDiff) : Prop where
  removed : d.removed = []
  modified : d.modified = []
  metadataOnly : d.metadataOnly = []

/-- An entry that finds no difference claims a file that is as it was. -/
theorem compareEntry_clean {d : IgnoredDiff} {old : IgnoredManifestEntry}
    (h : (compareEntry d old).Clean) :
    d.Clean ∧ (∃ now ∈ d.current, now.SameAs old) ∧
      (compareEntry d old).current = d.current.filter fun e => e.path ≠ old.path := by
  obtain ⟨hremoved, hmodified, hmetadata⟩ := h
  unfold compareEntry at hremoved hmodified hmetadata ⊢
  cases hfound : d.current.find? fun e => e.path = old.path with
  | none =>
    rw [hfound] at hremoved
    exact absurd hremoved (by simp)
  | some now =>
    have hnow := List.mem_of_find?_eq_some hfound
    have hpath : now.path = old.path := by
      have hp := List.find?_some hfound
      exact of_decide_eq_true hp
    rw [hfound] at hremoved hmodified hmetadata
    simp only at hremoved hmodified hmetadata ⊢
    split at hmodified
    · exact absurd hmodified (by simp)
    · rename_i hsame
      rw [if_neg hsame] at hremoved hmetadata ⊢
      push Not at hsame
      obtain ⟨hsize, hmode, hmtime⟩ := hsame
      split at hmetadata
      · exact absurd hmetadata (by simp)
      · rename_i hctime
        rw [if_neg hctime] at hremoved ⊢
        rw [if_neg hctime] at hmodified
        have hctime' : now.ctimeNs = old.ctimeNs := by
          by_contra hne
          exact hctime hne
        refine ⟨⟨hremoved, hmodified, hmetadata⟩, ⟨now, hnow, ?_⟩, rfl⟩
        exact ⟨hpath, hsize, hmode, hctime', by simpa using hmtime⟩

/-- A pass that finds no difference and leaves no file over has claimed every file. -/
theorem foldl_compareEntry_clean {before : List IgnoredManifestEntry} {d : IgnoredDiff}
    (h : (before.foldl compareEntry d).Clean)
    (hcurrent : (before.foldl compareEntry d).current = []) :
    d.Clean ∧ IgnoredUnchanged before d.current := by
  induction before generalizing d with
  | nil =>
    refine ⟨h, fun old hold => (nomatch hold), fun now hnow => ?_⟩
    rw [show d.current = [] from hcurrent] at hnow
    cases hnow
  | cons old before ih =>
    obtain ⟨hclean, hkept, hknown⟩ := ih h hcurrent
    obtain ⟨hd, hfirst, hrest⟩ := compareEntry_clean hclean
    rw [hrest] at hkept hknown
    refine ⟨hd, fun old' hold' => ?_, fun now hnow => ?_⟩
    · rcases List.mem_cons.1 hold' with rfl | hold'
      · exact hfirst
      · obtain ⟨now, hnow, hsame⟩ := hkept old' hold'
        exact ⟨now, (List.mem_filter.1 hnow).1, hsame⟩
    · by_cases hpath : now.path = old.path
      · exact ⟨old, List.mem_cons_self, hpath.symm⟩
      · have hleft : now ∈ d.current.filter fun e => e.path ≠ old.path :=
          List.mem_filter.2 ⟨hnow, by simpa using hpath⟩
        obtain ⟨old', hold', hpath'⟩ := hknown now hleft
        exact ⟨old', List.mem_cons_of_mem old hold', hpath'⟩

/-- `putEntry` keeps every path, adds the path of the entry, and nothing but the entry. -/
theorem mem_putEntry (current : List IgnoredManifestEntry) (entry : IgnoredManifestEntry) :
    (∀ e ∈ putEntry current entry, e ∈ current ∨ e = entry) ∧
      (∃ e ∈ putEntry current entry, e.path = entry.path) ∧
      ∀ e ∈ current, ∃ e' ∈ putEntry current entry, e'.path = e.path := by
  unfold putEntry
  split
  · rename_i hany
    obtain ⟨e₀, he₀, hpath₀⟩ := List.any_eq_true.1 hany
    have hreplaced : entry ∈ current.map fun e => if e.path = entry.path then entry else e :=
      List.mem_map.2 ⟨e₀, he₀, if_pos (of_decide_eq_true hpath₀)⟩
    refine ⟨fun e he => ?_, ⟨entry, hreplaced, rfl⟩, fun e he => ?_⟩
    · obtain ⟨old, hold, rfl⟩ := List.mem_map.1 he
      split
      · exact .inr rfl
      · exact .inl hold
    · by_cases hpath : e.path = entry.path
      · exact ⟨entry, hreplaced, hpath.symm⟩
      · exact ⟨e, List.mem_map.2 ⟨e, he, if_neg hpath⟩, rfl⟩
  · refine ⟨fun e he => ?_, ⟨entry, by simp, rfl⟩, fun e he => ⟨e, by simp [he], rfl⟩⟩
    rcases List.mem_append.1 he with hold | hnew
    · exact .inl hold
    · exact .inr (List.mem_singleton.1 hnew)

/-- The map of the entries holds entries, one for each path. -/
theorem mem_foldl_putEntry (entries current : List IgnoredManifestEntry) :
    (∀ e ∈ entries.foldl putEntry current, e ∈ current ∨ e ∈ entries) ∧
      (∀ e ∈ entries, ∃ e' ∈ entries.foldl putEntry current, e'.path = e.path) ∧
      ∀ e ∈ current, ∃ e' ∈ entries.foldl putEntry current, e'.path = e.path := by
  induction entries generalizing current with
  | nil => exact ⟨fun e he => .inl he, fun e he => (nomatch he), fun e he => ⟨e, he, rfl⟩⟩
  | cons entry entries ih =>
    obtain ⟨hold, hnew, hkept⟩ := ih (putEntry current entry)
    obtain ⟨honly, ⟨e₁, he₁, hpath₁⟩, hput⟩ := mem_putEntry current entry
    refine ⟨fun e he => ?_, fun e he => ?_, fun e he => ?_⟩
    · rcases hold e he with hcurrent | hentries
      · rcases honly e hcurrent with hc | rfl
        · exact .inl hc
        · exact .inr List.mem_cons_self
      · exact .inr (List.mem_cons_of_mem entry hentries)
    · rcases List.mem_cons.1 he with rfl | he
      · obtain ⟨e', he', hpath'⟩ := hkept e₁ he₁
        exact ⟨e', he', hpath'.trans hpath₁⟩
      · exact hnew e he
    · obtain ⟨e₂, he₂, hpath₂⟩ := hput e he
      obtain ⟨e', he', hpath'⟩ := hkept e₂ he₂
      exact ⟨e', he', hpath'.trans hpath₂⟩

/-- The verdict `unchanged` is only given when no ignored file has changed. -/
theorem diffIgnoredEntries_unchanged {before after : List IgnoredManifestEntry}
    (h : (diffIgnoredEntries before after).1 = .unchanged) : IgnoredUnchanged before after := by
  unfold diffIgnoredEntries at h
  simp only at h
  split at h
  · rename_i hnone
    obtain ⟨hdefinite, hmetadata⟩ := hnone
    have hclean : (before.foldl compareEntry { current := after.foldl putEntry [] }).Clean := by
      refine ⟨?_, ?_, ?_⟩
      · exact List.length_eq_zero_iff.1 (by omega)
      · exact List.length_eq_zero_iff.1 (by omega)
      · exact List.length_eq_zero_iff.1 hmetadata
    have hcurrent : (before.foldl compareEntry { current := after.foldl putEntry [] }).current
        = [] := by
      rw [List.length_map] at hdefinite
      exact List.length_eq_zero_iff.1 (by omega)
    obtain ⟨-, hkept, hknown⟩ := foldl_compareEntry_clean hclean hcurrent
    obtain ⟨hmem, hpaths, -⟩ := mem_foldl_putEntry after []
    refine ⟨fun old hold => ?_, fun now hnow => ?_⟩
    · obtain ⟨now, hnow, hsame⟩ := hkept old hold
      exact ⟨now, (hmem now hnow).resolve_left List.not_mem_nil, hsame⟩
    · obtain ⟨now', hnow', hpath⟩ := hpaths now hnow
      obtain ⟨old, hold, hpath'⟩ := hknown now' hnow'
      exact ⟨old, hold, hpath'.trans hpath⟩
  · split at h <;> cases h

/-! ## What the report is about -/

/-- Where a rollback stands when the driver has answered. -/
structure RollbackEnd where
  fs : FileSystem
  s : SqliteStore
  domainId : String
  snapshot : SnapshotRef
  targetRoots : List String
  call : RollbackCall
  answers : RestoreAnswers

/-- The kinds of operations that can touch files. -/
def OperationKind.hasEffects : OperationKind → Bool
  | .process | .service | .filesystem | .custom => true
  | _ => false

namespace RollbackEnd

def result (r : RollbackEnd) (now : Timestamp) : Except KernelError RollbackOperationResult :=
  rollbackResult r.fs r.s r.domainId r.snapshot r.targetRoots r.call r.answers now

/-- The path lies in one of the roots that are rolled back. -/
def Inside (r : RollbackEnd) (path : String) : Prop :=
  ∃ root ∈ r.targetRoots, r.fs.isPathContained root path = true

/-- The journal of the domain from the snapshot on; all of it when nothing says where the snapshot
    stands. -/
def rowsSince (r : RollbackEnd) : List JournalRow :=
  (r.s.getJournalEvents r.domainId).filter fun row => r.snapshot.journalSeq.getD 0 ≤ row.seq

/-- The operations of the domain that can have touched files. -/
def effectful (r : RollbackEnd) : List StoredOperation :=
  (r.s.getAllOperations r.domainId).filter fun op =>
    OperationKind.hasEffects op.kind ∧ op.id ≠ r.call.options.opId

def IsResult (op : StoredOperation) (row : JournalRow) : Prop :=
  row.type = "OPERATION_RESULT_RECORDED" ∧ row.operationId = some op.id

/-- The journal got the intent or the result of the operation after the snapshot. -/
def RecordedSince (r : RollbackEnd) (op : StoredOperation) : Prop :=
  ∃ row ∈ r.rowsSince, IsResult op row ∨
    row.type = "OPERATION_INTENT_REGISTERED" ∧ row.operationId = some op.id

/-- Every result of the operation says that it ran confined, and it could write nowhere but in the
    roots. -/
structure Harmless (r : RollbackEnd) (op : StoredOperation) : Prop where
  confined : ∀ row ∈ r.rowsSince, IsResult op row → saysConfined row.payload = true
  inside : ∀ opr ∈ op.mutationRoots.getD [], r.Inside opr

/-- The operation has a result in the journal since the snapshot. -/
def Answered (r : RollbackEnd) (op : StoredOperation) : Prop := ∃ row ∈ r.rowsSince, IsResult op row

/-- The transactions committed since the snapshot went to the roots. -/
def CommitsInside (r : RollbackEnd) : Prop :=
  ∀ row ∈ r.rowsSince, row.type = "TX_COMMITTED" →
    ∀ root, row.payload.strField? "root" = some root → r.Inside root

/-- What `complete` and `none_possible` say. -/
structure Sound (r : RollbackEnd) : Prop where
  confined : ∀ op ∈ r.effectful, r.RecordedSince op → r.Answered op ∧ r.Harmless op
  settled : ∀ op ∈ r.effectful, op.status = .done ∧
    ∀ result, op.result = some result → result.status ≠ .indeterminate
  committed : r.CommitsInside
  fingerprint : r.answers.currentFp r.targetRoots = r.snapshot.treeFingerprint
  ignored : (r.snapshot.coverage = .fullTree ∧ r.answers.unrestoredPaths = []) ∨
    ∃ before after, r.answers.manifest = some before ∧ r.answers.listIgnored = some after ∧
      IgnoredUnchanged before after

/-- The history behind the snapshot holds nothing that the check does not read. -/
structure Covered (r : RollbackEnd) : Prop where
  /-- without a position no result is read -/
  read : r.snapshot.journalSeq = none → ∀ op ∈ r.effectful, r.Answered op → r.Harmless op
  /-- an operation whose intent came later has its result in the journal -/
  answered : ∀ op ∈ r.effectful, r.RecordedSince op → r.Answered op
  /-- a transaction is no operation -/
  committed : r.CommitsInside

end RollbackEnd

/-! ## The evidence behind `complete` -/

theorem deriveRollbackCoverage_complete {facts : Recovery.RollbackCoverageFacts}
    (h : (deriveRollbackCoverage facts).coverage = "complete") :
    facts.status = .restored ∧ facts.effects = .confined ∧
      (facts.snapshotCoverage = .fullTree ∨ facts.ignoredManifest = .unchanged) := by
  obtain ⟨status, effects, coverage, manifest⟩ := facts
  cases status with
  | failed | partialRestore => exact absurd h (by simp [deriveRollbackCoverage])
  | restored =>
    cases effects with
    | unconfined | unverified => exact absurd h (by simp [deriveRollbackCoverage])
    | confined =>
      refine ⟨rfl, rfl, ?_⟩
      cases coverage with
      | fullTree => exact .inl rfl
      | worktreeNonIgnored =>
        right
        cases manifest with
        | unchanged => rfl
        | changed | inconclusive | unreadable | absent =>
          exact absurd h (by simp [deriveRollbackCoverage])

/-- The tree is restored when the fingerprint fits and no path was left. -/
theorem restoredStatus_restored {snapshot : SnapshotRef} {targetRoots : List String}
    {answers : RestoreAnswers} (h : restoredStatus snapshot targetRoots answers = .restored) :
    answers.currentFp targetRoots = snapshot.treeFingerprint ∧ answers.unrestoredPaths = [] := by
  unfold restoredStatus at h
  split at h
  · cases h
  · rename_i hsame
    split at h
    · cases h
    · rename_i hnone
      refine ⟨?_, List.length_eq_zero_iff.1 (by omega)⟩
      by_contra hne
      exact hsame hne

theorem compareIgnoredManifest_unchanged {snapshot : SnapshotRef} {answers : RestoreAnswers}
    (h : (compareIgnoredManifest snapshot answers).1 = .unchanged) :
    ∃ before after, answers.manifest = some before ∧ answers.listIgnored = some after ∧
      IgnoredUnchanged before after := by
  unfold compareIgnoredManifest at h
  split at h
  · cases h
  · split at h
    · rename_i before after hbefore hafter
      refine ⟨before, after, hbefore, hafter, diffIgnoredEntries_unchanged ?_⟩
      cases hverdict : (diffIgnoredEntries before after).1 with
      | unchanged => rfl
      | changed | inconclusive =>
        simp only [hverdict] at h
        cases h
    · cases h

theorem everyResult_true {ask : JournalRow → Except KernelError Bool} {rows : List JournalRow}
    (h : everyResult ask rows = .ok true) : ∀ row ∈ rows, ask row = .ok true := by
  induction rows with
  | nil => exact fun row hrow => (nomatch hrow)
  | cons row rows ih =>
    unfold everyResult at h
    cases hask : ask row with
    | error =>
      rw [hask] at h
      cases h
    | ok answer =>
      rw [hask] at h
      cases answer with
      | false => cases h
      | true =>
        intro row' hrow'
        rcases List.mem_cons.1 hrow' with rfl | hrest
        · exact hask
        · exact ih h row' hrest

namespace RollbackEnd

variable {r : RollbackEnd}

theorem mem_effectful {op : StoredOperation} (h : op ∈ r.effectful) :
    op ∈ r.s.getAllOperations r.domainId ∧ OperationKind.hasEffects op.kind = true ∧
      op.id ≠ r.call.options.opId ∧ OperationKind.kernelOwn op.kind = false := by
  obtain ⟨hmem, hkind⟩ := List.mem_filter.1 h
  obtain ⟨heffects, hid⟩ := of_decide_eq_true hkind
  refine ⟨hmem, heffects, hid, ?_⟩
  revert heffects
  cases op.kind <;> simp [OperationKind.hasEffects, OperationKind.kernelOwn]

/-- What has been checked when all effects are found confined to the roots. -/
theorem checked_of_confined
    (h : allEffectsConfinedToRoots r.fs r.s r.domainId r.snapshot r.targetRoots
      r.call.options.opId = .ok true) :
    (∀ op ∈ r.effectful, op.status = .done ∧
      ∀ result, op.result = some result → result.status ≠ .indeterminate) ∧
    (r.snapshot.journalSeq ≠ none → ∀ op ∈ r.effectful, r.Answered op → r.Harmless op) := by
  unfold allEffectsConfinedToRoots at h
  split at h
  · cases h
  · rename_i hquiet
    constructor
    · intro op hop
      obtain ⟨hmem, -, hid, hown⟩ := mem_effectful hop
      have hdone : stillRunning r.call.options.opId op = false := by
        rw [← Bool.not_eq_true]
        exact fun hrunning => hquiet (List.any_eq_true.2 ⟨op, hmem, hrunning⟩)
      unfold stillRunning at hdone
      simp only [hown, Bool.not_false, Bool.and_true, decide_not, Bool.and_eq_false_iff,
        Bool.not_eq_false', decide_eq_true_eq, Bool.or_eq_false_iff] at hdone
      obtain ⟨hstatus, hresult⟩ := hdone.resolve_left hid
      refine ⟨hstatus, fun result hsome hindeterminate => ?_⟩
      rw [hsome] at hresult
      -- only a process result can say `confined`
      obtain ⟨i, rfl⟩ := (OperationResult.status_indeterminate_iff result).1 hindeterminate
      exact absurd hresult (by simp [OperationResult.status, resultConfined])
    · intro hpositioned op hop hanswered
      obtain ⟨hmem, -, hid, hown⟩ := mem_effectful hop
      have hstored : r.s.getOperation op.id = some op :=
        Table.get?_of_mem (Table.mem_select.1 hmem).1
      obtain ⟨seq, hseq⟩ := Option.ne_none_iff_exists'.1 hpositioned
      -- what the check finds for a result of the operation
      have hfound : ∀ row ∈ r.rowsSince, IsResult op row → saysConfined row.payload = true ∧
          ∀ opr ∈ op.mutationRoots.getD [], r.Inside opr := by
        intro row hrow hresult
        have hsince : row ∈ eventsSince r.s r.domainId r.snapshot := by
          unfold eventsSince
          unfold rowsSince at hrow
          rw [hseq] at hrow ⊢
          exact hrow
        have hasked := everyResult_true h row (List.mem_filter.2 ⟨hsince, by
          simp [hresult.1, hresult.2, hid]⟩)
        unfold resultConfinedToRoots at hasked
        rw [hresult.2] at hasked
        split at hasked
        · cases hasked
        · rename_i operationId hname
          obtain rfl : op.id = operationId := by
            unfold nonEmpty at hname
            exact Option.some.inj (Option.filter_eq_some_iff.1 hname).1
          rw [hstored] at hasked
          simp only [Option.any_some, hown, Bool.false_eq_true, if_false] at hasked
          split at hasked
          · cases hasked
          · rename_i hconfined
            refine ⟨by simpa using hconfined, fun opr hopr => ?_⟩
            have hall := Except.ok.inj hasked
            rw [List.all_eq_true] at hall
            exact List.any_eq_true.1 (hall opr hopr)
      obtain ⟨row, hrow, hresult⟩ := hanswered
      exact ⟨fun row' hrow' hresult' => (hfound row' hrow' hresult').1, (hfound row hrow hresult).2⟩

/-- The evidence behind a report `complete`. -/
theorem result_complete {now : Timestamp} {result : RollbackOperationResult}
    (hresult : r.result now = .ok result) (hcomplete : result.coverage = "complete") :
    r.answers.currentFp r.targetRoots = r.snapshot.treeFingerprint ∧
    ((r.snapshot.coverage = .fullTree ∧ r.answers.unrestoredPaths = []) ∨
      (compareIgnoredManifest r.snapshot r.answers).1 = .unchanged) ∧
    allEffectsConfinedToRoots r.fs r.s r.domainId r.snapshot r.targetRoots r.call.options.opId =
      .ok true := by
  unfold RollbackEnd.result rollbackResult at hresult
  cases hconfined : allEffectsConfinedToRoots r.fs r.s r.domainId r.snapshot r.targetRoots
      r.call.options.opId with
  | error =>
    rw [hconfined] at hresult
    cases hresult
  | ok confined =>
    rw [hconfined] at hresult
    obtain rfl := Except.ok.inj hresult
    obtain ⟨hstatus, heffects, hignored⟩ := deriveRollbackCoverage_complete hcomplete
    obtain ⟨hfingerprint, hleft⟩ := restoredStatus_restored hstatus
    refine ⟨hfingerprint, ?_, ?_⟩
    · rcases hignored with hfull | hunchanged
      · exact .inl ⟨hfull, hleft⟩
      · exact .inr hunchanged
    · cases confined with
      | true => rfl
      | false => cases heffects

end RollbackEnd

/-! ## Whether the report is true -/

open RollbackEnd in
/-- A rollback reports `complete` truthfully exactly when nothing stands behind the snapshot that
    its check does not read; after a crash it never reports `complete`. -/
theorem complete_rollback_vouches (r : RollbackEnd) (now : Timestamp)
    {result : RollbackOperationResult} (hresult : r.result now = .ok result)
    (hcomplete : result.coverage = "complete") :
    (r.Sound ↔ r.Covered) ∧
    ∀ getSnapshot ctx op recovered,
      (Recovery.rollbackVerdict getSnapshot ctx op).result ctx.now = .rollback recovered →
        recovered.coverage ≠ "complete" := by
  obtain ⟨hfingerprint, hignored, hconfined⟩ := result_complete hresult hcomplete
  obtain ⟨hsettled, hread⟩ := checked_of_confined hconfined
  refine ⟨⟨fun hsound => ?_, fun hcovered => ?_⟩, ?_⟩
  · refine ⟨fun _ op hop hanswered => ?_, fun op hop hsince => (hsound.confined op hop hsince).1,
      hsound.committed⟩
    obtain ⟨row, hrow, hrowResult⟩ := hanswered
    exact (hsound.confined op hop ⟨row, hrow, .inl hrowResult⟩).2
  · refine ⟨fun op hop hsince => ?_, hsettled, hcovered.committed, hfingerprint, ?_⟩
    · have hanswered := hcovered.answered op hop hsince
      refine ⟨hanswered, ?_⟩
      by_cases hpositioned : r.snapshot.journalSeq = none
      · exact hcovered.read hpositioned op hop hanswered
      · exact hread hpositioned op hop hanswered
    · rcases hignored with hfull | hunchanged
      · exact .inl hfull
      · exact .inr (compareIgnoredManifest_unchanged hunchanged)
  · intro getSnapshot ctx op recovered hrecovered
    unfold Recovery.rollbackVerdict at hrecovered
    simp only at hrecovered
    split at hrecovered
    · cases hrecovered
    · split at hrecovered
      · cases hrecovered
        intro hreported
        -- recovery has not verified the effects
        have heffects := (deriveRollbackCoverage_complete hreported).2.1
        cases heffects
      · cases hrecovered

/-- A confined process that could write to `/w`. -/
def confinedBuild : StoredOperation :=
  { Operation.sample "o" [] with
    mutationRoots := some ["/w"]
    status := .done
    result := some (.process {
      status := .succeeded, durationMs := 1, completedAt := 1, facts := [("confined", .bool true)] })
    domainId := "d" }

def sampleRow (operationId : Option String) (type : String) (payload : Json) : JournalRow where
  seq := 0
  domainId := "d"
  runId := some "r"
  operationId := operationId
  type := type
  payload := payload
  timestamp := 1
  schemaVersion := "xio/event/1.0"
  requestId := none
  programId := none
  instructionId := none
  opId := operationId
  event := type
  sensitivity := .internal
  createdAt := 1

/-- A snapshot of `/w`, a confined build and a transaction that was committed to a root. -/
def historyWithCommit (root : String) : Journal :=
  (((Journal.empty.append (sampleRow (some "snap") "SNAPSHOT_CAPTURED" (.obj []))).append
    (sampleRow (some "o") "OPERATION_INTENT_REGISTERED" (.obj []))).append
    (sampleRow (some "o") "OPERATION_RESULT_RECORDED"
      (.obj [("result", .obj [("confined", .bool true)])]))).append
    (sampleRow none "TX_COMMITTED" (.obj [("txId", .str "tx"), ("root", .str root)]))

/-- The rollback of `/w` to that snapshot. -/
def rollbackAfterCommit (root : String) : RollbackEnd where
  fs := plainFiles []
  s := {
    db := { Database.sample with
      operations := ⟨[confinedBuild], by simp⟩
      journalEvents := historyWithCommit root }
    currentEpoch := some 1 }
  domainId := "d"
  snapshot := {
    id := "s", domainId := "d", opId := "snap", driver := "git-shadow", roots := ["/w"]
    coverage := .fullTree, treeFingerprint := "t", journalSeq := some 1, createdAt := 1 }
  targetRoots := ["/w"]
  call := {
    ticket := 0, options := { runId := "r", opId := "rb", snapshotId := "s" }, startTime := 5 }
  answers := {
    restore := { unrestoredPaths := [] }
    fingerprint := fun _ _ => "t"
    manifest := none
    listIgnored := none }

theorem ok_of_toOption {ε α : Type} {x : Except ε α} {a : α} (h : x.toOption = some a) :
    x = .ok a := by
  cases x with
  | error => cases h
  | ok => exact congrArg Except.ok (Option.some.inj h)

/-- A commit inside the root is rolled back with it. -/
theorem rollback_vouches_inner_commit : ∃ result,
    (rollbackAfterCommit "/w/a").result 9 = .ok result ∧ result.coverage = "complete" ∧
      (rollbackAfterCommit "/w/a").Sound := by
  have hreport : ((rollbackAfterCommit "/w/a").result 9).toOption.map
      (fun result => result.coverage) = some "complete" := by decide +kernel
  obtain ⟨result, hresult, hcomplete⟩ := Option.map_eq_some_iff.1 hreport
  have hok := ok_of_toOption hresult
  have hoperations : (rollbackAfterCommit "/w/a").effectful = [confinedBuild] := by decide +kernel
  refine ⟨result, hok, hcomplete, (complete_rollback_vouches _ 9 hok hcomplete).1.2 ?_⟩
  refine ⟨fun hunknown => (nomatch hunknown), fun op hop _ => ?_, fun row hrow htype root hroot => ?_⟩
  · rw [hoperations] at hop
    obtain rfl := List.mem_singleton.1 hop
    have hanswer : ∃ row ∈ (rollbackAfterCommit "/w/a").rowsSince,
        row.type = "OPERATION_RESULT_RECORDED" ∧ row.operationId = some "o" := by decide +kernel
    exact hanswer
  · have hroots : ∀ row ∈ (rollbackAfterCommit "/w/a").rowsSince, row.type = "TX_COMMITTED" →
        row.payload.strField? "root" = some "/w/a" := by decide +kernel
    obtain rfl : "/w/a" = root := Option.some.inj ((hroots row hrow htype).symm.trans hroot)
    exact ⟨"/w", List.mem_singleton.2 rfl, by decide +kernel⟩

/-- A transaction committed elsewhere since the snapshot does not keep the rollback from reporting
    `complete`. -/
theorem outer_commit_unnoticed : ∃ result,
    (rollbackAfterCommit "/other").result 9 = .ok result ∧ result.coverage = "complete" ∧
      result.outOfScopeEffects = "none_possible" ∧ ¬ (rollbackAfterCommit "/other").Sound := by
  have hreport : ((rollbackAfterCommit "/other").result 9).toOption.map
      (fun result => (result.coverage, result.outOfScopeEffects)) =
        some ("complete", "none_possible") := by decide +kernel
  obtain ⟨result, hresult, hpair⟩ := Option.map_eq_some_iff.1 hreport
  have hok := ok_of_toOption hresult
  refine ⟨result, hok, (Prod.mk.inj hpair).1, (Prod.mk.inj hpair).2, fun hsound => ?_⟩
  have hcommit : ∃ row ∈ (rollbackAfterCommit "/other").rowsSince, row.type = "TX_COMMITTED" ∧
      row.payload.strField? "root" = some "/other" := by decide +kernel
  obtain ⟨row, hrow, htype, hroot⟩ := hcommit
  obtain ⟨root, hmem, hcontained⟩ := hsound.committed row hrow htype "/other" hroot
  obtain rfl := List.mem_singleton.1 hmem
  exact absurd hcontained (by decide +kernel)

end Supervisor
end XioFlow
