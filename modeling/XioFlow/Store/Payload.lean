/-
  XioFlow.Store.Payload

  The host values of the records that the store puts into event payloads.
  An absent optional field is `undefined`, which redaction drops.
-/

import XioFlow.Store.EventEnvelope

namespace XioFlow

open JsValue (ofOption ofNat ofInt ofStrings)
open JsValue

/-- A time as it stands in a payload. -/
def JsValue.ofTime (t : Timestamp) : JsValue := .str (toISOString t)

/-- `flag?: true` -/
def JsValue.ofFlag (flag : Bool) : JsValue := if flag then .bool true else .undefined

open JsValue (ofTime ofFlag)

def ProcessIdentity.toJs (i : ProcessIdentity) : JsValue := .obj [
  ("pid", ofNat i.pid),
  ("pgid", ofOption ofNat i.pgid),
  ("startTimeMonotonic", ofOption ofNat i.startTimeMonotonic),
  ("spawnTime", ofTime i.spawnTime),
  ("osStartTime", ofOption .str i.osStartTime),
  ("commandFingerprint", ofOption .str i.commandFingerprint),
  ("bootId", ofOption .str i.bootId),
  ("cgroupPath", ofOption .str i.cgroupPath)]

def ResourceBudget.toJs (b : ResourceBudget) : JsValue := .obj [
  ("maxMemoryBytes", ofOption ofNat b.maxMemoryBytes),
  ("maxPids", ofOption ofNat b.maxPids),
  ("maxCpuTimeMs", ofOption ofNat b.maxCpuTimeMs),
  ("maxOutputBytes", ofOption ofNat b.maxOutputBytes),
  ("enforcement", .str b.enforcement.text)]

def AdjudicationRecord.toJs (a : AdjudicationRecord) : JsValue := .obj [
  ("operationId", .str a.operationId),
  ("verdict", .str a.verdict.text),
  ("decision", ofOption (fun d => .str d.text) a.decision),
  ("actor", .str a.actor),
  ("note", ofOption .str a.note),
  ("evidence", ofOption .str a.evidence),
  ("residualPids", ofOption (fun pids => .arr (pids.map ofNat)) a.residualPids),
  ("decidedAt", ofTime a.decidedAt)]

def SnapshotRef.toJs (s : SnapshotRef) : JsValue := .obj [
  ("id", .str s.id),
  ("domainId", .str s.domainId),
  ("opId", .str s.opId),
  ("driver", .str s.driver),
  ("roots", ofStrings s.roots),
  ("coverage", .str s.coverage.text),
  ("treeFingerprint", .str s.treeFingerprint),
  ("commitHash", ofOption .str s.commitHash),
  ("journalSeq", ofOption ofNat s.journalSeq),
  ("createdAt", ofTime s.createdAt),
  ("treeSizeBytes", ofOption ofNat s.treeSizeBytes),
  ("ignoredManifestDigest", ofOption .str s.ignoredManifestDigest)]

/-- The properties all results share. -/
def BaseResult.entries (b : BaseResult) : List (String × JsValue) := [
  ("durationMs", ofNat b.durationMs),
  ("completedAt", ofTime b.completedAt),
  ("replayed", ofFlag b.replayed),
  ("runId", ofOption .str b.runId),
  ("capabilityId", ofOption .str b.capabilityId)]

/-- The properties only one kind of result has. -/
def OperationResult.ownEntries : OperationResult → List (String × JsValue)
  | process r => [
      ("exitCode", match r.exitCode with
        | none => .null
        | some code => ofInt code),
      ("signal", match r.signal with
        | none => .null
        | some signal => .str signal),
      ("stdout", .str r.stdout),
      ("stderr", .str r.stderr),
      ("outputRef", ofOption .str r.outputRef),
      ("terminationReason", ofOption (fun reason => .str reason.text) r.terminationReason),
      ("residualPids", ofOption (fun pids => .arr (pids.map ofNat)) r.residualPids)] ++
      r.facts.map fun fact => (fact.1, fact.2.toJs)
  | filesystem r => [
      ("targetPath", .str r.targetPath),
      ("action", .str r.action),
      ("bytesWritten", ofOption ofNat r.bytesWritten),
      ("outputRef", ofOption .str r.outputRef),
      ("errorMessage", ofOption .str r.errorMessage)]
  | generic r => [
      ("outputRef", ofOption .str r.outputRef),
      ("errorMessage", ofOption .str r.errorMessage)]
  | indeterminate r => [
      ("terminationReason", ofOption (fun reason => .str reason.text) r.terminationReason),
      ("resourceSamplingError", ofOption .str r.resourceSamplingError),
      ("reason", .str r.reason),
      ("recoveryGuidance", .str r.recoveryGuidance),
      ("adjudication", ofOption AdjudicationRecord.toJs r.adjudication)]
  | snapshot r => [
      ("snapshot", ofOption SnapshotRef.toJs r.snapshot),
      ("errorMessage", ofOption .str r.errorMessage)]
  | rollback r => [
      ("snapshotId", .str r.snapshotId),
      ("unrestoredPaths", ofOption ofStrings r.unrestoredPaths),
      ("coverage", .str r.coverage),
      ("outOfScopeEffects", .str r.outOfScopeEffects),
      ("ignoredFiles", .str r.ignoredFiles),
      ("coverageBasis", ofStrings r.coverageBasis),
      ("errorMessage", ofOption .str r.errorMessage)]

def OperationResult.toJs (result : OperationResult) : JsValue :=
  .obj ([("kind", .str result.kind), ("status", .str result.status.text)] ++
    result.ownEntries ++ result.base.entries)

/-! ## None of these records is ever refused -/

namespace JsValue

theorem plainEntries_cons {key : String} {v : JsValue} {entries : List (String × JsValue)}
    (hv : v = .undefined ∨ v.plain = true) (hrest : plainEntries entries = true) :
    plainEntries ((key, v) :: entries) = true := by
  simp only [plainEntries, Bool.and_eq_true, Bool.or_eq_true, isUndefined_iff]
  exact ⟨hv, hrest⟩

theorem plainEntries_append {xs ys : List (String × JsValue)} (hx : plainEntries xs = true)
    (hy : plainEntries ys = true) : plainEntries (xs ++ ys) = true := by
  induction xs with
  | nil => exact hy
  | cons x xs ih =>
    obtain ⟨key, v⟩ := x
    simp only [plainEntries, Bool.and_eq_true, Bool.or_eq_true, isUndefined_iff] at hx
    exact plainEntries_cons hx.1 (ih hx.2)

/-- Properties built from plain values and absent options are plain. -/
theorem plainEntries_of_forall {entries : List (String × JsValue)}
    (h : ∀ e ∈ entries, e.2 = .undefined ∨ e.2.plain = true) : plainEntries entries = true := by
  induction entries with
  | nil => rfl
  | cons e entries ih =>
    exact plainEntries_cons (h e List.mem_cons_self)
      (ih fun e' he' => h e' (List.mem_cons_of_mem _ he'))

theorem plainItems_of_forall {items : List JsValue} (h : ∀ v ∈ items, v.plain = true) :
    plainItems items = true := by
  induction items with
  | nil => rfl
  | cons v items ih =>
    unfold plainItems
    rw [h v List.mem_cons_self, ih fun v' hv' => h v' (List.mem_cons_of_mem _ hv')]
    rfl

theorem ofOption_plain {α : Type} {toJs : α → JsValue} (h : ∀ a, (toJs a).plain = true)
    (o : Option α) : ofOption toJs o = .undefined ∨ (ofOption toJs o).plain = true := by
  cases o with
  | none => exact .inl rfl
  | some a => exact .inr (h a)

theorem ofStrings_plain (items : List String) : (ofStrings items).plain = true := by
  unfold ofStrings
  refine plainItems_of_forall ?_
  intro v hv
  obtain ⟨s, _, rfl⟩ := List.mem_map.1 hv
  rfl

theorem ofNats_plain (items : List Nat) : (arr (items.map ofNat)).plain = true := by
  refine plainItems_of_forall ?_
  intro v hv
  obtain ⟨n, _, rfl⟩ := List.mem_map.1 hv
  rfl

theorem ofFlag_plain (flag : Bool) : ofFlag flag = .undefined ∨ (ofFlag flag).plain = true := by
  cases flag
  · exact .inl rfl
  · exact .inr rfl

end JsValue

open JsValue (ofOption_plain ofStrings_plain ofNats_plain ofFlag_plain plainEntries_of_forall)

mutual

theorem Json.toJs_plain : ∀ j : Json, j.toJs.plain = true
  | .null => rfl
  | .bool _ => rfl
  | .num _ => rfl
  | .str _ => rfl
  | .arr items => by
      simp only [Json.toJs, plain]
      exact Json.toJsItems_plain items
  | .obj entries => by
      simp only [Json.toJs, plain]
      exact Json.toJsEntries_plain entries

theorem Json.toJsItems_plain : ∀ js : List Json,
    plainItems (Json.toJsItems js) = true
  | [] => rfl
  | j :: js => by
      simp only [Json.toJsItems, plainItems, Json.toJs_plain j, Json.toJsItems_plain js,
        Bool.and_self]

theorem Json.toJsEntries_plain : ∀ es : List (String × Json),
    plainEntries (Json.toJsEntries es) = true
  | [] => rfl
  | (_, j) :: es => plainEntries_cons (.inr (Json.toJs_plain j))
      (Json.toJsEntries_plain es)

end

theorem ProcessIdentity.toJs_plain (i : ProcessIdentity) : i.toJs.plain = true := by
  unfold toJs
  refine plainEntries_of_forall ?_
  simp only [List.forall_mem_cons]
  exact ⟨.inr rfl, ofOption_plain (fun _ => rfl) _, ofOption_plain (fun _ => rfl) _, .inr rfl,
    ofOption_plain (fun _ => rfl) _, ofOption_plain (fun _ => rfl) _,
    ofOption_plain (fun _ => rfl) _, ofOption_plain (fun _ => rfl) _, by simp⟩

theorem AdjudicationRecord.toJs_plain (a : AdjudicationRecord) : a.toJs.plain = true := by
  unfold toJs
  refine plainEntries_of_forall ?_
  simp only [List.forall_mem_cons]
  exact ⟨.inr rfl, .inr rfl, ofOption_plain (fun _ => rfl) _, .inr rfl,
    ofOption_plain (fun _ => rfl) _, ofOption_plain (fun _ => rfl) _,
    ofOption_plain ofNats_plain _, .inr rfl, by simp⟩

theorem SnapshotRef.toJs_plain (s : SnapshotRef) : s.toJs.plain = true := by
  unfold toJs
  refine plainEntries_of_forall ?_
  simp only [List.forall_mem_cons]
  exact ⟨.inr rfl, .inr rfl, .inr rfl, .inr rfl, .inr (ofStrings_plain _), .inr rfl,
    .inr rfl, ofOption_plain (fun _ => rfl) _, ofOption_plain (fun _ => rfl) _, .inr rfl,
    ofOption_plain (fun _ => rfl) _, ofOption_plain (fun _ => rfl) _, by simp⟩

namespace OperationResult

theorem ownEntries_plain (result : OperationResult) :
    plainEntries result.ownEntries = true := by
  cases result with
  | process r =>
    refine plainEntries_append (plainEntries_of_forall ?_) (plainEntries_of_forall ?_)
    · simp only [List.forall_mem_cons]
      refine ⟨.inr ?_, .inr ?_, .inr rfl, .inr rfl, ofOption_plain (fun _ => rfl) _,
        ofOption_plain (fun _ => rfl) _, ofOption_plain ofNats_plain _, by simp⟩
      · cases r.exitCode <;> rfl
      · cases r.signal <;> rfl
    · intro e he
      obtain ⟨fact, -, rfl⟩ := List.mem_map.1 he
      exact .inr (Json.toJs_plain fact.2)
  | filesystem =>
    refine plainEntries_of_forall ?_
    simp only [ownEntries, List.forall_mem_cons]
    exact ⟨.inr rfl, .inr rfl, ofOption_plain (fun _ => rfl) _,
      ofOption_plain (fun _ => rfl) _, ofOption_plain (fun _ => rfl) _, by simp⟩
  | generic =>
    refine plainEntries_of_forall ?_
    simp only [ownEntries, List.forall_mem_cons]
    exact ⟨ofOption_plain (fun _ => rfl) _, ofOption_plain (fun _ => rfl) _, by simp⟩
  | indeterminate =>
    refine plainEntries_of_forall ?_
    simp only [ownEntries, List.forall_mem_cons]
    exact ⟨ofOption_plain (fun _ => rfl) _, ofOption_plain (fun _ => rfl) _, .inr rfl,
      .inr rfl, ofOption_plain AdjudicationRecord.toJs_plain _, by simp⟩
  | snapshot =>
    refine plainEntries_of_forall ?_
    simp only [ownEntries, List.forall_mem_cons]
    exact ⟨ofOption_plain SnapshotRef.toJs_plain _, ofOption_plain (fun _ => rfl) _, by simp⟩
  | rollback =>
    refine plainEntries_of_forall ?_
    simp only [ownEntries, List.forall_mem_cons]
    exact ⟨.inr rfl, ofOption_plain ofStrings_plain _, .inr rfl, .inr rfl, .inr rfl,
      .inr (ofStrings_plain _), ofOption_plain (fun _ => rfl) _, by simp⟩

theorem toJs_plain (result : OperationResult) : result.toJs.plain = true := by
  unfold toJs
  have hbase : plainEntries result.base.entries = true := by
    refine plainEntries_of_forall ?_
    unfold BaseResult.entries
    simp only [List.forall_mem_cons]
    exact ⟨.inr rfl, .inr rfl, ofFlag_plain _, ofOption_plain (fun _ => rfl) _,
      ofOption_plain (fun _ => rfl) _, by simp⟩
  have hhead : plainEntries
      [("kind", .str result.kind), ("status", .str result.status.text)] = true := rfl
  exact plainEntries_append (plainEntries_append hhead result.ownEntries_plain)
    hbase

end OperationResult
end XioFlow
