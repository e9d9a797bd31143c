/-
  XioFlow.Workspace.IncrementalIndex

  The index a transaction stores with its reads and with its commit: how it
  is built and merged, and what the parser makes of it when it comes back out
  of the journal.

  The digest is computed before the journal redacts the payload, so an index
  comes back exactly when redaction leaves the whole of it alone.
-/

import XioFlow.Workspace.CausalGraph
import XioFlow.Lib.Unicode
import Mathlib.Data.List.Sort

namespace XioFlow

open Lib Lib.Prog
open JsValue

/-! ## Orders of the host language -/

def unitsLe : List Nat → List Nat → Bool
  | [], _ => true
  | _ :: _, [] => false
  | x :: xs, y :: ys => decide (x < y) || (x == y && unitsLe xs ys)

/-- `a <= b` on strings: code unit by code unit. -/
def textLe (a b : String) : Bool :=
  unitsLe ((Utf16.ofChars a.toList).map Fin.val) ((Utf16.ofChars b.toList).map Fin.val)

theorem unitsLe_total (xs ys : List Nat) : unitsLe xs ys = true ∨ unitsLe ys xs = true := by
  induction xs generalizing ys with
  | nil => exact .inl rfl
  | cons x xs ih =>
    cases ys with
    | nil => exact .inr rfl
    | cons y ys =>
      simp only [unitsLe, Bool.or_eq_true, Bool.and_eq_true, decide_eq_true_eq, beq_iff_eq]
      rcases Nat.lt_trichotomy x y with hlt | heq | hgt
      · exact .inl (.inl hlt)
      · rcases ih ys with hle | hge
        · exact .inl (.inr ⟨heq, hle⟩)
        · exact .inr (.inr ⟨heq.symm, hge⟩)
      · exact .inr (.inl hgt)

theorem unitsLe_trans {xs ys zs : List Nat} (hxy : unitsLe xs ys = true)
    (hyz : unitsLe ys zs = true) : unitsLe xs zs = true := by
  induction xs generalizing ys zs with
  | nil => rfl
  | cons x xs ih =>
    cases ys with
    | nil => cases hxy
    | cons =>
      cases zs with
      | nil => cases hyz
      | cons =>
        simp only [unitsLe, Bool.or_eq_true, Bool.and_eq_true, decide_eq_true_eq,
          beq_iff_eq] at hxy hyz ⊢
        rcases hxy with hxy | ⟨rfl, hxs⟩
        · rcases hyz with hyz | ⟨rfl, -⟩
          · exact .inl (Nat.lt_trans hxy hyz)
          · exact .inl hxy
        · rcases hyz with hyz | ⟨rfl, hys⟩
          · exact .inl hyz
          · exact .inr ⟨rfl, ih hxs hys⟩

theorem unitsLe_antisymm {xs ys : List Nat} (hxy : unitsLe xs ys = true)
    (hyx : unitsLe ys xs = true) : xs = ys := by
  induction xs generalizing ys with
  | nil =>
    cases ys with
    | nil => rfl
    | cons => cases hyx
  | cons x xs ih =>
    cases ys with
    | nil => cases hxy
    | cons y ys =>
      simp only [unitsLe, Bool.or_eq_true, Bool.and_eq_true, decide_eq_true_eq,
        beq_iff_eq] at hxy hyx
      have heq : x = y := by omega
      have hxs : unitsLe xs ys = true := by
        rcases hxy with hlt | hle
        · omega
        · exact hle.2
      have hys : unitsLe ys xs = true := by
        rcases hyx with hlt | hle
        · omega
        · exact hle.2
      rw [heq, ih hxs hys]

theorem textLe_total (a b : String) : textLe a b = true ∨ textLe b a = true :=
  unitsLe_total _ _

theorem textLe_trans {a b c : String} (hab : textLe a b = true) (hbc : textLe b c = true) :
    textLe a c = true :=
  unitsLe_trans hab hbc

theorem textLe_antisymm {a b : String} (hab : textLe a b = true) (hba : textLe b a = true) :
    a = b := by
  have hunits := unitsLe_antisymm hab hba
  have hchars := Utf16.ofChars_injective (List.map_injective_iff.2 Fin.val_injective hunits)
  exact String.toList_inj.1 hchars

/-- The array index that a property name spells, if it does. -/
def arrayIndex? (name : String) : Option Nat :=
  (decimalValue? name.toList).filter fun n =>
    n < 4294967295 && name.toList == digitsOf n

/-- The order in which an object enumerates properties that were added in this order: array indices
    first and ascending, then the other names as they were added. -/
def propertyOrder (entries : List (String × String)) : List (String × String) :=
  (entries.filter fun e => (arrayIndex? e.1).isSome).insertionSort
      (fun a b => (arrayIndex? a.1).getD 0 ≤ (arrayIndex? b.1).getD 0) ++
    entries.filter fun e => (arrayIndex? e.1).isNone

theorem propertyOrder_perm (entries : List (String × String)) :
    (propertyOrder entries).Perm entries := by
  unfold propertyOrder
  have hsplit := List.filter_append_perm (fun e => (arrayIndex? e.1).isSome) entries
  have hrest : (entries.filter fun e => (arrayIndex? e.1).isNone) =
      entries.filter fun e => !(arrayIndex? e.1).isSome :=
    List.filter_congr fun e _ => by cases arrayIndex? e.1 <;> rfl
  rw [hrest]
  exact ((List.perm_insertionSort _ _).append_right _).trans hsplit

/-! ## The index -/

inductive WorkspaceIndexCoverage where
  | complete | nonIgnored | declaredRoots | unknown
  deriving DecidableEq

def WorkspaceIndexCoverage.text : WorkspaceIndexCoverage → String
  | complete => "complete"
  | nonIgnored => "non_ignored"
  | declaredRoots => "declared_roots"
  | unknown => "unknown"

def workspaceIndexSchemaVersion : String := "xio/workspace-index/1"

/-- `Omit<WorkspaceIncrementalIndex, 'digest'>` without its constant schema version. -/
structure WorkspaceIndexBody where
  root : String
  readSet : Option (List String)
  writeSet : List WriteEntry
  discoverySet : Option (List String)
  symbolSlice : Option (List (String × String))
  ignoredManifest : Option String
  pathDependencies : Option (List String)
  coverage : WorkspaceIndexCoverage
  coverageBasis : List String

/-- `null` or the value. -/
def orNull {α : Type} (toJson : α → Json) : Option α → Json
  | none => .null
  | some a => toJson a

def Json.ofStrings (items : List String) : Json := .arr (items.map .str)

def WriteEntry.toJson (w : WriteEntry) : Json :=
  .obj [("status", .str w.status.text), ("path", .str w.path)]

def symbolSliceJson (slice : List (String × String)) : Json :=
  .obj (slice.map fun e => (e.1, .str e.2))

/-- The properties of the body, in order. -/
def WorkspaceIndexBody.entries (b : WorkspaceIndexBody) : List (String × Json) :=
  [("schemaVersion", .str workspaceIndexSchemaVersion),
    ("root", .str b.root),
    ("readSet", orNull .ofStrings b.readSet),
    ("writeSet", .arr (b.writeSet.map WriteEntry.toJson)),
    ("discoverySet", orNull .ofStrings b.discoverySet),
    ("symbolSlice", orNull symbolSliceJson b.symbolSlice),
    ("ignoredManifest", orNull .str b.ignoredManifest),
    ("pathDependencies", orNull .ofStrings b.pathDependencies),
    ("coverage", .str b.coverage.text),
    ("coverageBasis", .ofStrings b.coverageBasis)]

def workspaceIndexDigest [Crypto] (body : List (String × Json)) : String :=
  Crypto.sha256 (.obj body)

/-- An index: its digest is the one of its body. -/
structure WorkspaceIncrementalIndex [Crypto] extends WorkspaceIndexBody where
  digest : String
  verifies : workspaceIndexDigest toWorkspaceIndexBody.entries = digest

def WorkspaceIncrementalIndex.toJson [Crypto] (index : WorkspaceIncrementalIndex) : Json :=
  .obj (index.entries ++ [("digest", .str index.digest)])

/-! ## Building and merging -/

/-- `texts.sort()` -/
def sortTexts (texts : List String) : List String :=
  texts.insertionSort fun a b => textLe a b = true

def uniqueSorted (values : List String) : List String :=
  values.eraseDups.insertionSort fun a b => textLe a b = true

theorem mem_sortTexts {texts : List String} {t : String} : t ∈ sortTexts texts ↔ t ∈ texts :=
  List.mem_insertionSort _

theorem mem_uniqueSorted {texts : List String} {t : String} :
    t ∈ uniqueSorted texts ↔ t ∈ texts := by
  unfold uniqueSorted
  rw [List.mem_insertionSort, List.mem_eraseDups]

def stableSymbolSlice (value : List (String × String)) : List (String × String) :=
  propertyOrder (value.insertionSort fun a b => textLe a.1 b.1 = true)

/-- By path, then by status. -/
def writeEntryLe (a b : WriteEntry) : Bool :=
  if a.path = b.path then textLe a.status.text b.status.text else textLe a.path b.path

def normalizeWriteSet (values : List WriteEntry) : List WriteEntry :=
  values.insertionSort fun a b => writeEntryLe a b = true

structure WorkspaceIncrementalIndexInput where
  root : String
  readSet : Option (List String)
  writeSet : List WriteEntry
  discoverySet : Option (List String)
  symbolSlice : Option (List (String × String)) := none
  ignoredManifest : Option String := none
  pathDependencies : Option (List String)
  coverageNotes : List String := []

/-- The evidence that could not be observed. -/
def missingEvidence (input : WorkspaceIncrementalIndexInput) : List String :=
  (if input.readSet.isNone then ["read_set_unobserved"] else []) ++
    (if input.discoverySet.isNone then ["discovery_set_unobserved"] else []) ++
    (if input.pathDependencies.isNone then ["path_dependencies_unobserved"] else [])

/-- `input.ignoredManifest ? … : …` -/
def hasManifest (input : WorkspaceIncrementalIndexInput) : Bool :=
  (nonEmpty input.ignoredManifest).isSome

def indexBody (input : WorkspaceIncrementalIndexInput) : WorkspaceIndexBody where
  root := input.root
  readSet := input.readSet.map uniqueSorted
  writeSet := normalizeWriteSet input.writeSet
  discoverySet := input.discoverySet.map uniqueSorted
  symbolSlice := input.symbolSlice.map stableSymbolSlice
  ignoredManifest := input.ignoredManifest
  pathDependencies := input.pathDependencies.map uniqueSorted
  coverage :=
    if !(missingEvidence input).isEmpty then .unknown
    else if hasManifest input then .complete
    else .nonIgnored
  coverageBasis :=
    (if !(missingEvidence input).isEmpty then missingEvidence input
      else ["read_set_observed", "discovery_set_scanned", "path_dependencies_scanned"]) ++
    (if hasManifest input then ["ignored_manifest_captured"]
      else ["ignored_manifest_not_captured"]) ++
    (if input.symbolSlice.isSome then ["symbol_slice_declared"]
      else ["symbol_slice_not_declared"]) ++
    input.coverageNotes

def buildWorkspaceIncrementalIndex [Crypto] (input : WorkspaceIncrementalIndexInput) :
    WorkspaceIncrementalIndex :=
  { indexBody input with
    digest := workspaceIndexDigest (indexBody input).entries
    verifies := rfl }

def mergeNullableSets (previous current : Option (List String)) : Option (List String) :=
  match previous, current with
  | some previous, some current => some (uniqueSorted (previous ++ current))
  | _, _ => none

def mergeWorkspaceIncrementalIndex [Crypto] (previous : Option WorkspaceIncrementalIndex)
    (current : WorkspaceIncrementalIndex) : WorkspaceIncrementalIndex :=
  match previous with
  | none => current
  | some previous => buildWorkspaceIncrementalIndex {
      root := current.root
      readSet := mergeNullableSets previous.readSet current.readSet
      writeSet := current.writeSet
      discoverySet := mergeNullableSets previous.discoverySet current.discoverySet
      symbolSlice := previous.symbolSlice.or current.symbolSlice
      ignoredManifest := previous.ignoredManifest.or current.ignoredManifest
      pathDependencies := mergeNullableSets previous.pathDependencies current.pathDependencies }

/-! ## Parsing -/

/-- The index in a journal value, when it has the right shape and its digest verifies. -/
def parseWorkspaceIncrementalIndex [Crypto] (value : Option Json) : Option Json :=
  match value with
  | some (.obj entries) =>
    let candidate := Json.obj entries
    if candidate.field? "schemaVersion" ≠ some (.str workspaceIndexSchemaVersion) then none
    else match candidate.strField? "digest", candidate.strField? "root",
        candidate.field? "writeSet" with
      | some digest, some _, some (.arr _) =>
        if workspaceIndexDigest (entries.filter fun e => e.1 ≠ "digest") ≠ digest then none
        else some candidate
      | _, _, _ => none
  | _ => none

/-! ## What the parser gives back -/

theorem toJsItems_map {α : Type} (f : α → Json) (items : List α) :
    Json.toJsItems (items.map f) = items.map fun a => (f a).toJs := by
  induction items with
  | nil => rfl
  | cons a items ih => simp [Json.toJsItems, ih]

theorem cleanItems_of_forall {items : List JsValue} (h : ∀ v ∈ items, v.clean = true) :
    cleanItems items = true := by
  induction items with
  | nil => rfl
  | cons v items ih =>
    rw [cleanItems, h v List.mem_cons_self,
      ih fun v' hv' => h v' (List.mem_cons_of_mem _ hv')]
    rfl

theorem ofStrings_clean (items : List String) : (Json.ofStrings items).toJs.clean = true := by
  unfold Json.ofStrings
  rw [Json.toJs, toJsItems_map, clean]
  refine cleanItems_of_forall fun v hv => ?_
  obtain ⟨s, -, rfl⟩ := List.mem_map.1 hv
  rfl

theorem orNull_clean {α : Type} {toJson : α → Json} (h : ∀ a, (toJson a).toJs.clean = true)
    (value : Option α) : (orNull toJson value).toJs.clean = true := by
  cases value with
  | none => rfl
  | some a => exact h a

theorem writeSet_clean (writes : List WriteEntry) :
    (Json.arr (writes.map WriteEntry.toJson)).toJs.clean = true := by
  have hstatus : keptName "status" = true := by decide
  have hpath : keptName "path" = true := by decide
  rw [Json.toJs, toJsItems_map, clean]
  refine cleanItems_of_forall fun v hv => ?_
  obtain ⟨w, -, rfl⟩ := List.mem_map.1 hv
  simp [WriteEntry.toJson, Json.toJs, Json.toJsEntries, clean, cleanEntries,
    hstatus, hpath]

theorem cleanEntries_toJs_iff (entries : List (String × Json)) :
    cleanEntries (Json.toJsEntries entries) = true ↔
      ∀ e ∈ entries, keptName e.1 = true ∧ e.2.toJs.clean = true := by
  induction entries with
  | nil => simp [Json.toJsEntries, cleanEntries]
  | cons e entries ih =>
    rw [Json.toJsEntries, cleanEntries, Bool.and_eq_true, Bool.and_eq_true, ih,
      List.forall_mem_cons]

theorem symbolSliceJson_clean_iff (slice : List (String × String)) :
    (symbolSliceJson slice).toJs.clean = true ↔ ∀ e ∈ slice, keptName e.1 = true := by
  unfold symbolSliceJson
  rw [Json.toJs, clean, cleanEntries_toJs_iff, List.forall_mem_map]
  exact forall₂_congr fun e _ => and_iff_left rfl

/-- The names of the symbol slice are kept. -/
def WorkspaceIndexBody.keptSymbols (body : WorkspaceIndexBody) : Prop :=
  ∀ slice, body.symbolSlice = some slice → ∀ e ∈ slice, keptName e.1 = true

/-- Of an index only the names of its symbol slice can be unclean. -/
theorem index_clean_iff [Crypto] (index : WorkspaceIncrementalIndex) :
    index.toJson.toJs.clean = true ↔ index.keptSymbols := by
  have hslice : (orNull symbolSliceJson index.symbolSlice).toJs.clean = true ↔
      index.keptSymbols := by
    unfold WorkspaceIndexBody.keptSymbols
    cases index.symbolSlice with
    | none => simp [orNull, Json.toJs, clean]
    | some => simp [orNull, symbolSliceJson_clean_iff]
  have hnames : ∀ name ∈ ["schemaVersion", "root", "readSet", "writeSet", "discoverySet",
      "symbolSlice", "ignoredManifest", "pathDependencies", "coverage", "coverageBasis",
      "digest"], keptName name = true := by decide
  have hstr : ∀ s : String, (Json.str s).toJs.clean = true := fun _ => rfl
  rw [WorkspaceIncrementalIndex.toJson, Json.toJs, clean, cleanEntries_toJs_iff, ← hslice]
  constructor
  · intro h
    refine (h ("symbolSlice", orNull symbolSliceJson index.symbolSlice) ?_).2
    simp [WorkspaceIndexBody.entries]
  · intro h e he
    refine ⟨hnames e.1 ?_, ?_⟩
    · simp only [WorkspaceIndexBody.entries, List.cons_append, List.nil_append] at he
      simpa using List.mem_map_of_mem (f := Prod.fst) he
    · simp only [WorkspaceIndexBody.entries, List.cons_append, List.nil_append, List.mem_cons,
        List.not_mem_nil, or_false] at he
      rcases he with rfl | rfl | rfl | rfl | rfl | rfl | rfl | rfl | rfl | rfl | rfl
      all_goals
        first
        | exact h
        | exact hstr _
        | exact writeSet_clean _
        | exact ofStrings_clean _
        | exact orNull_clean ofStrings_clean _
        | exact orNull_clean hstr _

/-- The parser changes nothing. -/
theorem eq_of_parse [Crypto] {value : Option Json} {result : Json}
    (h : parseWorkspaceIncrementalIndex value = some result) : value = some result := by
  unfold parseWorkspaceIncrementalIndex at h
  split at h
  · simp only at h
    split at h
    · cases h
    split at h
    · split at h
      · cases h
      · rw [Option.some.inj h]
    · cases h
  · cases h

/-- An index is parsed as itself. -/
theorem parse_toJson [Crypto] (index : WorkspaceIncrementalIndex) :
    parseWorkspaceIncrementalIndex (some index.toJson) = some index.toJson := by
  have hbody : ((index.entries ++ [("digest", Json.str index.digest)]).filter
      fun e => e.1 ≠ "digest") = index.entries := by
    simp [WorkspaceIndexBody.entries]
  have hdigest : (Json.obj (index.entries ++ [("digest", .str index.digest)])).strField? "digest" =
      some index.digest := by
    simp [Json.strField?, Json.field?, WorkspaceIndexBody.entries]
  unfold parseWorkspaceIncrementalIndex WorkspaceIncrementalIndex.toJson
  simp only [hbody, hdigest, index.verifies]
  simp [Json.strField?, Json.field?, WorkspaceIndexBody.entries]

/-- Out of the journal an index is parsed as itself exactly when its symbol names are kept. -/
theorem parse_journalled_iff [Crypto] {index : WorkspaceIncrementalIndex} {j : Json}
    {path : String} (h : jsonValue index.toJson.toJs path = .ok j) :
    parseWorkspaceIncrementalIndex (some j) = some index.toJson ↔ index.keptSymbols := by
  rw [← index_clean_iff, ← jsonValue_eq_self_iff h]
  constructor
  · intro hparse
    exact Option.some.inj (eq_of_parse hparse)
  · rintro rfl
    exact parse_toJson index

/-! ## The events that carry an index -/

inductive ReadTracking where
  | atime | unobserved
  deriving DecidableEq

def ReadTracking.text : ReadTracking → String
  | atime => "atime"
  | unobserved => "unobserved"

structure TransactionEffects [Crypto] where
  readTracking : ReadTracking
  readSet : Option (List String)
  pathDependencies : Option (List String)
  writeSet : List WriteEntry
  workspaceIndex : WorkspaceIncrementalIndex

inductive CommitValidation where
  | observations | files | writeOnly
  deriving DecidableEq

def CommitValidation.text : CommitValidation → String
  | observations => "observations"
  | files => "files"
  | writeOnly => "write_only"

structure ReplayRef where
  forkPath : String
  snapshotId : String

structure CommitPlan [Crypto] where
  effects : TransactionEffects
  sourceRoot : String
  validation : CommitValidation
  replay : Option ReplayRef := none

def TransactionEffects.toJson [Crypto] (e : TransactionEffects) : Json :=
  .obj [("readTracking", .str e.readTracking.text), ("readSet", orNull .ofStrings e.readSet),
    ("pathDependencies", orNull .ofStrings e.pathDependencies),
    ("writeSet", .arr (e.writeSet.map WriteEntry.toJson)),
    ("workspaceIndex", e.workspaceIndex.toJson)]

/-- `replay?: { forkPath, snapshotId }` -/
def replayEntry : Option ReplayRef → List (String × JsValue)
  | none => []
  | some replay => [("replay", .obj [("forkPath", .str replay.forkPath),
      ("snapshotId", .str replay.snapshotId)])]

/-- An event that carries an index: the reads of a transaction, or its commit plan. -/
inductive IndexEvent [Crypto] where
  | reads (txId : String) (readSet pathDependencies : Option (List String))
      (workspaceIndex : WorkspaceIncrementalIndex)
  | committing (txId root : String) (plan : CommitPlan)

namespace IndexEvent

variable [Crypto]

def index : IndexEvent → WorkspaceIncrementalIndex
  | reads _ _ _ workspaceIndex => workspaceIndex
  | committing _ _ plan => plan.effects.workspaceIndex

def type : IndexEvent → String
  | reads .. => "TX_READS"
  | committing .. => "TX_COMMITTING"

def payload : IndexEvent → List (String × JsValue)
  | reads txId readSet pathDependencies workspaceIndex =>
    [("txId", .str txId), ("readSet", (orNull Json.ofStrings readSet).toJs),
      ("pathDependencies", (orNull Json.ofStrings pathDependencies).toJs),
      ("workspaceIndex", workspaceIndex.toJson.toJs)]
  | committing txId root plan =>
    [("txId", .str txId), ("root", .str root), ("effects", plan.effects.toJson.toJs),
      ("sourceRoot", .str plan.sourceRoot), ("validation", .str plan.validation.text)] ++
      replayEntry plan.replay ++ [("isolationVersion", .ofNat 1)]

/-- Where the readers of the event look for the index. -/
def storedIndex (event : IndexEvent) (stored : Json) : Option Json :=
  match event with
  | reads .. => stored.field? "workspaceIndex"
  | committing .. => (stored.field? "effects").bind (·.field? "workspaceIndex")

/-- `record(runId, type, payload)` -/
def input (event : IndexEvent) (domainId runId : String) (now : Timestamp) :
    SqliteStore.EventInput where
  domainId := domainId
  runId := some runId
  type := event.type
  payload := .obj event.payload
  timestamp := now

/-- Whenever the journal is read later, the event with this number holds the index. -/
def ReadsBack (event : IndexEvent) (domainId : String) (seq : Nat) (s : SqliteStore) : Prop :=
  ∀ later, SqliteStore.Later s later → ∃ row ∈ later.getJournalEvents domainId,
    row.seq = seq ∧ row.type = event.type ∧
      parseWorkspaceIncrementalIndex (event.storedIndex row.payload) = some event.index.toJson

/-- The journal stores a conversion of the index where the readers look for it. -/
theorem storedIndex_conversion {event : IndexEvent} {path : String} {js : List (String × Json)}
    (h : jsonEntries event.payload path = .ok js) :
    ∃ j path', event.storedIndex (.obj js) = some j ∧
      jsonValue event.index.toJson.toJs path' = .ok j := by
  have hname : keptName "workspaceIndex" = true := by decide
  cases event with
  | reads =>
    obtain ⟨j, hj, hfield⟩ := jsonEntries_field hname rfl (by rfl) h
    exact ⟨j, _, hfield, hj⟩
  | committing =>
    obtain ⟨effects, heffects, hfield⟩ :=
      jsonEntries_field (by decide : keptName "effects" = true) rfl (by rfl) h
    obtain ⟨inner, hinner, rfl⟩ := jsonValue_obj_ok heffects
    obtain ⟨j, hj, hindex⟩ := jsonEntries_field hname rfl (by rfl) hinner
    exact ⟨j, _, by simp only [storedIndex, hfield, Option.bind_some, hindex], hj⟩

/-- A stored index is read back exactly when redaction keeps the names of its symbol slice. -/
theorem readsBack_iff {event : IndexEvent} {domainId runId : String} {now : Timestamp}
    {s s' : SqliteStore} {seq : Nat}
    (h : (SqliteStore.recordJournalEvent (event.input domainId runId now)).run s =
      (s', .ok seq)) :
    event.ReadsBack domainId seq s' ↔ event.index.keptSymbols := by
  obtain ⟨hrecorded, hseq⟩ := SqliteStore.recordEventAndTransitionState_ok h
  obtain ⟨envelope, henv, rfl⟩ := hrecorded.appended
  have hnumber : seq = s.db.journalEvents.lastSeq + 1 := hseq
  obtain ⟨hevent, js, hjs, hpayload⟩ := createEventEnvelope_payload henv rfl rfl
  obtain ⟨j, path', hstored, hj⟩ := storedIndex_conversion hjs
  rw [← parse_journalled_iff hj]
  constructor
  · intro hback
    obtain ⟨row, hrow, hrowseq, -, hparse⟩ := hback _ ⟨[], (List.append_nil _).symm⟩
    have hsame := SqliteStore.eq_of_seq_eq (List.mem_filter.1 hrow).1 (hrowseq.trans hnumber)
    rw [hsame] at hparse
    rw [← hstored, ← hpayload]
    exact hparse
  · rintro hparse later ⟨rows, hrows⟩
    let row := SqliteStore.eventRow (event.input domainId runId now) envelope
    refine ⟨{ row with seq := s.db.journalEvents.lastSeq + 1 }, List.mem_filter.2 ⟨?_, ?_⟩,
      hnumber.symm, hevent, ?_⟩
    · rw [hrows]
      exact List.mem_append_left _ (List.mem_append_right _ (List.mem_singleton.2 rfl))
    · exact decide_eq_true rfl
    · rw [← hparse, ← hstored, ← hpayload]
      rfl

end IndexEvent

/-! ## The round trip of both kinds of facts -/

open WorkspaceCausalGraph (record ReadsBack maxSafeInteger)

/-- Exactly which facts come back out of the journal: the causal steps whose dependencies are
    distinct and whose arguments are clean at every depth, and the indexes whose symbol names are
    kept. -/
theorem journal_roundTrip_iff [Crypto] :
    (∀ (domainId : String) (step : CausalStep) (now : Timestamp) (s s' : SqliteStore)
        (out : List (String × JsValue) × Nat),
      (record domainId step now).run s = (s', .ok out) →
      (ReadsBack domainId step out.2 s' ↔
        step.dependsOn.Nodup ∧ cleanEntries step.observation.args = true ∧
          out.2 ≤ maxSafeInteger)) ∧
    (∀ (event : IndexEvent) (domainId runId : String) (now : Timestamp) (s s' : SqliteStore)
        (seq : Nat),
      (SqliteStore.recordJournalEvent (event.input domainId runId now)).run s = (s', .ok seq) →
      (event.ReadsBack domainId seq s' ↔ event.index.keptSymbols)) :=
  ⟨fun _ _ _ _ _ _ => WorkspaceCausalGraph.record_readsBack_iff,
    fun _ _ _ _ _ _ _ => IndexEvent.readsBack_iff⟩

/-- A tool call of a gateway session with these arguments. -/
def CausalStep.sample (args : List (String × JsValue)) : CausalStep where
  txId := "gateway:r"
  actorId := "agent"
  observation := { kind := "observe", tool := "read", args := args, resultHash := some "h" }
  dependsOn := []

/-- An index with one declared symbol. -/
def IndexEvent.sample [Crypto] (symbol : String) : IndexEvent :=
  .reads "tx" none none (buildWorkspaceIncrementalIndex {
    root := "/w"
    readSet := none
    writeSet := []
    discoverySet := none
    symbolSlice := some [(symbol, "1f")]
    pathDependencies := none })

/-- A step that reads a file comes back, and so does an index of a parser. -/
theorem sample_roundTrip :
    let _ := plainCrypto
    let s : SqliteStore := ⟨Database.sample, some 1⟩
    let step := CausalStep.sample [("path", .str "a.ts")]
    let event := IndexEvent.sample "a.ts#parse"
    ReadsBack "d" step 1 ((record "d" step 2).run s).1 ∧
      event.ReadsBack "d" 1
        ((SqliteStore.recordJournalEvent (event.input "d" "r" 2)).run s).1 := by
  intro _ s step event
  have hstep : ((record "d" step 2).run s).2.toOption.map Prod.snd = some 1 := by decide +kernel
  have hevent : ((SqliteStore.recordJournalEvent (event.input "d" "r" 2)).run s).2.toOption.map
      id = some 1 := by decide +kernel
  obtain ⟨out, hrecord, hout⟩ := run_of_answer hstep
  obtain ⟨seq, hjournal, rfl⟩ := run_of_answer hevent
  refine ⟨?_, ?_⟩
  · rw [← hout]
    exact (journal_roundTrip_iff.1 "d" step 2 s _ out hrecord).2
      ⟨List.nodup_nil, by decide, by rw [hout]; decide⟩
  · refine (journal_roundTrip_iff.2 event "d" "r" 2 s _ 1 hjournal).2 ?_
    intro slice hslice
    cases hslice
    decide

/-- An argument named `content` is gone when the step is read back. -/
theorem redacted_argument_lost :
    let _ := plainCrypto
    let s : SqliteStore := ⟨Database.sample, some 1⟩
    let step := CausalStep.sample [("content", .str "x")]
    ∃ s' out, (record "d" step 2).run s = (s', .ok out) ∧ ¬ ReadsBack "d" step out.2 s' := by
  intro _ s step
  have hstep : ((record "d" step 2).run s).2.toOption.map Prod.snd = some 1 := by decide +kernel
  obtain ⟨out, hrecord, -⟩ := run_of_answer hstep
  refine ⟨_, out, hrecord, fun hback => ?_⟩
  have hclean := ((WorkspaceCausalGraph.record_readsBack_iff hrecord).1 hback).2.1
  exact absurd hclean (by decide)

end XioFlow
