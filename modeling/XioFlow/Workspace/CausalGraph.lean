/-
  XioFlow.Workspace.CausalGraph

  Causal steps in the journal: how a step is accepted and written, and what
  the readers give back.
-/

import XioFlow.Store.Effects
import XioFlow.Store.Redaction
import XioFlow.Lib.Distinct
import XioFlow.Lib.Outcome

namespace XioFlow

open Lib Lib.Prog
open JsValue (ofOption ofStrings)
open JsValue

/-! ## Steps -/

/-- The status of a path in a diff: added, deleted, modified, type changed. -/
inductive ChangeStatus where
  | A | D | M | T
  deriving DecidableEq, Repr

def ChangeStatus.text : ChangeStatus → String
  | A => "A"
  | D => "D"
  | M => "M"
  | T => "T"

structure WriteEntry where
  status : ChangeStatus
  path : String
  deriving DecidableEq

def WriteEntry.toJs (w : WriteEntry) : JsValue :=
  .obj [("status", .str w.status.text), ("path", .str w.path)]

/-- An optional string property: absent when there is none. -/
def JsValue.optEntry (name : String) : Option String → List (String × JsValue)
  | none => []
  | some value => [(name, .str value)]

/-- One step of an agent in a transaction.  `args` are the host's own. -/
structure ObservationEntry where
  kind : String
  tool : String
  args : List (String × JsValue)
  resultHash : Option String := none
  cutoffHash : Option String := none

def ObservationEntry.toJs (o : ObservationEntry) : JsValue :=
  .obj ([("kind", .str o.kind), ("call", .obj [("tool", .str o.tool), ("args", .obj o.args)])] ++
    JsValue.optEntry "resultHash" o.resultHash ++ JsValue.optEntry "cutoffHash" o.cutoffHash)

structure CausalStep where
  txId : String
  actorId : String
  observation : ObservationEntry
  dependsOn : List JsNumber
  writes : Option (List WriteEntry) := none

/-- The property of the declared writes, absent when there are none. -/
def writesEntry : Option (List WriteEntry) → List (String × JsValue)
  | none => []
  | some writes => [("writes", .arr (writes.map WriteEntry.toJs))]

/-- The properties of a step. -/
def CausalStep.entries (step : CausalStep) : List (String × JsValue) :=
  [("txId", .str step.txId), ("actorId", .str step.actorId),
    ("observation", step.observation.toJs), ("dependsOn", .arr (step.dependsOn.map .num))] ++
    writesEntry step.writes

/-- `[...new Set(step.dependsOn)]` for the dependencies. -/
def CausalStep.distinct (step : CausalStep) : CausalStep :=
  { step with dependsOn := step.dependsOn.eraseDups }

/-- A node as `nodes()` returns it: what was stored, with the sequence number of its event. -/
structure CausalNode where
  entries : List (String × Json)
  seq : Nat

def CausalNode.field? (node : CausalNode) (name : String) : Option Json :=
  (Json.obj node.entries).field? name

namespace WorkspaceCausalGraph

open SqliteStore (Later)

/-! ## Reading -/

/-- `Number.MAX_SAFE_INTEGER` -/
def maxSafeInteger : Nat := 9007199254740991

/-- `{ ...value }` of a JSON value. -/
def spread : Json → List (String × Json)
  | .obj entries => entries
  | .arr items => items.zipIdx.map fun item => (toString item.2, item.1)
  | .str s => s.toList.zipIdx.map fun c => (toString c.2, .str (String.singleton c.1))
  | .null | .bool _ | .num _ => []

/-- The node that one journal row holds. -/
def nodeOfRow (row : JournalRow) : Except KernelError CausalNode :=
  if row.payload.field? "version" ≠ some (.num 1) then
    .error (.error "Unsupported causal journal version")
  else
    .ok { entries := (((row.payload.field? "node").map spread).getD []).filter
            fun e => e.1 ≠ "seq",
          seq := row.seq }

/-- The rows `nodes(atSeq)` selects. -/
def causalRows (domainId : String) (atSeq : Nat) (s : SqliteStore) : List JournalRow :=
  (s.getJournalEvents domainId).filter fun row => row.seq ≤ atSeq && row.type = "CAUSAL_STEP"

def nodes (domainId : String) (atSeq : Nat) (s : SqliteStore) :
    Except KernelError (List CausalNode) :=
  if maxSafeInteger < atSeq then .error (.error "Invalid causal history sequence")
  else (causalRows domainId atSeq s).mapM nodeOfRow

/-- The observations of one transaction among some nodes. -/
def observationsOf (txId : String) (ns : List CausalNode) : List (Option Json) :=
  (ns.filter fun node => node.field? "txId" = some (.str txId)).map
    fun node => node.field? "observation"

/-- The observations of one transaction, in journal order. -/
def observationLog (domainId txId : String) (atSeq : Nat) (s : SqliteStore) :
    Except KernelError (List (Option Json)) :=
  (nodes domainId atSeq s).map (observationsOf txId)

/-! ## Recording -/

/-- The characters that `String.prototype.trim` removes. -/
def isTrimmed (c : Char) : Bool :=
  [0x9, 0xA, 0xB, 0xC, 0xD, 0x20, 0xA0, 0x1680, 0x2028, 0x2029, 0x202F, 0x205F, 0x3000,
    0xFEFF].contains c.toNat || (0x2000 ≤ c.toNat && c.toNat ≤ 0x200A)

/-- `!value.trim()` -/
def isBlank (value : String) : Bool := value.toList.all isTrimmed

/-- The checks on the step itself. -/
def wellFormedStep (step : CausalStep) : Except KernelError Unit :=
  if isBlank step.actorId || isBlank (step.observation.resultHash.getD "") then
    .error (.error "Causal steps require an actor and a nonempty result hash")
  else if !(["observe", "mutate"].contains step.observation.kind) then
    .error (.error "Invalid causal observation kind")
  else if step.observation.kind = "observe" && !(step.writes.getD []).isEmpty then
    .error (.error "An observation cannot declare writes")
  else .ok ()

/-- The events of one transaction. -/
def history (domainId txId : String) (s : SqliteStore) : List JournalRow :=
  (s.getJournalEvents domainId).filter fun row =>
    ["TX_BEGUN", "TX_COMMITTING", "TX_COMMITTED", "TX_CONFLICTED", "TX_ABORTED"].contains row.type &&
      row.payload.field? "txId" = some (.str txId)

/-- `step.txId.startsWith('gateway:')`, for an id no transaction has. -/
def isGatewaySession (txId : String) (events : List JournalRow) : Bool :=
  hasPrefix "gateway:" txId && events.isEmpty

/-- The transaction has begun and is neither committing nor over. -/
def isOpen (events : List JournalRow) : Bool :=
  events.any (fun row => row.type = "TX_BEGUN") && !events.any fun row =>
    ["TX_COMMITTING", "TX_COMMITTED", "TX_CONFLICTED", "TX_ABORTED"].contains row.type

/-- The check on the transaction. -/
def openTransaction (txId : String) (events : List JournalRow) : Except KernelError Unit :=
  if !isGatewaySession txId events && !isOpen events then
    .error (.error "Causal steps require an open workspace transaction")
  else .ok ()

/-- A dependency: a safe integer that is the number of a node. -/
def isDependency (known : List CausalNode) : JsNumber → Bool
  | .finite q => q.den = 1 && q.num.natAbs ≤ maxSafeInteger &&
      known.any fun node => decide ((node.seq : Rat) = q)
  | .negZero | .nonFinite => false

/-- The check on the dependencies. -/
def knownDependencies (step : CausalStep) (known : List CausalNode) : Except KernelError Unit :=
  if !step.dependsOn.all (isDependency known) then
    .error (.error "Causal dependencies must reference existing nodes in this domain")
  else .ok ()

mutual

/-- `structuredClone` accepts the value. -/
def cloneable : JsValue → Bool
  | .callable => false
  | .arr items => cloneableItems items
  | .obj entries | .exotic entries => cloneableEntries entries
  | .undefined | .null | .bool _ | .num _ | .str _ | .bigint _ => true

def cloneableItems : List JsValue → Bool
  | [] => true
  | item :: items => cloneable item && cloneableItems items

def cloneableEntries : List (String × JsValue) → Bool
  | [] => true
  | (_, item) :: entries => cloneable item && cloneableEntries entries

end

/-- The run a step is filed under. -/
def runOf (step : CausalStep) (events : List JournalRow) : String :=
  ((events.find? fun row => row.type = "TX_BEGUN").bind fun row => row.runId).getD
    (if isGatewaySession step.txId events then
      String.ofList (step.txId.toList.drop "gateway:".length)
    else step.txId)

/-- `(begun?.payload.baseSnapshotId as string | undefined) ?? 'gateway'` -/
def baseSnapshotOf (events : List JournalRow) : Json :=
  match (events.find? fun row => row.type = "TX_BEGUN").bind fun row =>
      row.payload.field? "baseSnapshotId" with
  | none | some .null => .str "gateway"
  | some value => value

/-- The properties of the node: the step with its dependencies made distinct, and its context. -/
def nodeEntries (step : CausalStep) (events : List JournalRow) : List (String × JsValue) :=
  step.distinct.entries ++
    [("runId", .str (runOf step events)), ("baseSnapshotId", (baseSnapshotOf events).toJs)]

def causalEvent (domainId : String) (step : CausalStep) (events : List JournalRow)
    (now : Timestamp) : SqliteStore.EventInput where
  domainId := domainId
  runId := some (runOf step events)
  type := "CAUSAL_STEP"
  payload := .obj [("version", .ofNat 1), ("node", .obj (nodeEntries step events))]
  timestamp := now

/-- Record a completed tool result; the answer is the node and its sequence number. -/
def record (domainId : String) (step : CausalStep) (now : Timestamp) :
    StoreM (List (String × JsValue) × Nat) := do
  SqliteStore.require (wellFormedStep step)
  let events ← Prog.read (history domainId step.txId)
  SqliteStore.require (openTransaction step.txId events)
  let known ← Prog.read (nodes domainId maxSafeInteger)
  match known with
  | .error e => MonadExcept.throw e
  | .ok known => do
    SqliteStore.require (knownDependencies step known)
    throwIf (!cloneableEntries (nodeEntries step events))
      (.error "DataCloneError: the step could not be cloned")
    let seq ← SqliteStore.recordJournalEvent (causalEvent domainId step events now)
    return (nodeEntries step events, seq)

/-! ## What a recorded step comes back as -/

/-- The step part of a node, as the host value it is read as. -/
def stepOf (node : CausalNode) : JsValue :=
  .obj (Json.toJsEntries
    (node.entries.filter fun e => e.1 ≠ "runId" && e.1 ≠ "baseSnapshotId"))

/-- Whenever the graph is read later, the node with this number is exactly the step, and the log of
    its transaction has exactly its observation between those of the nodes before and after it. -/
def ReadsBack (domainId : String) (step : CausalStep) (seq : Nat) (s : SqliteStore) : Prop :=
  ∀ later ns, Later s later → nodes domainId maxSafeInteger later = .ok ns →
    ∃ before node after, ns = before ++ node :: after ∧ node.seq = seq ∧
      stepOf node = .obj step.entries ∧
      ∃ observation : Json, observation.toJs = step.observation.toJs ∧
        observationLog domainId step.txId maxSafeInteger later =
          .ok (observationsOf step.txId before ++
            some observation :: observationsOf step.txId after)

theorem writesEntry_clean (writes : Option (List WriteEntry)) :
    cleanEntries (writesEntry writes) = true := by
  cases writes with
  | none => rfl
  | some writes =>
    have hstatus : keptName "status" = true := by decide
    have hpath : keptName "path" = true := by decide
    have hwrites : keptName "writes" = true := by decide
    have hitems : cleanItems (writes.map WriteEntry.toJs) = true := by
      induction writes with
      | nil => rfl
      | cons w ws ih =>
        rw [List.map_cons, cleanItems, ih]
        simp [WriteEntry.toJs, clean, cleanEntries, hstatus, hpath]
    simp [writesEntry, cleanEntries, clean, hitems, hwrites]

theorem optEntry_clean {name : String} (hname : keptName name = true) (value : Option String) :
    JsValue.cleanEntries (JsValue.optEntry name value) = true := by
  cases value with
  | none => rfl
  | some => simp [JsValue.optEntry, JsValue.cleanEntries, JsValue.clean, hname]

theorem cleanEntries_append (xs ys : List (String × JsValue)) :
    cleanEntries (xs ++ ys) = (cleanEntries xs && cleanEntries ys) := by
  induction xs with
  | nil => rfl
  | cons x xs ih =>
    obtain ⟨key, item⟩ := x
    simp only [List.cons_append, cleanEntries, ih, Bool.and_assoc]

/-- Of an observation only the arguments can be unclean. -/
theorem observation_clean_iff (o : ObservationEntry) :
    o.toJs.clean = true ↔ JsValue.cleanEntries o.args = true := by
  have hkind : keptName "kind" = true := by decide
  have hcall : keptName "call" = true := by decide
  have htool : keptName "tool" = true := by decide
  have hargs : keptName "args" = true := by decide
  have hresult := optEntry_clean (by decide : keptName "resultHash" = true) o.resultHash
  have hcutoff := optEntry_clean (by decide : keptName "cutoffHash" = true) o.cutoffHash
  simp [ObservationEntry.toJs, clean, cleanEntries_append, cleanEntries, hkind,
    hcall, htool, hargs, hresult, hcutoff]

variable {known : List CausalNode} {s : SqliteStore} {row : JournalRow}

/-- Accepted dependencies are finite numbers. -/
theorem dependsOn_clean {deps : List JsNumber} (h : deps.all (isDependency known) = true) :
    cleanItems (deps.map .num) = true := by
  induction deps with
  | nil => rfl
  | cons d ds ih =>
    simp only [List.all_cons, Bool.and_eq_true] at h
    rw [List.map_cons, cleanItems, ih h.2]
    cases d with
    | finite => rfl
    | negZero | nonFinite => simp [isDependency] at h

/-! ## The step lemma -/

variable {domainId : String} {now : Timestamp} {s' : SqliteStore} {events : List JournalRow}
  {converted : List (String × Json)}

variable {step : CausalStep}

/-- What a recorded step found and did. -/
theorem record_ok {out : List (String × JsValue) × Nat}
    (h : (record domainId step now).run s = (s', .ok out)) :
    (∃ known, nodes domainId maxSafeInteger s = .ok known ∧
      step.dependsOn.all (isDependency known) = true) ∧
      SqliteStore.EventRecorded (causalEvent domainId step (history domainId step.txId s) now) s s' ∧
      out.2 = s'.db.journalEvents.lastSeq := by
  unfold record at h
  obtain ⟨_, s₁, hformed, h1⟩ := bind_ok h
  obtain ⟨rfl, -⟩ := SqliteStore.require_ok hformed
  obtain ⟨events, s₂, hread, h2⟩ := bind_ok h1
  obtain ⟨rfl, rfl⟩ := read_ok hread
  obtain ⟨_, s₃, hopen, h3⟩ := bind_ok h2
  obtain ⟨rfl, -⟩ := SqliteStore.require_ok hopen
  obtain ⟨known, s₄, hnodes, h4⟩ := bind_ok h3
  obtain ⟨rfl, rfl⟩ := read_ok hnodes
  cases hknown : nodes domainId maxSafeInteger s₄ with
  | error =>
    rw [hknown] at h4
    exact (throw_ok h4).elim
  | ok known =>
    rw [hknown] at h4
    obtain ⟨_, s₅, hdeps, h5⟩ := bind_ok h4
    obtain ⟨rfl, hdependencies⟩ := SqliteStore.require_ok hdeps
    obtain ⟨_, s₆, hclone, h6⟩ := bind_ok h5
    obtain ⟨rfl, -⟩ := throwIf_ok hclone
    obtain ⟨seq, s₇, hevent, hpure⟩ := bind_ok h6
    obtain ⟨rfl, rfl⟩ := pure_ok hpure
    obtain ⟨hrecorded, hseq⟩ := SqliteStore.recordEventAndTransitionState_ok hevent
    refine ⟨⟨known, rfl, ?_⟩, hrecorded, hseq⟩
    unfold knownDependencies at hdependencies
    by_cases hall : step.dependsOn.all (isDependency known) = true
    · exact hall
    · simp [hall] at hdependencies

/-- The row a step is stored in. -/
structure HoldsStep (domainId : String) (step : CausalStep) (events : List JournalRow)
    (row : JournalRow) (converted : List (String × Json)) : Prop where
  domain : row.domainId = domainId
  type : row.type = "CAUSAL_STEP"
  payload : row.payload = .obj [("version", .num 1), ("node", .obj converted)]
  conversion : jsonEntries (nodeEntries step events) "payload.node" = .ok converted

theorem causalEvent_recorded
    (h : SqliteStore.EventRecorded (causalEvent domainId step events now) s s') :
    ∃ row converted, HoldsStep domainId step events row converted ∧
      s' = SqliteStore.appendEvent row s := by
  obtain ⟨envelope, henv, rfl⟩ := h.appended
  obtain ⟨hevent, js, hjs, hpayload⟩ := createEventEnvelope_payload henv rfl rfl
  obtain ⟨version, rest, hversion, hrest, rfl⟩ :=
    jsonEntries_kept_ok (by decide : keptName "version" = true) rfl hjs
  obtain ⟨node, tail, hnode, htail, rfl⟩ :=
    jsonEntries_kept_ok (by decide : keptName "node" = true) rfl hrest
  obtain ⟨converted, hconverted, rfl⟩ := jsonValue_obj_ok hnode
  cases htail
  cases hversion
  exact ⟨_, converted, ⟨rfl, hevent, hpayload, hconverted⟩, rfl⟩

/-! ## The node of a stored step -/

theorem writesEntry_filter {keep : String → Bool} (h : keep "writes" = true)
    (writes : Option (List WriteEntry)) :
    (writesEntry writes).filter (fun e => keep e.1) = writesEntry writes := by
  cases writes with
  | none => rfl
  | some => simp [writesEntry, h]

/-- Selecting properties of a node by name selects them from the step and from its context. -/
theorem nodeEntries_filter (step : CausalStep) (events : List JournalRow) (keep : String → Bool)
    (h : ∀ name ∈ ["txId", "actorId", "observation", "dependsOn", "writes"], keep name = true) :
    (nodeEntries step events).filter (fun e => keep e.1) =
      step.distinct.entries ++ [("runId", str (runOf step events)),
        ("baseSnapshotId", (baseSnapshotOf events).toJs)].filter fun e => keep e.1 := by
  unfold nodeEntries
  rw [List.filter_append]
  congr 1
  unfold CausalStep.entries
  rw [List.filter_append, writesEntry_filter (h _ (by simp))]
  simp [h]

theorem nodeOfRow_holdsStep (h : HoldsStep domainId step events row converted) :
    nodeOfRow row = .ok { entries := converted, seq := row.seq } := by
  have hkeep := jsonEntries_filter (fun name => decide (name ≠ "seq")) h.conversion
  rw [nodeEntries_filter step events (fun name => decide (name ≠ "seq")) (by decide)] at hkeep
  have hconverted : converted.filter (fun e => decide (e.1 ≠ "seq")) = converted :=
    Except.ok.inj (hkeep.symm.trans h.conversion)
  unfold nodeOfRow
  have hversion : (Json.obj [("version", .num 1), ("node", .obj converted)]).field? "version" =
      some (.num 1) := rfl
  have hnode : (Json.obj [("version", .num 1), ("node", .obj converted)]).field? "node" =
      some (.obj converted) := rfl
  rw [h.payload, if_neg (by rw [hversion]; simp), hnode]
  exact congrArg (fun entries => Except.ok (CausalNode.mk entries row.seq)) hconverted

/-- The step part of a stored node is the conversion of the step. -/
theorem stepOf_conversion (h : HoldsStep domainId step events row converted) :
    ∃ js, jsonEntries step.distinct.entries "payload.node" = .ok js ∧
      stepOf { entries := converted, seq := row.seq } = .obj (Json.toJsEntries js) := by
  have hkeep := jsonEntries_filter
    (fun name => decide (name ≠ "runId") && decide (name ≠ "baseSnapshotId")) h.conversion
  rw [nodeEntries_filter step events
    (fun name => decide (name ≠ "runId") && decide (name ≠ "baseSnapshotId")) (by decide)] at hkeep
  exact ⟨_, by simpa using hkeep, rfl⟩

/-- Of a step with accepted dependencies only the arguments can be unclean. -/
theorem entries_clean_iff (h : step.dependsOn.all (isDependency known) = true) :
    cleanEntries step.entries = true ↔
      cleanEntries step.observation.args = true := by
  rw [← observation_clean_iff]
  have htx : keptName "txId" = true := by decide
  have hactor : keptName "actorId" = true := by decide
  have hobs : keptName "observation" = true := by decide
  have hdep : keptName "dependsOn" = true := by decide
  simp [CausalStep.entries, cleanEntries, clean, htx, hactor, hobs, hdep,
    dependsOn_clean h, writesEntry_clean]

theorem distinct_dependencies
    (h : step.dependsOn.all (isDependency known) = true) :
    step.distinct.dependsOn.all (isDependency known) = true := by
  rw [List.all_eq_true] at h ⊢
  intro d hd
  exact h d (List.mem_eraseDups.1 hd)

/-- A step comes back exactly when its dependencies are distinct and its arguments clean. -/
theorem conversion_eq_iff {path : String} {js : List (String × Json)}
    (hdeps : step.dependsOn.all (isDependency known) = true)
    (hjs : jsonEntries step.distinct.entries path = .ok js) :
    Json.toJsEntries js = step.entries ↔
      step.dependsOn.Nodup ∧ JsValue.cleanEntries step.observation.args = true := by
  have hclean := (jsonEntries_toJs_iff hjs).trans (entries_clean_iff (distinct_dependencies hdeps))
  constructor
  · intro heq
    -- The fourth property holds the dependencies without repetitions.
    obtain ⟨_, r₁, -, h₁, rfl⟩ :=
      jsonEntries_kept_ok (by decide : keptName "txId" = true) rfl hjs
    obtain ⟨_, r₂, -, h₂, rfl⟩ :=
      jsonEntries_kept_ok (by decide : keptName "actorId" = true) rfl h₁
    obtain ⟨_, r₃, -, h₃, rfl⟩ :=
      jsonEntries_kept_ok (by decide : keptName "observation" = true) rfl h₂
    obtain ⟨dependencies, r₄, hdep, -, rfl⟩ :=
      jsonEntries_kept_ok (by decide : keptName "dependsOn" = true) rfl h₃
    have hback : dependencies.toJs = .arr (step.dependsOn.map .num) := by
      simp only [Json.toJsEntries, CausalStep.entries, List.cons_append, List.cons.injEq,
        Prod.mk.injEq] at heq
      exact heq.2.2.2.1.2
    have hkept := (jsonValue_toJs_iff hdep).2 (dependsOn_clean (distinct_dependencies hdeps))
    rw [hkept, JsValue.arr.injEq] at hback
    have hdistinct : step.dependsOn.eraseDups = step.dependsOn :=
      List.map_injective_iff.2 (fun _ _ h => JsValue.num.inj h) hback
    have hsame : step.distinct = step := by
      unfold CausalStep.distinct
      rw [hdistinct]
    refine ⟨(eraseDups_eq_self_iff _).1 hdistinct, ?_⟩
    rw [hsame] at hclean
    exact hclean.1 heq
  · rintro ⟨hnodup, hargs⟩
    have hsame : step.distinct = step := by
      unfold CausalStep.distinct
      rw [(eraseDups_eq_self_iff _).2 hnodup]
    rw [hsame] at hclean
    exact hclean.2 hargs

/-! ## Reading the graph after a step was recorded -/

theorem nodeOfRow_seq {node : CausalNode} (h : nodeOfRow row = .ok node) : node.seq = row.seq := by
  unfold nodeOfRow at h
  split at h
  · cases h
  · cases h
    rfl

theorem nodes_maxSafeInteger (domainId : String) (s : SqliteStore) :
    nodes domainId maxSafeInteger s =
      (causalRows domainId maxSafeInteger s).mapM nodeOfRow := by
  unfold nodes
  rw [if_neg (Nat.lt_irrefl _)]

/-- In a later store the selected rows are the old ones, then more. -/
theorem causalRows_later (domainId : String) (atSeq : Nat) {later : SqliteStore}
    (h : Later s later) :
    ∃ more, causalRows domainId atSeq later = causalRows domainId atSeq s ++ more := by
  obtain ⟨rows, hrows⟩ := h
  unfold causalRows SqliteStore.getJournalEvents
  rw [hrows, List.filter_append, List.filter_append]
  exact ⟨_, rfl⟩

theorem causalRows_appendEvent (hdomain : row.domainId = domainId)
    (htype : row.type = "CAUSAL_STEP") (hseq : s.db.journalEvents.lastSeq + 1 ≤ maxSafeInteger) :
    causalRows domainId maxSafeInteger (SqliteStore.appendEvent row s) =
      causalRows domainId maxSafeInteger s ++
        [{ row with seq := s.db.journalEvents.lastSeq + 1 }] := by
  unfold causalRows SqliteStore.getJournalEvents
  rw [SqliteStore.appendEvent_journalEvents, Journal.append_rows, List.filter_append,
    List.filter_append]
  simp [hdomain, htype, hseq]

/-- Every graph that could be read before an event was appended can be read afterwards. -/
theorem nodes_readable (hknown : nodes domainId maxSafeInteger s = .ok known)
    (hrow : ∃ node, nodeOfRow { row with seq := s.db.journalEvents.lastSeq + 1 } = .ok node) :
    ∃ ns, nodes domainId maxSafeInteger (SqliteStore.appendEvent row s) = .ok ns := by
  rw [nodes_maxSafeInteger] at hknown ⊢
  refine mapM_ok_of_forall fun r hr => ?_
  obtain ⟨hdomain, hselected⟩ := List.mem_filter.1 hr
  obtain ⟨hmem, hin⟩ := List.mem_filter.1 hdomain
  rw [SqliteStore.appendEvent_journalEvents, Journal.append_rows, List.mem_append] at hmem
  rcases hmem with hold | hnew
  · have hr' : r ∈ causalRows domainId maxSafeInteger s :=
      List.mem_filter.2 ⟨List.mem_filter.2 ⟨hold, hin⟩, hselected⟩
    obtain ⟨node, -, hnode⟩ := mem_of_mapM_ok hknown hr'
    exact ⟨node, hnode⟩
  · rw [List.mem_singleton.1 hnew]
    exact hrow

/-- The transaction of a converted step and its observation. -/
theorem conversion_fields {path : String} (seq : Nat)
    (h : jsonEntries (nodeEntries step events) path = .ok converted) :
    ({ entries := converted, seq } : CausalNode).field? "txId" = some (.str step.txId) ∧
      ∃ observation, jsonValue step.observation.toJs (path ++ "." ++ "observation") =
          .ok observation ∧
        ({ entries := converted, seq } : CausalNode).field? "observation" = some observation := by
  obtain ⟨tx, htx, hfield⟩ :=
    jsonEntries_field (by decide : keptName "txId" = true) rfl (by rfl) h
  cases htx
  exact ⟨hfield, jsonEntries_field (by decide : keptName "observation" = true) rfl (by rfl) h⟩

/-- A recorded step is read back exactly when its dependencies are distinct, no property of its
    arguments is redacted or changed at any depth, and its number is a safe integer. -/
theorem record_readsBack_iff {out : List (String × JsValue) × Nat}
    (h : (record domainId step now).run s = (s', .ok out)) :
    ReadsBack domainId step out.2 s' ↔
      step.dependsOn.Nodup ∧ cleanEntries step.observation.args = true ∧
        out.2 ≤ maxSafeInteger := by
  obtain ⟨⟨known, hknown, hdeps⟩, hrecorded, hseq⟩ := record_ok h
  obtain ⟨row, converted, hholds, rfl⟩ := causalEvent_recorded hrecorded
  have hout : out.2 = s.db.journalEvents.lastSeq + 1 := hseq
  have hstored : HoldsStep domainId step (history domainId step.txId s)
      { row with seq := s.db.journalEvents.lastSeq + 1 } converted :=
    ⟨hholds.domain, hholds.type, hholds.payload, hholds.conversion⟩
  have hnode := nodeOfRow_holdsStep hstored
  obtain ⟨js, hjs, hstep⟩ := stepOf_conversion hstored
  have hiff := conversion_eq_iff hdeps hjs
  constructor
  · intro hback
    obtain ⟨ns, hns⟩ := nodes_readable hknown ⟨_, hnode⟩
    obtain ⟨before, node, after, rfl, hnodeseq, hnodestep, -⟩ :=
      hback _ ns ⟨[], (List.append_nil _).symm⟩ hns
    rw [nodes_maxSafeInteger] at hns
    obtain ⟨other, hother, hothernode⟩ := origin_of_mapM_ok hns (b := node) (by simp)
    obtain ⟨hindomain, hselected⟩ := List.mem_filter.1 hother
    have hotherseq : other.seq = s.db.journalEvents.lastSeq + 1 := by
      rw [← nodeOfRow_seq hothernode, hnodeseq, hout]
    have hsame := SqliteStore.eq_of_seq_eq (List.mem_filter.1 hindomain).1 hotherseq
    subst hsame
    rw [hnode] at hothernode
    cases hothernode
    have hsafe : s.db.journalEvents.lastSeq + 1 ≤ maxSafeInteger := by
      simp only [Bool.and_eq_true, decide_eq_true_eq] at hselected
      exact hselected.1
    rw [hstep, obj.injEq, hiff] at hnodestep
    exact ⟨hnodestep.1, hnodestep.2, hout ▸ hsafe⟩
  · rintro ⟨hnodup, hclean, hsafe⟩ later ns hlater hns
    rw [hout] at hsafe
    have hreadable := hns
    rw [nodes_maxSafeInteger] at hns
    obtain ⟨more, hmore⟩ := causalRows_later domainId maxSafeInteger hlater
    rw [hmore, causalRows_appendEvent hholds.domain hholds.type hsafe, List.append_assoc] at hns
    obtain ⟨before, rest, -, hrest, rfl⟩ := mapM_append_ok hns
    obtain ⟨node, after, hthis, -, rfl⟩ := mapM_cons_ok hrest
    rw [hnode] at hthis
    cases hthis
    obtain ⟨htx, observation, hobs, hfield⟩ :=
      conversion_fields (s.db.journalEvents.lastSeq + 1) hholds.conversion
    refine ⟨before, _, after, rfl, hout.symm, ?_, observation, ?_, ?_⟩
    · rw [hstep, obj.injEq]
      exact hiff.2 ⟨hnodup, hclean⟩
    · exact (jsonValue_toJs_iff hobs).2 ((observation_clean_iff _).2 hclean)
    · unfold observationLog
      rw [hreadable]
      simp only [Except.map, observationsOf, List.filter_append, List.filter_cons, htx, hfield,
        decide_true, if_true, List.map_append, List.map_cons]

end WorkspaceCausalGraph
end XioFlow
