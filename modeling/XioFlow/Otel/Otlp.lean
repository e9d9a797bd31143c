/-
  XioFlow.Otel.Otlp

  From the journal to OpenTelemetry traces: one span for each settled
  operation, each ended transaction and each completed gateway turn.

  A span is built from all events of its object.  Whether a call exports it
  depends on its ending events alone: one of them must stand at or after the
  cursor of the call.
-/

import XioFlow.Lib.Grouping
import XioFlow.Supervisor.Coverage

namespace XioFlow.Otel

open Lib
open ExecutionDomain (coalesce)
open Supervisor (truthy)

/-- What the exporter takes from the host: the first `bytes` bytes of the SHA-256 digest of a text
    in hexadecimal, `String(n)` of a number, and the version in `package.json`. -/
structure OtlpHost where
  hexDigest : (bytes : Nat) → String → String
  numberText : Rat → String
  kernelVersion : String

/-! ## Values -/

/-- The value of an attribute.  `stringValue` takes whatever is neither a boolean nor a number. -/
inductive OtlpValue where
  | stringValue (value : Json)
  | intValue (value : String)
  | doubleValue (value : Rat)
  | boolValue (value : Bool)
  deriving DecidableEq

structure OtlpAttribute where
  key : String
  value : OtlpValue
  deriving DecidableEq

structure OtlpEvent where
  timeUnixNano : String
  name : String
  attributes : List OtlpAttribute
  deriving DecidableEq

structure OtlpStatus where
  code : Nat
  message : Option Json := none
  deriving DecidableEq

structure OtlpSpan where
  traceId : String
  spanId : String
  name : String
  kind : Nat
  startTimeUnixNano : String
  endTimeUnixNano : String
  attributes : List OtlpAttribute
  events : List OtlpEvent
  status : OtlpStatus
  deriving DecidableEq

def SPAN_KIND_INTERNAL : Nat := 1
def STATUS_UNSET : Nat := 0
def STATUS_OK : Nat := 1
def STATUS_ERROR : Nat := 2

/-- `value[name]` when it is a number. -/
def numField? (value : Json) (name : String) : Option Rat :=
  match value.field? name with
  | some (.num n) => some n
  | _ => none

/-- `value[name]` when it is a boolean. -/
def boolField? (value : Json) (name : String) : Option Bool :=
  match value.field? name with
  | some (.bool b) => some b
  | _ => none

/-- The items of `value[name] ?? []`, which the kernel only ever records as an array. -/
def itemsField (value : Json) (name : String) : List Json :=
  match value.field? name with
  | some (.arr items) => items
  | _ => []

section Host

variable (host : OtlpHost)

mutual

/-- `String(value)` -/
def stringOf : Json → String
  | .null => "null"
  | .bool b => if b then "true" else "false"
  | .num n => host.numberText n
  | .str s => s
  | .arr items => ",".intercalate (stringsOf items)
  | .obj _ => "[object Object]"

/-- The parts that `Array.prototype.join` puts together. -/
def stringsOf : List Json → List String
  | [] => []
  | .null :: items => "" :: stringsOf items
  | item :: items => stringOf item :: stringsOf items

end

/-- `String(value)`, where the value may be absent. -/
def stringOf? : Option Json → String
  | some value => stringOf host value
  | none => "undefined"

/-- `value ? String(value) : undefined` -/
def shownText (value : Option Json) : Option Json :=
  (value.filter truthy).map fun v => .str (stringOf host v)

def hexId (bytes : Nat) (parts : List String) : String :=
  host.hexDigest bytes ("\x00".intercalate parts)

/-- A time in nanoseconds. -/
def nanos (t : Timestamp) : String := String.ofList (digitsOf (t * 1000000))

/-- The attribute value of a JSON value; `undefined` and `null` have none. -/
def otlpValue : Option Json → Option OtlpValue
  | none | some .null => none
  | some (.bool b) => some (.boolValue b)
  | some (.num n) => if n.den = 1 then some (.intValue (host.numberText n)) else some (.doubleValue n)
  | some value => some (.stringValue value)

def attributes (values : List (String × Option Json)) : List OtlpAttribute :=
  values.filterMap fun (key, v) => (otlpValue host v).map fun value => ⟨key, value⟩

/-! ## Operations -/

/-- The fields of an `Operation` that the exporter reads, the result as it is stored. -/
structure OperationRecord where
  id : String
  runId : String
  kind : OperationKind
  name : String
  capabilityId : Option String := none
  requiredResources : List String := []
  result : Option Json := none
  deriving DecidableEq

/-- `result?.[name]` -/
def resultField (result : Option Json) (name : String) : Option Json :=
  result.bind fun r => r.field? name

def operationStatus (result : Option Json) : OtlpStatus :=
  let status := resultField result "status"
  if status = some (.str "succeeded") ∨ status = some (.str "restored") then ⟨STATUS_OK, none⟩
  else if status = some (.str "cancelled") then ⟨STATUS_UNSET, none⟩
  else if status = some (.str "indeterminate") then
    ⟨STATUS_ERROR, coalesce (resultField result "reason") (some (.str "indeterminate"))⟩
  else ⟨STATUS_ERROR, coalesce status (some (.str "unknown"))⟩

/-- The name under which an event of an operation shows in its span. -/
def eventName (e : JournalRow) : Option String :=
  if e.type = "OPERATION_STATUS_TRANSITION" then
    some ("status." ++ stringOf? host (e.payload.field? "status"))
  else if e.type = "OPERATION_REPLAYED" then some "replayed"
  else if e.type = "CAPABILITY_USED" then some "capability.used"
  else if e.type = "OPERATION_ADJUDICATED" then some "adjudicated"
  else if e.type = "RESOURCES_RELEASED" then some "resources.released"
  else none

def seqAttribute (e : JournalRow) : String × Option Json :=
  ("xioflow.journal.seq", some (.num e.seq))

def spanName (op : OperationRecord) : String := "xioflow." ++ op.kind.text ++ " " ++ op.name

/-- What the span shows of the stored record. -/
def operationAttributes (domainId : String) (op : OperationRecord) : List OtlpAttribute :=
  attributes host [
    ("xioflow.domain.id", some (.str domainId)),
    ("xioflow.run.id", some (.str op.runId)),
    ("xioflow.op.id", some (.str op.id)),
    ("xioflow.op.kind", some (.str op.kind.text)),
    ("xioflow.op.status", resultField op.result "status"),
    ("process.exit_code", (op.result.bind fun r => numField? r "exitCode").map Json.num),
    ("xioflow.termination_reason", resultField op.result "terminationReason"),
    ("xioflow.identity_verification", resultField op.result "identityVerification"),
    ("xioflow.residual_processes_reaped", resultField op.result "residualProcessesReaped"),
    ("xioflow.output.truncated", resultField op.result "isTruncated"),
    ("xioflow.capability.id", op.capabilityId.map Json.str),
    ("xioflow.confined", resultField op.result "confined"),
    ("xioflow.confinement.driver", resultField op.result "confinementDriver"),
    ("xioflow.rollback.coverage", resultField op.result "coverage"),
    ("xioflow.resources",
      if 0 < op.requiredResources.length then some (.str (",".intercalate op.requiredResources))
      else none)]

/-- The events of an operation that show in its span. -/
def operationEvents (events : List JournalRow) : List OtlpEvent :=
  events.filterMap fun e =>
    (eventName host e).map fun name => ⟨nanos e.timestamp, name, attributes host [seqAttribute e]⟩

def hasType (type : String) (e : JournalRow) : Bool := decide (e.type = type)

def operationSpan (domainId : String) (op : OperationRecord) (events : List JournalRow) :
    Option OtlpSpan :=
  let start := (events.find? (hasType "OPERATION_INTENT_REGISTERED")).or events.head?
  let finish := events.find? (hasType "OPERATION_RESULT_RECORDED")
  match start, finish with
  | some start, some finish => some {
      traceId := hexId host 16 [domainId, op.runId]
      spanId := hexId host 8 [domainId, "op", op.id]
      name := spanName op
      kind := SPAN_KIND_INTERNAL
      startTimeUnixNano := nanos start.timestamp
      endTimeUnixNano := nanos finish.timestamp
      attributes := operationAttributes host domainId op
      events := operationEvents host events
      status := operationStatus op.result }
  | _, _ => none

/-! ## Transactions -/

def txEndTypes : List String := ["TX_COMMITTED", "TX_CONFLICTED", "TX_ABORTED"]

def txOutcome (type : String) : String :=
  if type = "TX_COMMITTED" then "committed"
  else if type = "TX_CONFLICTED" then "conflict"
  else "aborted"

/-- `${c.kind}:${c.path}` -/
def conflictText (c : Json) : String :=
  stringOf? host (c.field? "kind") ++ ":" ++ stringOf? host (c.field? "path")

def transactionSpan (domainId : String) (events : List JournalRow) : Option OtlpSpan :=
  let begun := events.find? (hasType "TX_BEGUN")
  let finish := events.find? fun e => decide (e.type ∈ txEndTypes)
  match begun, finish with
  | some begun, some finish =>
    let txId := stringOf? host (begun.payload.field? "txId")
    let writeSet := itemsField finish.payload "writeSet"
    let readSet := finish.payload.field? "readSet"
    let conflicts := itemsField finish.payload "conflicts"
    let outcome := txOutcome finish.type
    some {
      traceId := hexId host 16 [domainId, begun.runId.getD ""]
      spanId := hexId host 8 [domainId, "tx", txId]
      name := "xioflow.transaction " ++ txId
      kind := SPAN_KIND_INTERNAL
      startTimeUnixNano := nanos begun.timestamp
      endTimeUnixNano := nanos finish.timestamp
      attributes := attributes host [
        ("xioflow.domain.id", some (.str domainId)),
        ("xioflow.run.id", begun.runId.map Json.str),
        ("xioflow.tx.id", some (.str txId)),
        ("xioflow.tx.outcome", some (.str outcome)),
        ("xioflow.tx.root", some (.str (stringOf? host (begun.payload.field? "root")))),
        ("xioflow.tx.read_tracking",
          some (.str (stringOf? host (begun.payload.field? "readTracking")))),
        ("xioflow.tx.write_set.size",
          if finish.type = "TX_COMMITTED" then some (.num writeSet.length) else none),
        ("xioflow.tx.read_set.size",
          match readSet with
          | some (.arr items) => some (.num items.length)
          | _ => none),
        ("xioflow.tx.conflicts",
          if 0 < conflicts.length then
            some (.str (",".intercalate (conflicts.map (conflictText host))))
          else none)]
      events := []
      status := if outcome = "committed" then ⟨STATUS_OK, none⟩
        else ⟨STATUS_ERROR, some (.str outcome)⟩ }
  | _, _ => none

/-! ## Gateway turns -/

def isToolEvent (e : JournalRow) : Bool :=
  decide (e.type = "GATEWAY_TOOL_CALL" ∨ e.type = "GATEWAY_TURN_TOOL_EXECUTED")

def toolEvent (e : JournalRow) : OtlpEvent where
  timeUnixNano := nanos e.timestamp
  name := if e.type = "GATEWAY_TOOL_CALL" then "tool.call" else "tool.executed"
  attributes := attributes host [
    seqAttribute e,
    ("xioflow.op.id", (e.payload.strField? "opId").map Json.str),
    ("xioflow.tool.name", (e.payload.strField? "name").map Json.str)]

/-- `completed.payload[name] ?? started.payload[name]` -/
def turnField (completed started : JournalRow) (name : String) : Option Json :=
  coalesce (completed.payload.field? name) (started.payload.field? name)

/-- The number of a turn: every event of a turn has one in its payload. -/
def turnIndexOf (completed started : JournalRow) : Rat :=
  match turnField completed started "turnIndex" with
  | some (.num n) => n
  | _ => 0

/-- The operations of a turn, each once. -/
def turnOpIds (completed : JournalRow) (events : List JournalRow) : List String :=
  let toolOpIds := (events.filter (hasType "GATEWAY_TURN_TOOL_EXECUTED")).filterMap fun e =>
    e.payload.strField? "opId"
  let payloadOpIds := (itemsField completed.payload "opIds").map (stringOf host)
  (payloadOpIds ++ toolOpIds).eraseDups

/-- `typeof value === 'number' ? value : undefined` -/
def shownNumber : Option Json → Option Json
  | some (.num n) => some (.num n)
  | _ => none

def turnAttributes (domainId : String) (completed started : JournalRow)
    (events : List JournalRow) : List OtlpAttribute :=
  let runId := (completed.runId.or started.runId).getD ""
  let turnIndex := turnIndexOf completed started
  let opIds := turnOpIds host completed events
  let cacheStatus := coalesce (completed.payload.field? "cacheStatus") (some (.str "MISS"))
  attributes host [
    ("xioflow.domain.id", some (.str domainId)),
    ("xioflow.run.id", some (.str runId)),
    ("xioflow.turn.id", some (.str (runId ++ ":turn:" ++ host.numberText turnIndex))),
    ("xioflow.turn.index", some (.num turnIndex)),
    ("xioflow.turn.step", some (.num (turnIndex + 1))),
    ("xioflow.wire.protocol", shownText host (completed.payload.field? "wire")),
    ("xioflow.llm.model", shownText host (completed.payload.field? "model")),
    ("xioflow.cache.status", some (.str (stringOf? host cacheStatus))),
    ("xioflow.cache.etag", shownText host (completed.payload.field? "etag")),
    ("xioflow.cache.early_cutoff", (boolField? completed.payload "cutoffUsed").map Json.bool),
    ("xioflow.snapshot.id", shownText host (turnField completed started "snapshotId")),
    ("xioflow.snapshot.journal_seq",
      shownNumber (turnField completed started "snapshotJournalSeq")),
    ("xioflow.workspace.tree_sha",
      shownText host (turnField completed started "treeFingerprint")),
    ("xioflow.journal.seq", some (.num completed.seq)),
    ("xioflow.turn.op_ids",
      if 0 < opIds.length then some (.str (",".intercalate opIds)) else none)]

def gatewayTurnSpan (domainId : String) (events : List JournalRow) : Option OtlpSpan :=
  match events.find? (hasType "GATEWAY_TURN_COMPLETED") with
  | none => none
  | some completed =>
    let started := (events.find? (hasType "GATEWAY_TURN_STARTED")).getD completed
    let lastEvent := events.getLast?.getD completed
    let runId := (completed.runId.or started.runId).getD ""
    let turnIndex := turnIndexOf completed started
    some {
      traceId := hexId host 16 [domainId, runId]
      spanId := hexId host 8 [domainId, "turn", runId, host.numberText turnIndex]
      name := "xioflow.gateway.turn " ++ host.numberText turnIndex
      kind := SPAN_KIND_INTERNAL
      startTimeUnixNano := nanos started.timestamp
      endTimeUnixNano := nanos lastEvent.timestamp
      attributes := turnAttributes host domainId completed started events
      events := (events.filter isToolEvent).map (toolEvent host)
      status := ⟨STATUS_OK, none⟩ }

/-! ## The export -/

/-- `e.operationId`, where the empty text counts as none. -/
def opKey (e : JournalRow) : Option String := e.operationId.filter fun id => decide (id ≠ "")

def txKey (e : JournalRow) : Option String :=
  if hasPrefix "TX_" e.type then e.payload.strField? "txId" else none

/-- `${e.runId ?? ''}:${e.payload.turnIndex}` -/
def turnKey (e : JournalRow) : Option String :=
  if hasPrefix "GATEWAY_" e.type then
    (numField? e.payload "turnIndex").map fun n => e.runId.getD "" ++ ":" ++ host.numberText n
  else none

structure OtlpOptions where
  domainId : String
  events : List JournalRow
  lookupOperation : String → Option OperationRecord
  fromSeq : Option Int := none
  serviceName : Option String := none

/-- `payload` is the resource, the scope and the spans. -/
structure OtlpTraces where
  resource : List OtlpAttribute
  scopeName : String
  scopeVersion : String
  spans : List OtlpSpan
  spanCount : Nat
  nextSeq : Int

def endedAfter (fromSeq : Int) (types : List String) (events : List JournalRow) : Bool :=
  events.any fun e => decide (e.type ∈ types ∧ fromSeq ≤ e.seq)

def journalToOtlpTraces (options : OtlpOptions) : OtlpTraces :=
  let fromSeq := options.fromSeq.getD 0
  let byOp := groupBy opKey options.events
  let byTx := groupBy txKey options.events
  let byTurn := groupBy (turnKey host) options.events
  let lastSeq := options.events.foldl (fun last e => max last (e.seq : Int)) (fromSeq - 1)
  let opSpans := byOp.filterMap fun (opId, events) =>
    if endedAfter fromSeq ["OPERATION_RESULT_RECORDED"] events then
      (options.lookupOperation opId).bind fun op => operationSpan host options.domainId op events
    else none
  let txSpans := byTx.filterMap fun (_, events) =>
    if endedAfter fromSeq txEndTypes events then transactionSpan host options.domainId events
    else none
  let turnSpans := byTurn.filterMap fun (_, events) =>
    if endedAfter fromSeq ["GATEWAY_TURN_COMPLETED"] events then
      gatewayTurnSpan host options.domainId events
    else none
  let spans := opSpans ++ txSpans ++ turnSpans
  { resource := attributes host [
      ("service.name", some (.str (options.serviceName.getD "xioflow-kernel"))),
      ("xioflow.domain.id", some (.str options.domainId))]
    scopeName := "@xioflow/kernel"
    scopeVersion := host.kernelVersion
    spans
    spanCount := spans.length
    nextSeq := lastSeq + 1 }

end Host
end XioFlow.Otel
