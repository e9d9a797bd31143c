/-
  XioFlow.Otel.Spans

  What later events and a later record do to the span of an object that has
  ended: the span changes exactly where something new shows in it.
-/

import XioFlow.Otel.Objects

namespace XioFlow.Otel

open Lib
open ExecutionDomain (coalesce)
open Supervisor (truthy)

/-! ## Attributes -/

section Attributes

variable {host : OtlpHost}

/-- The value of the first attribute under a key. -/
def attribute? (list : List OtlpAttribute) (key : String) : Option OtlpValue :=
  (list.find? fun a => decide (a.key = key)).map OtlpAttribute.value

theorem attribute?_attributes (values : List (String × Option Json)) (key : String) :
    attribute? (attributes host values) key =
      values.foldr (fun entry rest =>
        if entry.1 = key then (otlpValue host entry.2).or rest else rest) none := by
  induction values with
  | nil => rfl
  | cons entry values ih =>
    obtain ⟨k, v⟩ := entry
    rw [List.foldr_cons, ← ih]
    cases hv : otlpValue host v with
    | none =>
      have hskip : attributes host ((k, v) :: values) = attributes host values := by
        simp [attributes, hv]
      rw [hskip]
      simp
    | some value =>
      have hkeep : attributes host ((k, v) :: values) =
          ⟨k, value⟩ :: attributes host values := by
        simp [attributes, hv]
      rw [hkeep]
      by_cases hk : k = key <;> simp [attribute?, hk]

/-- Two values that are not `null` and have one attribute value are one value. -/
theorem otlpValue_inj (hhost : host.Lawful) {v v' : Option Json} (hv : v ≠ some .null)
    (hv' : v' ≠ some .null) (h : otlpValue host v = otlpValue host v') : v = v' := by
  unfold otlpValue at h
  split at h <;> split at h <;> (try split at h) <;> (try split at h) <;>
    simp_all [hhost.numberText_injective.eq_iff]

theorem shownText_ne_null (v : Option Json) : shownText host v ≠ some .null := by
  intro h
  obtain ⟨_, -, hstr⟩ := Option.map_eq_some_iff.1 h
  cases hstr

theorem shownNumber_ne_null (v : Option Json) : shownNumber v ≠ some .null := by
  unfold shownNumber
  split <;> simp

end Attributes

theorem nanos_inj {t t' : Timestamp} : nanos t = nanos t' ↔ t = t' := by
  refine ⟨fun h => ?_, congrArg nanos⟩
  have hdigits : digitsOf (t * 1000000) = digitsOf (t' * 1000000) := String.ofList_injective h
  exact Nat.eq_of_mul_eq_mul_right (by decide) (digitsOf_injective hdigits)

/-! ## Events of a type -/

theorem find?_hasType_isSome {type : String} {events : List JournalRow} :
    (events.find? (hasType type)).isSome = true ↔ ∃ e ∈ events, e.type = type := by
  rw [List.find?_isSome]
  simp only [hasType_eq_true]

theorem find?_hasType_eq_none {type : String} {events : List JournalRow} :
    events.find? (hasType type) = none ↔ ∀ e ∈ events, e.type ≠ type := by
  rw [List.find?_eq_none]
  simp only [hasType_eq_true, ne_eq]

/-! ## Operations -/

section Spans

variable (host : OtlpHost) (domainId : String)

/-- Two records of an operation that its span cannot tell apart. -/
structure SameShown (op op' : OperationRecord) : Prop where
  name : spanName op = spanName op'
  attributes : operationAttributes host domainId op = operationAttributes host domainId op'
  status : operationStatus op.result = operationStatus op'.result

/-- The first intent comes only now, at another time than the event that stood in for it. -/
def StartMoves (old new : List JournalRow) : Prop :=
  old.find? (hasType "OPERATION_INTENT_REGISTERED") = none ∧
    ∃ first intent, old.head? = some first ∧
      new.find? (hasType "OPERATION_INTENT_REGISTERED") = some intent ∧
      first.timestamp ≠ intent.timestamp

/-- What changes the span of an operation that has one. -/
def OperationShows (op op' : OperationRecord) (old new : List JournalRow) : Prop :=
  ¬ SameShown host domainId op op' ∨ StartMoves old new ∨
    ∃ e ∈ new, (eventName host e).isSome = true

def startEvent (events : List JournalRow) : Option JournalRow :=
  (events.find? (hasType "OPERATION_INTENT_REGISTERED")).or events.head?

/-- The span of an operation from its record, its two times and its events. -/
def operationSpanAt (op : OperationRecord) (start finish : Timestamp) (events : List OtlpEvent) :
    OtlpSpan where
  traceId := hexId host 16 [domainId, op.runId]
  spanId := hexId host 8 [domainId, "op", op.id]
  name := spanName op
  kind := SPAN_KIND_INTERNAL
  startTimeUnixNano := nanos start
  endTimeUnixNano := nanos finish
  attributes := operationAttributes host domainId op
  events := events
  status := operationStatus op.result

variable {host domainId}

variable {events : List JournalRow} {op' : OperationRecord} {old new : List JournalRow}

variable {op : OperationRecord} {completed : JournalRow}

theorem operationSpan_eq {start finish : JournalRow} (hstart : startEvent events = some start)
    (hfinish : events.find? (hasType "OPERATION_RESULT_RECORDED") = some finish) :
    operationSpan host domainId op events =
      some (operationSpanAt host domainId op start.timestamp finish.timestamp
        (operationEvents host events)) := by
  unfold startEvent at hstart
  simp only [operationSpan, hstart, hfinish]
  rfl

theorem exists_startEvent {e : JournalRow} (he : e ∈ events) :
    ∃ start, startEvent events = some start := by
  unfold startEvent
  cases events with
  | nil => cases he
  | cons first rest =>
    cases hfind : (first :: rest).find? (hasType "OPERATION_INTENT_REGISTERED") with
    | none => exact ⟨first, rfl⟩
    | some intent => exact ⟨intent, rfl⟩

theorem runId_eq_of_attributes
    (h : operationAttributes host domainId op = operationAttributes host domainId op') :
    op.runId = op'.runId := by
  have hvalue := congrArg (attribute? · "xioflow.run.id") h
  simp only [operationAttributes, attribute?_attributes] at hvalue
  simpa [otlpValue] using hvalue

theorem operationSpanAt_inj (hid : op'.id = op.id) {start start' finish : Timestamp}
    {events events' : List OtlpEvent} :
    operationSpanAt host domainId op' start' finish events' =
        operationSpanAt host domainId op start finish events ↔
      SameShown host domainId op op' ∧ start' = start ∧ events' = events := by
  constructor
  · intro h
    obtain ⟨-, -, hname, -, hstart, -, hattributes, hevents, hstatus⟩ := OtlpSpan.mk.inj h
    exact ⟨⟨hname.symm, hattributes.symm, hstatus.symm⟩, nanos_inj.1 hstart, hevents⟩
  · rintro ⟨⟨hname, hattributes, hstatus⟩, rfl, rfl⟩
    have hrun := runId_eq_of_attributes hattributes
    simp only [operationSpanAt, hid, hrun, hname, hattributes, hstatus]

theorem operationEvents_append (old new : List JournalRow) :
    operationEvents host (old ++ new) = operationEvents host old ++ operationEvents host new :=
  List.filterMap_append ..

theorem operationEvents_eq_nil :
    operationEvents host events = [] ↔ ¬ ∃ e ∈ events, (eventName host e).isSome = true := by
  unfold operationEvents
  rw [List.filterMap_eq_nil_iff]
  simp

/-- The start of the span moves exactly where the first intent comes at another time. -/
theorem startEvent_append {start start' : JournalRow} (hold : startEvent old = some start)
    (hnew : startEvent (old ++ new) = some start') :
    start'.timestamp ≠ start.timestamp ↔ StartMoves old new := by
  unfold startEvent at hold hnew
  unfold StartMoves
  rw [List.find?_append] at hnew
  cases hintent : old.find? (hasType "OPERATION_INTENT_REGISTERED") with
  | some =>
    rw [hintent, Option.some_or] at hold
    rw [hintent, Option.some_or, Option.some_or] at hnew
    have hsame : start' = start := Option.some.inj (hnew.symm.trans hold)
    simp [hsame]
  | none =>
    rw [hintent, Option.none_or] at hold
    obtain ⟨rest, rfl⟩ := List.head?_eq_some_iff.1 hold
    rw [hintent, Option.none_or, List.cons_append, List.head?_cons] at hnew
    cases hlate : new.find? (hasType "OPERATION_INTENT_REGISTERED") with
    | none =>
      rw [hlate, Option.none_or, Option.some.injEq] at hnew
      simp [hnew]
    | some =>
      rw [hlate, Option.some_or, Option.some.injEq] at hnew
      simp [hnew, eq_comm]

theorem operationSpan_changes (hid : op'.id = op.id)
    (hended : ∃ e ∈ old, e.type = "OPERATION_RESULT_RECORDED") :
    operationSpan host domainId op' (old ++ new) ≠ operationSpan host domainId op old ↔
      OperationShows host domainId op op' old new := by
  obtain ⟨finish, hfinish⟩ := Option.isSome_iff_exists.1 (find?_hasType_isSome.2 hended)
  have hfinish' : (old ++ new).find? (hasType "OPERATION_RESULT_RECORDED") = some finish := by
    rw [List.find?_append, hfinish, Option.some_or]
  have hmem := List.mem_of_find?_eq_some hfinish
  obtain ⟨start, hstart⟩ := exists_startEvent hmem
  obtain ⟨start', hstart'⟩ := exists_startEvent (List.mem_append_left new hmem)
  have hmoves := startEvent_append hstart hstart'
  have hevents : operationEvents host (old ++ new) = operationEvents host old ↔
      ¬ ∃ e ∈ new, (eventName host e).isSome = true := by
    rw [operationEvents_append, List.append_right_eq_self, operationEvents_eq_nil]
  rw [operationSpan_eq hstart' hfinish', operationSpan_eq hstart hfinish, ne_eq,
    Option.some.injEq, operationSpanAt_inj hid, hevents, OperationShows, ← hmoves, not_and_or,
    not_and_or, not_not]

/-! ## Transactions -/

/-- A transaction that ended shows more where its beginning comes only now. -/
def TransactionShows (old new : List JournalRow) : Prop :=
  (∀ e ∈ old, e.type ≠ "TX_BEGUN") ∧ ∃ e ∈ new, e.type = "TX_BEGUN"

theorem find?_txEnd_isSome :
    (events.find? fun e => decide (e.type ∈ txEndTypes)).isSome = true ↔
      ∃ e ∈ events, e.type ∈ txEndTypes := by
  rw [List.find?_isSome]
  simp only [decide_eq_true_iff]

theorem transactionSpan_isSome :
    (transactionSpan host domainId events).isSome = true ↔
      (∃ e ∈ events, e.type = "TX_BEGUN") ∧ ∃ e ∈ events, e.type ∈ txEndTypes := by
  rw [← find?_hasType_isSome, ← find?_txEnd_isSome]
  unfold transactionSpan
  cases hbegun : events.find? (hasType "TX_BEGUN") with
  | none => simp
  | some =>
    cases hfinish : events.find? (fun e => decide (e.type ∈ txEndTypes)) with
    | none => simp
    | some => simp

theorem transactionSpan_changes (hended : ∃ e ∈ old, e.type ∈ txEndTypes) :
    transactionSpan host domainId (old ++ new) ≠ transactionSpan host domainId old ↔
      TransactionShows old new := by
  obtain ⟨finish, hfinish⟩ := Option.isSome_iff_exists.1 (find?_txEnd_isSome.2 hended)
  have hfinish' : (old ++ new).find? (fun e => decide (e.type ∈ txEndTypes)) = some finish := by
    rw [List.find?_append, hfinish, Option.some_or]
  unfold TransactionShows
  rw [← find?_hasType_eq_none, ← find?_hasType_isSome]
  cases hbegun : old.find? (hasType "TX_BEGUN") with
  | some begun =>
    have hbegun' : (old ++ new).find? (hasType "TX_BEGUN") = some begun := by
      rw [List.find?_append, hbegun, Option.some_or]
    have hsame : transactionSpan host domainId (old ++ new) =
        transactionSpan host domainId old := by
      simp only [transactionSpan, hbegun, hbegun', hfinish, hfinish']
    simp [hsame]
  | none =>
    have hbegun' : (old ++ new).find? (hasType "TX_BEGUN") = new.find? (hasType "TX_BEGUN") := by
      rw [List.find?_append, hbegun, Option.none_or]
    have hnone : transactionSpan host domainId old = none := by
      simp only [transactionSpan, hbegun]
    rw [hnone]
    cases hlate : new.find? (hasType "TX_BEGUN") with
    | none => simp [transactionSpan, hbegun', hlate]
    | some => simp [transactionSpan, hbegun', hlate, hfinish']

/-! ## Gateway turns -/

variable (host) in
/-- Two start events that leave a completed turn with the same snapshot. -/
structure SameSnapshot (completed started started' : JournalRow) : Prop where
  snapshotId : shownText host (turnField completed started "snapshotId") =
    shownText host (turnField completed started' "snapshotId")
  journalSeq : shownNumber (turnField completed started "snapshotJournalSeq") =
    shownNumber (turnField completed started' "snapshotJournalSeq")
  treeFingerprint : shownText host (turnField completed started "treeFingerprint") =
    shownText host (turnField completed started' "treeFingerprint")

variable (host) in
/-- What changes the span of a completed turn: a tool event, a last event at another time, or a
    start event that comes only now and says something else. -/
def TurnShows (old new : List JournalRow) : Prop :=
  (∃ e ∈ new, isToolEvent e = true) ∨
    (∃ last last', old.getLast? = some last ∧ new.getLast? = some last' ∧
      last.timestamp ≠ last'.timestamp) ∨
    (∃ completed started, old.find? (hasType "GATEWAY_TURN_COMPLETED") = some completed ∧
      old.find? (hasType "GATEWAY_TURN_STARTED") = none ∧
      new.find? (hasType "GATEWAY_TURN_STARTED") = some started ∧
      (started.timestamp ≠ completed.timestamp ∨
        ¬ SameSnapshot host completed started completed))

theorem gatewayTurnSpan_isSome :
    (gatewayTurnSpan host domainId events).isSome = true ↔
      ∃ e ∈ events, e.type = "GATEWAY_TURN_COMPLETED" := by
  rw [← find?_hasType_isSome]
  unfold gatewayTurnSpan
  cases events.find? (hasType "GATEWAY_TURN_COMPLETED") with
  | none => rfl
  | some => rfl

theorem turnAttributes_inj (hhost : host.Lawful) {started started' : JournalRow}
    {events' : List JournalRow} (hrun : (completed.runId.or started'.runId).getD "" =
      (completed.runId.or started.runId).getD "")
    (hindex : turnIndexOf completed started' = turnIndexOf completed started)
    (hops : turnOpIds host completed events' = turnOpIds host completed events) :
    turnAttributes host domainId completed started' events' =
        turnAttributes host domainId completed started events ↔
      SameSnapshot host completed started' started := by
  constructor
  · intro h
    have hvalue := fun key => congrArg (attribute? · key) h
    have hid := hvalue "xioflow.snapshot.id"
    have hseq := hvalue "xioflow.snapshot.journal_seq"
    have hsha := hvalue "xioflow.workspace.tree_sha"
    simp only [turnAttributes, attribute?_attributes] at hid hseq hsha
    have hid' : otlpValue host (shownText host (turnField completed started' "snapshotId")) =
        otlpValue host (shownText host (turnField completed started "snapshotId")) := by
      simpa using hid
    have hseq' : otlpValue host (shownNumber (turnField completed started' "snapshotJournalSeq")) =
        otlpValue host (shownNumber (turnField completed started "snapshotJournalSeq")) := by
      simpa using hseq
    have hsha' : otlpValue host (shownText host (turnField completed started' "treeFingerprint")) =
        otlpValue host (shownText host (turnField completed started "treeFingerprint")) := by
      simpa using hsha
    exact ⟨otlpValue_inj hhost (shownText_ne_null _) (shownText_ne_null _) hid',
      otlpValue_inj hhost (shownNumber_ne_null _) (shownNumber_ne_null _) hseq',
      otlpValue_inj hhost (shownText_ne_null _) (shownText_ne_null _) hsha'⟩
  · rintro ⟨hid, hseq, hsha⟩
    simp only [turnAttributes, hrun, hindex, hops, hid, hseq, hsha]

/-- The span of a turn from its completion, its start, its last time and its events. -/
theorem gatewayTurnSpan_eq {runId : String} {index : Rat} {last : JournalRow}
    (hconc : ∀ e ∈ events, concerns (.turn runId index) e = true)
    (hcompleted : events.find? (hasType "GATEWAY_TURN_COMPLETED") = some completed)
    (hlast : events.getLast? = some last) :
    gatewayTurnSpan host domainId events = some {
      traceId := hexId host 16 [domainId, runId]
      spanId := hexId host 8 [domainId, "turn", runId, host.numberText index]
      name := "xioflow.gateway.turn " ++ host.numberText index
      kind := SPAN_KIND_INTERNAL
      startTimeUnixNano := nanos (startedOf completed events).timestamp
      endTimeUnixNano := nanos last.timestamp
      attributes := turnAttributes host domainId completed (startedOf completed events) events
      events := (events.filter isToolEvent).map (toolEvent host)
      status := ⟨STATUS_OK, none⟩ } := by
  have hc := hconc completed (List.mem_of_find?_eq_some hcompleted)
  have hs : concerns (.turn runId index) (startedOf completed events) = true := by
    unfold startedOf
    cases hfind : events.find? (hasType "GATEWAY_TURN_STARTED") with
    | none => exact hc
    | some started => exact hconc started (List.mem_of_find?_eq_some hfind)
  have hrun := turn_run hc hs
  have hindex := turn_index (startedOf completed events) hc
  unfold startedOf at hrun hindex
  simp only [gatewayTurnSpan, hcompleted, hrun, hindex, hlast, Option.getD_some]
  rfl

theorem turnOpIds_append (h : ¬ ∃ e ∈ new, isToolEvent e = true) :
    turnOpIds host completed (old ++ new) = turnOpIds host completed old := by
  have hnone : new.filter (hasType "GATEWAY_TURN_TOOL_EXECUTED") = [] := by
    rw [List.filter_eq_nil_iff]
    intro e he htype
    exact h ⟨e, he, decide_eq_true (Or.inr (hasType_eq_true.1 htype))⟩
  simp only [turnOpIds, List.filter_append, hnone, List.append_nil]

theorem toolEvents_append :
    ((old ++ new).filter isToolEvent).map (toolEvent host) =
        (old.filter isToolEvent).map (toolEvent host) ↔
      ¬ ∃ e ∈ new, isToolEvent e = true := by
  rw [List.filter_append, List.map_append, List.append_right_eq_self, List.map_eq_nil_iff,
    List.filter_eq_nil_iff]
  simp

/-- The last event moves exactly where the new events end at another time. -/
theorem getLast?_append_moves {last last' : JournalRow} (hold : old.getLast? = some last)
    (hnew : (old ++ new).getLast? = some last') :
    last'.timestamp ≠ last.timestamp ↔
      ∃ l l', old.getLast? = some l ∧ new.getLast? = some l' ∧ l.timestamp ≠ l'.timestamp := by
  rw [List.getLast?_append, hold] at hnew
  cases hnewLast : new.getLast? with
  | none =>
    rw [hnewLast, Option.none_or, Option.some.injEq] at hnew
    simp [hnew]
  | some =>
    rw [hnewLast, Option.some_or, Option.some.injEq] at hnew
    simp [hold, hnew, eq_comm]

/-- The start of a turn says something else exactly where its start event comes only now and
    differs from the completion that stood in for it. -/
theorem startedOf_append
    (hcompleted : old.find? (hasType "GATEWAY_TURN_COMPLETED") = some completed) :
    (startedOf completed (old ++ new)).timestamp ≠ (startedOf completed old).timestamp ∨
        ¬ SameSnapshot host completed (startedOf completed (old ++ new))
          (startedOf completed old) ↔
      ∃ c started, old.find? (hasType "GATEWAY_TURN_COMPLETED") = some c ∧
        old.find? (hasType "GATEWAY_TURN_STARTED") = none ∧
        new.find? (hasType "GATEWAY_TURN_STARTED") = some started ∧
        (started.timestamp ≠ c.timestamp ∨ ¬ SameSnapshot host c started c) := by
  have hrefl : ∀ started, SameSnapshot host completed started started :=
    fun _ => ⟨rfl, rfl, rfl⟩
  unfold startedOf
  rw [List.find?_append]
  cases hstarted : old.find? (hasType "GATEWAY_TURN_STARTED") with
  | some => simp [hrefl]
  | none =>
    rw [Option.none_or, Option.getD_none]
    cases hlate : new.find? (hasType "GATEWAY_TURN_STARTED") with
    | none => simp [hrefl]
    | some => simp [hcompleted]

theorem gatewayTurnSpan_changes (runId : String) (index : Rat) (hhost : host.Lawful)
    (hconc : ∀ e ∈ old ++ new, concerns (.turn runId index) e = true)
    (hended : ∃ e ∈ old, e.type = "GATEWAY_TURN_COMPLETED") :
    gatewayTurnSpan host domainId (old ++ new) ≠ gatewayTurnSpan host domainId old ↔
      TurnShows host old new := by
  obtain ⟨completed, hcompleted⟩ := Option.isSome_iff_exists.1 (find?_hasType_isSome.2 hended)
  have hcompleted' : (old ++ new).find? (hasType "GATEWAY_TURN_COMPLETED") = some completed := by
    rw [List.find?_append, hcompleted, Option.some_or]
  have hmem := List.mem_of_find?_eq_some hcompleted
  have hconcOld : ∀ e ∈ old, concerns (.turn runId index) e = true :=
    fun e he => hconc e (List.mem_append_left _ he)
  have hlast? : ∀ events : List JournalRow, completed ∈ events →
      ∃ last, events.getLast? = some last := by
    intro events h
    exact ⟨_, List.getLast?_eq_some_getLast (List.ne_nil_of_mem h)⟩
  obtain ⟨last, hlast⟩ := hlast? old hmem
  obtain ⟨last', hlast'⟩ := hlast? (old ++ new) (List.mem_append_left _ hmem)
  have hc := hconcOld completed hmem
  have hs : ∀ events : List JournalRow, (∀ e ∈ events, concerns (.turn runId index) e = true) →
      concerns (.turn runId index) (startedOf completed events) = true := by
    intro events h
    unfold startedOf
    cases hfind : events.find? (hasType "GATEWAY_TURN_STARTED") with
    | none => exact hc
    | some started => exact h started (List.mem_of_find?_eq_some hfind)
  have hrun : (completed.runId.or (startedOf completed (old ++ new)).runId).getD "" =
      (completed.runId.or (startedOf completed old).runId).getD "" :=
    (turn_run hc (hs _ hconc)).trans (turn_run hc (hs _ hconcOld)).symm
  have hindex : turnIndexOf completed (startedOf completed (old ++ new)) =
      turnIndexOf completed (startedOf completed old) :=
    (turn_index _ hc).trans (turn_index _ hc).symm
  rw [gatewayTurnSpan_eq hconc hcompleted' hlast', gatewayTurnSpan_eq hconcOld hcompleted hlast,
    ne_eq, Option.some.injEq, OtlpSpan.mk.injEq, nanos_inj, nanos_inj, toolEvents_append, TurnShows,
    ← getLast?_append_moves hlast hlast', ← startedOf_append hcompleted]
  by_cases htools : ∃ e ∈ new, isToolEvent e = true
  · exact iff_of_true (fun h => h.2.2.2.2.2.2.2.1 htools) (Or.inl htools)
  · rw [turnAttributes_inj hhost hrun hindex (turnOpIds_append htools)]
    simp only [htools, true_and, false_or, not_false_eq_true, and_true, not_and_or, ne_eq]
    tauto

end Spans
end XioFlow.Otel
