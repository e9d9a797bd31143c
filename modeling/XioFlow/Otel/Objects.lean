/-
  XioFlow.Otel.Objects

  The operations, transactions and gateway turns of a journal: the events of
  each, the span they make, and its id.

  The spans of a call are those of the objects that ended at or after its
  cursor, and no two objects share an id.
-/

import XioFlow.Otel.Otlp

namespace XioFlow.Otel

open Lib
open ExecutionDomain (coalesce)

/-- What has a span. -/
inductive TracedObject where
  | operation (id : String)
  | transaction (id : String)
  | turn (runId : String) (index : Rat)
  deriving DecidableEq

/-- What the ids rest on: the first eight bytes of the digest are injective, numbers have
    different texts, and these hold neither a NUL nor a colon. -/
structure OtlpHost.Lawful (host : OtlpHost) : Prop where
  digest_injective : Function.Injective (host.hexDigest 8)
  numberText_injective : Function.Injective host.numberText
  numberText_plain : ∀ n, '\x00' ∉ (host.numberText n).toList ∧ ':' ∉ (host.numberText n).toList

/-! ## Events of an object -/

/-- The run and the number of the turn an event belongs to. -/
def turnOf (e : JournalRow) : Option (String × Rat) :=
  if hasPrefix "GATEWAY_" e.type then
    (numField? e.payload "turnIndex").map fun n => (e.runId.getD "", n)
  else none

def concerns : TracedObject → JournalRow → Bool
  | .operation id, e => decide (opKey e = some id)
  | .transaction id, e => decide (txKey e = some id)
  | .turn runId index, e => decide (turnOf e = some (runId, index))

def eventsOf (object : TracedObject) (rows : List JournalRow) : List JournalRow :=
  rows.filter (concerns object)

def endTypes : TracedObject → List String
  | .operation _ => ["OPERATION_RESULT_RECORDED"]
  | .transaction _ => txEndTypes
  | .turn .. => ["GATEWAY_TURN_COMPLETED"]

theorem mem_eventsOf {object : TracedObject} {rows : List JournalRow} {e : JournalRow} :
    e ∈ eventsOf object rows ↔ e ∈ rows ∧ concerns object e = true := List.mem_filter

theorem eventsOf_append (object : TracedObject) (rows more : List JournalRow) :
    eventsOf object (rows ++ more) = eventsOf object rows ++ eventsOf object more :=
  List.filter_append ..

/-! ## Keys -/

section Lawful

variable {host : OtlpHost} (hhost : host.Lawful)
include hhost

theorem turnKey_eq_some {e : JournalRow} {runId : String} {index : Rat} :
    turnKey host e = some (runId ++ ":" ++ host.numberText index) ↔
      turnOf e = some (runId, index) := by
  unfold turnKey turnOf
  split
  · cases hn : numField? e.payload "turnIndex" with
    | none => simp
    | some n =>
      simp only [Option.map_some, Option.some.injEq, Prod.mk.injEq]
      constructor
      · intro h
        have hchars := congrArg String.toList h
        have hcolon : (":" : String).toList = [':'] := rfl
        simp only [String.toList_append, hcolon, List.append_assoc, List.singleton_append]
          at hchars
        obtain ⟨hrun, hindex⟩ := append_sep_inj (hhost.numberText_plain n).2
          (hhost.numberText_plain index).2 hchars
        exact ⟨String.toList_inj.1 hrun, hhost.numberText_injective (String.toList_inj.1 hindex)⟩
      · rintro ⟨rfl, rfl⟩
        rfl
  · simp

theorem groupOf_turnKey (rows : List JournalRow) (runId : String) (index : Rat) :
    groupOf (turnKey host) rows (runId ++ ":" ++ host.numberText index) =
      eventsOf (.turn runId index) rows := by
  apply List.filter_congr
  intro e _
  exact decide_eq_decide.2 (turnKey_eq_some hhost)

omit hhost in
/-- The key of a turn names its run and its number. -/
theorem exists_of_turnKey {e : JournalRow} {key : String} (h : turnKey host e = some key) :
    ∃ runId index, key = runId ++ ":" ++ host.numberText index := by
  unfold turnKey at h
  split at h
  · obtain ⟨n, -, hkey⟩ := Option.map_eq_some_iff.1 h
    exact ⟨_, n, hkey.symm⟩
  · cases h

end Lawful

/-! ## Spans -/

section Spans

variable (host : OtlpHost) (domainId : String) (lookup : String → Option OperationRecord)

/-- The span of an object, whenever it ended. -/
def spanOf (rows : List JournalRow) (object : TracedObject) : Option OtlpSpan :=
  let events := eventsOf object rows
  match object with
  | .operation id => (lookup id).bind fun op => operationSpan host domainId op events
  | .transaction _ => transactionSpan host domainId events
  | .turn .. => gatewayTurnSpan host domainId events

def spanIdOf : TracedObject → String
  | .operation id => hexId host 8 [domainId, "op", id]
  | .transaction id => hexId host 8 [domainId, "tx", id]
  | .turn runId index => hexId host 8 [domainId, "turn", runId, host.numberText index]

variable {host domainId lookup}

theorem endedAfter_ne_nil {fromSeq : Int} {types : List String} {events : List JournalRow}
    (h : endedAfter fromSeq types events = true) : events ≠ [] := by
  rintro rfl
  cases h

/-- A call exports the span of each object that ended at or after its cursor. -/
theorem mem_spans (hhost : host.Lawful) (options : OtlpOptions) (span : OtlpSpan) :
    span ∈ (journalToOtlpTraces host options).spans ↔
      ∃ object, endedAfter (options.fromSeq.getD 0) (endTypes object)
          (eventsOf object options.events) = true ∧
        spanOf host options.domainId options.lookupOperation options.events object = some span := by
  simp only [journalToOtlpTraces, List.mem_append, List.mem_filterMap, Prod.exists]
  constructor
  · rintro ((⟨id, events, hmem, hspan⟩ | ⟨id, events, hmem, hspan⟩) | ⟨key, events, hmem, hspan⟩)
    · obtain ⟨rfl, -⟩ := mem_groupBy.1 hmem
      split at hspan
      · rename_i hended
        exact ⟨.operation id, hended, hspan⟩
      · cases hspan
    · obtain ⟨rfl, -⟩ := mem_groupBy.1 hmem
      split at hspan
      · rename_i hended
        exact ⟨.transaction id, hended, hspan⟩
      · cases hspan
    · obtain ⟨rfl, hne⟩ := mem_groupBy.1 hmem
      -- some event of the group names the turn
      obtain ⟨e, he⟩ := List.exists_mem_of_ne_nil _ hne
      obtain ⟨runId, index, rfl⟩ := exists_of_turnKey (mem_groupOf.1 he).2
      rw [groupOf_turnKey hhost] at hspan
      split at hspan
      · rename_i hended
        exact ⟨.turn runId index, hended, hspan⟩
      · cases hspan
  · rintro ⟨object, hended, hspan⟩
    have hne := endedAfter_ne_nil hended
    cases object with
    | operation id =>
      refine Or.inl (Or.inl ⟨id, _, mem_groupBy.2 ⟨rfl, hne⟩, ?_⟩)
      exact (if_pos hended).trans hspan
    | transaction id =>
      refine Or.inl (Or.inr ⟨id, _, mem_groupBy.2 ⟨rfl, hne⟩, ?_⟩)
      exact (if_pos hended).trans hspan
    | turn runId index =>
      refine Or.inr ⟨_, _, mem_groupBy.2 ⟨(groupOf_turnKey hhost _ runId index).symm, hne⟩, ?_⟩
      exact (if_pos hended).trans hspan

variable {e : JournalRow} {runId : String} {index : Rat} {completed : JournalRow}

theorem hasType_eq_true {type : String} : hasType type e = true ↔ e.type = type := by
  rw [hasType, decide_eq_true_iff]

theorem strField?_eq_some {value : Json} {name s : String} :
    value.strField? name = some s ↔ value.field? name = some (.str s) := by
  unfold Json.strField?
  split
  · rename_i s' h
    rw [h, Option.some.injEq, Option.some.injEq, Json.str.injEq]
  · rename_i h
    constructor
    · intro hs
      cases hs
    · intro hs
      exact absurd hs (h s)

theorem numField?_eq_some {value : Json} {name : String} {n : Rat} :
    numField? value name = some n ↔ value.field? name = some (.num n) := by
  unfold numField?
  split
  · rename_i n' h
    rw [h, Option.some.injEq, Option.some.injEq, Json.num.injEq]
  · rename_i h
    constructor
    · intro hn
      cases hn
    · intro hn
      exact absurd hn (h n)

theorem mem_of_find? {p : JournalRow → Bool} {object : TracedObject} {rows : List JournalRow}
    (h : (eventsOf object rows).find? p = some e) : concerns object e = true :=
  (mem_eventsOf.1 (List.mem_of_find?_eq_some h)).2

/-- An event of a turn carries the turn's run and number. -/
theorem concerns_turn (h : concerns (.turn runId index) e = true) :
    e.runId.getD "" = runId ∧ e.payload.field? "turnIndex" = some (.num index) := by
  have hturn : turnOf e = some (runId, index) := of_decide_eq_true h
  unfold turnOf at hturn
  split at hturn
  · obtain ⟨n, hn, heq⟩ := Option.map_eq_some_iff.1 hturn
    obtain ⟨hrun, rfl⟩ := Prod.mk.inj heq
    exact ⟨hrun, numField?_eq_some.1 hn⟩
  · cases hturn

/-- The event a turn is taken to have started with. -/
def startedOf (completed : JournalRow) (events : List JournalRow) : JournalRow :=
  (events.find? (hasType "GATEWAY_TURN_STARTED")).getD completed

theorem concerns_startedOf (rows : List JournalRow)
    (h : concerns (.turn runId index) completed = true) :
    concerns (.turn runId index)
      (startedOf completed (eventsOf (.turn runId index) rows)) = true := by
  unfold startedOf
  cases hfind : (eventsOf (.turn runId index) rows).find? (hasType "GATEWAY_TURN_STARTED") with
  | none => exact h
  | some => exact mem_of_find? hfind

theorem turn_run {started : JournalRow} (hc : concerns (.turn runId index) completed = true)
    (hs : concerns (.turn runId index) started = true) :
    (completed.runId.or started.runId).getD "" = runId := by
  have hcompleted := (concerns_turn hc).1
  have hstarted := (concerns_turn hs).1
  cases hrun : completed.runId with
  | none => rwa [Option.none_or]
  | some =>
    rw [hrun] at hcompleted
    exact hcompleted

theorem turn_index (started : JournalRow) (hc : concerns (.turn runId index) completed = true) :
    turnIndexOf completed started = index := by
  simp only [turnIndexOf, turnField, (concerns_turn hc).2, coalesce]

/-- The id of a span is that of its object. -/
theorem spanId_of_spanOf (hlookup : ∀ id op, lookup id = some op → op.id = id)
    {rows : List JournalRow} {object : TracedObject} {span : OtlpSpan}
    (h : spanOf host domainId lookup rows object = some span) :
    span.spanId = spanIdOf host domainId object := by
  cases object with
  | operation id =>
    obtain ⟨op, hop, hspan⟩ := Option.bind_eq_some_iff.1 h
    simp only [operationSpan] at hspan
    split at hspan
    · cases hspan
      rw [hlookup id op hop]
      rfl
    · cases hspan
  | transaction id =>
    simp only [spanOf, transactionSpan] at h
    split at h
    · rename_i begun finish hbegun _
      cases h
      have hkey : txKey begun = some id := of_decide_eq_true (mem_of_find? hbegun)
      have hid : begun.payload.field? "txId" = some (.str id) := by
        unfold txKey at hkey
        split at hkey
        · exact strField?_eq_some.1 hkey
        · cases hkey
      simp only [hid, spanIdOf, stringOf?, stringOf]
    · cases h
  | turn =>
    simp only [spanOf, gatewayTurnSpan] at h
    split at h
    · cases h
    · rename_i completed hcompleted
      cases h
      have hc := mem_of_find? hcompleted
      have hs := concerns_startedOf rows hc
      have hrun := turn_run hc hs
      unfold startedOf at hrun
      simp only [spanIdOf, hrun, turn_index _ hc]

/-- Distinct objects have distinct ids. -/
theorem spanIdOf_injective (hhost : host.Lawful) :
    Function.Injective (spanIdOf host domainId) := by
  intro a b h
  have hnul : ("\x00" : String).toList = ['\x00'] := rfl
  have hop : ("op" : String).toList = ['o', 'p'] := rfl
  have htx : ("tx" : String).toList = ['t', 'x'] := rfl
  have hturn : ("turn" : String).toList = ['t', 'u', 'r', 'n'] := rfl
  cases a <;> cases b <;>
    (have hchars := congrArg String.toList (hhost.digest_injective h)
     simp only [String.intercalate_cons_cons, String.intercalate_singleton, String.toList_append,
       hnul, hop, htx, hturn, List.append_assoc, List.cons_append, List.nil_append,
       List.append_cancel_left_eq, List.cons.injEq, true_and] at hchars)
  case operation.operation => exact congrArg _ (String.toList_inj.1 hchars)
  case operation.transaction => exact absurd hchars.1 (by decide)
  case operation.turn => exact absurd hchars.1 (by decide)
  case transaction.operation => exact absurd hchars.1 (by decide)
  case transaction.transaction => exact congrArg _ (String.toList_inj.1 hchars)
  case transaction.turn => exact absurd hchars.1 (by decide)
  case turn.operation => exact absurd hchars.1 (by decide)
  case turn.transaction => exact absurd hchars.1 (by decide)
  case turn.turn runId index runId' index' =>
    obtain ⟨hrun, hindex⟩ := append_sep_inj (hhost.numberText_plain index).1
      (hhost.numberText_plain index').1 hchars
    rw [String.toList_inj.1 hrun, hhost.numberText_injective (String.toList_inj.1 hindex)]

end Spans
end XioFlow.Otel
