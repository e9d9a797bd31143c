/-
  XioFlow.Otel.Incremental

  Exports in turn, each with the cursor the one before it returned.

  Merged by span id they give the full export of the journal, and none repeats
  what an earlier one said, exactly in the runs in which every ended object
  gets another ending event whenever something new shows in its span, and only
  then.
-/

import XioFlow.Otel.Spans

namespace XioFlow.Otel

open Lib

/-! ## Runs -/

/-- The store of the kernel, the cursor of the next call and the spans exported so far, one list
    for each call. -/
structure ExportState where
  journal : Journal
  operations : Table OperationRecord OperationRecord.id
  fromSeq : Option Int
  exports : List (List OtlpSpan)

def ExportState.start : ExportState := ⟨Journal.empty, Table.empty, none, []⟩

/-- What the kernel wrote since the call before, and the call. -/
structure ExportPoint where
  recorded : List JournalRow := []
  saved : List OperationRecord := []

/-- The rows of one domain. -/
def visible (domainId : String) (rows : List JournalRow) : List JournalRow :=
  rows.filter fun row => decide (row.domainId = domainId)

/-- `SELECT … FROM operations WHERE id = ?` -/
def ExportState.lookup (s : ExportState) (id : String) : Option OperationRecord :=
  s.operations.get? id

def ExportState.write (s : ExportState) (p : ExportPoint) : ExportState :=
  { s with
    journal := p.recorded.foldl Journal.append s.journal
    operations := p.saved.foldl Table.replace s.operations }

section Runs

variable (host : OtlpHost) (domainId : String)

/-- The call on the journal so far. -/
def ExportState.traces (s : ExportState) (fromSeq : Option Int) : OtlpTraces :=
  journalToOtlpTraces host {
    domainId
    events := visible domainId s.journal.rows
    lookupOperation := s.lookup
    fromSeq }

def ExportState.export (s : ExportState) : ExportState :=
  let traces := s.traces host domainId s.fromSeq
  { s with fromSeq := some traces.nextSeq, exports := s.exports ++ [traces.spans] }

def afterPoint (p : ExportPoint) (s : ExportState) : ExportState :=
  (s.write p).export host domainId

/-- The last exported span of an id. -/
def mergeBySpanId (exports : List (List OtlpSpan)) (id : String) : Option OtlpSpan :=
  exports.flatten.reverse.find? fun span => decide (span.spanId = id)

/-- The merged exports are the full export of the journal. -/
def Lossless (s : ExportState) : Prop :=
  ∀ span, mergeBySpanId s.exports span.spanId = some span ↔
    span ∈ (s.traces host domainId none).spans

/-- No call exports a span as it was exported last. -/
def NoRepeat (exports : List (List OtlpSpan)) : Prop :=
  ∀ earlier spans later, exports = earlier ++ spans :: later →
    ∀ span ∈ spans, mergeBySpanId earlier span.spanId ≠ some span

/-- The span of an object in the journal so far. -/
def ExportState.span (s : ExportState) (object : TracedObject) : Option OtlpSpan :=
  spanOf host domainId s.lookup (visible domainId s.journal.rows) object

/-- No two objects share a span id. -/
def DistinctIds (s : ExportState) : Prop :=
  ∀ object object' span span', s.span host domainId object = some span →
    s.span host domainId object' = some span' → span.spanId = span'.spanId → object = object'

end Runs

/-! ## The condition on the runs -/

/-- The rows a list of inserts adds to a journal. -/
def numbered (lastSeq : Nat) : List JournalRow → List JournalRow
  | [] => []
  | row :: rows => { row with seq := lastSeq + 1 } :: numbered (lastSeq + 1) rows

def HasEnd (object : TracedObject) (events : List JournalRow) : Prop :=
  ∃ e ∈ events, e.type ∈ endTypes object

section Condition

variable (host : OtlpHost) (domainId : String)

/-- What is new in the journal. -/
def newRows (s : ExportState) (p : ExportPoint) : List JournalRow :=
  visible domainId (numbered s.journal.lastSeq p.recorded)

/-- Something new shows in the span of an object that has ended. -/
def ShowsMore (s : ExportState) (p : ExportPoint) (object : TracedObject) : Prop :=
  let old := eventsOf object (visible domainId s.journal.rows)
  let new := eventsOf object (newRows domainId s p)
  match object with
  | .operation id =>
    match s.lookup id, (s.write p).lookup id with
    | some op, some op' => OperationShows host domainId op op' old new
    | none, some _ => True
    | _, none => False
  | .transaction _ => TransactionShows old new
  | .turn .. => TurnShows host old new

/-- An object that has ended can have a span: its record is stored, its beginning recorded. -/
def HasOrigin (s : ExportState) : TracedObject → Prop
  | .operation id => (s.lookup id).isSome = true
  | .transaction id =>
    ∃ e ∈ eventsOf (.transaction id) (visible domainId s.journal.rows), e.type = "TX_BEGUN"
  | .turn .. => True

/-- Each object that has ended ends once more if something new shows in its span, and if it has a
    span only then. -/
def EndsWhenShown (s : ExportState) (p : ExportPoint) : Prop :=
  ∀ object, HasEnd object (eventsOf object (visible domainId s.journal.rows)) →
    (ShowsMore host domainId s p object →
      HasEnd object (eventsOf object (newRows domainId s p))) ∧
    (HasEnd object (eventsOf object (newRows domainId s p)) → HasOrigin domainId s object →
      ShowsMore host domainId s p object)

end Condition

/-! ## What a point leaves -/

theorem foldl_append_rows (rows : List JournalRow) (j : Journal) :
    (rows.foldl Journal.append j).rows = j.rows ++ numbered j.lastSeq rows ∧
      j.lastSeq ≤ (rows.foldl Journal.append j).lastSeq := by
  induction rows generalizing j with
  | nil => exact ⟨(List.append_nil _).symm, le_rfl⟩
  | cons row rows ih =>
    obtain ⟨hrows, hseq⟩ := ih (j.append row)
    refine ⟨?_, (Nat.le_succ _).trans hseq⟩
    rw [List.foldl_cons, hrows, Journal.append_rows, List.append_assoc]
    rfl

theorem numbered_seq {lastSeq : Nat} {rows : List JournalRow} {e : JournalRow}
    (h : e ∈ numbered lastSeq rows) : lastSeq < e.seq := by
  induction rows generalizing lastSeq with
  | nil => cases h
  | cons row rows ih =>
    rcases List.mem_cons.1 h with rfl | h
    · exact Nat.lt_succ_self _
    · exact (Nat.lt_succ_self _).trans (ih h)

theorem visible_append (domainId : String) (rows more : List JournalRow) :
    visible domainId (rows ++ more) = visible domainId rows ++ visible domainId more :=
  List.filter_append ..

theorem visible_write (domainId : String) (s : ExportState) (p : ExportPoint) :
    visible domainId (s.write p).journal.rows =
      visible domainId s.journal.rows ++ newRows domainId s p := by
  have hrows : (s.write p).journal.rows = s.journal.rows ++ numbered s.journal.lastSeq p.recorded :=
    (foldl_append_rows p.recorded s.journal).1
  rw [hrows, visible_append]
  rfl

/-- Records are written over, never deleted. -/
theorem lookup_write_isSome {s : ExportState} {p : ExportPoint} {id : String}
    (h : (s.lookup id).isSome = true) : ((s.write p).lookup id).isSome = true := by
  have hfold : ∀ (saved : List OperationRecord) (t : Table OperationRecord OperationRecord.id),
      (t.get? id).isSome = true → ((saved.foldl Table.replace t).get? id).isSome = true := by
    intro saved
    induction saved with
    | nil => exact fun t ht => ht
    | cons op saved ih =>
      intro t ht
      refine ih _ ?_
      rw [Table.get?_replace]
      split
      · rfl
      · exact ht
  exact hfold p.saved s.operations h

theorem lookup_id {s : ExportState} {id : String} {op : OperationRecord}
    (h : s.lookup id = some op) : op.id = id := Table.key_of_get? h

theorem hasEnd_append {object : TracedObject} {old new : List JournalRow} :
    HasEnd object (old ++ new) ↔ HasEnd object old ∨ HasEnd object new := by
  simp only [HasEnd, List.mem_append, or_and_right, exists_or]

section Steps

variable {host : OtlpHost} {domainId : String}

/-- The events of an object after a point: those it had and the new ones. -/
theorem eventsOf_write (s : ExportState) (p : ExportPoint) (object : TracedObject) :
    eventsOf object (visible domainId (s.write p).journal.rows) =
      eventsOf object (visible domainId s.journal.rows) ++
        eventsOf object (newRows domainId s p) := by
  rw [visible_write, eventsOf_append]

theorem span_isSome (s : ExportState) (object : TracedObject) :
    (s.span host domainId object).isSome = true ↔
      HasEnd object (eventsOf object (visible domainId s.journal.rows)) ∧
        HasOrigin domainId s object := by
  cases object with
  | operation id =>
    simp only [ExportState.span, spanOf, HasEnd, HasOrigin]
    cases hop : s.lookup id with
    | none => simp
    | some =>
      rw [Option.bind_some, Option.isSome_some, and_iff_left rfl]
      simp only [endTypes, List.mem_singleton]
      constructor
      · intro h
        simp only [operationSpan] at h
        split at h
        · rename_i finish _ hfinish
          exact find?_hasType_isSome.1 (Option.isSome_iff_exists.2 ⟨_, hfinish⟩)
        · cases h
      · intro h
        obtain ⟨finish, hfinish⟩ := Option.isSome_iff_exists.1 (find?_hasType_isSome.2 h)
        obtain ⟨start, hstart⟩ := exists_startEvent (List.mem_of_find?_eq_some hfinish)
        rw [operationSpan_eq hstart hfinish]
        rfl
  | transaction =>
    unfold ExportState.span spanOf HasEnd HasOrigin
    rw [transactionSpan_isSome, and_comm]
    rfl
  | turn =>
    unfold ExportState.span spanOf HasEnd HasOrigin
    rw [gatewayTurnSpan_isSome, and_true]
    simp only [endTypes, List.mem_singleton]

variable {object : TracedObject} {s : ExportState}

/-- The span of an ended object changes exactly where something new shows in it. -/
theorem span_write (hhost : host.Lawful) (s : ExportState) (p : ExportPoint)
    (hended : HasEnd object (eventsOf object (visible domainId s.journal.rows))) :
    (s.write p).span host domainId object ≠ s.span host domainId object ↔
      ShowsMore host domainId s p object := by
  cases object with
  | operation id =>
    have hresult : ∃ e ∈ eventsOf (.operation id) (visible domainId s.journal.rows),
        e.type = "OPERATION_RESULT_RECORDED" := by
      obtain ⟨e, he, htype⟩ := hended
      exact ⟨e, he, List.mem_singleton.1 htype⟩
    simp only [ExportState.span, spanOf, ShowsMore, eventsOf_write]
    cases hop : s.lookup id with
    | some op =>
      obtain ⟨op', hop'⟩ := Option.isSome_iff_exists.1
        (lookup_write_isSome (p := p) (Option.isSome_iff_exists.2 ⟨op, hop⟩))
      rw [hop', Option.bind_some, Option.bind_some]
      exact operationSpan_changes ((lookup_id hop').trans (lookup_id hop).symm) hresult
    | none =>
      cases hop' : (s.write p).lookup id with
      | none => simp
      | some op' =>
        have hsome : ((s.write p).span host domainId (.operation id)).isSome = true := by
          rw [span_isSome, eventsOf_write, hasEnd_append]
          exact ⟨Or.inl hended, Option.isSome_iff_exists.2 ⟨op', hop'⟩⟩
        simp only [ExportState.span, spanOf, eventsOf_write, hop', Option.bind_some] at hsome
        simp [Option.ne_none_iff_isSome, hsome]
  | transaction =>
    simp only [ExportState.span, spanOf, ShowsMore, eventsOf_write]
    exact transactionSpan_changes hended
  | turn runId index =>
    simp only [ExportState.span, spanOf, ShowsMore, eventsOf_write]
    refine gatewayTurnSpan_changes runId index hhost ?_ ?_
    · intro e he
      rw [← eventsOf_write] at he
      exact (mem_eventsOf.1 he).2
    · obtain ⟨e, he, htype⟩ := hended
      exact ⟨e, he, List.mem_singleton.1 htype⟩

/-- A span that is there stays. -/
theorem span_write_isSome {p : ExportPoint} (h : (s.span host domainId object).isSome = true) :
    ((s.write p).span host domainId object).isSome = true := by
  rw [span_isSome] at h ⊢
  obtain ⟨hended, horigin⟩ := h
  refine ⟨by rw [eventsOf_write, hasEnd_append]; exact Or.inl hended, ?_⟩
  cases object with
  | operation => exact lookup_write_isSome horigin
  | transaction =>
    obtain ⟨e, he, htype⟩ := horigin
    refine ⟨e, ?_, htype⟩
    rw [eventsOf_write]
    exact List.mem_append_left _ he
  | turn => trivial

/-! ## What a call exports -/

theorem mem_traces (hhost : host.Lawful) (s : ExportState) (fromSeq : Option Int)
    (span : OtlpSpan) :
    span ∈ (s.traces host domainId fromSeq).spans ↔
      ∃ object, endedAfter (fromSeq.getD 0) (endTypes object)
          (eventsOf object (visible domainId s.journal.rows)) = true ∧
        s.span host domainId object = some span := mem_spans hhost _ span

theorem endedAfter_iff {fromSeq : Int} {types : List String} {events : List JournalRow} :
    endedAfter fromSeq types events = true ↔ ∃ e ∈ events, e.type ∈ types ∧ fromSeq ≤ e.seq := by
  unfold endedAfter
  rw [List.any_eq_true]
  simp only [decide_eq_true_iff]

/-- A full export has the span of every object that has one. -/
theorem mem_full (hhost : host.Lawful) (s : ExportState) (span : OtlpSpan) :
    span ∈ (s.traces host domainId none).spans ↔
      ∃ object, s.span host domainId object = some span := by
  rw [mem_traces hhost]
  constructor
  · rintro ⟨object, -, hspan⟩
    exact ⟨object, hspan⟩
  · rintro ⟨object, hspan⟩
    obtain ⟨e, he, htype⟩ := ((span_isSome s object).1 (Option.isSome_iff_exists.2 ⟨_, hspan⟩)).1
    exact ⟨object, endedAfter_iff.2 ⟨e, he, htype, Int.natCast_nonneg _⟩, hspan⟩

/-- The cursor stands after every row seen and not beyond the journal. -/
structure Cursor (domainId : String) (s : ExportState) : Prop where
  seen : ∀ e ∈ visible domainId s.journal.rows, (e.seq : Int) < s.fromSeq.getD 0
  bounded : s.fromSeq.getD 0 ≤ s.journal.lastSeq + 1

theorem nextSeq_bounds (options : OtlpOptions) :
    (∀ e ∈ options.events, (e.seq : Int) < (journalToOtlpTraces host options).nextSeq) ∧
    ∀ bound : Nat, options.fromSeq.getD 0 ≤ bound + 1 → (∀ e ∈ options.events, e.seq ≤ bound) →
      (journalToOtlpTraces host options).nextSeq ≤ bound + 1 := by
  have hfold : ∀ (events : List JournalRow) (last : Int),
      last ≤ events.foldl (fun last e => max last (e.seq : Int)) last ∧
      (∀ e ∈ events, (e.seq : Int) ≤ events.foldl (fun last e => max last (e.seq : Int)) last) ∧
      ∀ bound : Int, last ≤ bound → (∀ e ∈ events, (e.seq : Int) ≤ bound) →
        events.foldl (fun last e => max last (e.seq : Int)) last ≤ bound := by
    intro events
    induction events with
    | nil => exact fun last => ⟨Int.le_refl _, by simp, fun _ h _ => h⟩
    | cons e events ih =>
      intro last
      obtain ⟨hle, hmem, hbound⟩ := ih (max last e.seq)
      rw [List.foldl_cons]
      refine ⟨Int.le_trans (Int.le_max_left _ _) hle, ?_, ?_⟩
      · intro e' he'
        rcases List.mem_cons.1 he' with rfl | he'
        · exact Int.le_trans (Int.le_max_right _ _) hle
        · exact hmem e' he'
      · intro bound hlast hevents
        refine hbound bound (Int.max_le.2 ⟨hlast, hevents e List.mem_cons_self⟩) ?_
        exact fun e' he' => hevents e' (List.mem_cons_of_mem _ he')
  obtain ⟨-, hmem, hbound⟩ := hfold options.events (options.fromSeq.getD 0 - 1)
  constructor
  · exact fun e he => Int.lt_add_one_of_le (hmem e he)
  · intro bound hfrom hevents
    have hlast := hbound bound (by omega) (fun e he => by exact_mod_cast hevents e he)
    exact Int.add_le_add_right hlast 1

theorem Cursor.start : Cursor domainId ExportState.start :=
  ⟨fun e he => (List.not_mem_nil he).elim, by decide⟩

theorem Cursor.after (h : Cursor domainId s) (p : ExportPoint) :
    Cursor domainId (afterPoint host domainId p s) := by
  have hwrite : (s.write p).journal.lastSeq = (afterPoint host domainId p s).journal.lastSeq := rfl
  obtain ⟨hseen, hbounded⟩ := nextSeq_bounds {
    domainId
    events := visible domainId (s.write p).journal.rows
    lookupOperation := (s.write p).lookup
    fromSeq := s.fromSeq }
  refine ⟨hseen, hbounded _ ?_ ?_⟩
  · have hseq : s.journal.lastSeq ≤ (s.write p).journal.lastSeq :=
      (foldl_append_rows p.recorded s.journal).2
    have := h.bounded
    show s.fromSeq.getD 0 ≤ _
    omega
  · intro e he
    exact (s.write p).journal.bounded e (List.mem_filter.1 he).1

/-- With the cursor of the call before, a call exports what ended since. -/
theorem endedAfter_write (h : Cursor domainId s) (p : ExportPoint) (object : TracedObject) :
    endedAfter (s.fromSeq.getD 0) (endTypes object)
        (eventsOf object (visible domainId (s.write p).journal.rows)) = true ↔
      HasEnd object (eventsOf object (newRows domainId s p)) := by
  rw [endedAfter_iff, eventsOf_write]
  constructor
  · rintro ⟨e, he, htype, hseq⟩
    rcases List.mem_append.1 he with he | he
    · have hold := h.seen e (mem_eventsOf.1 he).1
      omega
    · exact ⟨e, he, htype⟩
  · rintro ⟨e, he, htype⟩
    refine ⟨e, List.mem_append_right _ he, htype, ?_⟩
    have hnew : s.journal.lastSeq < e.seq :=
      numbered_seq (List.mem_filter.1 (mem_eventsOf.1 he).1).1
    have := h.bounded
    omega

/-! ## Merging -/

theorem mergeBySpanId_append (exports : List (List OtlpSpan)) (spans : List OtlpSpan)
    (id : String) :
    mergeBySpanId (exports ++ [spans]) id =
      (spans.reverse.find? fun span => decide (span.spanId = id)).or
        (mergeBySpanId exports id) := by
  unfold mergeBySpanId
  rw [List.flatten_append, List.reverse_append, List.find?_append]
  simp

theorem mem_of_mergeBySpanId {exports : List (List OtlpSpan)} {id : String} {span : OtlpSpan}
    (h : mergeBySpanId exports id = some span) :
    span.spanId = id ∧ ∃ spans ∈ exports, span ∈ spans := by
  unfold mergeBySpanId at h
  have hid : span.spanId = id := by simpa using List.find?_some h
  have hmem := List.mem_of_find?_eq_some h
  exact ⟨hid, List.mem_flatten.1 (List.mem_reverse.1 hmem)⟩

theorem spanId_of_span {span : OtlpSpan} (h : s.span host domainId object = some span) :
    span.spanId = spanIdOf host domainId object :=
  spanId_of_spanOf (fun _ _ hop => lookup_id hop) h

theorem distinctIds (hhost : host.Lawful) (s : ExportState) : DistinctIds host domainId s := by
  intro object object' span span' h h' hid
  rw [spanId_of_span h, spanId_of_span h'] at hid
  exact spanIdOf_injective hhost hid

/-- In a list of spans of distinct objects an id finds the span of its object. -/
theorem find?_spans (hhost : host.Lawful) {spans : List OtlpSpan} {chosen : TracedObject → Prop}
    (hmem : ∀ span, span ∈ spans ↔ ∃ object, chosen object ∧
      s.span host domainId object = some span) (object : TracedObject) :
    (chosen object →
      spans.reverse.find? (fun span => decide (span.spanId = spanIdOf host domainId object)) =
        s.span host domainId object) ∧
    (¬ chosen object →
      spans.reverse.find? (fun span => decide (span.spanId = spanIdOf host domainId object)) =
        none) := by
  have hfound : ∀ span,
      spans.reverse.find? (fun span => decide (span.spanId = spanIdOf host domainId object)) =
        some span → chosen object ∧ s.span host domainId object = some span := by
    intro span h
    obtain ⟨object', hchosen, hspan⟩ :=
      (hmem span).1 (List.mem_reverse.1 (List.mem_of_find?_eq_some h))
    have hid : span.spanId = spanIdOf host domainId object := by simpa using List.find?_some h
    rw [spanId_of_span hspan] at hid
    have hobject := spanIdOf_injective hhost hid
    exact hobject ▸ ⟨hchosen, hspan⟩
  constructor
  · intro hchosen
    cases hfind : spans.reverse.find? fun span =>
        decide (span.spanId = spanIdOf host domainId object) with
    | some span => exact (hfound span hfind).2.symm
    | none =>
      cases hspan : s.span host domainId object with
      | none => rfl
      | some span =>
        have hin := List.mem_reverse.2 ((hmem span).2 ⟨object, hchosen, hspan⟩)
        have hnot := List.find?_eq_none.1 hfind span hin
        exact absurd (decide_eq_true (spanId_of_span hspan)) hnot
  · intro hnot
    cases hfind : spans.reverse.find? fun span =>
        decide (span.spanId = spanIdOf host domainId object) with
    | none => rfl
    | some span => exact absurd (hfound span hfind).1 hnot

/-- Every exported span carries the id of an object. -/
def Named (host : OtlpHost) (domainId : String) (s : ExportState) : Prop :=
  ∀ spans ∈ s.exports, ∀ span ∈ spans, ∃ object, span.spanId = spanIdOf host domainId object

theorem Named.start : Named host domainId ExportState.start := by
  intro spans h
  cases h

theorem afterPoint_exports (s : ExportState) (p : ExportPoint) :
    (afterPoint host domainId p s).exports =
      s.exports ++ [((s.write p).traces host domainId s.fromSeq).spans] := rfl

theorem Named.after (hhost : host.Lawful) (h : Named host domainId s) (p : ExportPoint) :
    Named host domainId (afterPoint host domainId p s) := by
  intro spans hspans span hspan
  rw [afterPoint_exports] at hspans
  rcases List.mem_append.1 hspans with hold | hnew
  · exact h spans hold span hspan
  · rw [List.mem_singleton.1 hnew] at hspan
    obtain ⟨object, -, hobject⟩ := (mem_traces hhost _ _ span).1 hspan
    exact ⟨object, spanId_of_span hobject⟩

/-- Lossless means that each id leads to the span of its object. -/
theorem lossless_iff (hhost : host.Lawful) (hnamed : Named host domainId s) :
    Lossless host domainId s ↔
      ∀ object, mergeBySpanId s.exports (spanIdOf host domainId object) =
        s.span host domainId object := by
  unfold Lossless
  simp only [mem_full hhost]
  constructor
  · intro h object
    cases hspan : s.span host domainId object with
    | some span =>
      rw [← spanId_of_span hspan]
      exact (h span).2 ⟨object, hspan⟩
    | none =>
      cases hmerge : mergeBySpanId s.exports (spanIdOf host domainId object) with
      | none => rfl
      | some span =>
        have hid := (mem_of_mergeBySpanId hmerge).1
        obtain ⟨object', hobject'⟩ := (h span).1 (hid.symm ▸ hmerge)
        rw [spanId_of_span hobject'] at hid
        rw [spanIdOf_injective hhost hid, hspan] at hobject'
        cases hobject'
  · intro h span
    constructor
    · intro hmerge
      obtain ⟨-, spans, hspans, hspan⟩ := mem_of_mergeBySpanId hmerge
      obtain ⟨object, hobject⟩ := hnamed spans hspans span hspan
      rw [hobject, h object] at hmerge
      exact ⟨object, hmerge⟩
    · rintro ⟨object, hobject⟩
      rw [spanId_of_span hobject, h object]
      exact hobject

theorem noRepeat_append {exports : List (List OtlpSpan)} {spans : List OtlpSpan} :
    NoRepeat (exports ++ [spans]) ↔
      NoRepeat exports ∧ ∀ span ∈ spans, mergeBySpanId exports span.spanId ≠ some span := by
  constructor
  · intro h
    refine ⟨fun earlier spans' later heq => ?_, h exports spans [] rfl⟩
    exact h earlier spans' (later ++ [spans]) (by rw [heq]; simp)
  · rintro ⟨hold, hnew⟩ earlier spans' later heq
    rcases List.eq_nil_or_concat later with rfl | ⟨later, last, rfl⟩
    · obtain ⟨rfl, hlast⟩ := List.append_inj' heq rfl
      cases hlast
      exact hnew
    · rw [List.concat_eq_append, ← List.cons_append, ← List.append_assoc] at heq
      exact hold earlier spans' later (List.append_inj' heq rfl).1

/-! ## Steps and runs -/

/-- What the exports have to do after every call. -/
def Faithful (host : OtlpHost) (domainId : String) (s : ExportState) : Prop :=
  Lossless host domainId s ∧ NoRepeat s.exports

theorem faithful_start (hhost : host.Lawful) : Faithful host domainId ExportState.start := by
  constructor
  · rw [lossless_iff hhost Named.start]
    intro object
    cases hspan : ExportState.start.span host domainId object with
    | none => rfl
    | some =>
      obtain ⟨e, he, -⟩ := ((span_isSome _ object).1 (Option.isSome_iff_exists.2 ⟨_, hspan⟩)).1
      cases he
  · intro earlier spans later heq
    exact absurd heq (by simp [ExportState.start])

/-- Nothing is lost at a call exactly where what shows more also ends. -/
theorem lossless_after (hhost : host.Lawful) (hcursor : Cursor domainId s)
    (hnamed : Named host domainId s) (hlossless : Lossless host domainId s) (p : ExportPoint) :
    Lossless host domainId (afterPoint host domainId p s) ↔
      ∀ object, (s.write p).span host domainId object ≠ s.span host domainId object →
        HasEnd object (eventsOf object (newRows domainId s p)) := by
  rw [lossless_iff hhost (hnamed.after hhost p)]
  rw [lossless_iff hhost hnamed] at hlossless
  refine forall_congr' fun object => ?_
  rw [afterPoint_exports, mergeBySpanId_append, hlossless object]
  obtain ⟨hends, hnot⟩ := find?_spans hhost
    (fun span => mem_traces hhost (s.write p) s.fromSeq span) object
  have hsel := endedAfter_write hcursor p object
  have hspan : (afterPoint host domainId p s).span host domainId object =
      (s.write p).span host domainId object := rfl
  rw [hspan]
  by_cases hend : HasEnd object (eventsOf object (newRows domainId s p))
  · -- the object is exported as it stands, and a span never goes away
    rw [hends (hsel.2 hend)]
    refine iff_of_true ?_ fun _ => hend
    cases hnew : (s.write p).span host domainId object with
    | some => rfl
    | none =>
      cases hold : s.span host domainId object with
      | none => rfl
      | some span =>
        have := span_write_isSome (p := p) (Option.isSome_iff_exists.2 ⟨span, hold⟩)
        rw [hnew] at this
        cases this
  · rw [hnot (fun h => hend (hsel.1 h)), Option.none_or]
    constructor
    · intro heq hne
      exact absurd heq.symm hne
    · intro h
      by_contra hne
      exact hend (h fun heq => hne heq.symm)

/-- Nothing is repeated at a call exactly where what ends again has changed. -/
theorem noRepeat_after (hhost : host.Lawful) (hcursor : Cursor domainId s)
    (hnamed : Named host domainId s) (hlossless : Lossless host domainId s) (p : ExportPoint) :
    NoRepeat (afterPoint host domainId p s).exports ↔
      NoRepeat s.exports ∧
        ∀ object, HasEnd object (eventsOf object (newRows domainId s p)) →
          (s.span host domainId object).isSome = true →
          (s.write p).span host domainId object ≠ s.span host domainId object := by
  rw [lossless_iff hhost hnamed] at hlossless
  rw [afterPoint_exports, noRepeat_append]
  refine and_congr_right fun _ => ?_
  constructor
  · intro h object hend hsome heq
    obtain ⟨span, hspan⟩ := Option.isSome_iff_exists.1 hsome
    have hmem := (mem_traces hhost (s.write p) s.fromSeq span).2
      ⟨object, (endedAfter_write hcursor p object).2 hend, heq.trans hspan⟩
    refine h span hmem ?_
    rw [spanId_of_span hspan, hlossless object]
    exact hspan
  · intro h span hmem hmerge
    obtain ⟨object, hend, hspan⟩ := (mem_traces hhost (s.write p) s.fromSeq span).1 hmem
    rw [spanId_of_span hspan, hlossless object] at hmerge
    exact h object ((endedAfter_write hcursor p object).1 hend)
      (Option.isSome_iff_exists.2 ⟨span, hmerge⟩) (hspan.trans hmerge.symm)

/-- An object that had not ended has no span to change. -/
theorem ended_of_changed {p : ExportPoint}
    (hchanged : (s.write p).span host domainId object ≠ s.span host domainId object)
    (hnew : ¬ HasEnd object (eventsOf object (newRows domainId s p))) :
    HasEnd object (eventsOf object (visible domainId s.journal.rows)) := by
  have hended : HasEnd object (eventsOf object (visible domainId s.journal.rows)) ∨
      HasEnd object (eventsOf object (newRows domainId s p)) := by
    by_contra hneither
    rw [not_or] at hneither
    have hbefore : s.span host domainId object = none := by
      rw [← Option.not_isSome_iff_eq_none, span_isSome]
      exact fun h => hneither.1 h.1
    have hafter : (s.write p).span host domainId object = none := by
      rw [← Option.not_isSome_iff_eq_none, span_isSome, eventsOf_write, hasEnd_append, not_and]
      exact fun h => absurd h (not_or.2 hneither)
    exact hchanged (hafter.trans hbefore.symm)
  exact hended.resolve_right hnew

theorem faithful_after (hhost : host.Lawful) (hinv : Cursor domainId s ∧ Named host domainId s)
    (hfaithful : Faithful host domainId s) (p : ExportPoint) :
    Faithful host domainId (afterPoint host domainId p s) ↔ EndsWhenShown host domainId s p := by
  obtain ⟨hcursor, hnamed⟩ := hinv
  obtain ⟨hlossless, hrepeat⟩ := hfaithful
  unfold Faithful
  rw [lossless_after hhost hcursor hnamed hlossless, noRepeat_after hhost hcursor hnamed hlossless,
    and_iff_right hrepeat]
  constructor
  · rintro ⟨hshown, hagain⟩ object hended
    have hchanges := span_write hhost s p hended
    refine ⟨fun h => hshown object (hchanges.2 h), fun hend horigin => hchanges.1 ?_⟩
    exact hagain object hend ((span_isSome s object).2 ⟨hended, horigin⟩)
  · intro h
    constructor
    · intro object hchanged
      by_contra hnot
      have hended := ended_of_changed hchanged hnot
      exact hnot ((h object hended).1 ((span_write hhost s p hended).1 hchanged))
    · intro object hend hsome
      obtain ⟨hended, horigin⟩ := (span_isSome s object).1 hsome
      exact (span_write hhost s p hended).2 ((h object hended).2 hend horigin)

end Steps

/-- The ids of distinct objects are distinct after every call.  The exports merge to the full
    export and repeat nothing after every call exactly where at each call what has ended gets
    another ending event if and only if something new shows in it. -/
theorem incremental_export {host : OtlpHost} (hhost : host.Lawful) (domainId : String)
    (points : List ExportPoint) :
    (∀ calls, calls <+: points →
      DistinctIds host domainId (afterAll (afterPoint host domainId) .start calls)) ∧
    ((∀ calls, calls <+: points →
        Lossless host domainId (afterAll (afterPoint host domainId) .start calls) ∧
        NoRepeat (afterAll (afterPoint host domainId) .start calls).exports) ↔
      Along (afterPoint host domainId) (EndsWhenShown host domainId) .start points) := by
  refine ⟨fun calls _ => distinctIds hhost _, ?_⟩
  exact along_iff_of_step (G := Faithful host domainId)
    (I := fun s => Cursor domainId s ∧ Named host domainId s)
    (fun s p h => ⟨h.1.after p, h.2.after hhost p⟩)
    (fun s p hinv hfaithful => faithful_after hhost hinv hfaithful p)
    ⟨Cursor.start, Named.start⟩ (faithful_start hhost) points

/-! ## A host and its runs -/

def signOf (n : Rat) : Char := if n.num < 0 then '-' else '+'

/-- `String(n)` of a whole number that is not negative; the other numbers have texts of their
    own. -/
def plainNumber (n : Rat) : List Char :=
  if n.den = 1 ∧ 0 ≤ n.num then digitsOf n.num.natAbs
  else 'r' :: signOf n :: (digitsOf n.num.natAbs ++ '/' :: digitsOf n.den)

/-- A host whose digest of a text is the text. -/
def plainHost : OtlpHost where
  hexDigest _ text := text
  numberText n := String.ofList (plainNumber n)
  kernelVersion := "0.1.0"

theorem plainNumber_injective : Function.Injective plainNumber := by
  intro n m h
  have hhead : ∀ (k : Nat) (rest : List Char), digitsOf k ≠ 'r' :: rest := by
    intro k rest heq
    exact not_mem_digitsOf (c := 'r') rfl k (heq ▸ List.mem_cons_self)
  unfold plainNumber at h
  by_cases hn : n.den = 1 ∧ 0 ≤ n.num <;> by_cases hm : m.den = 1 ∧ 0 ≤ m.num
  · rw [if_pos hn, if_pos hm] at h
    have habs := digitsOf_injective h
    exact Rat.ext (by omega) (hn.1.trans hm.1.symm)
  · rw [if_pos hn, if_neg hm] at h
    exact absurd h (hhead _ _)
  · rw [if_neg hn, if_pos hm] at h
    exact absurd h.symm (hhead _ _)
  · rw [if_neg hn, if_neg hm] at h
    obtain ⟨hsign, hparts⟩ := List.cons.inj (List.cons.inj h).2
    obtain ⟨hnum, hden⟩ := append_sep_inj (not_mem_digitsOf rfl _) (not_mem_digitsOf rfl _) hparts
    have habs := digitsOf_injective hnum
    refine Rat.ext ?_ (digitsOf_injective hden)
    -- the sign stands before the digits
    unfold signOf at hsign
    split at hsign <;> split at hsign
    · omega
    · exact absurd hsign (by decide)
    · exact absurd hsign (by decide)
    · omega

theorem plainNumber_plain (n : Rat) : '\x00' ∉ plainNumber n ∧ ':' ∉ plainNumber n := by
  have hnul := fun k => not_mem_digitsOf (c := '\x00') rfl k
  have hcolon := fun k => not_mem_digitsOf (c := ':') rfl k
  unfold plainNumber
  split
  · exact ⟨hnul _, hcolon _⟩
  · unfold signOf
    split <;> simp [hnul, hcolon]

theorem plainHost_lawful : plainHost.Lawful where
  digest_injective := fun _ _ h => h
  numberText_injective := fun _ _ h => plainNumber_injective (String.ofList_injective h)
  numberText_plain := fun n => by
    show '\x00' ∉ (String.ofList (plainNumber n)).toList ∧ _ ∉ (String.ofList (plainNumber n)).toList
    rw [String.toList_ofList]
    exact plainNumber_plain n

/-- An event of the run `run` in the domain `dom`. -/
def eventAt (t : Timestamp) (type : String) (operationId : Option String)
    (payload : List (String × Json)) : JournalRow where
  seq := 0
  domainId := "dom"
  runId := some "run"
  operationId := operationId
  type := type
  payload := .obj payload
  timestamp := t
  schemaVersion := "1.0"
  requestId := none
  programId := none
  instructionId := none
  opId := operationId
  event := type
  sensitivity := .internal
  createdAt := t

/-- An operation that ends without a known outcome. -/
def settledPoint : ExportPoint where
  recorded := [eventAt 1 "OPERATION_INTENT_REGISTERED" (some "op") [],
    eventAt 2 "OPERATION_RESULT_RECORDED" (some "op") []]
  saved := [{
    id := "op"
    runId := "run"
    kind := .process
    name := "make"
    result := some (.obj [("status", .str "indeterminate")]) }]

/-- The operator decides on it. -/
def adjudicatedPoint : ExportPoint where
  recorded := [eventAt 3 "OPERATION_ADJUDICATED" (some "op") []]

def txPayload : List (String × Json) :=
  [("txId", .str "tx"), ("root", .str "/w"), ("readTracking", .str "off")]

def conflictedPoint : ExportPoint where
  recorded := [eventAt 1 "TX_BEGUN" none txPayload,
    eventAt 2 "TX_CONFLICTED" none [("txId", .str "tx"), ("conflicts", .arr [])]]

def abortedPoint : ExportPoint where
  recorded := [eventAt 3 "TX_ABORTED" none [("txId", .str "tx")]]

/-- Another operation, after the first was exported. -/
def nextPoint : ExportPoint where
  recorded := [eventAt 3 "OPERATION_INTENT_REGISTERED" (some "next") [],
    eventAt 4 "OPERATION_RESULT_RECORDED" (some "next") []]
  saved := [{
    id := "next"
    runId := "run"
    kind := .process
    name := "make"
    result := some (.obj [("status", .str "succeeded")]) }]

/-- Two calls, each of which exports the operation that ended since the one before. -/
theorem two_exports_faithful :
    Lossless plainHost "dom"
        (afterAll (afterPoint plainHost "dom") .start [settledPoint, nextPoint]) ∧
      NoRepeat (afterAll (afterPoint plainHost "dom") .start [settledPoint, nextPoint]).exports ∧
      (afterAll (afterPoint plainHost "dom") .start [settledPoint, nextPoint]).exports.map
        List.length = [1, 1] := by
  have hnext : EndsWhenShown plainHost "dom" (afterPoint plainHost "dom" settledPoint .start)
      nextPoint := by
    rintro object ⟨e, he, htype⟩
    obtain ⟨hrow, hconcerns⟩ := mem_eventsOf.1 he
    have hkeys : ∀ row ∈ visible "dom" (afterPoint plainHost "dom" settledPoint .start).journal.rows,
        opKey row = some "op" ∧ txKey row = none ∧ turnOf row = none := by decide +kernel
    obtain ⟨hop, htx, hturn⟩ := hkeys e hrow
    cases object with
    | operation id =>
      obtain rfl : id = "op" := Option.some.inj ((of_decide_eq_true hconcerns).symm.trans hop)
      have hnone : eventsOf (.operation "op")
          (newRows "dom" (afterPoint plainHost "dom" settledPoint .start) nextPoint) = [] := by
        decide +kernel
      rw [hnone]
      refine ⟨fun hshows => ?_, fun hend => ?_⟩
      · unfold ShowsMore at hshows
        rw [hnone] at hshows
        rcases hshows with hdiffers | ⟨hintent, -⟩ | ⟨e, he, -⟩
        · exact absurd ⟨rfl, rfl, rfl⟩ hdiffers
        · exact absurd hintent (by decide +kernel)
        · cases he
      · obtain ⟨e, he, -⟩ := hend
        cases he
    | transaction id =>
      have hkey : txKey e = some id := of_decide_eq_true hconcerns
      rw [htx] at hkey
      cases hkey
    | turn runId index =>
      have hkey : turnOf e = some (runId, index) := of_decide_eq_true hconcerns
      rw [hturn] at hkey
      cases hkey
  have hfaithful := (incremental_export plainHost_lawful "dom" [settledPoint, nextPoint]).2.2
    ⟨fun _ ⟨_, he, _⟩ => absurd he List.not_mem_nil, hnext, trivial⟩ [settledPoint, nextPoint]
    (List.prefix_refl _)
  exact ⟨hfaithful.1, hfaithful.2, by decide +kernel⟩

/-- The decision on an exported operation is in the full export and in no other; a transaction
    that was exported in conflict is exported once more, unchanged, when it is aborted. -/
theorem adjudication_lost_abort_repeated :
    plainHost.Lawful ∧
    ¬ Lossless plainHost "dom"
      (afterAll (afterPoint plainHost "dom") .start [settledPoint, adjudicatedPoint]) ∧
    ¬ NoRepeat
      (afterAll (afterPoint plainHost "dom") .start [conflictedPoint, abortedPoint]).exports := by
  refine ⟨plainHost_lawful, ?_, ?_⟩
  · intro h
    have hall := fun span hspan => (h span).2 hspan
    revert hall
    decide
  · intro h
    have hlast := h
      ((afterAll (afterPoint plainHost "dom") .start [conflictedPoint, abortedPoint]).exports.take 1)
      ((afterAll (afterPoint plainHost "dom") .start
        [conflictedPoint, abortedPoint]).exports.getD 1 []) [] (by decide)
    revert hlast
    decide

end XioFlow.Otel
