/-
  XioFlow.Store.IntentFirst

  The order of the journal: every event about an operation comes after its
  intent, and an operation has one result.

  The two checks of `recordEventAndTransitionState` look an operation up by
  `operation_id`, but an event may name it by `opId` alone, or name two; and a
  flag in the payload switches both checks off.  Raw events that do neither
  keep the journal in order.
-/

import XioFlow.Store.Fencing
import XioFlow.Store.Redaction

namespace XioFlow

open Lib Lib.Prog
open SqliteStore

/-! ## The order -/

namespace JournalRow

/-- The row is about the operation: by either of its two columns. -/
def Names (row : JournalRow) (opId : String) : Prop :=
  row.operationId = some opId ∨ row.opId = some opId

def isIntent (row : JournalRow) : Bool := row.type = "OPERATION_INTENT_REGISTERED"

def isResult (row : JournalRow) : Bool := row.type = "OPERATION_RESULT_RECORDED"

/-- The result of an operation that was cancelled before it had an intent. -/
def isPreIntentCancellation (row : JournalRow) : Bool :=
  row.isResult && row.payload.field? "preIntentCancelled" = some (.bool true)

end JournalRow

/-- Events that must not come before the intent of their operation. -/
def followsIntent (type : String) : Bool :=
  type = "OPERATION_RESULT_RECORDED" || type = "OPERATION_STATUS_TRANSITION" ||
    ["SERVICE_", "SNAPSHOT_", "WORKSPACE_", "ARTIFACT_", "PROCESS_", "PROC_"].any
      fun pre => hasPrefix pre type

/-- A journal in which intents come first and results come once. -/
structure IntentFirst (rows : List JournalRow) : Prop where
  preceded : ∀ pre row post, rows = pre ++ row :: post → followsIntent row.type = true →
    ∀ opId, row.Names opId →
      row.isPreIntentCancellation = true ∨ ∃ r ∈ pre, r.isIntent = true ∧ r.Names opId
  excepted : ∀ row ∈ rows, row.isPreIntentCancellation = true → ∀ opId, row.Names opId →
    ∀ r ∈ rows, r.isIntent = true → ¬ r.Names opId
  once : rows.Pairwise fun r r' => r.isResult = true → r'.isResult = true →
    ∀ opId, r.Names opId → ¬ r'.Names opId

theorem IntentFirst.append {rows : List JournalRow} {row : JournalRow} (h : IntentFirst rows)
    (hpreceded : followsIntent row.type = true → ∀ opId, row.Names opId →
      row.isPreIntentCancellation = true ∨ ∃ r ∈ rows, r.isIntent = true ∧ r.Names opId)
    (hexcepted : row.isPreIntentCancellation = true → ∀ opId, row.Names opId →
      ∀ r ∈ rows, r.isIntent = true → ¬ r.Names opId)
    (hintent : row.isIntent = true → ∀ opId, row.Names opId →
      ∀ r ∈ rows, r.isPreIntentCancellation = true → ¬ r.Names opId)
    (honce : row.isResult = true → ∀ opId, row.Names opId →
      ∀ r ∈ rows, r.isResult = true → ¬ r.Names opId) : IntentFirst (rows ++ [row]) where
  preceded := by
    intro pre row' post hsplit hfollows opId hnames
    rcases List.eq_nil_or_concat post with rfl | ⟨post', last, rfl⟩
    · obtain ⟨rfl, hrow⟩ := List.append_inj' hsplit rfl
      cases hrow
      exact hpreceded hfollows opId hnames
    · have hrows : rows ++ [row] = (pre ++ row' :: post') ++ [last] := by simpa using hsplit
      exact h.preceded pre row' post' (List.append_inj' hrows rfl).1 hfollows opId hnames
  excepted := by
    intro row' hrow' hcancelled opId hnames r hr hr'
    rcases List.mem_append.1 hrow' with hold | hnew
    · rcases List.mem_append.1 hr with hrold | hrnew
      · exact h.excepted row' hold hcancelled opId hnames r hrold hr'
      · rw [List.mem_singleton.1 hrnew] at hr' ⊢
        exact fun hrow => hintent hr' opId hrow row' hold hcancelled hnames
    · rw [List.mem_singleton.1 hnew] at hcancelled hnames
      rcases List.mem_append.1 hr with hrold | hrnew
      · exact hexcepted hcancelled opId hnames r hrold hr'
      · -- one row is not an intent and a result
        rw [List.mem_singleton.1 hrnew] at hr'
        unfold JournalRow.isPreIntentCancellation JournalRow.isResult at hcancelled
        unfold JournalRow.isIntent at hr'
        rw [decide_eq_true_eq] at hr'
        rw [hr'] at hcancelled
        simp at hcancelled
  once := by
    rw [List.pairwise_append]
    refine ⟨h.once, List.pairwise_singleton _ _, fun r hr r' hr' hresult hresult' opId hnames => ?_⟩
    rw [List.mem_singleton.1 hr'] at hresult' ⊢
    exact fun hrow => honce hresult' opId hrow r hr hresult hnames

/-! ## What an event is stored as -/

variable {js : List (String × Json)}

/-- A boolean of a stored object was a boolean of the host object. -/
theorem jsonEntries_bool {entries : List (String × JsValue)} {path : String}
    (h : jsonEntries entries path = .ok js) {key : String} {b : Bool}
    (hmem : (key, Json.bool b) ∈ js) : (key, JsValue.bool b) ∈ entries := by
  induction entries generalizing js with
  | nil =>
    cases h
    cases hmem
  | cons entry entries ih =>
    obtain ⟨k, item⟩ := entry
    rcases jsonEntries_cons_ok h with ⟨-, hrest⟩ | ⟨-, j, rest, hvalue, hrest, rfl⟩
    · exact List.mem_cons_of_mem _ (ih hrest hmem)
    · have hlater : (key, Json.bool b) ∈ rest → (key, JsValue.bool b) ∈ (k, item) :: entries :=
        fun hr => List.mem_cons_of_mem _ (ih hrest hr)
      split at hmem
      · exact hlater hmem
      · rcases List.mem_cons.1 hmem with heq | hr
        · cases heq
          have hitem : item = .bool b := by
            cases item with
            | bool =>
              cases hvalue
              rfl
            | num n => cases n <;> cases hvalue
            | arr items =>
              simp only [jsonValue] at hvalue
              cases hitems : jsonItems items (path ++ "." ++ key) 0 with
              | error | ok => rw [hitems] at hvalue; cases hvalue
            | obj entries' | exotic entries' =>
              simp only [jsonValue] at hvalue
              cases hentries : jsonEntries entries' (path ++ "." ++ key) with
              | error | ok => rw [hentries] at hvalue; cases hvalue
            | _ => cases hvalue
          rw [hitem]
          exact List.mem_cons_self ..
        · exact hlater hr

theorem mem_of_field? {key : String} {value : Json} (h : (Json.obj js).field? key = some value) :
    (key, value) ∈ js := by
  unfold Json.field? at h
  obtain ⟨⟨key', value'⟩, hfind, hvalue⟩ := Option.map_eq_some_iff.1 h
  have hkey := List.find?_some hfind
  simp only [beq_iff_eq] at hkey hvalue
  subst hkey hvalue
  exact List.mem_of_find?_eq_some hfind

theorem mem_of_marks (h : marksPreIntentCancelled (Json.obj js).toJs = true) :
    ("preIntentCancelled", Json.bool true) ∈ js := by
  obtain ⟨entry, hmem, hentry⟩ := List.any_eq_true.1 h
  split at hentry
  · clear h hentry
    induction js with
    | nil => cases hmem
    | cons entry js ih =>
      obtain ⟨key, value⟩ := entry
      rcases List.mem_cons.1 hmem with heq | hmem
      · obtain ⟨hkey, hvalue⟩ := Prod.mk.inj heq
        cases value with
        | bool =>
          cases hvalue
          rw [hkey]
          exact List.mem_cons_self ..
        | _ => cases hvalue
      · exact List.mem_cons_of_mem _ (ih hmem)
  · cases hentry

/-- The flag of a stored payload was in the payload as it was given. -/
theorem marks_of_redact {payload : JsValue} {sensitivity : EventSensitivity}
    (h : redactEventPayload payload sensitivity = .ok (.obj js))
    (hflag : ("preIntentCancelled", Json.bool true) ∈ js) :
    sensitivity ≠ .secret ∧ marksPreIntentCancelled payload = true := by
  unfold redactEventPayload at h
  by_cases hsecret : sensitivity = .secret
  · rw [if_pos hsecret] at h
    cases h
    exact absurd (List.mem_singleton.1 hflag) (by decide)
  · refine ⟨hsecret, ?_⟩
    rw [if_neg hsecret] at h
    have hobject : ∀ entries : List (String × JsValue),
        jsonEntries entries "payload" = .ok js → marksPreIntentCancelled (.obj entries) = true :=
      fun entries hentries => List.any_eq_true.2 ⟨_, jsonEntries_bool hentries hflag, rfl⟩
    cases payload with
    | obj entries | exotic entries =>
      simp only [jsonValue] at h
      cases hjs : jsonEntries entries "payload" with
      | error =>
        rw [hjs] at h
        cases h
      | ok =>
        rw [hjs] at h
        cases h
        exact hobject entries hjs
    | undefined | null =>
      simp only [jsonValue, jsonEntries] at h
      cases h
      cases hflag
    | arr items =>
      simp only [jsonValue] at h
      cases hjs : jsonItems items "payload" 0 with
      | error | ok =>
        rw [hjs] at h
        cases h
    | num n => cases n <;> cases h
    | _ => cases h

/-! ## Events in order -/

namespace SqliteStore

namespace EventInput

/-- The operations an event names, by either of its two fields. -/
def Names (e : EventInput) (opId : String) : Prop :=
  nonEmpty e.operationId = some opId ∨ nonEmpty (e.opId.or e.operationId) = some opId

/-- An event that the two checks of the store judge rightly: it names no operation that they do
    not look up, and the flag that switches them off stands only where there is none. -/
structure Orderly (e : EventInput) (s : SqliteStore) : Prop where
  subject : followsIntent e.eventName = true → ∀ opId, e.Names opId → e.subject = some opId
  indexed : e.eventName = "OPERATION_RESULT_RECORDED" → ∀ opId, e.Names opId →
    nonEmpty e.operationId = some opId
  unflagged : e.preIntentCancelled = true → ∀ opId, ¬ e.Names opId
  intent : e.eventName = "OPERATION_INTENT_REGISTERED" → ∀ opId, e.Names opId →
    ∀ row ∈ s.db.journalEvents.rows, row.isPreIntentCancellation = true → ¬ row.Names opId

/-- An event of the store's own that is neither an intent nor flagged is in order. -/
theorem orderly_of_own {e : EventInput} (s : SqliteStore) (hopId : e.opId = none)
    (hflag : e.preIntentCancelled = false) (hname : e.eventName ≠ "OPERATION_INTENT_REGISTERED") :
    e.Orderly s := by
  have hnames : ∀ opId, e.Names opId → nonEmpty e.operationId = some opId := by
    rintro opId (h | h)
    · exact h
    · rw [hopId, Option.none_or] at h
      exact h
  refine ⟨fun _ opId h => ?_, fun _ => hnames, fun h => ?_, fun h => absurd h hname⟩
  · unfold EventInput.subject
    rw [hopId, Option.or_none]
    exact hnames opId h
  · rw [hflag] at h
    cases h

end EventInput

/-- What the journal and the operations table keep between them. -/
structure JournalSound (s : SqliteStore) : Prop where
  inOrder : IntentFirst s.db.journalEvents.rows
  known : ∀ row ∈ s.db.journalEvents.rows, row.isPreIntentCancellation = true →
    ∀ opId, row.Names opId → (s.getOperation opId).isSome = true
  indexed : ∀ row ∈ s.db.journalEvents.rows, row.isResult = true →
    ∀ opId, row.Names opId → row.operationId = some opId

/-- The journal stays and no operation goes away. -/
structure SameJournal (s s' : SqliteStore) : Prop where
  journal : s'.db.journalEvents = s.db.journalEvents
  operations : ∀ opId, (s.getOperation opId).isSome = true → (s'.getOperation opId).isSome = true

theorem SameJournal.refl (s : SqliteStore) : SameJournal s s := ⟨rfl, fun _ => id⟩

theorem SameJournal.trans (a b c : SqliteStore) (hab : SameJournal a b) (hbc : SameJournal b c) :
    SameJournal a c :=
  ⟨hbc.journal.trans hab.journal, fun opId h => hbc.operations opId (hab.operations opId h)⟩

variable {s' : SqliteStore} {now : Timestamp}

variable {s : SqliteStore} {e : EventInput} {row : JournalRow}

theorem JournalSound.same (hs : JournalSound s) (h : SameJournal s s') : JournalSound s' where
  inOrder := h.journal ▸ hs.inOrder
  known := by
    intro row hrow hflag opId hnames
    rw [h.journal] at hrow
    exact h.operations opId (hs.known row hrow hflag opId hnames)
  indexed := h.journal ▸ hs.indexed

/-! ## One event -/

theorem requiresIntent_of_followsIntent {type : String} (h : followsIntent type = true) :
    requiresIntent type = true := by
  have hexempt : ∀ other, followsIntent other = false → type ≠ other := by
    rintro other hother rfl
    rw [h] at hother
    cases hother
  have h1 := hexempt "OPERATION_INTENT_REGISTERED" (by decide)
  have h2 := hexempt "RESOURCES_RELEASED" (by decide)
  have h3 := hexempt "OPERATION_REPLAYED" (by decide)
  unfold requiresIntent
  unfold followsIntent at h
  simp only [Bool.or_eq_true] at h
  simp only [h1, h2, h3, ne_eq, not_false_eq_true, decide_true, Bool.and_true, Bool.or_eq_true]
  rcases h with (h | h) | h
  · exact .inl (.inl (.inl h))
  · exact .inl (.inl (.inr h))
  · exact .inr h

/-- The row an accepted event is stored as. -/
structure StoredAs (e : EventInput) (row : JournalRow) : Prop where
  type : row.type = e.eventName
  operationId : row.operationId = nonEmpty e.operationId
  opId : row.opId = nonEmpty (e.opId.or e.operationId)
  payload : redactEventPayload e.payload (e.sensitivity.getD .internal) = .ok row.payload

theorem StoredAs.names_iff (h : StoredAs e row) (opId : String) :
    row.Names opId ↔ e.Names opId := by
  unfold JournalRow.Names EventInput.Names
  rw [h.operationId, h.opId]

theorem StoredAs.flagged (h : StoredAs e row) (hflag : row.isPreIntentCancellation = true) :
    e.preIntentCancelled = true := by
  unfold JournalRow.isPreIntentCancellation JournalRow.isResult at hflag
  rw [Bool.and_eq_true, decide_eq_true_eq, decide_eq_true_eq, h.type] at hflag
  unfold EventInput.preIntentCancelled
  rw [Bool.and_eq_true, decide_eq_true_eq]
  refine ⟨hflag.1, ?_⟩
  have hpayload := h.payload
  cases hjson : row.payload with
  | obj =>
    rw [hjson] at hpayload hflag
    exact (marks_of_redact hpayload (mem_of_field? hflag.2)).2
  | _ =>
    rw [hjson] at hflag
    cases hflag.2

theorem EventRecorded.storedAs (h : EventRecorded e s s') :
    s'.db.operations = s.db.operations ∧ ∃ row, StoredAs e row ∧
      s'.db.journalEvents.rows = s.db.journalEvents.rows ++ [row] := by
  obtain ⟨envelope, henv, rfl⟩ := h.appended
  obtain ⟨hopId, hevent, hpayload⟩ := createEventEnvelope_ok henv
  refine ⟨rfl, _, ?_, Journal.append_rows _ _⟩
  exact ⟨hevent, rfl, congrArg nonEmpty hopId, hpayload⟩

theorem hasEvent_eq_true {j : Journal} {opId type : String} (h : j.hasEvent opId type = true) :
    ∃ row ∈ j.rows, row.operationId = some opId ∧ row.type = type := by
  obtain ⟨row, hrow, heq⟩ := List.any_eq_true.1 h
  rw [Bool.and_eq_true, decide_eq_true_eq, decide_eq_true_eq] at heq
  exact ⟨row, hrow, heq⟩

theorem hasEvent_of_mem {j : Journal} {opId : String} (hrow : row ∈ j.rows)
    (hop : row.operationId = some opId) : j.hasEvent opId row.type = true :=
  List.any_eq_true.2 ⟨row, hrow, by simp [hop]⟩

theorem known_append (hs : JournalSound s)
    (hops : ∀ opId, (s.getOperation opId).isSome = true → (s'.getOperation opId).isSome = true)
    (hrow : row.isPreIntentCancellation = true → ∀ opId, row.Names opId →
      (s'.getOperation opId).isSome = true) :
    ∀ r ∈ s.db.journalEvents.rows ++ [row], r.isPreIntentCancellation = true →
      ∀ opId, r.Names opId → (s'.getOperation opId).isSome = true := by
  intro r hr hflag opId hnames
  rcases List.mem_append.1 hr with hold | hnew
  · exact hops opId (hs.known r hold hflag opId hnames)
  · rw [List.mem_singleton.1 hnew] at hflag hnames
    exact hrow hflag opId hnames

/-- An orderly event keeps the journal in order. -/
theorem JournalSound.record (hs : JournalSound s) (he : e.Orderly s) (h : EventRecorded e s s') :
    JournalSound s' := by
  obtain ⟨hops, row, hstored, hrows⟩ := h.storedAs
  have hsubject : ∀ opId, e.Names opId → followsIntent e.eventName = true →
      e.subject = some opId ∧ e.preIntentCancelled = false := by
    intro opId hnames hfollows
    refine ⟨he.subject hfollows opId hnames, Bool.eq_false_iff.2 fun hflag => ?_⟩
    exact he.unflagged hflag opId hnames
  have hresult : ∀ opId, row.Names opId → row.isResult = true →
      row.operationId = some opId ∧ e.subject = some opId ∧ e.preIntentCancelled = false ∧
        e.eventName = "OPERATION_RESULT_RECORDED" := by
    intro opId hnames hres
    unfold JournalRow.isResult at hres
    rw [decide_eq_true_eq, hstored.type] at hres
    rw [hstored.names_iff] at hnames
    have hfollows : followsIntent e.eventName = true := by
      rw [hres]
      decide
    obtain ⟨hsub, hflag⟩ := hsubject opId hnames hfollows
    exact ⟨hstored.operationId.trans (he.indexed hres opId hnames), hsub, hflag, hres⟩
  have hnoflag : row.isPreIntentCancellation = true → ∀ opId, ¬ row.Names opId := by
    intro hflag opId hnames
    exact he.unflagged (hstored.flagged hflag) opId ((hstored.names_iff opId).1 hnames)
  refine ⟨?_, ?_, ?_⟩
  · rw [hrows]
    refine hs.inOrder.append ?_ ?_ ?_ ?_
    · intro hfollows opId hnames
      rw [hstored.type] at hfollows
      rw [hstored.names_iff] at hnames
      obtain ⟨hsub, hflag⟩ := hsubject opId hnames hfollows
      have hrequires := requiresIntent_of_followsIntent hfollows
      obtain ⟨r, hr, hop, htype⟩ := hasEvent_eq_true
        (h.intent opId hsub (by rw [hrequires, hflag]; rfl))
      exact .inr ⟨r, hr, by unfold JournalRow.isIntent; rw [htype]; rfl, .inl hop⟩
    · exact fun hflag opId hnames => absurd hnames (hnoflag hflag opId)
    · intro hintent opId hnames r hr hflag
      unfold JournalRow.isIntent at hintent
      rw [decide_eq_true_eq, hstored.type] at hintent
      exact he.intent hintent opId ((hstored.names_iff opId).1 hnames) r hr hflag
    · intro hres opId hnames r hr hres' hnames'
      obtain ⟨-, hsub, hflag, hname⟩ := hresult opId hnames hres
      have hfresh := h.fresh opId hsub (by rw [hname, hflag]; rfl)
      have hfound := hasEvent_of_mem hr (hs.indexed r hr hres' opId hnames')
      unfold JournalRow.isResult at hres'
      rw [decide_eq_true_eq] at hres'
      rw [hres', hfresh] at hfound
      cases hfound
  · rw [hrows]
    refine known_append hs ?_ fun hflag opId hnames => absurd hnames (hnoflag hflag opId)
    intro opId hsome
    unfold getOperation at hsome ⊢
    rw [hops]
    exact hsome
  · rw [hrows]
    intro r hr hres opId hnames
    rcases List.mem_append.1 hr with hold | hnew
    · exact hs.indexed r hold hres opId hnames
    · rw [List.mem_singleton.1 hnew] at hres hnames ⊢
      exact (hresult opId hnames hres).1

/-- A cancellation before the intent, of an operation that has no intent, keeps the order. -/
theorem JournalSound.cancel {op : Operation} {domainId : String} {result : OperationResult}
    {operations : Table StoredOperation fun row => row.id} (hs : JournalSound s)
    (hinsert : s.db.operations.insert? (cancelledRow op domainId result) = some operations)
    (hintent : ∀ row ∈ s.db.journalEvents.rows, row.isIntent = true → ¬ row.Names op.id)
    (h : EventRecorded (preIntentCancelledEvent op domainId result)
      (s.withDb { s.db with operations }) s') : JournalSound s' := by
  obtain ⟨hops, row, hstored, hrows⟩ := h.storedAs
  have hrows : s'.db.journalEvents.rows = s.db.journalEvents.rows ++ [row] := hrows
  have hlookup : ∀ opId, s'.getOperation opId =
      if op.id = opId then some (cancelledRow op domainId result) else s.getOperation opId := by
    intro opId
    unfold getOperation
    rw [hops]
    exact Table.get?_insert? hinsert opId
  have habsent : s.getOperation op.id = none := (Table.insert?_eq_some hinsert).1
  have hnames : ∀ opId, row.Names opId → opId = op.id := by
    intro opId hnames
    rcases (hstored.names_iff opId).1 hnames with h | h
    · exact (nonEmpty_some_eq h).2
    · exact (nonEmpty_some_eq h).2
  have htype : row.type = "OPERATION_RESULT_RECORDED" := hstored.type
  have hflag : row.isPreIntentCancellation = true := by
    obtain ⟨js, hjs, hpayload⟩ : ∃ js, jsonEntries [("result", result.toJs),
        ("releaseResources", .bool false), ("preIntentCancelled", .bool true)] "payload" = .ok js ∧
        row.payload = .obj js := by
      have hredact := hstored.payload
      unfold redactEventPayload at hredact
      have hinternal : (preIntentCancelledEvent op domainId result).sensitivity.getD .internal ≠
          .secret := by
        show EventSensitivity.internal ≠ .secret
        decide
      rw [if_neg hinternal] at hredact
      simp only [preIntentCancelledEvent, jsonValue] at hredact
      cases hjs : jsonEntries [("result", result.toJs), ("releaseResources", .bool false),
          ("preIntentCancelled", .bool true)] "payload" with
      | error =>
        rw [hjs] at hredact
        cases hredact
      | ok js =>
        rw [hjs] at hredact
        exact ⟨js, rfl, (Except.ok.inj hredact).symm⟩
    have hname : keptName "preIntentCancelled" = true := by decide
    have hdefined : (JsValue.bool true).isUndefined = false := rfl
    obtain ⟨j, hj, hfield⟩ := jsonEntries_field hname hdefined rfl hjs
    cases hj
    unfold JournalRow.isPreIntentCancellation JournalRow.isResult
    rw [htype, hpayload, hfield]
    rfl
  -- a row about the operation would be a cancellation, hence in the table, or follow an intent
  have hnone : ∀ r ∈ s.db.journalEvents.rows, r.isResult = true → ¬ r.Names op.id := by
    intro r hr hres hr'
    obtain ⟨pre, post, hsplit⟩ := List.append_of_mem hr
    have hfollows : followsIntent r.type = true := by
      unfold JournalRow.isResult at hres
      rw [decide_eq_true_eq] at hres
      rw [hres]
      decide
    rcases hs.inOrder.preceded pre r post hsplit hfollows op.id hr' with hcancel | ⟨i, hi, hi', hin⟩
    · have hsome := hs.known r hr hcancel op.id hr'
      rw [habsent] at hsome
      cases hsome
    · refine hintent i ?_ hi' hin
      rw [hsplit]
      exact List.mem_append_left _ hi
  have hnotIntent : row.isIntent ≠ true := by
    unfold JournalRow.isIntent
    rw [htype]
    decide
  refine ⟨?_, ?_, ?_⟩
  · rw [hrows]
    refine hs.inOrder.append (fun _ _ _ => .inl hflag) ?_ (fun h => absurd h hnotIntent) ?_
    · intro _ opId hopId r hr hr'
      rw [hnames opId hopId]
      exact hintent r hr hr'
    · intro _ opId hopId r hr hr'
      rw [hnames opId hopId]
      exact hnone r hr hr'
  · rw [hrows]
    refine known_append hs ?_ ?_
    · intro opId hsome
      rw [hlookup]
      split
      · rfl
      · exact hsome
    · intro _ opId hopId
      rw [hlookup, if_pos (hnames opId hopId).symm]
      rfl
  · rw [hrows]
    intro r hr hres opId hopId
    rcases List.mem_append.1 hr with hold | hnew
    · exact hs.indexed r hold hres opId hopId
    · rw [List.mem_singleton.1 hnew] at hopId ⊢
      have hne : nonEmpty (some op.id) = some opId := by
        rcases (hstored.names_iff opId).1 hopId with h | h
        · exact h
        · exact h
      exact hstored.operationId.trans hne

/-- An intent of an operation that was not in the table keeps the order. -/
theorem JournalSound.intent [Crypto] {op : Operation} {domainId : String} (hs : JournalSound s)
    (h : IntentRegistered op domainId now s s') : JournalSound s' := by
  obtain ⟨operations, leases, hinsert, -, hevent⟩ := h.effect
  have habsent : s.getOperation op.id = none := (Table.insert?_eq_some hinsert).1
  have hsame : SameJournal s (s.withDb { s.db with operations, resourceLeases := leases }) := by
    refine ⟨rfl, fun opId hsome => ?_⟩
    show (operations.get? opId).isSome = true
    rw [Table.get?_insert? hinsert]
    split
    · rfl
    · exact hsome
  refine (hs.same hsame).record ?_ hevent
  have hnames : ∀ opId, (intentEvent op domainId now).Names opId →
      opId = op.id ∧ nonEmpty (some op.id) = some opId := by
    rintro opId (h | h)
    · exact ⟨(nonEmpty_some_eq h).2, h⟩
    · exact ⟨(nonEmpty_some_eq h).2, h⟩
  have hfollows : followsIntent (intentEvent op domainId now).eventName = false := by
    show followsIntent "OPERATION_INTENT_REGISTERED" = false
    decide
  have hname : (intentEvent op domainId now).eventName = "OPERATION_INTENT_REGISTERED" := rfl
  have hflag : (intentEvent op domainId now).preIntentCancelled = false := by
    unfold EventInput.preIntentCancelled
    rw [hname]
    rfl
  refine ⟨fun hf => ?_, fun hn => ?_, fun hf => ?_, ?_⟩
  · rw [hfollows] at hf
    cases hf
  · rw [hname] at hn
    exact absurd hn (by decide)
  · rw [hflag] at hf
    cases hf
  intro _ opId hopId row hrow hflag hrowNames
  have hsome := hs.known row hrow hflag opId hrowNames
  rw [(hnames opId hopId).1, habsent] at hsome
  cases hsome

/-! ## Calls that leave the journal alone -/

theorem same_of_get? (hjournal : s'.db.journalEvents = s.db.journalEvents)
    (hops : s'.db.operations = s.db.operations) : SameJournal s s' := by
  refine ⟨hjournal, fun opId h => ?_⟩
  unfold getOperation at h ⊢
  rw [hops]
  exact h

theorem same_updateOperation (opId : String) (f : StoredOperation → StoredOperation)
    (hid : ∀ row, (f row).id = row.id) (s : SqliteStore) :
    SameJournal s (s.withDb { s.db with operations := s.db.operations.update opId f hid }) := by
  refine ⟨rfl, fun opId' h => ?_⟩
  show ((s.db.operations.update opId f hid).get? opId').isSome = true
  rw [Table.get?_update]
  split
  · rw [Option.isSome_map]
    exact ‹opId' = opId› ▸ h
  · exact h

theorem same_require (r : Except KernelError Unit) : Blocks SameJournal (require r) := by
  unfold require
  cases r with
  | error e => exact blocks_throw e
  | ok => exact blocks_pure ()

theorem JournalSound.quiet {p : StoreM Unit} (hs : JournalSound s) (hp : Blocks SameJournal p) :
    JournalSound (p.run s).1 :=
  hs.same (Blocks.run SameJournal.refl SameJournal.trans hp s)

theorem JournalSound.checked {p : StoreM Unit} (hs : JournalSound s) (hatomic : Atomic p)
    (h : ∀ s', p.run s = (s', .ok ()) → JournalSound s') : JournalSound (p.run s).1 := by
  rcases hrun : p.run s with ⟨s', e | u⟩
  · rw [hatomic s s' e hrun]
    exact hs
  · exact h s' hrun

theorem JournalSound.updateRunStatus {runId : String} {status : KernelRunStatus}
    {reason : Option TerminationReason} {endedAt : Option Timestamp} {u : Unit}
    (hs : JournalSound s)
    (h : (updateRunStatus runId status reason endedAt now).run s = (s', .ok u)) :
    JournalSound s' := by
  rcases updateRunStatus_ok h with ⟨-, rfl⟩ | ⟨run, -, -, ⟨-, -, rfl⟩ | ⟨-, hevent⟩⟩
  · exact hs
  · exact hs
  · have hsame : SameJournal s (setRunStatus runId status reason endedAt s) :=
      same_of_get? rfl rfl
    exact (hs.same hsame).record (EventInput.orderly_of_own _ rfl rfl (by simp [runStatusEvent,
      EventInput.eventName])) hevent

theorem JournalSound.reported {runId : String} (hs : JournalSound s) (h : Reported runId s s') :
    JournalSound s' := by
  rcases h with rfl | ⟨_, _, _, _, _, hrun⟩
  · exact hs
  · exact hs.updateRunStatus hrun

/-! ## The calls of a store -/

/-- A raw envelope in order: it names one operation, and through both columns. -/
structure EnvelopeOrderly (input : EventEnvelopeInput) (s : SqliteStore) : Prop where
  unflagged : input.event = "OPERATION_RESULT_RECORDED" → input.sensitivity ≠ some .secret →
    marksPreIntentCancelled input.payload = true → nonEmpty input.opId = none
  intent : input.event = "OPERATION_INTENT_REGISTERED" → ∀ opId, nonEmpty input.opId = some opId →
    ∀ row ∈ s.db.journalEvents.rows, row.isPreIntentCancellation = true → ¬ row.Names opId

/-- The arguments that keep the journal in order.  Most calls cannot break it. -/
def Mutator.KeepsOrder (s : SqliteStore) : Mutator → Prop
  | recordEventAndTransitionState e => e.Orderly s
  | recordEventEnvelope input _ => EnvelopeOrderly input s
  | call (.recordPreIntentCancelledOperation op _ _) =>
    ∀ row ∈ s.db.journalEvents.rows, row.isIntent = true → ¬ row.Names op.id
  | _ => True

inductive StoreMethod where
  | mutate (m : Mutator)
  | acquireOwnerLease (domainId ownerId hostname : String) (ttlMs : Nat) (force : Bool)
      (now : Timestamp) (kill : Nat → KillOutcome)
  | releaseOwnerLease (domainId ownerId : String)
  | fence
  /-- The next calls come from another store of the database. -/
  | another (currentEpoch : Option Int)

/-- The store after a call, whether it returned or threw. -/
def StoreMethod.after [Crypto] (c : StoreMethod) (s : SqliteStore) : SqliteStore :=
  match c with
  | mutate m => (m.prog.run s).1
  | acquireOwnerLease domainId ownerId hostname ttlMs force now kill =>
    ((SqliteStore.acquireOwnerLease domainId ownerId hostname ttlMs force now kill).run s).1
  | releaseOwnerLease domainId ownerId => ((SqliteStore.releaseOwnerLease domainId ownerId).run s).1
  | fence => SqliteStore.fence s
  | another currentEpoch => { s with currentEpoch }

def StoreMethod.KeepsOrder (s : SqliteStore) : StoreMethod → Prop
  | mutate m => m.KeepsOrder s
  | _ => True

theorem JournalSound.envelope {input : EventEnvelopeInput} {n : Nat} (hs : JournalSound s)
    (hin : EnvelopeOrderly input s) (h : (recordEventEnvelope input now).run s = (s', .ok n)) :
    JournalSound s' := by
  unfold recordEventEnvelope at h
  split at h
  · exact (throw_ok h).elim
  · rename_i envelope henv
    obtain ⟨hopId, hevent, hpayload⟩ := createEventEnvelope_ok henv
    refine hs.record ?_ (recordEventAndTransitionState_ok h).1
    have hnames : ∀ (e : EventInput) (opId : String), e.operationId = envelope.opId →
        e.opId = envelope.opId → e.Names opId → nonEmpty envelope.opId = some opId := by
      rintro e opId hop hop' (h | h)
      · rwa [hop] at h
      · rwa [hop, hop', Option.or_self] at h
    refine ⟨fun _ opId h => ?_, fun _ opId h => hnames _ opId rfl rfl h, fun hflag opId h => ?_,
      fun hname opId h => ?_⟩
    · have h' := hnames _ opId rfl rfl h
      unfold EventInput.subject
      simp only
      rw [Option.or_self]
      exact h'
    · unfold EventInput.preIntentCancelled at hflag
      rw [Bool.and_eq_true, decide_eq_true_eq] at hflag
      obtain ⟨hname, hmarks⟩ := hflag
      have hinput : input.sensitivity ≠ some .secret ∧
          marksPreIntentCancelled input.payload = true := by
        cases hjson : envelope.payload with
        | obj =>
          rw [hjson] at hpayload hmarks
          obtain ⟨hsecret, hmarked⟩ := marks_of_redact hpayload (mem_of_marks hmarks)
          refine ⟨fun h => hsecret ?_, hmarked⟩
          rw [h]
          rfl
        | _ =>
          rw [hjson] at hmarks
          cases hmarks
      have hnone := hin.unflagged (hevent.symm.trans hname) hinput.1 hinput.2
      have hsome := hnames _ opId rfl rfl h
      rw [hopId, hnone] at hsome
      cases hsome
    · exact hin.intent (hevent.symm.trans hname) opId (hopId ▸ hnames _ opId rfl rfl h)

/-- A store that no event was recorded in is in order. -/
theorem journalSound_empty (h : s.db.journalEvents = Journal.empty) : JournalSound s := by
  have hrows : s.db.journalEvents.rows = [] := by
    rw [h]
    rfl
  refine ⟨⟨?_, ?_, ?_⟩, ?_, ?_⟩
  · intro pre row post hsplit
    rw [hrows] at hsplit
    exact absurd hsplit (by simp)
  · simp [hrows]
  · simp [hrows]
  · simp [hrows]
  · simp [hrows]

section Calls

variable [Crypto]

variable {s : SqliteStore}

theorem StoreCall.journalSound (c : StoreCall) (hs : JournalSound s)
    (hc : Mutator.KeepsOrder s (.call c)) : JournalSound (c.prog.run s).1 := by
  refine hs.checked c.atomic fun s' hrun => ?_
  cases c with
  | registerOperationIntent => exact hs.intent (registerOperationIntent_ok hrun)
  | recordPreIntentCancelledOperation op domainId result =>
    obtain ⟨-, -, operations, hinsert, hevent⟩ := recordPreIntentCancelledOperation_ok hrun
    exact hs.cancel hinsert hc hevent
  | updateOperationStatus opId status identity outputRef now =>
    rcases updateOperationStatus_ok hrun with ⟨-, rfl⟩ | ⟨op, -, -, hevent⟩
    · exact hs
    · refine (hs.same (same_updateOperation opId _
        (statusRow_id status identity outputRef now) s)).record ?_ hevent
      exact EventInput.orderly_of_own _ rfl rfl (by simp [statusTransitionEvent,
        EventInput.eventName])
  | recordOperationResult opId result releaseResources =>
    obtain ⟨op, -, -, -, -, -, hevent⟩ := (recordOperationResult_ok hrun).found
    have hsame : SameJournal s
        (settleLeases opId result releaseResources (finishOperation opId result s)) := by
      refine SameJournal.trans _ _ _ (same_updateOperation opId _ (finishedRow_id result) s) ?_
      refine ⟨settleLeases_journalEvents .., fun opId' h => ?_⟩
      rw [getOperation_settleLeases]
      exact h
    refine (hs.same hsame).record ?_ hevent
    exact EventInput.orderly_of_own _ rfl rfl (by simp [resultEvent, EventInput.eventName])
  | updateOperationResult opId result =>
    obtain ⟨op, -, -, rfl⟩ := updateOperationResult_ok hrun
    exact hs.same (same_updateOperation opId _ (resultRow_id result) s)
  | updateRecoveryEvidence opId =>
    obtain ⟨op, -, -, rfl | ⟨evidence, rfl⟩⟩ := updateRecoveryEvidence_ok hrun
    · exact hs
    · exact hs.same (same_updateOperation opId _ (evidenceRow_id evidence) s)
  | saveRun =>
    obtain ⟨-, -, hupsert⟩ := saveRun_ok hrun
    unfold upsertRun at hupsert
    split at hupsert
    · split at hupsert
      · cases hupsert
      · cases hupsert
        exact hs.same (same_of_get? rfl rfl)
    · cases hupsert
      exact hs.same (same_of_get? rfl rfl)
  | updateRunStatus => exact hs.updateRunStatus hrun
  | reportRunSucceeded => exact hs.reported (reportRunSucceeded_ok hrun).2
  | reportRunFailed => exact hs.reported (reportRunFailed_ok hrun).2
  | reportRunCancelled => exact hs.reported (reportRunCancelled_ok hrun).2

theorem Mutator.journalSound (m : Mutator) (hs : JournalSound s) (hm : m.KeepsOrder s) :
    JournalSound (m.prog.run s).1 := by
  have hcheck : ∀ f : SqliteStore → Except KernelError Unit, Blocks SameJournal (check f) :=
    fun f => blocks_check SameJournal.refl f
  have hread : ∀ {α : Type} (f : SqliteStore → α), Blocks SameJournal (read f : StoreM α) :=
    fun f => blocks_read SameJournal.refl f
  cases m with
  | call c => exact c.journalSound hs hm
  | saveTask =>
    exact hs.quiet ((hcheck _).bind fun _ => blocks_modify fun s => same_of_get? rfl rfl)
  | bindRunConfigSnapshot =>
    refine hs.quiet ((same_require _).bind fun _ => ?_)
    refine Blocks.transaction SameJournal.refl SameJournal.trans ((hread _).bind fun run => ?_)
    cases run with
    | none => exact blocks_throw _
    | some run =>
      simp only
      split
      · exact same_require _
      · exact (hcheck _).bind fun _ => blocks_modify fun _ => same_of_get? rfl rfl
  | recordEventAndTransitionState e =>
    refine hs.checked (atomic_recordEvent e) fun s' hrun => ?_
    exact hs.record hm (recordEvent_ok hrun)
  | recordEventEnvelope input now =>
    refine hs.checked (p := (Mutator.recordEventEnvelope input now).prog) ?_ fun s' hrun => ?_
    · refine Atomic.bind_pure ?_ fun _ => ()
      unfold SqliteStore.recordEventEnvelope
      split
      · exact (readOnly_throw _).atomic
      · exact atomic_recordEventAndTransitionState _
    · obtain ⟨n, s₁, hrec, hpure⟩ := bind_ok hrun
      rw [(pure_ok hpure).1]
      exact hs.envelope hm hrec
  | recordReplay domainId opId mode callingRunId now =>
    refine hs.checked (atomic_recordReplay domainId opId mode callingRunId now) fun s' hrun => ?_
    refine hs.record (EventInput.orderly_of_own _ rfl rfl ?_) (recordReplay_ok hrun)
    simp [replayEvent, EventInput.eventName]
  | releaseResourceLease =>
    exact hs.quiet (blocks_modify fun _ => same_of_get? rfl rfl)
  | recordArtifact =>
    refine hs.quiet (Blocks.transaction SameJournal.refl SameJournal.trans
      ((hcheck _).bind fun _ => blocks_exec fun s s' h => ?_))
    unfold insertArtifact at h
    split at h
    · cases h
    split at h
    · cases h
    split at h
    · cases h
    · cases h
      exact same_of_get? rfl rfl
  | finalizeArtifact | markArtifactDeleted =>
    exact hs.quiet (Blocks.transaction SameJournal.refl SameJournal.trans
      ((hcheck _).bind fun _ => blocks_modify fun _ => same_of_get? rfl rfl))
  | deleteSnapshot => exact hs.quiet (blocks_modify fun _ => same_of_get? rfl rfl)
  | recordSnapshot | recordCapability | revokeCapability =>
    exact hs.quiet ((hcheck _).bind fun _ => blocks_modify fun _ => same_of_get? rfl rfl)

theorem StoreMethod.journalSound (c : StoreMethod) (hs : JournalSound s) (hc : c.KeepsOrder s) :
    JournalSound (c.after s) := by
  cases c with
  | mutate m => exact m.journalSound hs hc
  | acquireOwnerLease =>
    unfold StoreMethod.after
    simp only
    rw [acquireOwnerLease_run]
    split
    · exact hs.same (same_of_get? rfl rfl)
    · exact hs
  | releaseOwnerLease | fence | another => exact hs.same (same_of_get? rfl rfl)

/-- Calls whose raw events name one operation, through the column the checks look it up by, and
    carry no flag keep the journal in order from the start. -/
theorem intentFirst_along {s : SqliteStore} (hempty : s.db.journalEvents = Journal.empty)
    {calls : List StoreMethod} (h : Along StoreMethod.after StoreMethod.KeepsOrder s calls) :
    IntentFirst (afterAll StoreMethod.after s calls).db.journalEvents.rows := by
  have hrun : JournalSound s → JournalSound (afterAll StoreMethod.after s calls) :=
    h.relates (R := fun s s' => JournalSound s → JournalSound s') (fun _ => id)
      (fun _ _ _ hab hbc => hbc ∘ hab) fun _ c hc hs => c.journalSound hs hc
  exact (hrun (journalSound_empty hempty)).inOrder

end Calls

/-! ## Two results -/

/-- An event about `o` under the name and the two fields the caller gives. -/
def rawEvent (type : String) (operationId opId : Option String) : EventInput where
  domainId := "d"
  operationId := operationId
  type := type
  payload := .obj []
  timestamp := 1
  opId := opId

/-- An intent, then an event of its process, each named in full. -/
theorem exit_follows_intent :
    let _ := plainCrypto
    IntentFirst (afterAll StoreMethod.after ⟨Database.sample, some 1⟩ [
      .mutate (.call (.registerOperationIntent (Operation.sample "o" []) "d" 1)),
      .mutate (.recordEventAndTransitionState
        (rawEvent "PROCESS_EXITED" (some "o") none))]).db.journalEvents.rows := by
  intro _
  refine intentFirst_along rfl ⟨trivial, ?_, trivial⟩
  exact EventInput.orderly_of_own _ rfl rfl (by decide)

/-- An intent, then two results that name their operation by `opId`. -/
def twoResults : List StoreMethod := [
  .mutate (.recordEventAndTransitionState
    (rawEvent "OPERATION_INTENT_REGISTERED" (some "o") none)),
  .mutate (.recordEventAndTransitionState
    (rawEvent "OPERATION_RESULT_RECORDED" none (some "o"))),
  .mutate (.recordEventAndTransitionState
    (rawEvent "OPERATION_RESULT_RECORDED" none (some "o")))]

/-- Two results of one operation. -/
theorem second_result_recorded :
    let _ := plainCrypto
    Database.sample.journalEvents = Journal.empty ∧
      ¬ IntentFirst (afterAll StoreMethod.after ⟨Database.sample, some 1⟩
        twoResults).db.journalEvents.rows := by
  intro _
  refine ⟨rfl, fun hfirst => ?_⟩
  have honce := hfirst.once
  have hmap : (afterAll StoreMethod.after ⟨Database.sample, some 1⟩
      twoResults).db.journalEvents.rows.map (fun row => (row.isResult, row.opId)) =
      [(false, some "o"), (true, some "o"), (true, some "o")] := by decide +kernel
  generalize (afterAll StoreMethod.after ⟨Database.sample, some 1⟩
    twoResults).db.journalEvents.rows = rows at honce hmap
  obtain ⟨intent, rows, rfl, -, hmap⟩ := List.map_eq_cons_iff.1 hmap
  obtain ⟨first, rows, rfl, hfirst, hmap⟩ := List.map_eq_cons_iff.1 hmap
  obtain ⟨second, rows, rfl, hsecond, -⟩ := List.map_eq_cons_iff.1 hmap
  obtain ⟨hfirst, hfirst'⟩ := Prod.mk.inj hfirst
  obtain ⟨hsecond, hsecond'⟩ := Prod.mk.inj hsecond
  have hpair := List.rel_of_pairwise_cons (List.pairwise_cons.1 honce).2
    (List.mem_cons_self (a := second))
  exact hpair hfirst hsecond "o" (.inr hfirst') (.inr hsecond')

end SqliteStore
end XioFlow
