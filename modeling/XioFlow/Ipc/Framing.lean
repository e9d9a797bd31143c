/-
  XioFlow.Ipc.Framing

  What a connection makes of a byte stream, however it is divided and in
  whatever order its requests come to an end.

  Every nonblank line has one response, in every division, exactly where the
  whole text fits the limit or has no such line: a chunk that holds more than
  the limit ends the connection, whatever the sizes of the messages in it.
-/

import Mathlib.Algebra.BigOperators.Group.List.Lemmas
import Mathlib.Algebra.Order.Group.Multiset
import Mathlib.Data.List.TakeWhile
import Mathlib.Tactic.Abel
import XioFlow.Ipc.Authentication

namespace XioFlow.Ipc

open Lib Utf8Decoder
open Connection

/-! ## Lines of a growing text -/

theorem takeLines_newline (text : Text) :
    takeLines ('\n' :: text) = ([] :: (takeLines text).1, (takeLines text).2) := rfl

variable {c : Char} {text line : Text}

theorem takeLines_open (hc : c ≠ '\n') (h : (takeLines text).1 = []) :
    takeLines (c :: text) = ([], c :: (takeLines text).2) := by
  have hpair : takeLines text = ([], (takeLines text).2) := by rw [← h]
  rw [takeLines, hpair]
  simp [hc]

theorem takeLines_closed (hc : c ≠ '\n') {lines : List Text}
    (h : (takeLines text).1 = line :: lines) :
    takeLines (c :: text) = ((c :: line) :: lines, (takeLines text).2) := by
  have hpair : takeLines text = (line :: lines, (takeLines text).2) := by rw [← h]
  rw [takeLines, hpair]
  simp [hc]

/-- What comes after a text only touches its open line. -/
theorem takeLines_append (text more : Text) :
    takeLines (text ++ more) =
      ((takeLines text).1 ++ (takeLines ((takeLines text).2 ++ more)).1,
        (takeLines ((takeLines text).2 ++ more)).2) := by
  induction text with
  | nil => rfl
  | cons c text ih =>
    by_cases hc : c = '\n'
    · subst hc
      rw [List.cons_append, takeLines_newline, takeLines_newline, ih]
      rfl
    · rw [List.cons_append]
      cases hlines : (takeLines text).1 with
      | cons line lines =>
        have hwhole : (takeLines (text ++ more)).1 =
            line :: (lines ++ (takeLines ((takeLines text).2 ++ more)).1) := by
          rw [ih, hlines]
          rfl
        rw [takeLines_closed hc hwhole, takeLines_closed hc hlines, ih]
        rfl
      | nil =>
        -- the line is still open: the rest of it decides
        have hwhole : takeLines (text ++ more) = takeLines ((takeLines text).2 ++ more) := by
          rw [ih, hlines]
          rfl
        rw [takeLines_open hc hlines, List.nil_append, List.cons_append]
        show takeLines (c :: (text ++ more)) = _
        rw [takeLines, takeLines, hwhole]

/-- Where no line is complete, the whole text is open. -/
theorem takeLines_rest (h : (takeLines text).1 = []) : (takeLines text).2 = text := by
  induction text with
  | nil => rfl
  | cons c text ih =>
    by_cases hc : c = '\n'
    · subst hc
      rw [takeLines_newline] at h
      cases h
    · cases hlines : (takeLines text).1 with
      | nil => rw [takeLines_open hc hlines, ih hlines]
      | cons =>
        rw [takeLines_closed hc hlines] at h
        cases h

theorem takeLines_suffix (text : Text) : (takeLines text).2 <:+ text := by
  induction text with
  | nil => exact List.suffix_refl []
  | cons c text ih =>
    by_cases hc : c = '\n'
    · subst hc
      rw [takeLines_newline]
      exact ih.trans (List.suffix_cons _ _)
    · cases hlines : (takeLines text).1 with
      | cons =>
        rw [takeLines_closed hc hlines]
        exact ih.trans (List.suffix_cons _ _)
      | nil =>
        rw [takeLines_open hc hlines, takeLines_rest hlines]

theorem byteLength_suffix {text' : Text} (h : text <:+ text') :
    byteLength text ≤ byteLength text' := by
  obtain ⟨front, rfl⟩ := h
  rw [byteLength_append]
  exact Nat.le_add_left _ _

theorem nonblank_append (lines lines' : List Text) :
    nonblank (lines ++ lines') = nonblank lines ++ nonblank lines' := by
  unfold nonblank
  rw [List.map_append, List.filter_append]

/-! ## What becomes of a line -/

/-- How capabilities are resolved and requests handled. -/
structure Answers where
  resolve : LocalIpcRequest → LocalIpcAuth → Resolution
  handle : LocalIpcRequest → LocalIpcHandlerContext → Outcome

section Replies

variable (server : LocalIpcServer) (host : Host) (answers : Answers)

/-- The response that a request in flight will have. -/
def Task.reply : Task → LocalIpcResponse
  | .resolving request candidate =>
    match server.checkBinding host.hmac candidate (answers.resolve request candidate) with
    | .error failure => failure.response request.id
    | .ok context => (answers.handle request context).response request.id
  | .handling request context => (answers.handle request context).response request.id

/-- The calls of the handler that a request in flight will make. -/
def Task.calls : Task → Multiset Invocation
  | .resolving request candidate =>
    match server.checkBinding host.hmac candidate (answers.resolve request candidate) with
    | .error _ => 0
    | .ok context => {⟨request, answers.resolve request candidate, context⟩}
  | .handling _ _ => 0

def Progress.replies (p : Progress) : Multiset LocalIpcResponse :=
  ↑(p.responses ++ p.tasks.map (Task.reply server host answers))

def Progress.calls (p : Progress) : Multiset Invocation :=
  ↑p.invocations + (p.tasks.map (Task.calls server host answers)).sum

/-- The responses of a connection, those to come included. -/
def Connection.replies (c : Connection) : Multiset LocalIpcResponse :=
  ↑(c.responses ++ c.tasks.map (Task.reply server host answers))

def Connection.calls (c : Connection) : Multiset Invocation :=
  ↑c.invocations + (c.tasks.map (Task.calls server host answers)).sum

/-- The responses that some lines have. -/
def repliesTo (lines : List Text) : Multiset LocalIpcResponse :=
  (lines.map fun line => (server.handleLine host line).replies server host answers).sum

def callsFor (lines : List Text) : Multiset Invocation :=
  (lines.map fun line => (server.handleLine host line).calls server host answers).sum

/-- The answers of a run are the given ones. -/
def Follows (c : Connection) : Event → Prop
  | .data _ => True
  | .resolved i resolution => ∀ request candidate,
      c.tasks[i]? = some (.resolving request candidate) →
        resolution = answers.resolve request candidate
  | .settled i outcome => ∀ request context,
      c.tasks[i]? = some (.handling request context) → outcome = answers.handle request context

/-- One step of a connection keeps account of the responses. -/
theorem Connection.progress_replies {c : Connection} (hopen : c.destroyed = false)
    (tasks : List Task) (p : Progress) :
    (c.progress tasks p).replies server host answers =
      ↑(c.responses ++ tasks.map (Task.reply server host answers)) +
        p.replies server host answers := by
  unfold replies Progress.replies progress
  simp only [hopen, Bool.false_eq_true, if_false]
  rw [Multiset.coe_add, Multiset.coe_eq_coe, List.map_append]
  -- the responses already written and those to come change places
  have hswap : (p.responses ++ tasks.map (Task.reply server host answers)).Perm
      (tasks.map (Task.reply server host answers) ++ p.responses) := List.perm_append_comm
  have hmiddle := (hswap.append_left c.responses).append_right
    (p.tasks.map (Task.reply server host answers))
  simpa only [List.append_assoc] using hmiddle

theorem Connection.progress_calls (c : Connection) (tasks : List Task) (p : Progress) :
    (c.progress tasks p).calls server host answers =
      ↑c.invocations + (tasks.map (Task.calls server host answers)).sum +
        p.calls server host answers := by
  unfold calls Progress.calls progress
  simp only [List.map_append, List.sum_append]
  rw [← Multiset.coe_add]
  abel

/-- A request in flight is accounted for by what its next step leaves. -/
theorem onResolution_replies (request : LocalIpcRequest) (candidate : LocalIpcAuth) :
    (server.onResolution host request candidate (answers.resolve request candidate)).replies
        server host answers = {(Task.resolving request candidate).reply server host answers} ∧
      (server.onResolution host request candidate (answers.resolve request candidate)).calls
        server host answers = (Task.resolving request candidate).calls server host answers := by
  unfold LocalIpcServer.onResolution
  cases hbinding : server.checkBinding host.hmac candidate (answers.resolve request candidate) with
  | error | ok =>
    simp only [Task.reply, Task.calls, hbinding]
    exact ⟨rfl, rfl⟩

/-- A line has one response. -/
theorem handleLine_card (line : Text) :
    ((server.handleLine host line).replies server host answers).card = 1 := by
  unfold LocalIpcServer.handleLine
  split
  · split
    · rfl
    · split <;> rfl
  · rfl

theorem repliesTo_card (lines : List Text) :
    (repliesTo server host answers lines).card = lines.length := by
  unfold repliesTo
  induction lines with
  | nil => rfl
  | cons line lines ih =>
    rw [List.map_cons, List.sum_cons, Multiset.card_add, handleLine_card, ih, List.length_cons]
    omega

theorem repliesTo_append (lines lines' : List Text) :
    repliesTo server host answers (lines ++ lines') =
      repliesTo server host answers lines + repliesTo server host answers lines' := by
  unfold repliesTo
  rw [List.map_append, List.sum_append]

theorem callsFor_append (lines lines' : List Text) :
    callsFor server host answers (lines ++ lines') =
      callsFor server host answers lines + callsFor server host answers lines' := by
  unfold callsFor
  rw [List.map_append, List.sum_append]

/-- The lines of a chunk add their responses and calls, and nothing else. -/
theorem handleLines_effect (lines : List Text) {c : Connection} (hopen : c.destroyed = false) :
    ∃ c', c.handleLines server host lines = c' ∧ c'.destroyed = false ∧
      c'.decoder = c.decoder ∧ c'.buffer = c.buffer ∧
      c'.replies server host answers =
        c.replies server host answers + repliesTo server host answers lines ∧
      c'.calls server host answers =
        c.calls server host answers + callsFor server host answers lines := by
  induction lines generalizing c with
  | nil => exact ⟨c, rfl, hopen, rfl, rfl, (add_zero _).symm, (add_zero _).symm⟩
  | cons line lines ih =>
    have hstep : (c.progress c.tasks (server.handleLine host line)).destroyed = false := hopen
    obtain ⟨c', hc', hopen', hdecoder, hbuffer, hreplies, hcalls⟩ := ih hstep
    refine ⟨c', hc', hopen', hdecoder, hbuffer, ?_, ?_⟩
    · rw [hreplies, progress_replies _ _ _ hopen]
      unfold repliesTo
      rw [List.map_cons, List.sum_cons, ← add_assoc]
      rfl
    · rw [hcalls, progress_calls]
      unfold callsFor
      rw [List.map_cons, List.sum_cons, ← add_assoc]
      rfl

end Replies

/-! ## A connection that stays open -/

section Open

variable (server : LocalIpcServer) (host : Host) (answers : Answers)

/-- The bytes of an event. -/
def Event.bytes : Event → List UInt8
  | .data chunk => chunk
  | _ => []

def bytesOf (events : List Event) : List UInt8 := events.flatMap Event.bytes

/-- The text of the bytes that have come in. -/
def textOf (bytes : List UInt8) : Text := (idle.feed bytes).1

/-- The connection has dealt with the bytes so far: its lines are answered or
    in flight, and the rest of the text is in the buffer. -/
structure Synced (c : Connection) (bytes : List UInt8) : Prop where
  isOpen : c.destroyed = false
  decoder : c.decoder = (idle.feed bytes).2
  buffer : c.buffer = (takeLines (textOf bytes)).2
  replies : c.replies server host answers =
    repliesTo server host answers (nonblank (takeLines (textOf bytes)).1)
  calls : c.calls server host answers =
    callsFor server host answers (nonblank (takeLines (textOf bytes)).1)

theorem synced_initial : Synced server host answers {} [] := ⟨rfl, rfl, rfl, rfl, rfl⟩

theorem textOf_append (bytes more : List UInt8) :
    textOf (bytes ++ more) = textOf bytes ++ ((idle.feed bytes).2.feed more).1 := by
  unfold textOf
  rw [feed_append]

variable {server host answers} {c : Connection} {bytes : List UInt8}

theorem Synced.onData (h : Synced server host answers c bytes) (chunk : List UInt8)
    (hfits : byteLength (textOf (bytes ++ chunk)) ≤ server.maxMessageBytes) :
    Synced server host answers (c.onData server host chunk) (bytes ++ chunk) := by
  obtain ⟨text, htext⟩ : ∃ text, text = (c.decoder.feed chunk).1 := ⟨_, rfl⟩
  have hgrown : textOf (bytes ++ chunk) = textOf bytes ++ text := by
    rw [textOf_append, ← h.decoder, htext]
  have hlines : takeLines (textOf (bytes ++ chunk)) =
      ((takeLines (textOf bytes)).1 ++ (takeLines (c.buffer ++ text)).1,
        (takeLines (c.buffer ++ text)).2) := by
    rw [hgrown, takeLines_append, ← h.buffer]
  -- the buffer is the end of the text
  have hshort : ¬ byteLength (c.buffer ++ text) > server.maxMessageBytes := by
    obtain ⟨front, hfront⟩ := takeLines_suffix (textOf bytes)
    have hend : c.buffer ++ text <:+ textOf (bytes ++ chunk) := by
      rw [hgrown, ← hfront, ← h.buffer]
      exact ⟨front, (List.append_assoc _ _ _).symm⟩
    have hle := byteLength_suffix hend
    omega
  have hdata : c.onData server host chunk =
      handleLines server host
        { c with decoder := (c.decoder.feed chunk).2, buffer := (takeLines (c.buffer ++ text)).2 }
        (nonblank (takeLines (c.buffer ++ text)).1) := by
    unfold Connection.onData
    rw [h.isOpen, if_neg Bool.false_ne_true]
    simp only
    rw [← htext, if_neg hshort]
  obtain ⟨c', hc', hopen, hdecoder, hbuffer, hreplies, hcalls⟩ :=
    handleLines_effect server host answers (nonblank (takeLines (c.buffer ++ text)).1)
      (c := { c with
        decoder := (c.decoder.feed chunk).2
        buffer := (takeLines (c.buffer ++ text)).2 }) h.isOpen
  rw [hdata, hc']
  refine ⟨hopen, ?_, ?_, ?_, ?_⟩
  · rw [hdecoder, feed_append]
    show (c.decoder.feed chunk).2 = _
    rw [h.decoder]
  · rw [hbuffer, hlines]
  · rw [hreplies, hlines, nonblank_append, repliesTo_append, ← h.replies]
    rfl
  · rw [hcalls, hlines, nonblank_append, callsFor_append, ← h.calls]
    rfl

theorem tasks_perm {i : Nat} {task : Task} (h : c.tasks[i]? = some task) :
    (task :: c.tasks.eraseIdx i).Perm c.tasks := by
  obtain ⟨hi, rfl⟩ := List.getElem?_eq_some_iff.1 h
  exact List.getElem_cons_eraseIdx_perm hi

/-- A step of a request in flight that is accounted for. -/
theorem Synced.progress (h : Synced server host answers c bytes) {i : Nat} {task : Task}
    (htask : c.tasks[i]? = some task) {p : Progress}
    (hreplies : p.replies server host answers = {task.reply server host answers})
    (hcalls : p.calls server host answers = task.calls server host answers) :
    Synced server host answers (c.progress (c.tasks.eraseIdx i) p) bytes := by
  have hperm := tasks_perm htask
  refine ⟨h.isOpen, h.decoder, h.buffer, ?_, ?_⟩
  · rw [progress_replies _ _ _ h.isOpen, hreplies, ← h.replies]
    unfold Connection.replies
    rw [← Multiset.coe_singleton, Multiset.coe_add, Multiset.coe_eq_coe, List.append_assoc]
    apply List.Perm.append_left
    exact List.perm_append_comm.trans (hperm.map (Task.reply server host answers))
  · rw [progress_calls, hcalls, ← h.calls]
    unfold Connection.calls
    rw [← (hperm.map (Task.calls server host answers)).sum_eq, List.map_cons, List.sum_cons]
    abel

theorem Synced.after (h : Synced server host answers c bytes) (e : Event)
    (hfollows : Follows answers c e)
    (hfits : byteLength (textOf (bytes ++ e.bytes)) ≤ server.maxMessageBytes) :
    Synced server host answers (c.after server host e) (bytes ++ e.bytes) := by
  cases e with
  | data chunk => exact h.onData chunk hfits
  | resolved i resolution =>
    rw [show bytes ++ (Event.resolved i resolution).bytes = bytes from List.append_nil bytes]
    unfold Connection.after
    simp only
    split
    · rename_i request candidate htask
      obtain rfl := hfollows request candidate htask
      obtain ⟨hreplies, hcalls⟩ := onResolution_replies server host answers request candidate
      exact h.progress htask hreplies hcalls
    · exact h
  | settled i outcome =>
    rw [show bytes ++ (Event.settled i outcome).bytes = bytes from List.append_nil bytes]
    unfold Connection.after
    simp only
    split
    · rename_i request context htask
      obtain rfl := hfollows request context htask
      exact h.progress htask rfl rfl
    · exact h

theorem byteLength_textOf_le (bytes more : List UInt8) :
    byteLength (textOf bytes) ≤ byteLength (textOf (bytes ++ more)) := by
  rw [textOf_append, byteLength_append]
  exact Nat.le_add_right _ _

theorem bytesOf_cons (e : Event) (events : List Event) :
    bytesOf (e :: events) = e.bytes ++ bytesOf events := List.flatMap_cons

/-- A connection whose whole text fits the limit stays in step with it. -/
theorem Synced.afterAll (h : Synced server host answers c bytes) {events : List Event}
    (hfollows : Along (Connection.after server host) (Follows answers) c events)
    (hfits : byteLength (textOf (bytes ++ bytesOf events)) ≤ server.maxMessageBytes) :
    Synced server host answers (afterAll (Connection.after server host) c events)
      (bytes ++ bytesOf events) := by
  induction events generalizing c bytes with
  | nil =>
    rw [show bytes ++ bytesOf [] = bytes from List.append_nil bytes]
    exact h
  | cons e events ih =>
    rw [bytesOf_cons, ← List.append_assoc] at hfits ⊢
    have hnow := Nat.le_trans (byteLength_textOf_le (bytes ++ e.bytes) (bytesOf events)) hfits
    exact ih (h.after e hfollows.1 hnow) hfollows.2 hfits

/-! ## A text without requests -/

/-- Nothing has come of the bytes so far. -/
structure Silent (c : Connection) (bytes : List UInt8) : Prop where
  tasks : c.tasks = []
  invocations : c.invocations = []
  responses : c.responses = []
  decoder : c.destroyed = false → c.decoder = (idle.feed bytes).2
  buffer : c.destroyed = false → c.buffer = (takeLines (textOf bytes)).2

theorem silent_initial : Silent {} [] := ⟨rfl, rfl, rfl, fun _ => rfl, fun _ => rfl⟩

theorem Silent.after (h : Silent c bytes) (e : Event)
    (hblank : nonblank (takeLines (textOf (bytes ++ e.bytes))).1 = []) :
    Silent (c.after server host e) (bytes ++ e.bytes) := by
  cases e with
  | data chunk =>
    unfold Connection.after Connection.onData
    simp only
    split
    · rename_i hdestroyed
      exact ⟨h.tasks, h.invocations, h.responses, fun hopen => by simp [hdestroyed] at hopen,
        fun hopen => by simp [hdestroyed] at hopen⟩
    · rename_i hopen
      have hopen' : c.destroyed = false := by simpa using hopen
      obtain ⟨text, htext⟩ : ∃ text, text = (c.decoder.feed chunk).1 := ⟨_, rfl⟩
      have hlines : takeLines (textOf (bytes ++ chunk)) =
          ((takeLines (textOf bytes)).1 ++ (takeLines (c.buffer ++ text)).1,
            (takeLines (c.buffer ++ text)).2) := by
        rw [textOf_append, ← h.decoder hopen', ← htext, takeLines_append, ← h.buffer hopen']
      rw [← htext]
      split
      · exact ⟨h.tasks, h.invocations, h.responses, fun hopen => by simp at hopen,
          fun hopen => by simp at hopen⟩
      · -- the new lines are blank like all others
        have hnew : nonblank (takeLines (c.buffer ++ text)).1 = [] := by
          have hall : nonblank (takeLines (textOf (bytes ++ chunk))).1 = [] := hblank
          rw [hlines, nonblank_append] at hall
          exact (List.append_eq_nil_iff.1 hall).2
        rw [hnew]
        refine ⟨h.tasks, h.invocations, h.responses, fun _ => ?_, fun _ => ?_⟩
        · show (c.decoder.feed chunk).2 = (idle.feed (bytes ++ chunk)).2
          rw [feed_append, h.decoder hopen']
        · show (takeLines (c.buffer ++ text)).2 = (takeLines (textOf (bytes ++ chunk))).2
          rw [hlines]
  | resolved i resolution =>
    rw [show bytes ++ (Event.resolved i resolution).bytes = bytes from List.append_nil bytes]
    unfold Connection.after
    rw [h.tasks]
    exact h
  | settled i outcome =>
    rw [show bytes ++ (Event.settled i outcome).bytes = bytes from List.append_nil bytes]
    unfold Connection.after
    rw [h.tasks]
    exact h

theorem Silent.afterAll (h : Silent c bytes) {events : List Event}
    (hblank : nonblank (takeLines (textOf (bytes ++ bytesOf events))).1 = []) :
    Silent (afterAll (Connection.after server host) c events) (bytes ++ bytesOf events) := by
  induction events generalizing c bytes with
  | nil =>
    rw [show bytes ++ bytesOf [] = bytes from List.append_nil bytes]
    exact h
  | cons e events ih =>
    rw [bytesOf_cons, ← List.append_assoc] at hblank ⊢
    have hnow : nonblank (takeLines (textOf (bytes ++ e.bytes))).1 = [] := by
      have hall := hblank
      rw [textOf_append, takeLines_append, nonblank_append] at hall
      exact (List.append_eq_nil_iff.1 hall).1
    exact ih (h.after e hnow) hblank

end Open

/-! ## Every division -/

/-- In every division of a byte stream, and whatever order its requests end in,
    the responses and the calls of the handler are the same, with one response
    for each nonblank line. -/
def SameInEveryDivision (server : LocalIpcServer) (host : Host) (answers : Answers)
    (bytes : List UInt8) : Prop :=
  ∃ (responses : Multiset LocalIpcResponse) (calls : Multiset Invocation),
    responses.card = (nonblank (takeLines (textOf bytes)).1).length ∧
    ∀ events, bytesOf events = bytes →
      Along (after server host) (Follows answers) {} events →
      (afterAll (after server host) {} events).tasks = [] →
      ((afterAll (after server host) {} events).responses : Multiset _) = responses ∧
      ((afterAll (after server host) {} events).invocations : Multiset _) = calls

theorem sameInEveryDivision_iff (server : LocalIpcServer) (host : Host) (answers : Answers)
    (bytes : List UInt8) :
    SameInEveryDivision server host answers bytes ↔
      byteLength (textOf bytes) ≤ server.maxMessageBytes ∨
        nonblank (takeLines (textOf bytes)).1 = [] := by
  constructor
  · rintro ⟨responses, calls, hcard, hall⟩
    by_contra hneither
    obtain ⟨hlong, hsome⟩ := not_or.1 hneither
    -- the stream in one chunk: the connection is destroyed before any line is taken out
    have hdata : afterAll (Connection.after server host) {} [.data bytes] =
        { decoder := (idle.feed bytes).2, buffer := textOf bytes, destroyed := true } := by
      show Connection.onData server host {} bytes = _
      unfold Connection.onData
      have hbig : byteLength ([] ++ (idle.feed bytes).1) > server.maxMessageBytes := by
        show byteLength (textOf bytes) > _
        omega
      simp only [Bool.false_eq_true, if_false]
      rw [if_pos hbig]
      rfl
    have hempty := hall [.data bytes] (List.append_nil bytes) ⟨trivial, trivial⟩ (by rw [hdata])
    rw [hdata] at hempty
    have hnone : responses.card = 0 := by
      rw [← hempty.1]
      rfl
    rw [hcard] at hnone
    exact hsome (List.eq_nil_of_length_eq_zero hnone)
  · rintro (hfits | hblank)
    · refine ⟨repliesTo server host answers (nonblank (takeLines (textOf bytes)).1),
        callsFor server host answers (nonblank (takeLines (textOf bytes)).1),
        repliesTo_card server host answers _, fun events hbytes hfollows htasks => ?_⟩
      have hsynced := (synced_initial server host answers).afterAll hfollows (by
        rw [List.nil_append, hbytes]
        exact hfits)
      rw [List.nil_append, hbytes] at hsynced
      rw [← hsynced.replies, ← hsynced.calls]
      unfold Connection.replies Connection.calls
      rw [htasks]
      exact ⟨by rw [List.map_nil, List.append_nil], by rw [List.map_nil, List.sum_nil, add_zero]⟩
    · refine ⟨0, 0, by rw [hblank]; rfl, fun events hbytes _ _ => ?_⟩
      have hsilent : Silent (afterAll (Connection.after server host) {} events)
          ([] ++ bytesOf events) := silent_initial.afterAll (by
        rw [List.nil_append, hbytes]
        exact hblank)
      rw [hsilent.responses, hsilent.invocations]
      exact ⟨rfl, rfl⟩

/-! ## Main results -/

/-- Framing and authentication.  The first part says for which streams every
    division is treated alike; the second, that in every run, for every bytes
    and whatever the answers, only authentic requests reach the handler; the
    third, what it means that a capability is bound. -/
theorem localIpc_contract (server : LocalIpcServer) (host : Host) :
    (∀ answers bytes, SameInEveryDivision server host answers bytes ↔
      byteLength (textOf bytes) ≤ server.maxMessageBytes ∨
        nonblank (takeLines (textOf bytes)).1 = []) ∧
    (∀ events, ∀ call ∈ (afterAll (after server host) {} events).invocations,
      Authentic server host call ∧
      ((∀ key message message', host.hmac key message = host.hmac key message' →
          message = message') →
        ∀ (other : LocalIpcServer) capabilityId epoch auth,
          other.credentials host.hmac capabilityId epoch = .ok auth →
          call.request.auth = some auth.toJson →
          other.sessionKey = server.sessionKey ∧ call.resolution = .bound epoch)) ∧
    ∀ getCapability now capabilityId epoch,
      resolveDomainCapability getCapability now capabilityId = .bound epoch →
      ∃ capability, getCapability capabilityId = some capability ∧ epoch = capability.epoch ∧
        capability.revokedAt = none ∧ now < capability.expiresAt := by
  refine ⟨sameInEveryDivision_iff server host, fun events call hcall => ?_, ?_⟩
  · have hauthentic := calls_authentic server host events call hcall
    exact ⟨hauthentic, fun hunforgeable other capabilityId epoch auth hauth hsent =>
      hauthentic.prepared hunforgeable hauth hsent⟩
  · intro getCapability now capabilityId epoch h
    exact resolveDomainCapability_bound h

/-! ## A request that is served -/

def sampleServer : LocalIpcServer where
  maxMessageBytes := 1024
  sessionKey := String.ofList (List.replicate 64 '0')
  enough := Nat.le_refl 1024
  keyed := by decide

/-- A code that is the key of the sample session for one message, and no key for any other. -/
def preparedHmac : Hmac := fun _ message =>
  if message = nonceMessage "cap" 1 then sampleServer.sessionKey else "#" ++ message

theorem preparedHmac_unforgeable (key : List Nat) (message message' : String)
    (h : preparedHmac key message = preparedHmac key message') : message = message' := by
  have hmark : ∀ text : String, sampleServer.sessionKey ≠ "#" ++ text := by
    intro text heq
    have hfirst : sampleServer.sessionKey.toList.head? = some '#' := by
      rw [heq, String.toList_append]
      rfl
    exact absurd hfirst (by decide)
  unfold preparedHmac at h
  split at h
  · rename_i hmessage
    split at h
    · rename_i hmessage'
      rw [hmessage, hmessage']
    · exact absurd h (hmark message')
  · split at h
    · exact absurd h.symm (hmark message)
    · exact (String.append_right_inj "#").1 h

def preparedAuth : LocalIpcAuth := ⟨sampleServer.sessionKey, "cap", sampleServer.sessionKey⟩

/-- A host that reads every line as a request with these credentials. -/
def preparedHost : Host where
  hmac := preparedHmac
  parse := fun _ =>
    some (.obj [("id", .num 1), ("method", .str "ping"), ("auth", preparedAuth.toJson)])

def preparedCall : Invocation where
  request := ⟨.num 1, "ping", none, some preparedAuth.toJson⟩
  resolution := .bound 1
  context := ⟨"cap", 1, sampleServer.sessionKey⟩

/-- A request that was prepared for epoch 1 is handled when its capability is bound to epoch 1, and
    not when it is bound to epoch 2; no credentials but those for epoch 1 make such a request. -/
theorem prepared_handled :
    (afterAll (after sampleServer preparedHost) {}
        [.data [120], .data [10], .resolved 0 (.bound 1)]).invocations = [preparedCall] ∧
      (afterAll (after sampleServer preparedHost) {}
        [.data [120], .data [10], .resolved 0 (.bound 2)]).invocations = [] ∧
      Authentic sampleServer preparedHost preparedCall ∧
      sampleServer.credentials preparedHmac "cap" 1 = .ok preparedAuth ∧
      ∀ (other : LocalIpcServer) capabilityId epoch,
        other.credentials preparedHmac capabilityId epoch = .ok preparedAuth →
          other.sessionKey = sampleServer.sessionKey ∧ Resolution.bound 1 = .bound epoch := by
  have hrun : (afterAll (after sampleServer preparedHost) {}
      [.data [120], .data [10], .resolved 0 (.bound 1)]).invocations = [preparedCall] := by rfl
  have hlate : (afterAll (after sampleServer preparedHost) {}
      [.data [120], .data [10], .resolved 0 (.bound 2)]).invocations = [] := by rfl
  have hcall : preparedCall ∈ (afterAll (after sampleServer preparedHost) {}
      [.data [120], .data [10], .resolved 0 (.bound 1)]).invocations := by
    rw [hrun]
    exact List.mem_singleton_self _
  obtain ⟨-, hcalls, -⟩ := localIpc_contract sampleServer preparedHost
  obtain ⟨hauthentic, hprepared⟩ := hcalls _ preparedCall hcall
  refine ⟨hrun, hlate, hauthentic, by rfl, fun other capabilityId epoch hauth => ?_⟩
  exact hprepared preparedHmac_unforgeable other capabilityId epoch preparedAuth hauth rfl

/-! ## Two messages in one chunk -/

/-- A host whose texts are no JSON. -/
def sampleHost : Host where
  hmac := fun _ _ => ""
  parse := fun _ => none

def sampleAnswers : Answers where
  resolve := fun _ _ => .unbound
  handle := fun _ _ => .resolves none

def sampleMessages : List (List UInt8) :=
  [utf8 (List.replicate 600 'x'), utf8 (List.replicate 600 'x')]

theorem takeLines_line (h : '\n' ∉ line) (rest : Text) :
    takeLines (line ++ '\n' :: rest) = (line :: (takeLines rest).1, (takeLines rest).2) := by
  induction line with
  | nil => rfl
  | cons c line ih =>
    rw [List.mem_cons, not_or] at h
    have hrest := ih h.2
    have hlines : (takeLines (line ++ '\n' :: rest)).1 = line :: (takeLines rest).1 := by
      rw [hrest]
    rw [List.cons_append, takeLines_closed (Ne.symm h.1) hlines, hrest]

/-- A line with a character that is no white space is handled. -/
theorem nonblank_ne_nil (hc : c ∈ line) (hsolid : isWhitespace c = false) (lines : List Text) :
    nonblank (line :: lines) ≠ [] := by
  have hfront : c ∈ line.dropWhile isWhitespace := by
    have hsplit := List.takeWhile_append_dropWhile (p := isWhitespace) (l := line)
    rw [← hsplit] at hc
    rcases List.mem_append.1 hc with hc | hc
    · have hspace := List.mem_takeWhile_imp hc
      rw [hsolid] at hspace
      cases hspace
    · exact hc
  have hback : c ∈ ((line.dropWhile isWhitespace).reverse).dropWhile isWhitespace := by
    have hsplit := List.takeWhile_append_dropWhile (p := isWhitespace)
      (l := (line.dropWhile isWhitespace).reverse)
    rw [← List.mem_reverse, ← hsplit] at hfront
    rcases List.mem_append.1 hfront with hc | hc
    · have hspace := List.mem_takeWhile_imp hc
      rw [hsolid] at hspace
      cases hspace
    · exact hc
  have htrim : trim line ≠ [] := List.ne_nil_of_mem (List.mem_reverse.2 hback)
  unfold nonblank
  rw [List.map_cons, List.filter_cons_of_pos (by simpa using htrim)]
  exact List.cons_ne_nil _ _

/-- Two messages of 600 bytes, with a limit of 1024: sent one by one they are
    answered, in one chunk they end the connection. -/
theorem two_messages_in_one_chunk :
    (∀ message ∈ sampleMessages, message.length ≤ sampleServer.maxMessageBytes) ∧
      ¬ SameInEveryDivision sampleServer sampleHost sampleAnswers
        (sampleMessages.flatMap (· ++ [10])) := by
  have hsize : 'x'.utf8Size = 1 := by decide
  have hlength : byteLength (List.replicate 600 'x') = 600 := by
    unfold byteLength
    rw [length_utf8_replicate, hsize]
  have hnewline : utf8 ['\n'] = [10] := by decide
  have hbytes : sampleMessages.flatMap (· ++ [10]) =
      utf8 (List.replicate 600 'x' ++ '\n' :: (List.replicate 600 'x' ++ ['\n'])) := by
    have htail : utf8 ('\n' :: (List.replicate 600 'x' ++ ['\n'])) =
        [10] ++ (utf8 (List.replicate 600 'x') ++ [10]) := by
      rw [utf8_cons, utf8_append, hnewline]
      rfl
    unfold sampleMessages
    rw [utf8_append, htail, List.flatMap_cons, List.flatMap_cons, List.flatMap_nil,
      List.append_nil, List.append_assoc]
  refine ⟨fun message hmessage => ?_, fun hsame => ?_⟩
  · have hmessage' : message = utf8 (List.replicate 600 'x') := by
      rcases List.mem_cons.1 hmessage with h | h
      · exact h
      · exact List.mem_singleton.1 h
    have hlimit : sampleServer.maxMessageBytes = 1024 := rfl
    have hmessageLength : message.length = 600 := by
      rw [hmessage']
      exact hlength
    omega
  · have hx : '\n' ∉ List.replicate 600 'x' := fun h =>
      absurd (List.eq_of_mem_replicate h) (by decide)
    rw [hbytes, sameInEveryDivision_iff] at hsame
    unfold textOf at hsame
    rw [feed_utf8] at hsame
    simp only at hsame
    rcases hsame with hfits | hblank
    · have hlimit : sampleServer.maxMessageBytes = 1024 := rfl
      have hfirst := byteLength_append (List.replicate 600 'x')
        ('\n' :: (List.replicate 600 'x' ++ ['\n']))
      have hsecond := byteLength_append ['\n'] (List.replicate 600 'x' ++ ['\n'])
      have hthird := byteLength_append (List.replicate 600 'x') ['\n']
      rw [List.singleton_append] at hsecond
      omega
    · rw [takeLines_line hx] at hblank
      have hmem : 'x' ∈ List.replicate 600 'x' :=
        List.mem_replicate.2 ⟨by omega, rfl⟩
      exact nonblank_ne_nil hmem (by decide) _ hblank

end XioFlow.Ipc
