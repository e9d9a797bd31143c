/-
  XioFlow.Gateway.InterruptedCall

  An interrupted tool call is accounted for exactly once, as long as one call
  is in flight at a time and the request that carries the account gets through.

  The file holds one record, so a second call or a second execution takes the
  place of the first; and the account leaves the host's memory before the
  request that carries it is forwarded.
-/

import XioFlow.Gateway.InFlightTool

namespace XioFlow.Gateway

open Lib

namespace GatewayState

/-- The watchdog's mark moves the record and does not change which call it names. -/
theorem interrupted_mark (file : GatewayState) :
    file.mark.interrupted.map InterruptedToolRecord.callId =
      file.interrupted.map InterruptedToolRecord.callId := by
  rcases file with ⟨inFlight, interrupted⟩
  cases inFlight with
  | none => rfl
  | some =>
    cases interrupted with
    | none => rfl
    | some => rfl

end GatewayState

namespace Host

/-! ## What is claimed of every state -/

/-- The record that a restart would find names a call that the model had issued, whose execution
    had not completed and which was not reported back. -/
def RecordsOpenCall (h : Host) : Prop :=
  ∀ watchdog record, h.wouldFind watchdog = some record →
    record.callId ∈ h.issued ∧ record.callId ∉ h.completed ∧ record.callId ∉ h.reported

/-- While an execution is in progress there is a record, and it names the call it serves. -/
def RecordsExecution (h : Host) : Prop :=
  ∀ x ∈ h.running, ∀ watchdog, ∃ record, h.wouldFind watchdog = some record ∧
    record.callId = x.serves

/-- The call that the file names. -/
def recorded (h : Host) : Option String :=
  h.file.interrupted.map InterruptedToolRecord.callId

/-- The account of a record found at the start is still to be told, by this host or from the file
    by the next one; or just one request carries it, which is on its way or was answered with a
    2xx response. -/
def Accounted (h : Host) : Prop :=
  ∀ record, h.found = some record →
    (h.carried = [] ∧ (h.up = true → h.pendingInterrupted = some record) ∧
      (h.up = false → h.recorded = some record.callId)) ∨
    ∃ request, h.carried = [(request, recoveryNotice record)] ∧
      (request ∈ h.waiting ∨ request ∈ h.answered)

structure AccountsOnce (h : Host) : Prop where
  openCall : h.RecordsOpenCall
  execution : h.RecordsExecution
  account : h.Accounted

/-! ## When it is so -/

/-- The request carries the account. -/
def Carries (h : Host) (request : Nat) : Prop := ∃ notice, (request, notice) ∈ h.carried

/-- No request that carries the account is on its way. -/
def AccountSettled (h : Host) : Prop := ∀ request ∈ h.waiting, ¬ h.Carries request

/-- The request takes the record from the file. -/
def cleared (h : Host) (toolResults : List String) : Bool :=
  h.reports toolResults || h.pendingInterrupted.isSome

/-- One call in flight at a time: what clears the record finds no execution in progress beside
    the one that ends, what is reported back is not the call on file, a new record names an open
    call and the one that every execution serves.  And the request that carries the account is
    answered with a 2xx response, before the host ends. -/
def Orderly (h : Host) : HostEvent → Prop
  | .mainRequest toolResults => h.up = true →
    if h.cleared toolResults = true then h.running = []
    else ∀ callId, h.recorded = some callId → callId ∉ toolResults
  | .responded request ok toolCalls => request ∈ h.waiting →
    (∀ call, toolCalls.head? = some call →
      call.id ∉ h.completed ∧ call.id ∉ h.reported ∧ ∀ x ∈ h.running, x.serves = call.id) ∧
    (h.Carries request → ok = true)
  | .requestFailed request => request ∈ h.waiting → ¬ h.Carries request
  | .execStarted _ serves => h.up = true →
    ((∀ call, h.activeToolCall = some call → call.id = serves) ∧
      (h.activeToolCall = none → s!"call_exec_{h.requests + 1}" = serves)) ∧
    (serves ∈ h.issued ∧ serves ∉ h.completed ∧ serves ∉ h.reported) ∧
    ∀ x ∈ h.running, x.serves = serves
  | .execFinished execution =>
    ∀ x, h.execution? execution = some x → ∀ y ∈ h.running, y.id = x.id
  | .exited => h.up = true → h.pendingInterrupted = none ∧ h.AccountSettled
  | .crashed =>
    (∀ record, h.pendingInterrupted = some record → h.recorded = some record.callId) ∧
    h.AccountSettled
  | .started | .received | .execThrew _ | .watchdog => True

/-! ## The record on file -/

theorem wouldFind_callId (h : Host) (watchdog : Bool) :
    (h.wouldFind watchdog).map InterruptedToolRecord.callId = h.recorded := by
  cases watchdog with
  | false => rfl
  | true => exact h.file.interrupted_mark

variable {h h' : Host}

theorem recordsOpenCall_iff : h.RecordsOpenCall ↔ ∀ callId, h.recorded = some callId →
    callId ∈ h.issued ∧ callId ∉ h.completed ∧ callId ∉ h.reported := by
  constructor
  · intro hopen callId hcall
    obtain ⟨record, hfile, rfl⟩ := Option.map_eq_some_iff.1 hcall
    exact hopen false record hfile
  · intro hopen watchdog record hfind
    apply hopen
    rw [← h.wouldFind_callId watchdog, hfind, Option.map_some]

theorem recordsExecution_iff :
    h.RecordsExecution ↔ ∀ x ∈ h.running, h.recorded = some x.serves := by
  constructor
  · intro hexec x hx
    obtain ⟨record, hfile, hserves⟩ := hexec x hx false
    rw [← h.wouldFind_callId false, hfile, Option.map_some, hserves]
  · intro hexec x hx watchdog
    apply Option.map_eq_some_iff.1
    rw [h.wouldFind_callId watchdog]
    exact hexec x hx

theorem accountsOnce_iff : h.AccountsOnce ↔
    (∀ callId, h.recorded = some callId →
      callId ∈ h.issued ∧ callId ∉ h.completed ∧ callId ∉ h.reported) ∧
    (∀ x ∈ h.running, h.recorded = some x.serves) ∧ h.Accounted := by
  rw [← recordsOpenCall_iff, ← recordsExecution_iff]
  exact ⟨fun ⟨hopen, hexec, hacc⟩ => ⟨hopen, hexec, hacc⟩,
    fun ⟨hopen, hexec, hacc⟩ => ⟨hopen, hexec, hacc⟩⟩

/-! ## What holds of every host -/

/-- A host that is down holds nothing; an account still to be told is that of the record found,
    carried by no request; and a request on its way was not answered. -/
structure Coherent (h : Host) : Prop where
  down : h.up = false → h.waiting = [] ∧ h.running = [] ∧ h.pendingInterrupted = none
  pending : ∀ record, h.pendingInterrupted = some record → h.found = some record ∧ h.carried = []
  carried : h.carried = [] ∨ h.found.isSome = true
  waiting : ∀ request ∈ h.waiting, request ≤ h.mainRequests ∧ request ∉ h.answered
  answered : ∀ request ∈ h.answered, request ≤ h.mainRequests

theorem Coherent.stop (hi : h.Coherent) : h.stop.Coherent where
  down := fun _ => ⟨rfl, rfl, rfl⟩
  pending := nofun
  carried := hi.carried
  waiting := nofun
  answered := hi.answered

theorem Coherent.start (hi : h.Coherent) (hup : h.up = false) : h.start.Coherent where
  down := nofun
  pending := fun _ hpending => ⟨hpending, rfl⟩
  carried := .inl rfl
  waiting := by
    show ∀ request ∈ h.waiting, _
    rw [(hi.down hup).1]
    nofun
  answered := nofun

/-! ## A main request -/

theorem clearReported_frame (h : Host) (toolResults : List String) :
    (h.clearReported toolResults) = { h with
      file := if h.reports toolResults then {} else h.file
      activeToolCall := if h.reports toolResults then none else h.activeToolCall } := by
  rw [clearReported]
  split <;> rfl

/-- A main request, field by field. -/
theorem mainRequest_eq (h : Host) (toolResults : List String) :
    h.mainRequest toolResults = { h with
      file := if h.cleared toolResults then {} else h.file
      activeToolCall := if h.reports toolResults then none else h.activeToolCall
      pendingInterrupted := none
      mainRequests := h.mainRequests + 1
      waiting := h.waiting ++ [h.mainRequests + 1]
      reported := h.reported ++ toolResults
      carried := h.carried ++ (h.pendingInterrupted.map fun record =>
        (h.mainRequests + 1, recoveryNotice record)).toList } := by
  have hreports : (h.receive toolResults).reports toolResults = h.reports toolResults := rfl
  rw [mainRequest, clearReported_frame, hreports, injectAccount, cleared]
  cases hpending : h.pendingInterrupted with
  | none =>
    simp [receive, hpending]
  | some =>
    simp [receive, hpending, write]

/-! ## Every step keeps the host coherent -/

theorem Coherent.mainRequest (hi : h.Coherent) (hup : h.up = true)
    (toolResults : List String) : (h.mainRequest toolResults).Coherent := by
  rw [mainRequest_eq]
  refine ⟨fun hdown => ?_, nofun, ?_, ?_, ?_⟩
  · rw [hup] at hdown
    cases hdown
  · cases hpending : h.pendingInterrupted with
    | none =>
      show h.carried ++ [] = [] ∨ _
      rw [List.append_nil]
      exact hi.carried
    | some record =>
      right
      show h.found.isSome = true
      rw [(hi.pending record hpending).1]
      rfl
  · intro request hrequest
    show request ≤ h.mainRequests + 1 ∧ request ∉ h.answered
    rcases List.mem_append.1 hrequest with hold | hnew
    · have hbound := hi.waiting request hold
      exact ⟨by omega, hbound.2⟩
    · rw [List.mem_singleton.1 hnew]
      refine ⟨Nat.le_refl _, fun hanswered => ?_⟩
      have hbound := hi.answered _ hanswered
      omega
  · intro request hanswered
    show request ≤ h.mainRequests + 1
    have hbound := hi.answered request hanswered
    omega

/-- A response, field by field. -/
theorem respond_eq (h : Host) (request : Nat) (ok : Bool) (toolCalls : List ToolCall) :
    h.respond request ok toolCalls = { h with
      file := match toolCalls.head? with
        | none => h.file
        | some firstCall => { inFlightToolCall := some (recordOf firstCall) }
      activeToolCall := toolCalls.head?
      waiting := h.waiting.filter (· != request)
      issued := h.issued ++ toolCalls.map ToolCall.id
      answered := if ok then h.answered ++ [request] else h.answered } := by
  rw [respond]
  cases toolCalls.head? with
  | none => rfl
  | some => rfl

variable {request : Nat}

theorem mem_waiting_filter {q : Nat} :
    q ∈ h.waiting.filter (· != request) ↔ q ∈ h.waiting ∧ q ≠ request := by
  rw [List.mem_filter, bne_iff_ne]

theorem Coherent.respond (hi : h.Coherent) (hr : request ∈ h.waiting)
    (ok : Bool) (toolCalls : List ToolCall) : (h.respond request ok toolCalls).Coherent := by
  have hanswered : ∀ q ∈ (if ok then h.answered ++ [request] else h.answered),
      q ∈ h.answered ∨ q = request := by
    intro q hq
    split at hq
    · rcases List.mem_append.1 hq with hold | hnew
      · exact .inl hold
      · exact .inr (List.mem_singleton.1 hnew)
    · exact .inl hq
  rw [respond_eq]
  refine ⟨fun hdown => ?_, hi.pending, hi.carried, ?_, ?_⟩
  · rw [(hi.down hdown).1] at hr
    cases hr
  · intro q hq
    obtain ⟨hwaiting, hne⟩ := mem_waiting_filter.1 hq
    have hbound := hi.waiting q hwaiting
    refine ⟨hbound.1, fun hq => ?_⟩
    rcases hanswered q hq with hold | hnew
    · exact hbound.2 hold
    · exact hne hnew
  · intro q hq
    rcases hanswered q hq with hold | rfl
    · exact hi.answered q hold
    · exact (hi.waiting q hr).1

/-- Fewer requests on their way, fewer executions, another file: the host stays coherent. -/
theorem Coherent.frame (hi : h.Coherent)
    (hsame : h'.up = h.up ∧ h'.pendingInterrupted = h.pendingInterrupted ∧ h'.found = h.found ∧
      h'.carried = h.carried ∧ h'.mainRequests = h.mainRequests ∧ h'.answered = h.answered)
    (hwaiting : ∀ q ∈ h'.waiting, q ∈ h.waiting)
    (hrunning : h.up = false → h.running = [] → h'.running = []) : h'.Coherent := by
  obtain ⟨hup, hpending, hfound, hcarried, hmain, hanswered⟩ := hsame
  refine ⟨fun hdown => ?_, ?_, ?_, fun q hq => ?_, ?_⟩
  · rw [hup] at hdown
    obtain ⟨hnone, hidle, hclear⟩ := hi.down hdown
    refine ⟨List.eq_nil_iff_forall_not_mem.2 fun q hq => ?_, hrunning hdown hidle, ?_⟩
    · have hold := hwaiting q hq
      rw [hnone] at hold
      cases hold
    · rw [hpending, hclear]
  · rw [hpending, hfound, hcarried]
    exact hi.pending
  · rw [hfound, hcarried]
    exact hi.carried
  · rw [hmain, hanswered]
    exact hi.waiting q (hwaiting q hq)
  · rw [hmain, hanswered]
    exact hi.answered

theorem Coherent.after (hi : h.Coherent) (e : HostEvent) :
    (Host.after e h).Coherent := by
  have hsub : ∀ request : Nat, ∀ q ∈ h.waiting.filter (· != request), q ∈ h.waiting :=
    fun request q hq => (mem_waiting_filter.1 hq).1
  cases e with
  | started =>
    rw [Host.after]
    split
    · exact hi
    · rename_i hup
      exact hi.start (Bool.eq_false_iff.2 hup)
  | received => exact hi.frame ⟨rfl, rfl, rfl, rfl, rfl, rfl⟩ (fun _ => id) fun _ => id
  | mainRequest toolResults =>
    rw [Host.after]
    split
    · rename_i hup
      exact hi.mainRequest hup toolResults
    · exact hi
  | responded request ok toolCalls =>
    rw [Host.after]
    split
    · rename_i hr
      exact hi.respond hr ok toolCalls
    · exact hi
  | requestFailed request =>
    exact hi.frame ⟨rfl, rfl, rfl, rfl, rfl, rfl⟩ (hsub request) fun _ => id
  | execStarted =>
    rw [Host.after]
    split
    · rename_i hup
      refine hi.frame ⟨rfl, rfl, rfl, rfl, rfl, rfl⟩ (fun _ => id) fun hdown => ?_
      rw [hup] at hdown
      cases hdown
    · exact hi
  | execFinished execution =>
    rw [Host.after]
    cases h.execution? execution with
    | none => exact hi
    | some =>
      refine hi.frame ⟨rfl, rfl, rfl, rfl, rfl, rfl⟩ (fun _ => id) fun _ hidle => ?_
      show h.running.filter _ = []
      rw [hidle, List.filter_nil]
  | execThrew =>
    refine hi.frame ⟨rfl, rfl, rfl, rfl, rfl, rfl⟩ (fun _ => id) fun _ hidle => ?_
    show h.running.filter _ = []
    rw [hidle, List.filter_nil]
  | exited =>
    rw [Host.after]
    split
    · have hwritten : (h.write none).Coherent :=
        hi.frame ⟨rfl, rfl, rfl, rfl, rfl, rfl⟩ (fun _ => id) fun _ => id
      exact hwritten.stop
    · exact hi
  | crashed => exact hi.stop
  | watchdog =>
    rw [Host.after]
    split
    · exact hi
    · exact hi.frame ⟨rfl, rfl, rfl, rfl, rfl, rfl⟩ (fun _ => id) fun _ => id

/-! ## What each step does to the account -/

/-- An account that some request carries stays accounted for as long as the request is on its way
    or answered; one that none carries, as long as it can still be told. -/
theorem Accounted.keep (hacc : h.Accounted) (hfound : h'.found = h.found)
    (hcarried : h'.carried = h.carried)
    (htold : ∀ record, h.found = some record →
      (h.up = true → h.pendingInterrupted = some record) →
      (h.up = false → h.recorded = some record.callId) →
      (h'.up = true → h'.pendingInterrupted = some record) ∧
        (h'.up = false → h'.recorded = some record.callId))
    (hwaiting : ∀ request, h.Carries request → request ∈ h.waiting →
      request ∈ h'.waiting ∨ request ∈ h'.answered)
    (hanswered : ∀ request ∈ h.answered, request ∈ h'.answered) : h'.Accounted := by
  intro record hrecord
  rw [hfound] at hrecord
  rw [hcarried]
  rcases hacc record hrecord with ⟨hnone, hup, hdown⟩ | ⟨request, hone, hway⟩
  · exact .inl ⟨hnone, htold record hrecord hup hdown⟩
  · refine .inr ⟨request, hone, ?_⟩
    rcases hway with hway | hway
    · apply hwaiting request _ hway
      exact ⟨recoveryNotice record, by rw [hone]; exact List.mem_singleton_self _⟩
    · exact .inr (hanswered request hway)

/-- A request on its way that carries the account is the one that the account is in. -/
theorem Accounted.carrier (hi : h.Coherent) (hacc : h.Accounted)
    (hcarries : h.Carries request) :
    ∃ record, h.found = some record ∧ h.carried = [(request, recoveryNotice record)] := by
  obtain ⟨notice, hmem⟩ := hcarries
  rcases hi.carried with hnil | hfound
  · rw [hnil] at hmem
    cases hmem
  · obtain ⟨record, hrecord⟩ := Option.isSome_iff_exists.1 hfound
    refine ⟨record, hrecord, ?_⟩
    rcases hacc record hrecord with ⟨hnil, -⟩ | ⟨request', hone, -⟩
    · rw [hnil] at hmem
      cases hmem
    · rw [hone] at hmem
      cases List.mem_singleton.1 hmem
      exact hone

/-- A carrier that is neither on its way nor answered has lost the account. -/
theorem Accounted.lost (hi : h.Coherent) (hacc : h.Accounted)
    (hacc' : h'.Accounted) (hcarries : h.Carries request)
    (hfound : h'.found = h.found) (hcarried : h'.carried = h.carried)
    (hwaiting : request ∉ h'.waiting) (hanswered : request ∉ h'.answered) : False := by
  obtain ⟨record, hrecord, hone⟩ := hacc.carrier hi hcarries
  rcases hacc' record (by rw [hfound, hrecord]) with ⟨hnil, -⟩ | ⟨request', hone', hway⟩
  · rw [hcarried, hone] at hnil
    cases hnil
  · rw [hcarried, hone, List.cons.injEq, Prod.mk.injEq] at hone'
    obtain ⟨⟨rfl, -⟩, -⟩ := hone'
    rcases hway with hway | hway
    · exact hwaiting hway
    · exact hanswered hway

theorem account_mainRequest (hi : h.Coherent) (hacc : h.Accounted)
    (hup : h.up = true) (toolResults : List String) : (h.mainRequest toolResults).Accounted := by
  rw [mainRequest_eq]
  intro record hrecord
  right
  rcases hacc record hrecord with ⟨hnil, hpending, -⟩ | ⟨request, hone, hway⟩
  · refine ⟨h.mainRequests + 1, ?_, .inl ?_⟩
    · show h.carried ++ _ = _
      rw [hnil, hpending hup]
      rfl
    · exact List.mem_append_right _ (List.mem_singleton_self _)
  · refine ⟨request, ?_, ?_⟩
    · -- A pending account would not have been carried yet.
      have hnone : h.pendingInterrupted = none := by
        rw [Option.eq_none_iff_forall_ne_some]
        intro record' hpending
        rw [(hi.pending record' hpending).2] at hone
        cases hone
      show h.carried ++ _ = _
      rw [hnone, hone]
      rfl
    · exact hway.imp (List.mem_append_left _) id

theorem account_respond (hi : h.Coherent) (hacc : h.Accounted)
    (hr : request ∈ h.waiting) (ok : Bool) (toolCalls : List ToolCall) :
    (h.respond request ok toolCalls).Accounted ↔ (h.Carries request → ok = true) := by
  have hup : h.up = true := by
    rw [← Bool.not_eq_false]
    intro hdown
    rw [(hi.down hdown).1] at hr
    cases hr
  rw [respond_eq]
  constructor
  · intro hacc' hcarries
    cases ok with
    | true => rfl
    | false =>
      refine (hacc.lost hi hacc' hcarries rfl rfl (fun hq => ?_) ?_).elim
      · exact (mem_waiting_filter.1 hq).2 rfl
      · exact (hi.waiting request hr).2
  · intro hok
    refine hacc.keep rfl rfl (fun record _ hpending _ => ⟨hpending, fun hdown => ?_⟩)
      (fun q hcarries hq => ?_) (fun q hq => ?_)
    · change h.up = false at hdown
      rw [hup] at hdown
      cases hdown
    · by_cases heq : q = request
      · subst heq
        right
        show q ∈ (if ok = true then _ else _)
        rw [if_pos (hok hcarries)]
        exact List.mem_append_right _ (List.mem_singleton_self _)
      · exact .inl (mem_waiting_filter.2 ⟨hq, heq⟩)
    · show q ∈ (if ok = true then _ else _)
      split
      · exact List.mem_append_left _ hq
      · exact hq

theorem account_stop (hi : h.Coherent) (hacc : h.Accounted) :
    h.stop.Accounted ↔
      (∀ record, h.pendingInterrupted = some record → h.recorded = some record.callId) ∧
        h.AccountSettled := by
  constructor
  · intro hacc'
    refine ⟨fun record hpending => ?_, fun request hway hcarries => ?_⟩
    · obtain ⟨hrecord, hnil⟩ := hi.pending record hpending
      rcases hacc' record hrecord with ⟨-, -, hdown⟩ | ⟨request, hone, -⟩
      · exact hdown rfl
      · change h.carried = _ at hone
        rw [hnil] at hone
        cases hone
    · exact hacc.lost hi hacc' hcarries rfl rfl List.not_mem_nil (hi.waiting request hway).2
  · rintro ⟨hfile, hsettled⟩
    refine hacc.keep rfl rfl (fun record _ hpending hdown => ⟨nofun, fun _ => ?_⟩)
      (fun q hcarries hq => absurd hcarries (hsettled q hq)) fun _ => id
    cases hup : h.up with
    | true => exact hfile record (hpending hup)
    | false => exact hdown hup

/-! ## What each step does to the record -/

section Step

variable {h : Host} (hi : h.Coherent) (hg : h.AccountsOnce)

/-- A step that leaves the record, what it is compared with and the account as they are, or takes
    an execution away. -/
theorem AccountsOnce.keep {h' : Host} (hg : h.AccountsOnce) (hrecorded : h'.recorded = h.recorded)
    (hcalls : h'.issued = h.issued ∧ h'.completed = h.completed ∧ h'.reported = h.reported)
    (hrunning : ∀ x ∈ h'.running, x ∈ h.running) (hacc : h'.Accounted) : h'.AccountsOnce := by
  obtain ⟨hissued, hcompleted, hreported⟩ := hcalls
  obtain ⟨hopen, hexec, -⟩ := accountsOnce_iff.1 hg
  rw [accountsOnce_iff, hrecorded, hissued, hcompleted, hreported]
  exact ⟨hopen, fun x hx => hexec x (hrunning x hx), hacc⟩

include hi hg

theorem started_step : (Host.after .started h).AccountsOnce := by
  rw [Host.after]
  split
  · exact hg
  · rename_i hup
    have hnone := hi.down (Bool.eq_false_iff.2 hup)
    refine hg.keep rfl ⟨rfl, rfl, rfl⟩ (fun _ => id) fun record hfound => .inl ⟨rfl, ?_, nofun⟩
    exact fun _ => hfound

theorem mainRequest_step (toolResults : List String) :
    (Host.after (.mainRequest toolResults) h).AccountsOnce ↔
      h.Orderly (.mainRequest toolResults) := by
  obtain ⟨hopen, hexec, hacc⟩ := accountsOnce_iff.1 hg
  rw [Host.after, Orderly]
  cases hup : h.up with
  | false => exact iff_of_true hg nofun
  | true =>
    have hacc' := account_mainRequest hi hacc hup toolResults
    rw [if_pos rfl, accountsOnce_iff]
    rw [mainRequest_eq] at hacc' ⊢
    cases hclear : h.cleared toolResults with
    | true =>
      constructor
      · rintro ⟨-, hexec', -⟩ -
        rw [if_pos rfl, List.eq_nil_iff_forall_not_mem]
        exact fun x hx => nomatch hexec' x hx
      · intro hidle
        refine ⟨nofun, fun x hx => ?_, hclear ▸ hacc'⟩
        change x ∈ h.running at hx
        rw [hidle rfl] at hx
        cases hx
    | false =>
      constructor
      · rintro ⟨hopen', -, -⟩ - callId hcall hmem
        exact (hopen' callId hcall).2.2 (List.mem_append_right _ hmem)
      · intro hnew
        refine ⟨fun callId hcall => ?_, hexec, hclear ▸ hacc'⟩
        obtain ⟨hissued, hcompleted, hreported⟩ := hopen callId hcall
        refine ⟨hissued, hcompleted, fun hmem => ?_⟩
        rcases List.mem_append.1 hmem with hold | hmem
        · exact hreported hold
        · exact hnew rfl callId hcall hmem

theorem responded_step (request : Nat) (ok : Bool) (toolCalls : List ToolCall) :
    (Host.after (.responded request ok toolCalls) h).AccountsOnce ↔
      h.Orderly (.responded request ok toolCalls) := by
  obtain ⟨hopen, hexec, hacc⟩ := accountsOnce_iff.1 hg
  rw [Host.after, Orderly]
  split
  · rename_i hr
    have haccount := account_respond hi hacc hr ok toolCalls
    rw [accountsOnce_iff, haccount, forall_prop_of_true hr, respond_eq]
    cases hhead : toolCalls.head? with
    | none =>
      constructor
      · rintro ⟨-, -, hok⟩
        exact ⟨nofun, hok⟩
      · rintro ⟨-, hok⟩
        refine ⟨fun callId hcall => ?_, hexec, hok⟩
        obtain ⟨hissued, hrest⟩ := hopen callId hcall
        exact ⟨List.mem_append_left _ hissued, hrest⟩
    | some call =>
      have hcall : call.id ∈ h.issued ++ toolCalls.map ToolCall.id :=
        List.mem_append_right _ (List.mem_map_of_mem (List.mem_of_head? hhead))
      constructor
      · rintro ⟨hopen', hexec', hok⟩
        refine ⟨fun call' hcall' => ?_, hok⟩
        cases hcall'
        obtain ⟨-, hcompleted, hreported⟩ := hopen' call.id rfl
        exact ⟨hcompleted, hreported, fun x hx => (Option.some.inj (hexec' x hx)).symm⟩
      · rintro ⟨hnew, hok⟩
        obtain ⟨hcompleted, hreported, hserves⟩ := hnew call rfl
        refine ⟨fun callId hcallId => ?_, fun x hx => ?_, hok⟩
        · cases hcallId
          exact ⟨hcall, hcompleted, hreported⟩
        · rw [hserves x hx]
          rfl
  · rename_i hr
    exact iff_of_true hg fun hr' => absurd hr' hr

theorem requestFailed_step (request : Nat) :
    (Host.after (.requestFailed request) h).AccountsOnce ↔
      h.Orderly (.requestFailed request) := by
  obtain ⟨-, -, hacc⟩ := accountsOnce_iff.1 hg
  constructor
  · intro hg' hr hcarries
    refine hacc.lost hi hg'.account hcarries rfl rfl (fun hq => ?_) (hi.waiting request hr).2
    exact (mem_waiting_filter.1 hq).2 rfl
  · intro hnot
    refine hg.keep rfl ⟨rfl, rfl, rfl⟩ (fun _ => id) ?_
    refine hacc.keep rfl rfl (fun _ _ hup hdown => ⟨hup, hdown⟩) (fun q hcarries hq => ?_)
      fun _ => id
    left
    apply mem_waiting_filter.2
    refine ⟨hq, ?_⟩
    rintro rfl
    exact hnot hq hcarries

omit hi hg in
/-- An execution is put down as the call it serves where that is the active call, or the name that
    it is given when there is none. -/
theorem executionCall_id_iff {serves : String} : h.executionCall.id = serves ↔
    (∀ call, h.activeToolCall = some call → call.id = serves) ∧
      (h.activeToolCall = none → s!"call_exec_{h.requests + 1}" = serves) := by
  unfold executionCall
  cases hactive : h.activeToolCall with
  | none => exact ⟨fun hname => ⟨nofun, fun _ => hname⟩, fun hserves => hserves.2 rfl⟩
  | some call =>
    refine ⟨fun hname => ⟨fun other hother => ?_, nofun⟩, fun hserves => hserves.1 call rfl⟩
    cases hother
    exact hname

omit hi in
theorem execStarted_step (execution : Nat) (serves : String) :
    (Host.after (.execStarted execution serves) h).AccountsOnce ↔
      h.Orderly (.execStarted execution serves) := by
  obtain ⟨hopen, hexec, hacc⟩ := accountsOnce_iff.1 hg
  rw [Host.after, Orderly]
  cases hup : h.up with
  | false => exact iff_of_true hg nofun
  | true =>
    have hacc' : (h.execStart execution serves).Accounted :=
      hacc.keep rfl rfl (fun _ _ hpending _ => ⟨hpending, fun hdown => nomatch hup ▸ hdown⟩)
        (fun _ _ => .inl) fun _ => id
    have hrecorded : (h.execStart execution serves).recorded = some h.executionCall.id := rfl
    rw [if_pos rfl, accountsOnce_iff, hrecorded, ← executionCall_id_iff]
    constructor
    · rintro ⟨hopen', hexec', -⟩ -
      have hserves : h.executionCall.id = serves :=
        Option.some.inj (hexec' _ (List.mem_append_right _ (List.mem_singleton_self _)))
      rw [hserves] at hopen' hexec'
      refine ⟨hserves, hopen' serves rfl, fun x hx => ?_⟩
      exact (Option.some.inj (hexec' x (List.mem_append_left _ hx))).symm
    · intro hnew
      obtain ⟨hserves, hcall, hsame⟩ := hnew rfl
      rw [hserves]
      refine ⟨fun callId hcallId => ?_, fun x hx => ?_, hacc'⟩
      · cases hcallId
        exact hcall
      · rcases List.mem_append.1 hx with hold | hx
        · rw [hsame x hold]
        · rw [List.mem_singleton.1 hx]

theorem execFinished_step (execution : Nat) :
    (Host.after (.execFinished execution) h).AccountsOnce ↔
      h.Orderly (.execFinished execution) := by
  obtain ⟨-, -, hacc⟩ := accountsOnce_iff.1 hg
  rw [Host.after, Orderly]
  cases hx : h.execution? execution with
  | none => exact iff_of_true hg nofun
  | some x =>
    have hmem : x ∈ h.running := List.mem_of_find?_eq_some hx
    have hacc' : (h.execFinish x).Accounted := by
      refine hacc.keep rfl rfl (fun _ _ hpending _ => ⟨hpending, fun hdown => ?_⟩)
        (fun _ _ => .inl) fun _ => id
      rw [(hi.down hdown).2.1] at hmem
      cases hmem
    have hrecorded : (h.execFinish x).recorded = none := rfl
    show (h.execFinish x).AccountsOnce ↔ _
    rw [accountsOnce_iff, hrecorded]
    constructor
    · rintro ⟨-, hexec', -⟩ x' hx' y hy
      cases hx'
      cases hid : y.id != x.id with
      | false => exact bne_eq_false_iff_eq.1 hid
      | true => exact nomatch hexec' y (List.mem_filter.2 ⟨hy, hid⟩)
    · intro hlast
      refine ⟨nofun, fun y hy => ?_, hacc'⟩
      obtain ⟨hold, hid⟩ := List.mem_filter.1 hy
      exact absurd (hlast x rfl y hold) (bne_iff_ne.1 hid)

omit hi in
theorem execThrew_step (execution : Nat) :
    (Host.after (.execThrew execution) h).AccountsOnce := by
  refine hg.keep rfl ⟨rfl, rfl, rfl⟩ (fun x hx => (List.mem_filter.1 hx).1) ?_
  exact hg.account.keep rfl rfl (fun _ _ hup hdown => ⟨hup, hdown⟩) (fun _ _ => .inl) fun _ => id

omit hi in
theorem received_step : (Host.after .received h).AccountsOnce := by
  refine hg.keep rfl ⟨rfl, rfl, rfl⟩ (fun _ => id) ?_
  exact hg.account.keep rfl rfl (fun _ _ hup hdown => ⟨hup, hdown⟩) (fun _ _ => .inl) fun _ => id

theorem exited_step : (Host.after .exited h).AccountsOnce ↔ h.Orderly .exited := by
  rw [Host.after, Orderly]
  cases hup : h.up with
  | false => exact iff_of_true hg nofun
  | true =>
    have hwritten : (h.write none).Coherent :=
      hi.frame ⟨rfl, rfl, rfl, rfl, rfl, rfl⟩ (fun _ => id) fun _ => id
    have hacc : (h.write none).Accounted :=
      hg.account.keep rfl rfl
        (fun _ _ hpending _ => ⟨hpending, fun hdown => nomatch hup ▸ hdown⟩)
        (fun _ _ => .inl) fun _ => id
    have hrecorded : (h.write none).stop.recorded = none := rfl
    rw [if_pos rfl, accountsOnce_iff, account_stop hwritten hacc, hrecorded]
    constructor
    · rintro ⟨-, -, hpending, hsettled⟩ -
      refine ⟨Option.eq_none_iff_forall_ne_some.2 fun record hrecord => ?_, hsettled⟩
      exact nomatch hpending record hrecord
    · intro hdone
      obtain ⟨hpending, hsettled⟩ := hdone rfl
      refine ⟨nofun, nofun, fun record hrecord => ?_, hsettled⟩
      change h.pendingInterrupted = _ at hrecord
      rw [hpending] at hrecord
      cases hrecord

theorem crashed_step : (Host.after .crashed h).AccountsOnce ↔ h.Orderly .crashed := by
  have haccount := account_stop hi hg.account
  constructor
  · exact fun hg' => haccount.1 hg'.account
  · intro hsafe
    exact hg.keep rfl ⟨rfl, rfl, rfl⟩ nofun (haccount.2 hsafe)

omit hi in
theorem watchdog_step : (Host.after .watchdog h).AccountsOnce := by
  rw [Host.after]
  split
  · exact hg
  · have hrecorded : ({ h with file := h.file.mark } : Host).recorded = h.recorded :=
      h.file.interrupted_mark
    refine hg.keep hrecorded ⟨rfl, rfl, rfl⟩ (fun _ => id) ?_
    refine hg.account.keep rfl rfl (fun _ _ hup hdown => ⟨hup, ?_⟩) (fun _ _ => .inl) fun _ => id
    rw [hrecorded]
    exact hdown

/-- Each step keeps the account exactly where it is orderly. -/
theorem accountsOnce_step (e : HostEvent) :
    (Host.after e h).AccountsOnce ↔ h.Orderly e := by
  cases e with
  | started => exact iff_of_true (started_step hi hg) trivial
  | received => exact iff_of_true (received_step hg) trivial
  | mainRequest toolResults => exact mainRequest_step hi hg toolResults
  | responded request ok toolCalls => exact responded_step hi hg request ok toolCalls
  | requestFailed request => exact requestFailed_step hi hg request
  | execStarted execution serves => exact execStarted_step hg execution serves
  | execFinished execution => exact execFinished_step hi hg execution
  | execThrew execution => exact iff_of_true (execThrew_step hg execution) trivial
  | exited => exact exited_step hi hg
  | crashed => exact crashed_step hi hg
  | watchdog => exact iff_of_true (watchdog_step hg) trivial

end Step

/-! ## Every run -/

/-- On a domain that no host ran on yet, a run accounts once for each interrupted call, in every
    state on its way, exactly where each of its steps is orderly. -/
theorem accountsOnce_iff_orderly (events : List HostEvent) :
    (∀ pre, pre <+: events → (afterAll Host.after {} pre).AccountsOnce) ↔
      Along Host.after Orderly {} events := by
  have hstep : ∀ (h : Host) (e : HostEvent), h.Coherent → h.AccountsOnce →
      ((Host.after e h).AccountsOnce ↔ h.Orderly e) := fun _ e hi hg => accountsOnce_step hi hg e
  refine along_iff_of_step (fun _ e hi => Coherent.after hi e) hstep ?_ ?_ events
  · exact ⟨fun _ => ⟨rfl, rfl, rfl⟩, nofun, .inl rfl, nofun, nofun⟩
  · rw [accountsOnce_iff]
    exact ⟨nofun, nofun, nofun⟩

/-- The host crashes in an execution, the watchdog marks the record, and after the restart the
    request that tells of the call is answered. -/
def answeredRequest : List HostEvent :=
  [.started, .mainRequest [], .responded 1 true [⟨"call_a", "bash"⟩], .execStarted 1 "call_a",
    .crashed, .watchdog, .started, .mainRequest [], .responded 1 true []]

/-- In this run the account is told, once, and in every state on the way it is kept. -/
theorem answeredRequest_accounted :
    (∀ pre, pre <+: answeredRequest → (afterAll Host.after {} pre).AccountsOnce) ∧
      (afterAll Host.after {} answeredRequest).carried =
        [(1, recoveryNotice ⟨"call_a", "bash", true⟩)] ∧
      (afterAll Host.after {} answeredRequest).answered = [1] := by
  refine ⟨(accountsOnce_iff_orderly answeredRequest).2 ?_, rfl, rfl⟩
  have hserves : ∀ x ∈ ([] : List ShellExecution), x.serves = "call_a" := nofun
  refine ⟨trivial, fun _ => ?_, fun _ => ?_, fun _ => ?_, ?_, trivial, trivial, fun _ => ?_,
    fun _ => ?_, trivial⟩
  · exact nofun
  · exact ⟨fun call hcall => by cases hcall; exact ⟨nofun, nofun, hserves⟩, fun _ => rfl⟩
  · exact ⟨⟨fun call hcall => by cases hcall; rfl, nofun⟩, by decide, hserves⟩
  · exact ⟨nofun, nofun⟩
  · rfl
  · exact ⟨nofun, fun _ => rfl⟩

/-- A response issues two calls: the record names the first while the second one's execution is
    in progress. -/
def secondCall : List HostEvent :=
  [.started, .mainRequest [], .responded 1 true [⟨"call_a", "bash"⟩, ⟨"call_b", "bash"⟩],
    .execStarted 1 "call_a", .execFinished 1, .execStarted 2 "call_b"]

/-- The host crashes in an execution, and the request that tells of it after the restart fails. -/
def failedRequest : List HostEvent :=
  [.started, .mainRequest [], .responded 1 true [⟨"call_a", "bash"⟩], .execStarted 1 "call_a",
    .crashed, .watchdog, .started, .mainRequest [], .requestFailed 1]

theorem interruptedCall_unaccounted :
    ¬ (afterAll Host.after {} secondCall).AccountsOnce ∧
      ¬ (afterAll Host.after {} failedRequest).AccountsOnce := by
  constructor
  · intro hg
    obtain ⟨record, hfind, hserves⟩ :=
      hg.execution ⟨2, "call_b"⟩ (List.mem_singleton_self _) false
    cases hfind
    exact absurd hserves (by decide)
  · intro hg
    rcases hg.account ⟨"call_a", "bash", true⟩ rfl with ⟨hnil, -⟩ | ⟨request, -, hway⟩
    · cases hnil
    · rcases hway with hway | hway
      · cases hway
      · cases hway

end Host
end XioFlow.Gateway
