/-
  XioFlow.Mcp.Cancellation

  Which operation or dispatch a `notifications/cancelled` message reaches.

  The server keeps its bindings under the string form of a request's id, and
  binds an operation id whether the request starts the operation, joins it or
  is refused.  From the arrival of a request up to the first wait of
  `executeProcess` nothing else runs, so an arrival is one step.
-/

import XioFlow.Lib.NumberText
import XioFlow.Lib.Transition

namespace XioFlow.Mcp

open Lib Lib.JsonText

/-! ## Ids -/

/-- A JSON-RPC id as `JSON.parse` gives it; a numeral that is out of range is infinite. -/
inductive JsonRpcId where
  | string (s : Utf16)
  | number (d : Binary64)
  | infinite (negative : Bool)

namespace JsonRpcId

/-- `String(id)` -/
def text : JsonRpcId → Utf16
  | string s => s
  | number d => numberText d
  | infinite negative => Utf16.ofChars (if negative then "-Infinity" else "Infinity").toList

/-- The same JSON value. -/
def Same : JsonRpcId → JsonRpcId → Prop
  | string s, string t => s = t
  | number a, number b => a.value = b.value
  | infinite a, infinite b => a = b
  | _, _ => False

end JsonRpcId

/-- `params.requestId`, which may be anything; `other` has the text of a value that is no id. -/
inductive CancelTarget where
  | id (id : JsonRpcId)
  | other (text : Utf16)

def CancelTarget.text : CancelTarget → Utf16
  | id v => v.text
  | other text => text

/-! ## The server -/

/-- What a request asks for. -/
inductive ToolCall where
  /-- `execute` with well-formed arguments -/
  | execute
  /-- `starts`: nothing is recorded under the id and the operation is admitted -/
  | runCommand (opId : String) (starts : Bool)
  /-- another tool, which binds nothing -/
  | otherTool
  /-- no tool call, or one that is refused before the tool runs -/
  | plain

/-- What the map holds for an id: an operation id, or the controller of a dispatch. -/
inductive Binding where
  | operation (opId : String)
  | controller (serial : Nat)
  deriving DecidableEq

/-- A request in flight; `serial` tells requests apart, a notification has no id. -/
structure McpRequest where
  serial : Nat
  id : Option JsonRpcId
  call : ToolCall

def McpRequest.key (r : McpRequest) : Option Utf16 := r.id.map JsonRpcId.text

/-- What the request puts into the map. -/
def McpRequest.binding (r : McpRequest) : Option Binding :=
  match r.call with
  | .execute => some (.controller r.serial)
  | .runCommand opId _ => some (.operation opId)
  | .otherTool | .plain => none

/-- An entry of the supervisor's `activeOperations`, with the request that started it, if any. -/
structure RunningOperation where
  opId : String
  startedBy : Option Nat
  cancelRequested : Bool := false

structure McpServer where
  inFlight : Utf16 → Option Binding := fun _ => none
  requests : List McpRequest := []
  nextSerial : Nat := 0
  operations : List RunningOperation := []
  /-- the dispatches whose controller was aborted -/
  aborted : List Nat := []

inductive McpEvent where
  | request (id : Option JsonRpcId) (call : ToolCall)
  /-- the last statements of the handler of a request, and its response -/
  | finished (serial : Nat)
  | cancelled (target : CancelTarget)
  /-- another caller of the supervisor starts an operation -/
  | operationStarted (opId : String)
  | operationEnded (opId : String)

namespace McpServer

def setInFlight (s : McpServer) (key : Option Utf16) (b : Option Binding) : McpServer :=
  match key with
  | none => s
  | some key => { s with inFlight := fun k => if k = key then b else s.inFlight k }

def active? (s : McpServer) (opId : String) : Option RunningOperation :=
  s.operations.find? fun op => op.opId == opId

/-- `trackOperation`; an id that is active is joined, or the call is refused. -/
def trackOperation (s : McpServer) (opId : String) (startedBy : Option Nat) : McpServer :=
  match s.active? opId with
  | some _ => s
  | none => { s with operations := s.operations ++ [{ opId, startedBy }] }

/-- `callTool` up to its first wait. -/
def begin (s : McpServer) (r : McpRequest) : McpServer :=
  match r.call with
  | .execute => s.setInFlight r.key (some (.controller r.serial))
  | .runCommand opId starts =>
    let s := s.setInFlight r.key (some (.operation opId))
    if starts then s.trackOperation opId (some r.serial) else s
  | .otherTool | .plain => s

/-- The `finally` blocks of `callTool`. -/
def release (s : McpServer) (r : McpRequest) : McpServer :=
  match r.call with
  | .execute =>
    if r.key.bind s.inFlight = some (.controller r.serial) then s.setInFlight r.key none else s
  | .runCommand _ _ | .otherTool => s.setInFlight r.key none
  | .plain => s

end McpServer

/-- What a cancellation does. -/
inductive CancelEffect where
  /-- `cancelOperation` on an operation that is active -/
  | stop (op : RunningOperation)
  | abort (serial : Nat)

/-- The request that started what is stopped. -/
def CancelEffect.startedBy : CancelEffect → Option Nat
  | stop op => op.startedBy
  | abort serial => some serial

namespace McpServer

/-- The branch for `notifications/cancelled`; an operation that is not active is left alone. -/
def cancelEffect (s : McpServer) (target : CancelTarget) : Option CancelEffect :=
  match s.inFlight target.text with
  | some (.controller serial) => some (.abort serial)
  | some (.operation opId) => (s.active? opId).map .stop
  | none => none

def cancel (s : McpServer) : CancelEffect → McpServer
  | .stop op =>
    { s with operations := s.operations.map fun other =>
        if other.opId = op.opId then { other with cancelRequested := true } else other }
  | .abort serial => { s with aborted := serial :: s.aborted }

def after (e : McpEvent) (s : McpServer) : McpServer :=
  match e with
  | .request id call =>
    let r : McpRequest := ⟨s.nextSerial, id, call⟩
    { s with requests := s.requests ++ [r], nextSerial := s.nextSerial + 1 }.begin r
  | .finished serial =>
    match s.requests.find? fun r => r.serial == serial with
    | none => s
    | some r => { s.release r with requests := s.requests.filter fun q => q.serial != serial }
  | .cancelled target =>
    match s.cancelEffect target with
    | none => s
    | some effect => s.cancel effect
  | .operationStarted opId => s.trackOperation opId none
  | .operationEnded opId => { s with operations := s.operations.filter fun op => op.opId != opId }

/-! ## What is claimed -/

/-- The message names the request. -/
def Names (target : CancelTarget) (r : McpRequest) : Prop :=
  ∃ v w, target = .id v ∧ r.id = some w ∧ v.Same w

/-- A cancellation affects only what the request it names has started, a request that finishes
    takes no other request's binding. -/
def ReachesItsRequest (s : McpServer) : McpEvent → Prop
  | .cancelled target => ∀ effect, s.cancelEffect target = some effect →
    ∃ r ∈ s.requests, Names target r ∧ effect.startedBy = some r.serial
  | .finished serial => ∀ q ∈ s.requests, q.serial ≠ serial → ∀ key b, q.key = some key →
    q.binding = some b → s.inFlight key = some b →
      (s.after (.finished serial)).inFlight key = some b
  | _ => True

/-- No request in flight has the same JSON value as its id. -/
def UniqueId (s : McpServer) : McpEvent → Prop
  | .request id _ => ∀ v, id = some v → ∀ q ∈ s.requests, ∀ w, q.id = some w → ¬ v.Same w
  | _ => True

/-! ## When it is so -/

/-- Ids with one string form are the same; and what runs under the operation id of a request that
    is cancelled was started by it, not joined. -/
def Unmixed (s : McpServer) : McpEvent → Prop
  | .request id _ => ∀ v, id = some v → ∀ q ∈ s.requests, ∀ w, q.id = some w →
    v.text = w.text → v.Same w
  | .cancelled target => ∀ q ∈ s.requests, q.key = some target.text → Names target q ∧
    ∀ opId starts, q.call = .runCommand opId starts →
      ∀ op, s.active? opId = some op → op.startedBy = some q.serial
  | _ => True

/-- The bindings are those of requests in flight, whose ids have different string forms. -/
structure Sound (s : McpServer) : Prop where
  below : ∀ r ∈ s.requests, r.serial < s.nextSerial
  apart : ∀ r ∈ s.requests, ∀ q ∈ s.requests, ∀ key, r.key = some key → q.key = some key →
    r.serial = q.serial
  same : ∀ r ∈ s.requests, ∀ q ∈ s.requests, r.serial = q.serial → r = q
  bound : ∀ key b, s.inFlight key = some b → ∃ r ∈ s.requests, r.key = some key ∧
    r.binding = some b

theorem sound_start : ({} : McpServer).Sound where
  below := by
    intro r hr
    cases hr
  apart := by
    intro r hr
    cases hr
  same := by
    intro r hr
    cases hr
  bound := by
    intro key b h
    cases h

/-! ## What the steps leave alone -/

section

variable (s : McpServer)

theorem setInFlight_requests (key : Option Utf16) (b : Option Binding) :
    (s.setInFlight key b).requests = s.requests ∧
      (s.setInFlight key b).nextSerial = s.nextSerial := by
  cases key with
  | none | some => exact ⟨rfl, rfl⟩

theorem setInFlight_same (key : Utf16) (b : Option Binding) :
    (s.setInFlight (some key) b).inFlight key = b := if_pos rfl

theorem setInFlight_other {key : Option Utf16} {k : Utf16} (b : Option Binding)
    (h : key ≠ some k) : (s.setInFlight key b).inFlight k = s.inFlight k := by
  cases key with
  | none => rfl
  | some => exact if_neg fun heq => h (congrArg some heq.symm)

theorem trackOperation_requests (opId : String) (startedBy : Option Nat) :
    (s.trackOperation opId startedBy).requests = s.requests ∧
      (s.trackOperation opId startedBy).nextSerial = s.nextSerial ∧
      (s.trackOperation opId startedBy).inFlight = s.inFlight := by
  unfold trackOperation
  cases s.active? opId with
  | none | some => exact ⟨rfl, rfl, rfl⟩

theorem cancel_requests (effect : CancelEffect) :
    (s.cancel effect).requests = s.requests ∧ (s.cancel effect).nextSerial = s.nextSerial ∧
      (s.cancel effect).inFlight = s.inFlight := by
  cases effect with
  | stop | abort => exact ⟨rfl, rfl, rfl⟩

/-- A request that begins puts its own binding under its own key. -/
theorem begin_spec (r : McpRequest) :
    (s.begin r).requests = s.requests ∧ (s.begin r).nextSerial = s.nextSerial ∧
      ∀ key b, (s.begin r).inFlight key = some b →
        (r.key = some key ∧ r.binding = some b) ∨ s.inFlight key = some b := by
  have hset : ∀ (binding : Binding), r.binding = some binding → ∀ key b,
      (s.setInFlight r.key (some binding)).inFlight key = some b →
        (r.key = some key ∧ r.binding = some b) ∨ s.inFlight key = some b := by
    intro binding hbinding key b h
    by_cases hkey : r.key = some key
    · rw [hkey, setInFlight_same] at h
      exact .inl ⟨hkey, hbinding.trans h⟩
    · rw [setInFlight_other s _ hkey] at h
      exact .inr h
  unfold begin
  cases hcall : r.call with
  | execute =>
    have hbinding : r.binding = some (.controller r.serial) := by rw [McpRequest.binding, hcall]
    obtain ⟨hrequests, hserial⟩ := s.setInFlight_requests r.key (some (.controller r.serial))
    exact ⟨hrequests, hserial, hset _ hbinding⟩
  | runCommand opId starts =>
    have hbinding : r.binding = some (.operation opId) := by rw [McpRequest.binding, hcall]
    obtain ⟨hrequests, hserial⟩ := s.setInFlight_requests r.key (some (.operation opId))
    cases starts with
    | false => exact ⟨hrequests, hserial, hset _ hbinding⟩
    | true =>
      obtain ⟨hrequests', hserial', hmap⟩ :=
        (s.setInFlight r.key (some (.operation opId))).trackOperation_requests opId
          (some r.serial)
      refine ⟨hrequests'.trans hrequests, hserial'.trans hserial, fun key b h => ?_⟩
      refine hset _ hbinding key b ?_
      rw [← hmap]
      exact h
  | otherTool | plain => exact ⟨rfl, rfl, fun _ _ h => .inr h⟩

end

variable {s : McpServer} {e : McpEvent}

/-- A request that finishes touches no key but its own, and leaves nothing of its own. -/
theorem release_spec (hs : s.Sound) {r : McpRequest} (hr : r ∈ s.requests) :
    (∀ key, r.key ≠ some key → (s.release r).inFlight key = s.inFlight key) ∧
      (∀ key, r.key = some key → (s.release r).inFlight key = none) := by
  -- Under the key of a request there is only its own binding.
  have hown : ∀ key b, r.key = some key → s.inFlight key = some b → r.binding = some b := by
    intro key b hkey hb
    obtain ⟨q, hq, hqkey, hqb⟩ := hs.bound key b hb
    have hsame : q = r := hs.same q hq r hr (hs.apart q hq r hr key hqkey hkey)
    exact hsame ▸ hqb
  have hcleared : ∀ key, r.key = some key → (s.setInFlight r.key none).inFlight key = none := by
    intro key hkey
    rw [hkey]
    exact s.setInFlight_same key none
  unfold release
  cases hcall : r.call with
  | execute =>
    have hbinding : r.binding = some (.controller r.serial) := by rw [McpRequest.binding, hcall]
    by_cases hown' : r.key.bind s.inFlight = some (.controller r.serial)
    · simp only [if_pos hown']
      exact ⟨fun key hkey => s.setInFlight_other none hkey, hcleared⟩
    · simp only [if_neg hown']
      refine ⟨fun _ _ => trivial, fun key hkey => ?_⟩
      cases hb : s.inFlight key with
      | none => rfl
      | some b =>
        have hsame := (hown key b hkey hb).symm.trans hbinding
        refine absurd ?_ hown'
        rw [hkey, Option.bind_some, hb, hsame]
  | runCommand | otherTool => exact ⟨fun key hkey => s.setInFlight_other none hkey, hcleared⟩
  | plain =>
    refine ⟨fun _ _ => rfl, fun key hkey => ?_⟩
    cases hb : s.inFlight key with
    | none => rfl
    | some b =>
      have hnone : r.binding = none := by rw [McpRequest.binding, hcall]
      rw [hnone] at hown
      cases hown key b hkey hb

theorem release_requests (s : McpServer) (r : McpRequest) :
    (s.release r).nextSerial = s.nextSerial := by
  unfold release
  cases r.call with
  | execute =>
    by_cases hown : r.key.bind s.inFlight = some (.controller r.serial)
    · simp only [if_pos hown]
      exact (s.setInFlight_requests r.key none).2
    · simp only [if_neg hown]
  | runCommand | otherTool => exact (s.setInFlight_requests r.key none).2
  | plain => rfl

/-! ## Steps -/

theorem Sound.congr {s' : McpServer} (hs : s.Sound) (hrequests : s'.requests = s.requests)
    (hserial : s'.nextSerial = s.nextSerial) (hmap : s'.inFlight = s.inFlight) : s'.Sound where
  below := by
    rw [hrequests, hserial]
    exact hs.below
  apart := by
    rw [hrequests]
    exact hs.apart
  same := by
    rw [hrequests]
    exact hs.same
  bound := by
    rw [hrequests, hmap]
    exact hs.bound

theorem Sound.request (hs : s.Sound) (id : Option JsonRpcId) (call : ToolCall)
    (hunique : s.UniqueId (.request id call)) (hunmixed : s.Unmixed (.request id call)) :
    (s.after (.request id call)).Sound := by
  obtain ⟨hrequests, hserial, hmap⟩ := begin_spec
    { s with requests := s.requests ++ [⟨s.nextSerial, id, call⟩], nextSerial := s.nextSerial + 1 }
    ⟨s.nextSerial, id, call⟩
  have hlist : (s.after (.request id call)).requests =
      s.requests ++ [⟨s.nextSerial, id, call⟩] := hrequests
  -- The key of the new request is that of no other.
  have hfresh : ∀ q ∈ s.requests, ∀ key, id.map JsonRpcId.text = some key → q.key ≠ some key := by
    intro q hq key hkey hqkey
    obtain ⟨v, hv, hvtext⟩ := Option.map_eq_some_iff.1 hkey
    obtain ⟨w, hw, hwtext⟩ := Option.map_eq_some_iff.1 hqkey
    exact hunique v hv q hq w hw (hunmixed v hv q hq w hw (hvtext.trans hwtext.symm))
  have hmem : ∀ q, q ∈ (s.after (.request id call)).requests →
      q ∈ s.requests ∨ q = ⟨s.nextSerial, id, call⟩ := by
    intro q hq
    rw [hlist] at hq
    rcases List.mem_append.1 hq with hold | hnew
    · exact .inl hold
    · exact .inr (List.mem_singleton.1 hnew)
  refine ⟨?_, ?_, ?_, ?_⟩
  · intro r hr
    have hnext : (s.after (.request id call)).nextSerial = s.nextSerial + 1 := hserial
    rw [hnext]
    rcases hmem r hr with hold | rfl
    · exact Nat.lt_succ_of_lt (hs.below r hold)
    · exact Nat.lt_succ_self _
  · intro r hr q hq key hrkey hqkey
    rcases hmem r hr with hrold | rfl
    · rcases hmem q hq with hqold | rfl
      · exact hs.apart r hrold q hqold key hrkey hqkey
      · exact absurd hrkey (hfresh r hrold key hqkey)
    · rcases hmem q hq with hqold | rfl
      · exact absurd hqkey (hfresh q hqold key hrkey)
      · rfl
  · intro r hr q hq hsame
    rcases hmem r hr with hrold | rfl
    · rcases hmem q hq with hqold | rfl
      · exact hs.same r hrold q hqold hsame
      · exact absurd hsame (Nat.ne_of_lt (hs.below r hrold))
    · rcases hmem q hq with hqold | rfl
      · exact absurd hsame.symm (Nat.ne_of_lt (hs.below q hqold))
      · rfl
  · intro key b hb
    have hlast : (⟨s.nextSerial, id, call⟩ : McpRequest) ∈ (s.after (.request id call)).requests := by
      rw [hlist]
      exact List.mem_append_right _ (List.mem_singleton.2 rfl)
    rcases hmap key b hb with ⟨hkey, hbinding⟩ | hold
    · exact ⟨_, hlast, hkey, hbinding⟩
    · obtain ⟨q, hq, hqkey, hqb⟩ := hs.bound key b hold
      refine ⟨q, ?_, hqkey, hqb⟩
      rw [hlist]
      exact List.mem_append_left _ hq

theorem after_finished_gone {serial : Nat}
    (hr : (s.requests.find? fun r => r.serial == serial) = none) : s.after (.finished serial) = s := by
  show (match s.requests.find? fun r => r.serial == serial with
    | none => s
    | some r => _) = s
  rw [hr]

theorem after_finished {serial : Nat} {r : McpRequest}
    (hr : (s.requests.find? fun r => r.serial == serial) = some r) :
    s.after (.finished serial) =
      { s.release r with requests := s.requests.filter fun q => q.serial != serial } := by
  show (match s.requests.find? fun r => r.serial == serial with
    | none => s
    | some r => { s.release r with requests := s.requests.filter fun q => q.serial != serial }) = _
  rw [hr]

theorem Sound.finished (hs : s.Sound) (serial : Nat) : (s.after (.finished serial)).Sound := by
  cases hfind : s.requests.find? fun r => r.serial == serial with
  | none =>
    rw [after_finished_gone hfind]
    exact hs
  | some r =>
    have hr := List.mem_of_find?_eq_some hfind
    have hserial : r.serial = serial := by simpa using List.find?_some hfind
    obtain ⟨hother, hcleared⟩ := release_spec hs hr
    rw [after_finished hfind]
    have hsub : ∀ q ∈ s.requests.filter (fun q => q.serial != serial), q ∈ s.requests :=
      fun q hq => (List.mem_filter.1 hq).1
    refine ⟨?_, ?_, ?_, ?_⟩
    · intro q hq
      show q.serial < (s.release r).nextSerial
      rw [release_requests]
      exact hs.below q (hsub q hq)
    · exact fun q hq q' hq' => hs.apart q (hsub q hq) q' (hsub q' hq')
    · exact fun q hq q' hq' => hs.same q (hsub q hq) q' (hsub q' hq')
    · intro key b hb
      have hb' : (s.release r).inFlight key = some b := hb
      by_cases hkey : r.key = some key
      · rw [hcleared key hkey] at hb'
        cases hb'
      · rw [hother key hkey] at hb'
        obtain ⟨q, hq, hqkey, hqb⟩ := hs.bound key b hb'
        refine ⟨q, List.mem_filter.2 ⟨hq, ?_⟩, hqkey, hqb⟩
        have hne : q.serial ≠ serial := by
          intro heq
          have hqr := hs.same q hq r hr (heq.trans hserial.symm)
          exact hkey (hqr ▸ hqkey)
        exact bne_iff_ne.2 hne

theorem Sound.after (hs : s.Sound) (hunique : s.UniqueId e) (hunmixed : s.Unmixed e) :
    (s.after e).Sound := by
  cases e with
  | request id call => exact hs.request id call hunique hunmixed
  | finished serial => exact hs.finished serial
  | cancelled target =>
    cases heffect : s.cancelEffect target with
    | none =>
      have hsame : s.after (.cancelled target) = s := by
        show (match s.cancelEffect target with
          | none => s
          | some effect => s.cancel effect) = s
        rw [heffect]
      rw [hsame]
      exact hs
    | some effect =>
      have hsame : s.after (.cancelled target) = s.cancel effect := by
        show (match s.cancelEffect target with
          | none => s
          | some effect => s.cancel effect) = _
        rw [heffect]
      obtain ⟨hrequests, hserial, hmap⟩ := s.cancel_requests effect
      rw [hsame]
      exact hs.congr hrequests hserial hmap
  | operationStarted opId =>
    obtain ⟨hrequests, hserial, hmap⟩ := s.trackOperation_requests opId none
    exact hs.congr hrequests hserial hmap
  | operationEnded => exact hs.congr rfl rfl rfl

theorem cancelEffect_of_operation {target : CancelTarget} {opId : String} {op : RunningOperation}
    (h : s.inFlight target.text = some (.operation opId)) (hop : s.active? opId = some op) :
    s.cancelEffect target = some (.stop op) := by
  unfold cancelEffect
  rw [h]
  simp only [hop, Option.map_some]

theorem Sound.reachesItsRequest (hs : s.Sound) (hunmixed : s.Unmixed e) :
    s.ReachesItsRequest e := by
  cases e with
  | request | operationStarted | operationEnded => trivial
  | finished serial =>
    intro q hq hne key b hqkey hqb hb
    cases hfind : s.requests.find? fun r => r.serial == serial with
    | none =>
      rw [after_finished_gone hfind]
      exact hb
    | some r =>
      have hr := List.mem_of_find?_eq_some hfind
      have hserial : r.serial = serial := by simpa using List.find?_some hfind
      have hkey : r.key ≠ some key := by
        intro hrkey
        exact hne ((hs.apart q hq r hr key hqkey hrkey).trans hserial)
      rw [after_finished hfind]
      exact ((release_spec hs hr).1 key hkey).trans hb
  | cancelled target =>
    intro effect heffect
    unfold cancelEffect at heffect
    cases hb : s.inFlight target.text with
    | none =>
      rw [hb] at heffect
      cases heffect
    | some b =>
      rw [hb] at heffect
      obtain ⟨r, hr, hkey, hbinding⟩ := hs.bound _ b hb
      obtain ⟨hnames, hstarted⟩ := hunmixed r hr hkey
      refine ⟨r, hr, hnames, ?_⟩
      cases hcall : r.call with
      | execute =>
        rw [McpRequest.binding, hcall] at hbinding
        cases hbinding
        cases heffect
        rfl
      | runCommand opId starts =>
        rw [McpRequest.binding, hcall] at hbinding
        cases hbinding
        obtain ⟨op, hop, rfl⟩ := Option.map_eq_some_iff.1 heffect
        exact hstarted opId starts hcall op hop
      | otherTool | plain =>
        rw [McpRequest.binding, hcall] at hbinding
        cases hbinding

/-- In every run in which ids with one string form are not mixed and no joined operation is
    cancelled, cancellations reach exactly their request. -/
theorem cancellations_reach_their_request (events : List McpEvent)
    (hunique : Along McpServer.after UniqueId {} events)
    (hunmixed : Along McpServer.after Unmixed {} events) :
    Along McpServer.after ReachesItsRequest {} events := by
  have hboth : Along McpServer.after (fun s e => UniqueId s e ∧ Unmixed s e) {} events := by
    rw [along_iff] at hunique hunmixed ⊢
    exact fun pre e post heq => ⟨hunique pre e post heq, hunmixed pre e post heq⟩
  exact hboth.imp (fun s e hs h => ⟨hs.reachesItsRequest h.2, hs.after h.1 h.2⟩) sound_start

/-! ## The id 1 and the id "1" -/

def one : Binary64 := Binary64.ofInt 1

/-- Two requests, with the number and with its text, run a command each. -/
def numberAndText : List McpEvent :=
  [.request (some (.number one)) (.runCommand "a" true),
    .request (some (.string (numberText one))) (.runCommand "b" true)]

/-- Two requests run a command under one operation id; the second joins. -/
def joined : List McpEvent :=
  [.request (some (.string (units "x"))) (.runCommand "a" true),
    .request (some (.string (units "y"))) (.runCommand "a" true)]

/-- A command, and a request with the text of its id for another tool. -/
def numberAndTool : List McpEvent :=
  [.request (some (.number one)) (.runCommand "a" true),
    .request (some (.string (numberText one))) .otherTool]

theorem numberAndText_astray :
    ¬ ReachesItsRequest (afterAll McpServer.after {} numberAndText) (.cancelled (.id (.number one))) := by
  intro h
  have hmap : (afterAll McpServer.after {} numberAndText).inFlight (numberText one) =
      some (.operation "b") := if_pos rfl
  obtain ⟨r, hr, ⟨v, w, hv, hw, hsame⟩, hstarted⟩ :=
    h (.stop ⟨"b", some 1, false⟩) (cancelEffect_of_operation hmap rfl)
  cases hv
  rcases List.mem_pair.1 hr with rfl | rfl
  · cases hstarted
  · cases hw
    exact hsame.elim

theorem joined_astray : ¬ ReachesItsRequest (afterAll McpServer.after {} joined)
    (.cancelled (.id (.string (units "y")))) := by
  intro h
  have hmap : (afterAll McpServer.after {} joined).inFlight (units "y") = some (.operation "a") := by
    decide
  obtain ⟨r, hr, ⟨v, w, hv, hw, hsame⟩, hstarted⟩ :=
    h (.stop ⟨"a", some 0, false⟩) (cancelEffect_of_operation hmap rfl)
  cases hv
  rcases List.mem_pair.1 hr with rfl | rfl
  · cases hw
    exact absurd hsame (by decide : units "y" ≠ units "x")
  · cases hstarted

theorem numberAndTool_astray :
    ¬ ReachesItsRequest (afterAll McpServer.after {} numberAndTool) (.finished 1) := by
  intro h
  have hkept := h ⟨0, some (.number one), .runCommand "a" true⟩ (.head _) (by decide)
    (numberText one) (.operation "a") rfl rfl (if_pos rfl)
  have hgone : (McpServer.after (.finished 1) (afterAll McpServer.after {} numberAndTool)).inFlight
      (numberText one) = none := if_pos rfl
  rw [hgone] at hkept
  cases hkept

/-- A second request whose id is another JSON value than that of the first. -/
theorem unique_pair {a b : JsonRpcId} {call call' : ToolCall} (h : ¬ b.Same a)
    (he : ∀ s, UniqueId s e) :
    Along McpServer.after UniqueId {} [.request (some a) call, .request (some b) call', e] := by
  refine ⟨?_, ?_, he _, trivial⟩
  · intro v hv q hq
    cases hq
  · rintro v ⟨⟩ q hq w hw
    have hlist : (({} : McpServer).after (.request (some a) call)).requests =
        [⟨0, some a, call⟩] := (begin_spec _ _).1
    rw [hlist] at hq
    cases List.mem_singleton.1 hq
    cases hw
    exact h

/-- The ids are unique.  But the cancellation of 1 stops the command of "1"; the cancellation of
    the request that joined stops the command of the other; and the end of "1" takes the binding
    of 1. -/
theorem cancellation_astray :
    (Along McpServer.after UniqueId {} (numberAndText ++ [.cancelled (.id (.number one))]) ∧
      ¬ Along McpServer.after ReachesItsRequest {}
        (numberAndText ++ [.cancelled (.id (.number one))])) ∧
    (Along McpServer.after UniqueId {} (joined ++ [.cancelled (.id (.string (units "y")))]) ∧
      ¬ Along McpServer.after ReachesItsRequest {}
        (joined ++ [.cancelled (.id (.string (units "y")))])) ∧
    (Along McpServer.after UniqueId {} (numberAndTool ++ [.finished 1]) ∧
      ¬ Along McpServer.after ReachesItsRequest {} (numberAndTool ++ [.finished 1])) := by
  have htyped : ¬ (JsonRpcId.string (numberText one)).Same (.number one) := fun h => h
  have hnamed : ¬ (JsonRpcId.string (units "y")).Same (.string (units "x")) := by
    show units "y" ≠ units "x"
    decide
  refine ⟨⟨unique_pair htyped fun _ => trivial, fun h => ?_⟩,
    ⟨unique_pair hnamed fun _ => trivial, fun h => ?_⟩,
    ⟨unique_pair htyped fun _ => trivial, fun h => ?_⟩⟩
  · exact numberAndText_astray (along_append.1 h).2.1
  · exact joined_astray (along_append.1 h).2.1
  · exact numberAndTool_astray (along_append.1 h).2.1

/-- Two commands under two ids; the first is cancelled and ends. -/
def apart : List McpEvent :=
  [.request (some (.string (units "x"))) (.runCommand "a" true),
    .request (some (.string (units "y"))) (.runCommand "b" true),
    .cancelled (.id (.string (units "x"))), .operationEnded "a", .finished 0]

theorem apart_reached : Along McpServer.after ReachesItsRequest {} apart := by
  have hnames : units "y" ≠ units "x" := by decide
  refine cancellations_reach_their_request apart ?_ ?_
  · refine ⟨?_, ?_, trivial, trivial, trivial, trivial⟩
    · intro v hv q hq
      cases hq
    · rintro v ⟨⟩ q hq w hw
      cases List.mem_singleton.1 hq
      cases hw
      exact hnames
  · refine ⟨?_, ?_, ?_, trivial, trivial, trivial⟩
    · intro v hv q hq
      cases hq
    · rintro v ⟨⟩ q hq w hw htext
      cases List.mem_singleton.1 hq
      cases hw
      exact absurd htext hnames
    · intro q hq hkey
      rcases List.mem_pair.1 hq with rfl | rfl
      · refine ⟨⟨_, _, rfl, rfl, rfl⟩, ?_⟩
        rintro opId starts ⟨⟩ op hop
        have hactive : active? (afterAll McpServer.after {} [
            .request (some (.string (units "x"))) (.runCommand "a" true),
            .request (some (.string (units "y"))) (.runCommand "b" true)]) "a" =
              some ⟨"a", some 0, false⟩ := rfl
        cases hactive.symm.trans hop
        rfl
      · exact absurd (Option.some.inj hkey) hnames

end McpServer

end XioFlow.Mcp
