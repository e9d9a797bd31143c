/-
  XioFlow.Gateway.InFlightTool

  The wire proxy's record of the tool call in flight: one slot in a file,
  written when a response issues a call and when a shell execution starts,
  cleared when the execution ends or the call is reported back.

  The host may crash at any step.  What the file names then is found at the
  next start and told to the model with the first main request.
-/

import XioFlow.Lib.Transition

namespace XioFlow.Gateway

open Lib

structure ToolCall where
  id : String
  name : String
  deriving DecidableEq

structure InterruptedToolRecord where
  callId : String
  name : String
  reapedByWatchdog : Bool := false
  deriving DecidableEq

/-- The content of `gateway-state.json`. -/
structure GatewayState where
  inFlightToolCall : Option InterruptedToolRecord := none
  interruptedToolCall : Option InterruptedToolRecord := none
  deriving DecidableEq

/-- `readGatewayInterruptedTool`. -/
def GatewayState.interrupted (file : GatewayState) : Option InterruptedToolRecord :=
  file.interruptedToolCall <|> file.inFlightToolCall

/-- `markInterruptedIfNeeded`: what the watchdog makes of the file of a host that is gone. -/
def GatewayState.mark (file : GatewayState) : GatewayState :=
  match file.inFlightToolCall, file.interruptedToolCall with
  | some call, none => {
      inFlightToolCall := none
      interruptedToolCall := some { call with reapedByWatchdog := true } }
  | _, _ => file

/-- What the account of an interrupted call tells the model. -/
def recoveryNotice (interrupted : InterruptedToolRecord) : String :=
  s!"[xioflow kernel recovery] Tool call \"{interrupted.name}\" ({interrupted.callId}) was " ++
    "interrupted by crash (SIGKILL): outcome indeterminate; leftover orphan process was reaped " ++
    "by xioflow kernel; inspect workspace before retrying."

/-- A shell execution in progress, with the call it serves. -/
structure ShellExecution where
  id : Nat
  serves : String
  deriving DecidableEq

/-- The host, its file, and what happened so far: the calls the model issued, those whose
    execution completed, those reported back; and of this start of the host the record it found,
    the requests that carried its account, and those answered with a 2xx response. -/
structure Host where
  file : GatewayState := {}
  up : Bool := false
  activeToolCall : Option ToolCall := none
  pendingInterrupted : Option InterruptedToolRecord := none
  requests : Nat := 0
  mainRequests : Nat := 0
  waiting : List Nat := []
  running : List ShellExecution := []
  issued : List String := []
  completed : List String := []
  reported : List String := []
  found : Option InterruptedToolRecord := none
  carried : List (Nat × String) := []
  answered : List Nat := []

/-- What happens.  A response is the upstream's, with its status, or one from the cache. -/
inductive HostEvent where
  | started
  | received
  | mainRequest (toolResults : List String)
  | responded (request : Nat) (ok : Bool) (toolCalls : List ToolCall)
  | requestFailed (request : Nat)
  | execStarted (execution : Nat) (serves : String)
  | execFinished (execution : Nat)
  | execThrew (execution : Nat)
  | exited
  | crashed
  | watchdog

namespace Host

variable (h : Host)

/-- `writeGatewayInFlightTool`. -/
def write (inFlight : Option InterruptedToolRecord) : Host :=
  { h with file := { inFlightToolCall := inFlight } }

def recordOf (call : ToolCall) : InterruptedToolRecord where
  callId := call.id
  name := call.name

/-- The active call is among those whose results the request reports. -/
def reports (toolResults : List String) : Bool :=
  match h.activeToolCall with
  | none => false
  | some call => decide (call.id ∈ toolResults)

/-- The start of the host: nothing in memory but what the file tells. -/
def start : Host :=
  { h with
    up := true
    pendingInterrupted := h.file.interrupted
    requests := 0
    mainRequests := 0
    found := h.file.interrupted
    carried := []
    answered := [] }

/-- The call that the request reports is no longer in flight. -/
def clearReported (toolResults : List String) : Host :=
  if h.reports toolResults then { h.write none with activeToolCall := none } else h

/-- The account of the interrupted call goes into the request. -/
def injectAccount : Host :=
  match h.pendingInterrupted with
  | none => h
  | some interrupted =>
    { h.write none with
      pendingInterrupted := none
      carried := h.carried ++ [(h.mainRequests, recoveryNotice interrupted)] }

/-- The request is on its way, and the results it brings are reported. -/
def receive (toolResults : List String) : Host :=
  { h with
    mainRequests := h.mainRequests + 1
    waiting := h.waiting ++ [h.mainRequests + 1]
    reported := h.reported ++ toolResults }

def mainRequest (toolResults : List String) : Host :=
  ((h.receive toolResults).clearReported toolResults).injectAccount

/-- The first call of a response is the active one and the one in the file. -/
def respond (request : Nat) (ok : Bool) (toolCalls : List ToolCall) : Host :=
  let h' := { h with
    activeToolCall := toolCalls.head?
    waiting := h.waiting.filter (· != request)
    issued := h.issued ++ toolCalls.map ToolCall.id
    answered := if ok then h.answered ++ [request] else h.answered }
  match toolCalls.head? with
  | none => h'
  | some firstCall => h'.write (some (recordOf firstCall))

/-- What an execution is put down as: the active call, or a name of its own. -/
def executionCall : ToolCall :=
  h.activeToolCall.getD { id := s!"call_exec_{h.requests + 1}", name := "bash" }

def execStart (execution : Nat) (serves : String) : Host :=
  { h.write (some (recordOf h.executionCall)) with
    running := h.running ++ [{ id := execution, serves }] }

/-- The execution has its result, and nothing is in flight. -/
def execFinish (x : ShellExecution) : Host :=
  { h.write none with
    running := h.running.filter fun y => y.id != x.id
    completed := h.completed ++ [x.serves] }

/-- The host is gone, with all that it held in memory. -/
def stop : Host :=
  { h with
    up := false
    activeToolCall := none
    pendingInterrupted := none
    waiting := []
    running := [] }

def execution? (execution : Nat) : Option ShellExecution :=
  h.running.find? fun x => x.id == execution

/-- What happens while the host is up, while it is down, and otherwise does not. -/
def after : HostEvent → Host → Host
  | .started, h => if h.up then h else h.start
  | .received, h => { h with requests := h.requests + 1 }
  | .mainRequest toolResults, h => if h.up then h.mainRequest toolResults else h
  | .responded request ok toolCalls, h =>
    if request ∈ h.waiting then h.respond request ok toolCalls else h
  | .requestFailed request, h => { h with waiting := h.waiting.filter (· != request) }
  | .execStarted execution serves, h => if h.up then h.execStart execution serves else h
  | .execFinished execution, h =>
    match h.execution? execution with
    | none => h
    | some x => h.execFinish x
  | .execThrew execution, h => { h with running := h.running.filter fun y => y.id != execution }
  | .exited, h => if h.up then (h.write none).stop else h
  | .crashed, h => h.stop
  | .watchdog, h => if h.up then h else { h with file := h.file.mark }

/-- What a restart after a crash in this state finds, with or without the watchdog acting. -/
def wouldFind (watchdog : Bool) : Option InterruptedToolRecord :=
  (if watchdog then h.file.mark else h.file).interrupted

end Host
end XioFlow.Gateway
