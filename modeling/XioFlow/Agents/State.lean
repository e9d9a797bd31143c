/-
  XioFlow.Agents.State

  Agents as the runtime sees them, and the JSON data they carry.
-/

import XioFlow.Json

namespace XioFlow.Agents

structure AgentWorkspace where
  txId : String
  forkRoot : String
  deriving DecidableEq

inductive AgentStatus where
  | ready | checking | running | recovering | waiting | paused | completed | failed | interrupted
  deriving DecidableEq, Repr

structure AgentState where
  id : String
  runId : String
  parentId : Option String
  input : Json
  checkpoint : Json
  workspace : Option AgentWorkspace
  status : AgentStatus
  maxSteps : Nat
  stepsUsed : Nat
  pauseRequested : Bool
  reason : Option String
  error : Option String
  /-- version sampled around the last dispatch: absent before the first one, or null -/
  validatedWorkspaceVersion : Option (Option String) := none
  deriving DecidableEq

/-- What a step returns; the status is text because the runtime checks it. -/
structure AgentStepResult where
  status : String
  checkpoint : JsValue

def dataError : String := "Agent input/checkpoint must be JSON data without non-finite numbers"

mutual

/-- `JSON.parse(JSON.stringify(value, …))` with a replacer that throws on what JSON cannot carry. -/
def data : JsValue → Except String Json
  | .null => .ok .null
  | .bool b => .ok (.bool b)
  | .str s => .ok (.str s)
  | .num (.finite q) => .ok (.num q)
  | .num .negZero => .ok (.num 0)
  | .arr items => do return .arr (← dataItems items)
  | .obj entries | .exotic entries => do return .obj (← dataEntries entries)
  | .num .nonFinite | .undefined | .bigint _ | .callable => .error dataError

def dataItems : List JsValue → Except String (List Json)
  | [] => .ok []
  | item :: items => do
    let value ← data item
    let rest ← dataItems items
    return value :: rest

def dataEntries : List (String × JsValue) → Except String (List (String × Json))
  | [] => .ok []
  | (key, item) :: entries => do
    let value ← data item
    let rest ← dataEntries entries
    return (key, value) :: rest

end

end XioFlow.Agents
