/-
  XioFlow.Pipeline.Program

  Pipeline programs as the scheduler reads them, and the checks of
  `validateProgram` on ids and dependencies, on which the scheduler relies.

  The other checks (argument shapes, capability, sizes) only make fewer
  programs acceptable.
-/

import XioFlow.Json
import XioFlow.Lib.DepthFirst
import XioFlow.Lib.Distinct
import XioFlow.Lib.Text

namespace XioFlow.Pipeline

open Lib

/-! ## The registry -/

inductive Resource where
  | ioRead | ioWrite | ioMetadata | ioScan | artifactRead | artifactWrite
  | cpu | memory | pids | output | journalRead | journalWrite
  deriving DecidableEq, Repr

inductive Opcode where
  | fsRead | fsWrite | fsPatch | fsMove | fsDelete | fsStat
  | workspaceSnapshot | workspaceDiff | workspaceCommit | workspaceRollback
  | procSpawn | procWait | procSignal | procInspect
  | observeFiles | observeResources
  | controlStatus | controlHealth | controlCancel | controlResolve | controlResume
  | artifactPut | artifactGet | artifactStream
  deriving DecidableEq, Repr

namespace Opcode

def text : Opcode → String
  | fsRead => "fs.read"
  | fsWrite => "fs.write"
  | fsPatch => "fs.patch"
  | fsMove => "fs.move"
  | fsDelete => "fs.delete"
  | fsStat => "fs.stat"
  | workspaceSnapshot => "workspace.snapshot"
  | workspaceDiff => "workspace.diff"
  | workspaceCommit => "workspace.commit"
  | workspaceRollback => "workspace.rollback"
  | procSpawn => "proc.spawn"
  | procWait => "proc.wait"
  | procSignal => "proc.signal"
  | procInspect => "proc.inspect"
  | observeFiles => "observe.files"
  | observeResources => "observe.resources"
  | controlStatus => "control.status"
  | controlHealth => "control.health"
  | controlCancel => "control.cancel"
  | controlResolve => "control.resolve"
  | controlResume => "control.resume"
  | artifactPut => "artifact.put"
  | artifactGet => "artifact.get"
  | artifactStream => "artifact.stream"

/-- `ISA_V1_REGISTRY[op].resourceCost` -/
def resourceCost : Opcode → List Resource
  | fsRead => [.ioRead, .artifactWrite]
  | fsWrite => [.ioWrite, .artifactRead]
  | fsPatch => [.ioRead, .ioWrite, .artifactRead]
  | fsMove => [.ioMetadata]
  | fsDelete => [.ioWrite, .artifactWrite]
  | fsStat => [.ioMetadata]
  | workspaceSnapshot => [.ioScan, .artifactWrite]
  | workspaceDiff => [.ioScan]
  | workspaceCommit => [.ioScan, .ioWrite, .artifactWrite]
  | workspaceRollback => [.ioScan, .ioWrite]
  | procSpawn => [.cpu, .memory, .pids, .output]
  | procWait => [.cpu, .memory, .pids, .output]
  | procSignal => [.pids]
  | procInspect => [.cpu, .memory, .pids]
  | observeFiles => [.ioScan]
  | observeResources => [.cpu, .memory, .pids, .output]
  | controlStatus => [.journalRead]
  | controlHealth => [.journalRead]
  | controlCancel => [.pids, .journalWrite]
  | controlResolve => [.journalWrite]
  | controlResume => [.journalWrite, .cpu, .memory, .pids]
  | artifactPut => [.ioWrite, .artifactWrite]
  | artifactGet => [.ioRead, .artifactRead]
  | artifactStream => [.ioRead, .artifactRead]

/-- `ISA_V1_REGISTRY[op].idempotency === 'safe'` -/
def safe : Opcode → Bool
  | fsRead | fsStat | workspaceDiff | procWait | procInspect | observeFiles | observeResources
  | controlStatus | controlHealth | artifactGet | artifactStream => true
  | _ => false

/-- The instruction goes through the commit queue of its domain. -/
def commits (op : Opcode) : Bool :=
  op.resourceCost.any fun r => decide (r = .ioWrite ∨ r = .journalWrite)

end Opcode

/-! ## Programs -/

/-- The value under `id`.  Of an array or an object the position of its instruction is kept, since
    the maps of the scheduler compare these by identity. -/
inductive InstructionId where
  | text (s : String)
  | number (n : Rat)
  | bool (b : Bool)
  | null
  | object (position : Nat)
  deriving DecidableEq

inductive InstructionStatus where
  | admitted | succeeded | failed | indeterminate | cancelled | rolledBack | partialDone
  deriving DecidableEq, Repr

inductive Precondition where
  | instructionStatus (instruction : String) (status : InstructionStatus)
  | external (kind : String) (fields : List (String × Json))
  deriving DecidableEq

/-- `rest` holds the arguments and the output, the keys of their objects in canonical order:
    neither the fingerprint nor an executor depends on the order they came in. -/
structure Instruction where
  id : InstructionId
  op : Opcode
  opId : Option String := none
  dependsOn : List String := []
  precondition : List Precondition := []
  rest : List (String × Json) := []
  deriving DecidableEq

structure Program where
  isa : String
  requestId : String
  programId : String
  capability : Option String := none
  workspace : Option String := none
  options : Option Json := none
  instructions : List Instruction
  deriving DecidableEq

/-! ## Validation -/

def asciiLetter (c : Char) : Bool := c.isAlpha
def idChar (c : Char) : Bool := c.isAlphanum || c == '.' || c == '_' || c == ':' || c == '-'

/-- `ID_PATTERN` -/
def idPattern (s : String) : Bool := matchesName asciiLetter idChar 128 s

/-- `OP_ID_PATTERN` -/
def opIdPattern (s : String) : Bool :=
  hasPrefix "op:" s && matchesName Char.isAlphanum idChar 240 (String.ofList (s.toList.drop 3))

inductive IssueCode where
  | invalidValue | duplicateId | duplicateOpId | unknownReference | dependencyCycle
  deriving DecidableEq, Repr

structure ValidationIssue where
  code : IssueCode
  path : String
  message : String
  deriving DecidableEq

def indexText (n : Nat) : String := String.ofList (digitsOf n)

/-- The id under which the validator knows an instruction. -/
def checkedId (index : Nat) : InstructionId → String
  | .text s => if idPattern s then s else "#" ++ indexText index
  | _ => "#" ++ indexText index

def checkedIds (program : Program) : List String :=
  program.instructions.zipIdx.map fun (instruction, index) => checkedId index instruction.id

def instructionPath (index : Nat) : String := "instructions[" ++ indexText index ++ "]"

/-- The checks on the id of an instruction: only a string is checked at all. -/
def idIssues (earlier : List String) (index : Nat) (id : InstructionId) : List ValidationIssue :=
  let path := instructionPath index ++ ".id"
  let pattern := match id with
    | .text s =>
      if idPattern s then []
      else [⟨.invalidValue, path, "does not match the required pattern"⟩]
    | _ => []
  let checked := checkedId index id
  if checked ∈ earlier then
    pattern ++ [⟨.duplicateId, path, "instruction id '" ++ checked ++ "' is duplicated"⟩]
  else pattern

def dependencyIssues (index : Nat) (dependsOn : List String) : List ValidationIssue :=
  let path := instructionPath index ++ ".dependsOn"
  let tooMany := if 64 < dependsOn.length then
      [⟨.invalidValue, path, "must contain at most 64 items"⟩]
    else []
  tooMany ++ dependsOn.zipIdx.flatMap fun (dependency, i) =>
    let itemPath := path ++ "[" ++ indexText i ++ "]"
    if ¬ idPattern dependency then
      [⟨.invalidValue, itemPath, "invalid instruction reference"⟩]
    else if dependency ∈ dependsOn.take i then
      [⟨.invalidValue, itemPath, "duplicate dependency"⟩]
    else []

def opIdIssues (earlier : List String) (index : Nat) (op : Opcode) (opId : Option String) :
    List ValidationIssue :=
  let path := instructionPath index ++ ".opId"
  match opId with
  | some opId =>
    let pattern := if opIdPattern opId then []
      else [⟨.invalidValue, path, "does not match the required pattern"⟩]
    if opId ∈ earlier then
      pattern ++ [⟨.duplicateOpId, path, "opId '" ++ opId ++ "' is duplicated"⟩]
    else pattern
  | none =>
    if op.safe then []
    else [⟨.invalidValue, path, "opcode '" ++ op.text ++ "' requires an opId"⟩]

/-- The checks of one instruction after those before it. -/
def instructionIssues (earlier : List (Instruction × Nat)) (instruction : Instruction)
    (index : Nat) : List ValidationIssue :=
  idIssues (earlier.map fun e => checkedId e.2 e.1.id) index instruction.id ++
    dependencyIssues index instruction.dependsOn ++
    opIdIssues (earlier.filterMap fun e => e.1.opId) index instruction.op instruction.opId

def allInstructionIssues : List (Instruction × Nat) → List (Instruction × Nat) →
    List ValidationIssue
  | _, [] => []
  | earlier, (instruction, index) :: later =>
    instructionIssues earlier instruction index ++
      allInstructionIssues (earlier ++ [(instruction, index)]) later

def referenceIssues (ids : List String) (instruction : Instruction) (index : Nat) :
    List ValidationIssue :=
  (instruction.dependsOn.filter fun d => decide (d ∉ ids)).map fun d =>
    ⟨.unknownReference, instructionPath index ++ ".dependsOn",
      "instruction '" ++ d ++ "' is not declared in this program"⟩

/-- `graph.get(id)`, of which the search follows the entries that are in the graph. -/
def dependenciesIn (program : Program) (id : String) : List String :=
  match program.instructions.zipIdx.reverse.find? fun e => checkedId e.2 e.1.id == id with
  | some (instruction, _) =>
    instruction.dependsOn.filter fun d => decide (d ∈ checkedIds program)
  | none => []

/-- A cycle is reported with the way that closed it. -/
def detectCycles (program : Program) : List ValidationIssue :=
  let nodes := (checkedIds program).eraseDups
  (Dfs.search (dependenciesIn program) nodes).cycles.map fun way =>
    ⟨.dependencyCycle, "instructions." ++ way.getLastD "" ++ ".dependsOn",
      "dependency cycle detected: " ++ " -> ".intercalate way⟩

/-- What `validateProgram` finds on ids and dependencies. -/
def validateProgram (program : Program) : List ValidationIssue :=
  let instructions := program.instructions.zipIdx
  let count :=
    if program.instructions.length = 0 then
      [⟨.invalidValue, "instructions", "must contain at least one instruction"⟩]
    else if 256 < program.instructions.length then
      [⟨.invalidValue, "instructions", "must contain at most 256 instructions"⟩]
    else []
  count ++ allInstructionIssues [] instructions ++
    instructions.flatMap (fun e => referenceIssues (checkedIds program) e.1 e.2) ++
    detectCycles program

def Accepted (program : Program) : Prop := validateProgram program = []

instance (program : Program) : Decidable (Accepted program) :=
  inferInstanceAs (Decidable (_ = _))

end XioFlow.Pipeline
