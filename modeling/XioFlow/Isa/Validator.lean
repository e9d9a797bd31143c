/-
  XioFlow.Isa.Validator

  The capability check of `validateProgram`, and what it leaves open.

  Path arguments are compared with the scope as texts, as they are written.  An
  argument that a pattern matches up to a separator, and that does not climb
  from there, lies where the pattern says.  One that climbs, or is matched
  within a name, may lead anywhere; and the workspace that an instruction takes
  over from its program is not looked at.
-/

import XioFlow.Lib.Place
import XioFlow.Pipeline.Program
import XioFlow.Types

namespace XioFlow.Isa.Validator

open Lib
open Pipeline (Program Instruction Opcode checkedId)

/-! ## The check -/

structure Scope where
  opcodes : List String := []
  workspaces : List String := []
  paths : List String := []
  secrets : List String := []

/-- A capability as a host hands it over; `expiresAt` is what `Date.parse` makes of the text. -/
structure Capability where
  id : String
  policyVersion : String
  reason : String
  scope : Scope
  limits : CapabilityLimits
  expiresAt : Option Timestamp
  epoch : JsNumber

inductive IssueCode where
  | capabilityDenied | capabilityExpired | resourceExceeded
  deriving DecidableEq, Repr

structure ValidationIssue where
  code : IssueCode
  path : String
  message : String
  deriving DecidableEq

/-- What stands before the `**` or `*` that a pattern ends in. -/
def directoryOf? (pattern : List Char) : Option (List Char) :=
  if ['*', '*'].isSuffixOf pattern then some (pattern.take (pattern.length - 2))
  else if ['*'].isSuffixOf pattern then some (pattern.take (pattern.length - 1))
  else none

def matchesPath (pattern value : String) : Bool :=
  if pattern = value then true
  else
    match directoryOf? pattern.toList with
    | some directory => directory.isPrefixOf value.toList
    | none => false

/-- The arguments of an instruction. -/
def argsOf (instruction : Instruction) : Json :=
  (instruction.rest.find? fun e => e.1 == "args").elim .null Prod.snd

def textItems (args : Json) (key : String) : List String :=
  match args.field? key with
  | some (.arr items) => items.filterMap fun item => match item with
    | .str s => some s
    | _ => none
  | _ => []

def collectInstructionPaths (args : Json) : List String :=
  ["path", "from", "to"].filterMap args.strField? ++ ["paths", "roots"].flatMap (textItems args)

/-- `Number.isSafeInteger(epoch) && epoch >= 0` -/
def safeEpoch : JsNumber → Bool
  | .finite value => value.den == 1 && decide (0 ≤ value) && decide (value ≤ 9007199254740991)
  | .negZero => true
  | .nonFinite => false

/-- The issue, unless the check went well. -/
def issueUnless (passed : Bool) (code : IssueCode) (path message : String) : List ValidationIssue :=
  if passed then [] else [⟨code, path, message⟩]

/-- The capability itself: the one the program names, not expired, and complete. -/
def capabilityIssues (program : Program) (capability : Capability) (now : Timestamp) :
    List ValidationIssue :=
  issueUnless (program.capability.all (· == capability.id)) .capabilityDenied "capability"
      "program capability does not match the supplied capability" ++
    issueUnless (capability.expiresAt.any fun expiresAt => decide (now < expiresAt))
      .capabilityExpired "capability.expiresAt" "capability is expired or invalid" ++
    issueUnless (safeEpoch capability.epoch) .capabilityDenied "capability.epoch"
      "capability epoch must be a non-negative safe integer" ++
    issueUnless (!capability.policyVersion.isEmpty) .capabilityDenied "capability.policyVersion"
      "capability policyVersion is required" ++
    issueUnless (!capability.reason.isEmpty) .capabilityDenied "capability.reason"
      "capability reason is required"

def pathIssues (scope : Scope) (id : String) (args : Json) : List ValidationIssue :=
  (collectInstructionPaths args).flatMap fun path =>
    issueUnless (scope.paths.any fun pattern => matchesPath pattern path) .capabilityDenied
      ("instructions." ++ id ++ ".args") ("path '" ++ path ++ "' is outside the capability scope")

/-- A workspace is checked where the instruction itself names one. -/
def workspaceIssues (scope : Scope) (id : String) (args : Json) : List ValidationIssue :=
  ["workspace", "cwd"].flatMap fun key =>
    match args.strField? key with
    | some workspace =>
      issueUnless (scope.workspaces.contains workspace) .capabilityDenied
        ("instructions." ++ id ++ ".args." ++ key)
        ("workspace '" ++ workspace ++ "' is outside the capability scope")
    | none => []

def secretIssues (scope : Scope) (id : String) (args : Json) : List ValidationIssue :=
  match args.field? "secretEnv" with
  | some (.obj entries) => entries.flatMap fun (name, secret) =>
    issueUnless (match secret with
        | .str s => scope.secrets.contains s
        | _ => false)
      .capabilityDenied ("instructions." ++ id ++ ".args.secretEnv." ++ name)
      "secret is outside the capability scope"
  | _ => []

def instructionIssues (scope : Scope) (id : String) (instruction : Instruction) :
    List ValidationIssue :=
  issueUnless (scope.opcodes.contains instruction.op.text) .capabilityDenied
      ("instructions." ++ id ++ ".op")
      ("opcode '" ++ instruction.op.text ++ "' is outside the capability scope") ++
    pathIssues scope id (argsOf instruction) ++ workspaceIssues scope id (argsOf instruction) ++
    secretIssues scope id (argsOf instruction)

def resourceIssues (program : Program) (limits : CapabilityLimits) : List ValidationIssue :=
  let processCount := program.instructions.countP fun instruction => instruction.op == .procSpawn
  issueUnless (decide (program.instructions.length ≤ limits.concurrentOps)) .resourceExceeded
      "instructions" "instruction count exceeds capability concurrentOps limit" ++
    issueUnless (decide (processCount ≤ limits.processes)) .resourceExceeded "instructions"
      "process spawn count exceeds capability process limit" ++
    issueUnless (match program.options.bind fun options => options.field? "maxOutputBytes" with
        | some (.num value) => decide (value ≤ limits.outputBytes)
        | _ => true)
      .resourceExceeded "options.maxOutputBytes"
      "requested output exceeds capability outputBytes limit"

/-- With a capability and no list of what the host can do. -/
def checkCapability (program : Program) (capability : Capability) (now : Timestamp) :
    List ValidationIssue :=
  capabilityIssues program capability now ++
    program.instructions.zipIdx.flatMap (fun (instruction, index) =>
      instructionIssues capability.scope (checkedId index instruction.id) instruction) ++
    resourceIssues program capability.limits

/-- `validateProgram(program, { capability })` accepts no other programs: the checks that are left
    out, of the shapes of arguments, only make fewer of them acceptable. -/
structure Accepted (program : Program) (capability : Capability) (now : Timestamp) : Prop where
  valid : Pipeline.Accepted program
  admitted : checkCapability program capability now = []

/-! ## What a scope means -/

/-- The workspace that an instruction acts on. -/
def workspaceOf (program : Program) (instruction : Instruction) : Option String :=
  ((argsOf instruction).strField? "workspace").or program.workspace

/-- The arguments that are paths; `from` and `to` are paths where something is moved. -/
def pathArguments (instruction : Instruction) : List String :=
  (if instruction.op = .fsMove then ["path", "from", "to"] else ["path"]).filterMap
      (argsOf instruction).strField? ++
    ["paths", "roots"].flatMap (textItems (argsOf instruction))

/-- The path leads to a place that the patterns give: the place of one of them, or one in the
    directory before its stars. -/
def InScope (patterns : List String) (path : String) : Prop :=
  ∃ pattern ∈ patterns, Place.of pattern.toList = Place.of path.toList ∨
    ∃ directory, directoryOf? pattern.toList = some directory ∧
      (Place.of directory).Holds (Place.of path.toList)

/-- What instructions touch lies in the scope. -/
structure Sound (program : Program) (scope : Scope) : Prop where
  paths : ∀ instruction ∈ program.instructions, ∀ path ∈ pathArguments instruction,
    InScope scope.paths path
  workspaces : ∀ instruction ∈ program.instructions, ∀ workspace,
    workspaceOf program instruction = some workspace → workspace ∈ scope.workspaces

/-! ## What the check leaves open -/

/-- The directory ends where a name of the path does. -/
def EndsAtName (directory path : List Char) : Prop :=
  if directory = [] then path.head? ≠ some '/'
  else directory = path ∨ directory ++ ['/'] <+: path ∨
    directory.getLast? = some '/' ∧ directory <+: path

/-- The path goes on below the directory and does not climb above it. -/
def GoesBelow (directory path : List Char) : Prop :=
  EndsAtName directory path ∧
    climbs 0 (splitAtChar '/' (path.drop directory.length)) = false

/-- The path begins like the directory of a pattern, but goes on within its last name or climbs
    above it. -/
def Strays (patterns : List String) (path : String) : Prop :=
  ∃ pattern ∈ patterns, ∃ directory, directoryOf? pattern.toList = some directory ∧
    directory <+: path.toList ∧ ¬ GoesBelow directory path.toList

/-- The path is a pattern, or goes on below the directory of one. -/
def Keeps (patterns : List String) (path : String) : Prop :=
  path ∈ patterns ∨ ∃ pattern ∈ patterns, ∃ directory,
    directoryOf? pattern.toList = some directory ∧ GoesBelow directory path.toList

/-- The workspace that an instruction takes over from its program is one of the scope. -/
def Inherits (program : Program) (scope : Scope) : Prop :=
  ∀ instruction ∈ program.instructions, (argsOf instruction).strField? "workspace" = none →
    ∀ workspace, program.workspace = some workspace → workspace ∈ scope.workspaces

/-- A path that strays from one pattern keeps to another, and workspaces are not taken over from
    outside. -/
structure Confined (program : Program) (scope : Scope) : Prop where
  straying : ∀ instruction ∈ program.instructions, ∀ path ∈ pathArguments instruction,
    Strays scope.paths path → Keeps scope.paths path
  inherited : Inherits program scope

/-- A directory that a path goes on below holds it. -/
theorem GoesBelow.holds {directory path : List Char} (h : GoesBelow directory path) :
    (Place.of directory).Holds (Place.of path) := by
  obtain ⟨hends, hbelow⟩ := h
  unfold EndsAtName at hends
  split at hends
  · rename_i hempty
    subst hempty
    exact Place.holds_start hbelow hends
  · rename_i hdirectory
    rcases hends with rfl | ⟨rest, rfl⟩ | ⟨hlast, rest, rfl⟩
    · exact Place.Holds.refl _
    · rw [List.append_assoc, List.singleton_append] at hbelow ⊢
      rw [List.drop_left, Place.splitAtChar_closed, climbs, if_pos (Or.inl rfl)] at hbelow
      exact Place.holds_append hbelow hdirectory
    · -- Without its separator it is a directory too, or it is the root.
      rw [List.drop_left] at hbelow
      obtain ⟨init, rfl⟩ : ∃ init, directory = init ++ ['/'] := by
        have hsplit := List.dropLast_concat_getLast hdirectory
        rw [List.getLast?_eq_some_getLast hdirectory, Option.some.injEq] at hlast
        rw [hlast] at hsplit
        exact ⟨_, hsplit.symm⟩
      rw [List.append_assoc, List.singleton_append]
      cases init with
      | nil => exact Place.holds_root hbelow
      | cons c init =>
        rw [Place.of_closed (List.cons_ne_nil c init)]
        exact Place.holds_append hbelow (List.cons_ne_nil c init)

theorem inScope_of_keeps {patterns : List String} {path : String} (h : Keeps patterns path) :
    InScope patterns path := by
  rcases h with hmem | ⟨pattern, hpattern, directory, hdirectory, hbelow⟩
  · exact ⟨path, hmem, Or.inl rfl⟩
  · exact ⟨pattern, hpattern, Or.inr ⟨directory, hdirectory, hbelow.holds⟩⟩

/-- What a pattern matches is the pattern, or begins like its directory. -/
theorem matchesPath_cases {pattern path : String} (h : matchesPath pattern path = true) :
    pattern = path ∨
      ∃ directory, directoryOf? pattern.toList = some directory ∧ directory <+: path.toList := by
  unfold matchesPath at h
  split at h
  · exact Or.inl ‹_›
  · split at h
    · rename_i directory hdirectory
      exact Or.inr ⟨directory, hdirectory, List.isPrefixOf_iff_prefix.1 h⟩
    · cases h

theorem inScope_of_matched {patterns : List String} {path : String}
    (hmatched : patterns.any (fun pattern => matchesPath pattern path) = true)
    (hstraying : Strays patterns path → Keeps patterns path) : InScope patterns path := by
  refine inScope_of_keeps ?_
  obtain ⟨pattern, hpattern, hmatch⟩ := List.any_eq_true.1 hmatched
  rcases matchesPath_cases hmatch with rfl | ⟨directory, hdirectory, hprefix⟩
  · exact Or.inl hpattern
  · by_cases hbelow : GoesBelow directory path.toList
    · exact Or.inr ⟨pattern, hpattern, directory, hdirectory, hbelow⟩
    · exact hstraying ⟨pattern, hpattern, directory, hdirectory, hprefix, hbelow⟩

theorem issueUnless_eq_nil {passed : Bool} {code : IssueCode} {path message : String}
    (h : issueUnless passed code path message = []) : passed = true := by
  by_contra hfailed
  rw [issueUnless, if_neg hfailed] at h
  cases h

theorem Accepted.noIssues {program : Program} {capability : Capability} {now : Timestamp}
    (h : Accepted program capability now) {instruction : Instruction}
    (hmem : instruction ∈ program.instructions) :
    ∃ id, instructionIssues capability.scope id instruction = [] := by
  obtain ⟨index, hindex⟩ := List.mem_iff_getElem?.1 hmem
  have hmem' : (instruction, index) ∈ program.instructions.zipIdx :=
    List.mem_zipIdx_iff_getElem?.2 hindex
  have hall := h.admitted
  unfold checkCapability at hall
  rw [List.append_eq_nil_iff, List.append_eq_nil_iff] at hall
  exact ⟨_, List.flatMap_eq_nil_iff.1 hall.1.2 _ hmem'⟩

/-- A workspace that an instruction names was looked up. -/
theorem Accepted.named {program : Program} {capability : Capability} {now : Timestamp}
    (h : Accepted program capability now) {instruction : Instruction}
    (hmem : instruction ∈ program.instructions) {workspace : String}
    (hnamed : (argsOf instruction).strField? "workspace" = some workspace) :
    workspace ∈ capability.scope.workspaces := by
  obtain ⟨id, hissues⟩ := h.noIssues hmem
  unfold instructionIssues at hissues
  rw [List.append_eq_nil_iff, List.append_eq_nil_iff] at hissues
  have hworkspaces := List.flatMap_eq_nil_iff.1 hissues.1.2 "workspace" List.mem_cons_self
  rw [hnamed] at hworkspaces
  exact List.contains_iff_mem.1 (issueUnless_eq_nil hworkspaces)

/-- `from` and `to` are compared with the scope whatever the instruction does. -/
theorem pathArguments_collected {instruction : Instruction} {path : String}
    (h : path ∈ pathArguments instruction) :
    path ∈ collectInstructionPaths (argsOf instruction) := by
  unfold pathArguments at h
  unfold collectInstructionPaths
  split at h
  · exact h
  · rcases List.mem_append.1 h with hone | hmany
    · obtain ⟨key, hkey, hpath⟩ := List.mem_filterMap.1 hone
      rw [List.mem_singleton.1 hkey] at hpath
      exact List.mem_append_left _ (List.mem_filterMap.2 ⟨"path", List.mem_cons_self, hpath⟩)
    · exact List.mem_append_right _ hmany

/-- A path argument was matched by some pattern. -/
theorem Accepted.matched {program : Program} {capability : Capability} {now : Timestamp}
    (h : Accepted program capability now) {instruction : Instruction}
    (hmem : instruction ∈ program.instructions) {path : String}
    (hpath : path ∈ pathArguments instruction) :
    capability.scope.paths.any (fun pattern => matchesPath pattern path) = true := by
  obtain ⟨id, hissues⟩ := h.noIssues hmem
  unfold instructionIssues at hissues
  rw [List.append_eq_nil_iff, List.append_eq_nil_iff, List.append_eq_nil_iff] at hissues
  exact issueUnless_eq_nil
    (List.flatMap_eq_nil_iff.1 hissues.1.1.2 path (pathArguments_collected hpath))

/-- Of an accepted program all stays in the scope, where its paths do not stray and it hands down no
    workspace from outside; and handing none down is necessary. -/
theorem accepted_sound {program : Program} {capability : Capability} {now : Timestamp}
    (h : Accepted program capability now) :
    (Confined program capability.scope → Sound program capability.scope) ∧
      (Sound program capability.scope → Inherits program capability.scope) := by
  constructor
  · intro hconfined
    refine ⟨fun instruction hmem path hpath => ?_, fun instruction hmem workspace hworkspace => ?_⟩
    · exact inScope_of_matched (h.matched hmem hpath)
        (hconfined.straying instruction hmem path hpath)
    · unfold workspaceOf at hworkspace
      cases hnamed : (argsOf instruction).strField? "workspace" with
      | none =>
        rw [hnamed] at hworkspace
        exact hconfined.inherited instruction hmem hnamed workspace hworkspace
      | some named =>
        rw [hnamed] at hworkspace
        cases hworkspace
        exact h.named hmem hnamed
  · intro hsound instruction hmem hnone workspace hworkspace
    refine hsound.workspaces instruction hmem workspace ?_
    rw [workspaceOf, hnone, hworkspace]
    rfl

/-- A program that reads one file. -/
def readProgram (workspace path : String) : Program where
  isa := "xio/1.0"
  requestId := "request"
  programId := "program"
  workspace := some workspace
  instructions := [{
    id := .text "read"
    op := .fsRead
    rest := [("args", .obj [("path", .str path)]), ("output", .str "text")] }]

/-- Reading below `src` of one workspace. -/
def readSources : Capability where
  id := "cap:sources"
  policyVersion := "1"
  reason := "read the sources"
  scope := { opcodes := ["fs.read"], workspaces := ["workspace:root"], paths := ["src/**"] }
  limits := { cpuMs := 1, memoryBytes := 1, outputBytes := 1, concurrentOps := 1, processes := 1 }
  expiresAt := some 1
  epoch := .finite 1

theorem readProgram_accepted :
    Accepted (readProgram "workspace:root" "src/main.ts") readSources 0 :=
  ⟨by decide, by decide⟩

/-- A file below `src` is what the capability means. -/
theorem readMain_sound : Sound (readProgram "workspace:root" "src/main.ts") readSources.scope := by
  refine (accepted_sound readProgram_accepted).1 ⟨?_, ?_⟩
  · intro instruction hmem path hpath _
    rw [List.mem_singleton.1 hmem] at hpath
    rw [List.mem_singleton.1 hpath]
    refine Or.inr ⟨"src/**", List.mem_cons_self, "src/".toList, by decide, ?_, by decide⟩
    exact Or.inr (Or.inr ⟨rfl, by decide⟩)
  · intro instruction _ _ workspace hworkspace
    cases hworkspace
    decide

/-- A file beside `src`, in a workspace that the capability does not name, is accepted too. -/
theorem readSecret_unsound :
    Accepted (readProgram "workspace:other" "src/../secret") readSources 0 ∧
      ¬ InScope readSources.scope.paths "src/../secret" ∧
      ¬ Sound (readProgram "workspace:other" "src/../secret") readSources.scope := by
  have houtside : ¬ InScope readSources.scope.paths "src/../secret" := by
    rintro ⟨pattern, hpattern, hplace⟩
    rw [List.mem_singleton.1 hpattern] at hplace
    rcases hplace with heq | ⟨directory, hdirectory, hholds⟩
    · exact absurd heq (by decide)
    · have hsrc : directoryOf? "src/**".toList = some "src/".toList := by decide
      rw [hsrc] at hdirectory
      cases hdirectory
      exact absurd hholds (by decide)
  refine ⟨⟨by decide, by decide⟩, houtside, fun h => ?_⟩
  exact houtside (h.paths _ List.mem_cons_self "src/../secret" List.mem_cons_self)

end XioFlow.Isa.Validator
