/-
  XioFlow.Capability.Check

  Scopes and limits of capabilities: how they are normalized, how they may be
  narrowed, and what a request must meet to be admitted.
-/

import XioFlow.Capability.Paths
import XioFlow.Store.Sqlite
import XioFlow.Lib.Distinct

namespace XioFlow

open Lib
open Prog (read)
open JsValue (ofOption ofStrings)

/-! ## Normalized scopes -/

/-- `CapabilityScopeInput` -/
structure CapabilityScopeInput where
  write : Option (List String) := none
  exclusive : Option (List String) := none
  opcodes : Option (List String) := none
  workspaces : Option (List String) := none
  paths : Option (List String) := none
  secrets : Option (List String) := none

/-- A full scope where a scope is asked for. -/
def CapabilityScope.toInput (scope : CapabilityScope) : CapabilityScopeInput where
  write := some scope.write
  exclusive := some scope.exclusive
  opcodes := some scope.opcodes
  workspaces := some scope.workspaces
  paths := some scope.paths
  secrets := some scope.secrets

def ISA_V1_OPCODES : List String := [
  "fs.read", "fs.write", "fs.patch", "fs.move", "fs.delete", "fs.stat",
  "workspace.snapshot", "workspace.diff", "workspace.commit", "workspace.rollback",
  "proc.spawn", "proc.wait", "proc.signal", "proc.inspect",
  "observe.files", "observe.resources",
  "control.status", "control.health", "control.cancel", "control.resolve", "control.resume",
  "artifact.put", "artifact.get", "artifact.stream"]

/-- `[...new Set(values)]` -/
def unique (values : List String) : List String := values.eraseDups

/-- `[*?\[]` -/
def isWildcard (c : Char) : Bool := c = '*' || c = '?' || c = '['

/-- A path, or the part of a pattern before its first wildcard, made real. -/
def normalizePathPattern (fs : FileSystem) (value : String) : String :=
  let pre := value.toList.takeWhile fun c => !isWildcard c
  let suffix := value.toList.dropWhile fun c => !isWildcard c
  if suffix = [] then fs.resolveRealPath value
  else
    let resolvedPrefix := fs.resolveRealPath (if pre = [] then "." else String.ofList pre)
    resolvedPrefix ++ String.ofList suffix

/-- `unique(values.map(normalizePathPattern))` -/
def normalizePaths (fs : FileSystem) (values : List String) : List String :=
  unique (values.map (normalizePathPattern fs))

def normalizeScope (fs : FileSystem) (scope : CapabilityScopeInput) : CapabilityScope :=
  let legacyWrites := scope.write.getD []
  let requestedPaths := scope.paths.getD legacyWrites
  { write := normalizePaths fs legacyWrites
    exclusive := unique (scope.exclusive.getD [])
    opcodes := unique (scope.opcodes.getD ISA_V1_OPCODES)
    workspaces := unique (scope.workspaces.getD [])
    paths := normalizePaths fs requestedPaths
    secrets := unique (scope.secrets.getD []) }

/-! ## Narrowing -/

/-- `values.join(', ')` -/
def joined (values : List String) : String := ", ".intercalate values

/-- The first value that is not allowed is refused. -/
def refuseOutside (reason : CapabilityViolationReason) (allowed : String → Bool)
    (message : String → String) (values : List String) : Except KernelError Unit :=
  match values.find? fun value => !allowed value with
  | some value => .error (.capabilityViolation reason (message value))
  | none => .ok ()

/-- The values of one dimension of a narrower scope: an absent one is inherited. -/
def inherited (parent : List String) (requested : Option (List String)) : List String :=
  match requested with
  | none => parent
  | some values => unique values

/-- A workspace restriction may be narrowed but not removed. -/
def refuseWiderWorkspaces (parent newWorkspaces : List String)
    (requested : Option (List String)) : Except KernelError Unit :=
  if parent = [] then .ok ()
  else
    match refuseOutside .attenuationWidened parent.contains
        (fun workspace => "Cannot widen workspace scope: '" ++ workspace ++
          "' is not permitted by the parent capability") newWorkspaces with
    | .error e => .error e
    | .ok _ =>
      if requested = some [] then
        .error (.capabilityViolation .attenuationWidened
          "Cannot remove the parent workspace restriction during attenuation")
      else .ok ()

def validateScopeNarrowing (fs : FileSystem) (parentScope : CapabilityScope)
    (narrowerScope : CapabilityScopeInput) : Except KernelError CapabilityScope := do
  let normParent := normalizeScope fs parentScope.toInput
  let requestedPaths := narrowerScope.paths.or narrowerScope.write
  let newPaths := match requestedPaths with
    | none => normParent.paths
    | some paths => normalizePaths fs paths
  refuseOutside .attenuationWidened
    (fun childPath => normParent.paths.any fun parentPath =>
      fs.isPathContained parentPath childPath)
    (fun childPath => "Cannot widen path scope: '" ++ childPath ++
      "' is not contained within parent paths [" ++ joined normParent.paths ++ "]") newPaths
  let newExclusive := inherited normParent.exclusive narrowerScope.exclusive
  refuseOutside .attenuationWidened normParent.exclusive.contains
    (fun res => "Cannot widen exclusive resource scope: '" ++ res ++
      "' is not in parent exclusive scope [" ++ joined normParent.exclusive ++ "]") newExclusive
  let newOpcodes := inherited normParent.opcodes narrowerScope.opcodes
  refuseOutside .attenuationWidened normParent.opcodes.contains
    (fun opcode => "Cannot widen opcode scope: '" ++ opcode ++
      "' is not permitted by the parent capability") newOpcodes
  let newWorkspaces := inherited normParent.workspaces narrowerScope.workspaces
  refuseWiderWorkspaces normParent.workspaces newWorkspaces narrowerScope.workspaces
  let newSecrets := inherited normParent.secrets narrowerScope.secrets
  refuseOutside .attenuationWidened normParent.secrets.contains
    (fun secret => "Cannot widen secret scope: '" ++ secret ++
      "' is not permitted by the parent capability") newSecrets
  return {
    write := if requestedPaths.isSome then newPaths else normParent.write
    exclusive := newExclusive
    opcodes := newOpcodes
    workspaces := newWorkspaces
    paths := newPaths
    secrets := newSecrets }

/-! ## Limits -/

/-- A number that a caller gives for a limit, with the text it is printed as. -/
inductive LimitValue where
  | undefined
  | finite (value : Rat) (text : String)
  | infinity
  /-- Not a number, or minus infinity: above nothing. -/
  | other (text : String)

def LimitValue.text : LimitValue → String
  | undefined => "undefined"
  | finite _ text => text
  | infinity => "Infinity"
  | other text => text

/-- `Number.isSafeInteger(value) && value >= 0` -/
def LimitValue.safe? : LimitValue → Option Nat
  | finite value _ =>
    if value.den = 1 ∧ 0 ≤ value ∧ value ≤ 9007199254740991 then some value.num.toNat else none
  | _ => none

/-- `value > limit`, for a value that is not undefined. -/
def LimitValue.exceeds (value : LimitValue) (limit : Nat) : Bool :=
  match value with
  | finite value _ => limit < value
  | infinity => true
  | _ => false

inductive LimitKey where
  | cpuMs | memoryBytes | outputBytes | concurrentOps | processes
  deriving DecidableEq

def LimitKey.text : LimitKey → String
  | cpuMs => "cpuMs"
  | memoryBytes => "memoryBytes"
  | outputBytes => "outputBytes"
  | concurrentOps => "concurrentOps"
  | processes => "processes"

/-- The keys in the order they are checked in. -/
def LimitKey.all : List LimitKey := [.cpuMs, .memoryBytes, .outputBytes, .concurrentOps, .processes]

def CapabilityLimits.get (limits : CapabilityLimits) : LimitKey → Nat
  | .cpuMs => limits.cpuMs
  | .memoryBytes => limits.memoryBytes
  | .outputBytes => limits.outputBytes
  | .concurrentOps => limits.concurrentOps
  | .processes => limits.processes

/-- `Partial<CapabilityLimits>` -/
abbrev PartialLimits := LimitKey → Option LimitValue

def DEFAULT_CAPABILITY_LIMITS : CapabilityLimits where
  cpuMs := 315360000000
  memoryBytes := 1099511627776
  outputBytes := 107374182400
  concurrentOps := 4096
  processes := 65536

/-- One limit of the merged limits: the requested one, or the default. -/
def mergedLimit (defaults : CapabilityLimits) (limits : PartialLimits) (key : LimitKey) :
    Except KernelError Nat :=
  match limits key with
  | none => .ok (defaults.get key)
  | some value =>
    match value.safe? with
    | some limit => .ok limit
    | none => .error (.typeError ("Capability limit '" ++ key.text ++
        "' must be a non-negative safe integer"))

/-- `normalizeCapabilityLimits`, over the limits that requested ones are merged into. -/
def normalizeCapabilityLimits (defaults : CapabilityLimits) (limits : PartialLimits) :
    Except KernelError CapabilityLimits := do
  let cpuMs ← mergedLimit defaults limits .cpuMs
  let memoryBytes ← mergedLimit defaults limits .memoryBytes
  let outputBytes ← mergedLimit defaults limits .outputBytes
  let concurrentOps ← mergedLimit defaults limits .concurrentOps
  let processes ← mergedLimit defaults limits .processes
  return { cpuMs, memoryBytes, outputBytes, concurrentOps, processes }

def narrowCapabilityLimits (parent : CapabilityLimits) (requested : PartialLimits) :
    Except KernelError CapabilityLimits := do
  let child ← normalizeCapabilityLimits parent requested
  match LimitKey.all.find? fun key => parent.get key < child.get key with
  | some key => throw (.capabilityViolation .attenuationWidened
      ("Cannot widen capability limit '" ++ key.text ++ "' from " ++ toString (parent.get key) ++
        " to " ++ toString (child.get key)))
  | none => return child

/-! ## Stored capabilities -/

/-- `mapCapabilityRow`: empty columns read as their defaults. -/
def mapCapabilityRow (row : Capability) : Capability :=
  { row with
    parentId := nonEmpty row.parentId
    policyVersion := if row.policyVersion = "" then "legacy/0" else row.policyVersion
    reason := if row.reason = "" then "legacy-capability" else row.reason }

/-- `store.getCapability` -/
def storedCapability (s : SqliteStore) (id : String) : Option Capability :=
  (s.getCapability id).map mapCapabilityRow

/-- The loop over the ancestors.  Without fuel it has not come to an end. -/
def walkAncestors (s : SqliteStore)
    (check : String → Option Capability → Except KernelError Unit) :
    Nat → Option String → Option (Except KernelError Unit)
  | _, none => some (.ok ())
  | 0, some _ => none
  | fuel + 1, some ancestorId =>
    let ancestor := storedCapability s ancestorId
    match check ancestorId ancestor with
    | .error e => some (.error e)
    | .ok _ => walkAncestors s check fuel (ancestor.bind Capability.parentId)

/-- One more step than there are capabilities: a longer walk goes in a circle. -/
def ancestorFuel (s : SqliteStore) : Nat := s.db.capabilities.rows.length + 1

/-! ## Admission -/

/-- `CheckCapabilityAdmissionOptions` without the store -/
structure CheckCapabilityAdmissionOptions where
  domainId : String
  currentEpoch : Int
  capabilityId : String
  requiredResources : Option (List String) := none
  mutationRoots : Option (List String) := none
  opcode : Option String := none
  workspace : Option String := none
  secretRefs : Option (List String) := none
  requestedLimits : PartialLimits := fun _ => none
  currentConcurrentOps : Option Nat := none
  currentProcesses : Option Nat := none
  policyVersion : Option String := none
  runId : Option String := none
  opId : Option String := none

structure CapabilityAdmissionResult where
  capability : Capability
  effectiveResources : List String
  effectiveMutationRoots : List String
  effectiveLimits : CapabilityLimits

/-- What is checked of an ancestor on admission. -/
def ancestorAdmissible (currentEpoch : Int) (now : Timestamp) (ancestorId : String)
    (ancestor : Option Capability) : Except KernelError Unit :=
  match ancestor with
  | none => .error (.capabilityViolation .revoked
      ("Capability ancestor '" ++ ancestorId ++ "' not found"))
  | some ancestor =>
    if ancestor.revokedAt.isSome then
      .error (.capabilityViolation .revoked
        ("Capability ancestor '" ++ ancestorId ++ "' was revoked"))
    else if ancestor.epoch ≠ currentEpoch then
      .error (.capabilityViolation .epochMismatch
        ("Capability ancestor '" ++ ancestorId ++ "' epoch mismatch"))
    else if ancestor.expiresAt ≤ now then
      .error (.capabilityViolation .expired
        ("Capability ancestor '" ++ ancestorId ++ "' has expired"))
    else .ok ()

/-- The checks on the capability itself, before its ancestors. -/
def capabilityAdmissible (options : CheckCapabilityAdmissionOptions) (now : Timestamp)
    (cap : Capability) : Except KernelError Unit :=
  let name := "Capability '" ++ options.capabilityId ++ "'"
  if cap.domainId ≠ options.domainId then
    .error (.capabilityViolation .domainMismatch (name ++ " belongs to domain '" ++
      cap.domainId ++ "', not '" ++ options.domainId ++ "'"))
  else if cap.epoch ≠ options.currentEpoch then
    .error (.capabilityViolation .epochMismatch (name ++ " epoch " ++ toString cap.epoch ++
      " does not match current domain epoch " ++ toString options.currentEpoch))
  else if cap.expiresAt ≤ now then
    .error (.capabilityViolation .expired (name ++ " expired at " ++ toISOString cap.expiresAt))
  else
    match cap.revokedAt with
    | some revokedAt =>
      .error (.capabilityViolation .revoked (name ++ " was revoked at " ++ toISOString revokedAt))
    | none =>
      match options.policyVersion with
      | some policyVersion =>
        if cap.policyVersion ≠ policyVersion then
          .error (.capabilityViolation .policyMismatch (name ++ " policy version '" ++
            cap.policyVersion ++ "' does not match '" ++ policyVersion ++ "'"))
        else .ok ()
      | none => .ok ()

/-- The checks on opcode, workspace and secrets. -/
def scopeAdmissible (options : CheckCapabilityAdmissionOptions) (scope : CapabilityScope) :
    Except KernelError Unit := do
  let refusal := "' is not permitted by capability '" ++ options.capabilityId ++ "'"
  refuseOutside .outOfScopeOpcode scope.opcodes.contains
    (fun opcode => "Opcode '" ++ opcode ++ refusal) options.opcode.toList
  refuseOutside .outOfScopeWorkspace
    (fun workspace => scope.workspaces.isEmpty || scope.workspaces.contains workspace)
    (fun workspace => "Workspace '" ++ workspace ++ refusal) options.workspace.toList
  refuseOutside .outOfScopeSecret scope.secrets.contains
    (fun secret => "SecretRef '" ++ secret ++ refusal) (options.secretRefs.getD [])

/-- The checks on requested limits and on the running counters. -/
def limitsAdmissible (options : CheckCapabilityAdmissionOptions) (limits : CapabilityLimits) :
    Except KernelError Unit :=
  let name := "Capability '" ++ options.capabilityId ++ "'"
  let exceeded := LimitKey.all.findSome? fun key =>
    ((options.requestedLimits key).filter fun value => value.exceeds (limits.get key)).map
      fun value => (key, value)
  match exceeded with
  | some (key, requested) =>
    .error (.capabilityViolation .budgetExceeded (name ++ " limit '" ++ key.text ++ "' is " ++
      toString (limits.get key) ++ ", requested " ++ requested.text))
  | none =>
    if options.currentConcurrentOps.any fun current => limits.concurrentOps ≤ current then
      .error (.capabilityViolation .concurrencyExceeded (name ++ " concurrentOps limit " ++
        toString limits.concurrentOps ++ " is exhausted"))
    else if options.opcode = some "proc.spawn" ∧
        options.currentProcesses.any fun current => limits.processes ≤ current then
      .error (.capabilityViolation .concurrencyExceeded (name ++ " processes limit " ++
        toString limits.processes ++ " is exhausted"))
    else .ok ()

/-- The requested resources when there are any, else all of the scope. -/
def effectiveResources (options : CheckCapabilityAdmissionOptions) (scope : CapabilityScope) :
    Except KernelError (List String) :=
  match options.requiredResources.getD [] with
  | [] => .ok scope.exclusive
  | resources => do
    refuseOutside .outOfScopeResource scope.exclusive.contains
      (fun res => "Resource '" ++ res ++ "' is not permitted by capability '" ++
        options.capabilityId ++ "' exclusive scope [" ++ joined scope.exclusive ++ "]") resources
    return resources

/-- The requested roots when there are any, else all paths of the scope. -/
def effectiveMutationRoots (fs : FileSystem) (options : CheckCapabilityAdmissionOptions)
    (scope : CapabilityScope) : Except KernelError (List String) :=
  match options.mutationRoots.getD [] with
  | [] => .ok scope.paths
  | roots => do
    let resolvedRoots := roots.map (normalizePathPattern fs)
    refuseOutside .outOfScopePath (fun rr => scope.paths.any fun cw => fs.isPathContained cw rr)
      (fun rr => "Mutation root '" ++ rr ++ "' is outside capability '" ++
        options.capabilityId ++ "' path scope [" ++ joined scope.paths ++ "]") resolvedRoots
    return resolvedRoots

/-- What remains to check once the ancestors are. -/
def withinScope (fs : FileSystem) (options : CheckCapabilityAdmissionOptions) (cap : Capability) :
    Except KernelError CapabilityAdmissionResult := do
  let scope := normalizeScope fs cap.scope.toInput
  scopeAdmissible options scope
  limitsAdmissible options cap.limits
  let effectiveResources ← effectiveResources options scope
  let effectiveMutationRoots ← effectiveMutationRoots fs options scope
  return {
    capability := { cap with scope }
    effectiveResources
    effectiveMutationRoots
    effectiveLimits := cap.limits }

/-- The answer to a request; nothing while the ancestors go in a circle. -/
def admission (fs : FileSystem) (s : SqliteStore) (now : Timestamp)
    (options : CheckCapabilityAdmissionOptions) :
    Option (Except KernelError CapabilityAdmissionResult) :=
  match storedCapability s options.capabilityId with
  | none => some (.error (.capabilityViolation .revoked
      ("Capability '" ++ options.capabilityId ++ "' not found")))
  | some cap =>
    match capabilityAdmissible options now cap with
    | .error e => some (.error e)
    | .ok _ =>
      match walkAncestors s (ancestorAdmissible options.currentEpoch now) (ancestorFuel s)
          cap.parentId with
      | none => none
      | some (.error e) => some (.error e)
      | some (.ok _) => some (withinScope fs options cap)

def rejectedEvent (options : CheckCapabilityAdmissionOptions) (reason : CapabilityViolationReason)
    (message : String) (now : Timestamp) : SqliteStore.EventInput where
  domainId := options.domainId
  runId := options.runId
  operationId := options.opId
  type := "CAPABILITY_REJECTED"
  payload := .obj [("capabilityId", .str options.capabilityId), ("reason", .str reason.text),
    ("message", .str message),
    ("requiredResources", ofOption ofStrings options.requiredResources),
    ("mutationRoots", ofOption ofStrings options.mutationRoots)]
  timestamp := now

/-- `checkCapabilityAdmission`: a rejection is journaled when the journal takes it. -/
def checkCapabilityAdmission (fs : FileSystem) (now : Timestamp)
    (options : CheckCapabilityAdmissionOptions) :
    StoreM (Option CapabilityAdmissionResult) := do
  let answer ← read fun s => admission fs s now options
  match answer with
  | none => return none
  | some (.ok result) => return some result
  | some (.error (.capabilityViolation reason message)) => do
    tryCatch (SqliteStore.recordEvent (rejectedEvent options reason message now))
      fun _ => pure ()
    throw (.capabilityViolation reason message)
  | some (.error e) => throw e

end XioFlow
