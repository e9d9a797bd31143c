/-
  XioFlow.Capability.Attenuation

  Capabilities are issued, attenuated and revoked.  Along every chain of
  attenuations authority only shrinks: what the last capability admits, each
  of its ancestors admits.

  A path that was made real is normalized again at each use.  Where the real
  path itself holds a wildcard, normalizing it again gives another path, and
  the capability leaves the scope of its parent.
-/

import XioFlow.Capability.Narrowing
import XioFlow.Domain.Effects
import XioFlow.Lib.Transition

namespace XioFlow

open Lib Lib.Prog
open JsValue (ofOption ofStrings ofNat ofTime)
open SqliteStore

/-! ## Issuing -/

structure CapabilityIssueRequest where
  scope : CapabilityScopeInput
  issuer : String
  policyVersion : String
  reason : String
  limits : PartialLimits
  ttlMs : Option Int := none
  /-- The given date; a text that is no date is `some none`. -/
  expiresAt : Option (Option Timestamp) := none

/-- The two forms of `issueCapability`. -/
inductive IssueArguments where
  | legacy (scope : CapabilityScopeInput) (actor : String) (ttlMs : Option Int)
  | request (request : CapabilityIssueRequest)

namespace IssueArguments

def scope : IssueArguments → CapabilityScopeInput
  | legacy scope _ _ => scope
  | request r => r.scope

def issuer : IssueArguments → String
  | legacy _ actor _ => actor
  | request r => r.issuer

def idPrefix : IssueArguments → String
  | legacy .. => "cap-"
  | request _ => "cap:"

def policyVersion : IssueArguments → String
  | legacy .. => "legacy/0"
  | request r => r.policyVersion

def reason : IssueArguments → String
  | legacy .. => "legacy-capability"
  | request r => r.reason

def limits : IssueArguments → PartialLimits
  | legacy .. => fun _ => none
  | request r => r.limits

/-- `expiryMs`, unless it is not a number. -/
def expiry (args : IssueArguments) (now : Timestamp) : Option Int :=
  match args with
  | legacy _ _ ttlMs => some (now + ttlMs.getD 60000)
  | request r =>
    match r.expiresAt with
    | some date => date.map Int.ofNat
    | none => some (now + r.ttlMs.getD 60000)

end IssueArguments

/-- The capability that `issueCapability` makes.  `suffix` is the time and the random digits. -/
def issuedCapability (fs : FileSystem) (d : ExecutionDomain) (args : IssueArguments)
    (suffix : String) (now : Timestamp) : Except KernelError Capability :=
  if d.isFenced then .error (.epochFenced d.domainId d.epoch d.epoch)
  else if args.issuer = "" then .error (.typeError "Capability issuer is required")
  else
    match (args.expiry now).filter fun expiry => (now : Int) < expiry with
    | none => .error (.typeError "Capability expiration must be a future ISO timestamp")
    | some expiry => do
      let limits ← normalizeCapabilityLimits DEFAULT_CAPABILITY_LIMITS args.limits
      return {
        id := args.idPrefix ++ suffix
        domainId := d.domainId
        scope := normalizeScope fs args.scope
        issuedBy := args.issuer
        policyVersion := args.policyVersion
        reason := args.reason
        limits
        expiresAt := expiry.toNat
        epoch := d.epoch
        createdAt := now }

/-- `scope` in an event -/
def CapabilityScope.toJs (scope : CapabilityScope) : JsValue := .obj [
  ("write", ofStrings scope.write), ("exclusive", ofStrings scope.exclusive),
  ("opcodes", ofStrings scope.opcodes), ("workspaces", ofStrings scope.workspaces),
  ("paths", ofStrings scope.paths), ("secrets", ofStrings scope.secrets)]

def CapabilityLimits.toJs (limits : CapabilityLimits) : JsValue := .obj [
  ("cpuMs", ofNat limits.cpuMs), ("memoryBytes", ofNat limits.memoryBytes),
  ("outputBytes", ofNat limits.outputBytes), ("concurrentOps", ofNat limits.concurrentOps),
  ("processes", ofNat limits.processes)]

/-- The event of a new capability, issued or attenuated. -/
def capabilityEvent (cap : Capability) : EventInput where
  domainId := cap.domainId
  type := if cap.parentId.isSome then "CAPABILITY_ATTENUATED" else "CAPABILITY_ISSUED"
  payload := .obj ([("capabilityId", .str cap.id)] ++
    (cap.parentId.map fun parentId => ("parentId", JsValue.str parentId)).toList ++
    [("actor", .str cap.issuedBy), ("issuer", .str cap.issuedBy),
      ("policyVersion", .str cap.policyVersion), ("reason", .str cap.reason),
      ("scope", cap.scope.toJs), ("limits", cap.limits.toJs),
      ("expiresAt", ofTime cap.expiresAt), ("epoch", .num (.finite cap.epoch))])
  timestamp := cap.createdAt

/-- A new capability is stored, then journaled. -/
def recordNewCapability (cap : Capability) : StoreM Unit := do
  recordCapability cap
  recordEvent (capabilityEvent cap)

/-! ## Attenuating -/

structure AttenuateOptions where
  ttlMs : Option Int := none
  policyVersion : Option String := none
  reason : Option String := none
  limits : PartialLimits := fun _ => none

/-- What is checked of an ancestor on attenuation. -/
def ancestorAttenuable (epoch : Int) (now : Timestamp) (ancestorId : String)
    (anc : Option Capability) : Except KernelError Unit :=
  let name := "Parent capability ancestor '" ++ ancestorId ++ "'"
  match anc.filter fun anc => anc.revokedAt.isNone with
  | none => .error (.capabilityViolation .revoked (name ++ " was revoked or not found"))
  | some anc =>
    if anc.epoch ≠ epoch then
      .error (.capabilityViolation .epochMismatch (name ++ " epoch mismatch"))
    else if anc.expiresAt ≤ now then
      .error (.capabilityViolation .expired (name ++ " has expired"))
    else .ok ()

/-- The checks on the parent itself. -/
def parentAttenuable (epoch : Int) (now : Timestamp) (parent : Capability) :
    Except KernelError Unit :=
  let name := "Parent capability '" ++ parent.id ++ "'"
  if parent.epoch ≠ epoch then
    .error (.capabilityViolation .epochMismatch (name ++ " epoch " ++ toString parent.epoch ++
      " does not match current epoch " ++ toString epoch))
  else if parent.revokedAt.isSome then
    .error (.capabilityViolation .revoked (name ++ " is revoked"))
  else if parent.expiresAt ≤ now then
    .error (.capabilityViolation .expired (name ++ " has expired"))
  else .ok ()

/-- A child has the policy of its parent. -/
def samePolicy (config : AttenuateOptions) (parent : Capability) : Except KernelError Unit :=
  match config.policyVersion with
  | some policyVersion =>
    if policyVersion ≠ parent.policyVersion then
      .error (.capabilityViolation .policyMismatch ("Child policy version '" ++ policyVersion ++
        "' cannot differ from parent '" ++ parent.policyVersion ++ "'"))
    else .ok ()
  | none => .ok ()

/-- `Math.min(requestedExpiry, parentExpiry)` -/
def childExpiry (config : AttenuateOptions) (parent : Capability) (now : Timestamp) : Timestamp :=
  match config.ttlMs with
  | none => parent.expiresAt
  | some ttlMs => min ((now : Int) + ttlMs).toNat parent.expiresAt

/-- The child of a parent whose checks passed. -/
def childOf (fs : FileSystem) (d : ExecutionDomain) (parent : Capability)
    (narrowerScope : CapabilityScopeInput) (actor : String) (config : AttenuateOptions)
    (suffix : String) (now : Timestamp) : Except KernelError Capability := do
  let childScope ← validateScopeNarrowing fs parent.scope narrowerScope
  samePolicy config parent
  let childLimits ← narrowCapabilityLimits parent.limits config.limits
  return {
    id := (if hasPrefix "cap:" parent.id then "cap:" else "cap-") ++ suffix
    domainId := d.domainId
    parentId := some parent.id
    scope := childScope
    issuedBy := actor
    policyVersion := parent.policyVersion
    reason := config.reason.getD "attenuation"
    limits := childLimits
    expiresAt := childExpiry config parent now
    epoch := d.epoch
    createdAt := now }

/-- The capability that `attenuate` makes; nothing while the ancestors go in a circle. -/
def attenuatedCapability (fs : FileSystem) (d : ExecutionDomain) (capId : String)
    (narrowerScope : CapabilityScopeInput) (actor : String) (config : AttenuateOptions)
    (suffix : String) (now : Timestamp) : Option (Except KernelError Capability) :=
  if d.isFenced then some (.error (.epochFenced d.domainId d.epoch d.epoch))
  else
    match storedCapability d.store capId with
    | none => some (.error (.capabilityViolation .revoked
        ("Parent capability '" ++ capId ++ "' not found")))
    | some parent =>
      match parentAttenuable d.epoch now parent with
      | .error e => some (.error e)
      | .ok _ =>
        match walkAncestors d.store (ancestorAttenuable d.epoch now) (ancestorFuel d.store)
            parent.parentId with
        | none => none
        | some (.error e) => some (.error e)
        | some (.ok _) => some (childOf fs d parent narrowerScope actor config suffix now)

def revokedEvent (domainId capId actor : String) (now : Timestamp) : EventInput where
  domainId := domainId
  type := "CAPABILITY_REVOKED"
  payload := .obj [("capabilityId", .str capId), ("actor", .str actor), ("revokedAt", ofTime now)]
  timestamp := now

/-! ## Runs -/

/-- What happens to the capabilities of a database. -/
inductive CapabilityStep where
  | issueCapability (args : IssueArguments) (suffix : String) (now : Timestamp)
  | attenuate (capId : String) (narrowerScope : CapabilityScopeInput) (actor : String)
      (config : AttenuateOptions) (suffix : String) (now : Timestamp)
  | revokeCapability (capId actor : String) (now : Timestamp)
  /-- Another domain object, or the same one in another epoch, fenced or not. -/
  | handover (domainId : String) (epoch : Int) (isFenced : Bool) (currentEpoch : Option Int)
  /-- Whatever else is written to the database. -/
  | elsewhere (db : Database)

/-- The store after a call to it, whether it returned or threw. -/
def storing (p : StoreM Unit) (d : ExecutionDomain) : ExecutionDomain :=
  { d with store := (p.run d.store).1 }

def CapabilityStep.after (fs : FileSystem) (step : CapabilityStep) (d : ExecutionDomain) :
    ExecutionDomain :=
  match step with
  | issueCapability args suffix now =>
    match issuedCapability fs d args suffix now with
    | .ok cap => storing (recordNewCapability cap) d
    | .error _ => d
  | attenuate capId narrowerScope actor config suffix now =>
    match attenuatedCapability fs d capId narrowerScope actor config suffix now with
    | some (.ok cap) => storing (recordNewCapability cap) d
    | _ => d
  | revokeCapability capId actor now =>
    if d.isFenced ∨ storedCapability d.store capId = none then d
    else storing (do
      SqliteStore.revokeCapability capId d.domainId now
      recordEvent (revokedEvent d.domainId capId actor now)) d
  | handover domainId epoch isFenced currentEpoch =>
    { d with domainId, epoch, isFenced, store := { d.store with currentEpoch } }
  | elsewhere db =>
    { d with store := { d.store with db := { db with
      capabilities := d.store.db.capabilities } } }

/-! ## A child is narrower than its parent -/

theorem inherited_subset {parent : List String} {requested : Option (List String)}
    {reason : CapabilityViolationReason} {message : String → String}
    (h : refuseOutside reason parent.contains message (inherited parent requested) = .ok ()) :
    ∀ v ∈ inherited parent requested, v ∈ parent := by
  intro v hv
  exact List.contains_iff_mem.1 (refuseOutside_ok_iff.1 h v hv)

theorem refuseWiderWorkspaces_ok {parent : List String} {requested : Option (List String)}
    (h : refuseWiderWorkspaces parent (inherited parent requested) requested = .ok ()) :
    parent = [] ∨ (inherited parent requested ≠ [] ∧
      ∀ w ∈ inherited parent requested, w ∈ parent) := by
  unfold refuseWiderWorkspaces at h
  by_cases hfree : parent = []
  · exact .inl hfree
  rw [if_neg hfree] at h
  split at h
  · cases h
  · rename_i hallowed
    split at h
    · cases h
    · rename_i hkept
      refine .inr ⟨fun hempty => ?_, inherited_subset hallowed⟩
      cases requested with
      | none => exact hfree hempty
      | some => exact hkept (congrArg some (unique_eq_nil_iff.1 hempty))

variable {narrowerScope : CapabilityScopeInput} {cap : Capability} {d : ExecutionDomain}
  {parent : Capability} {actor : String} {config : AttenuateOptions} {suffix : String}
  {now : Timestamp} {s' : SqliteStore}

variable {fs : FileSystem} {child new : Capability} {s : SqliteStore}

/-- What a validated scope keeps of the parent's, where the stored paths are normalized. -/
theorem validateScopeNarrowing_ok {parentScope scope : CapabilityScope}
    (h : validateScopeNarrowing fs parentScope narrowerScope = .ok scope) :
    let parent := normalizeScope fs parentScope.toInput
    (∀ r ∈ scope.exclusive, r ∈ parent.exclusive) ∧ (∀ o ∈ scope.opcodes, o ∈ parent.opcodes) ∧
      (∀ r ∈ scope.secrets, r ∈ parent.secrets) ∧
      (parent.workspaces = [] ∨
        (scope.workspaces ≠ [] ∧ ∀ w ∈ scope.workspaces, w ∈ parent.workspaces)) ∧
      (∀ c ∈ scope.paths, ∃ p ∈ parent.paths, fs.isPathContained p c = true) ∧
      (scope.paths = parent.paths ∨ ∃ requested,
        narrowerScope.paths.or narrowerScope.write = some requested ∧
          scope.paths = normalizePaths fs requested) := by
  intro parent
  unfold validateScopeNarrowing at h
  obtain ⟨hpaths, h⟩ := except_seq_ok_iff.1 h
  obtain ⟨hexclusive, h⟩ := except_seq_ok_iff.1 h
  obtain ⟨hopcodes, h⟩ := except_seq_ok_iff.1 h
  obtain ⟨hworkspaces, h⟩ := except_seq_ok_iff.1 h
  obtain ⟨hsecrets, h⟩ := except_seq_ok_iff.1 h
  cases h
  refine ⟨inherited_subset hexclusive, inherited_subset hopcodes, inherited_subset hsecrets,
    refuseWiderWorkspaces_ok hworkspaces, fun c hc => ?_, ?_⟩
  · exact List.any_eq_true.1 (refuseOutside_ok_iff.1 hpaths c hc)
  · cases hrequested : narrowerScope.paths.or narrowerScope.write with
    | none => exact .inl rfl
    | some requested => exact .inr ⟨requested, rfl, rfl⟩

theorem narrowCapabilityLimits_ok {parent child : CapabilityLimits} {requested : PartialLimits}
    (h : narrowCapabilityLimits parent requested = .ok child) (key : LimitKey) :
    child.get key ≤ parent.get key := by
  unfold narrowCapabilityLimits at h
  obtain ⟨limits, -, h⟩ := except_bind_ok h
  split at h
  · cases h
  · rename_i hnone
    cases h
    rw [List.find?_eq_none] at hnone
    have hkey : key ∈ LimitKey.all := by cases key <;> decide
    simpa using hnone key hkey

/-- The paths of a scope are normalized, so that normalizing them again changes nothing. -/
def SettledPaths (fs : FileSystem) (paths : List String) : Prop :=
  ∀ p ∈ paths, normalizePathPattern fs p = p

theorem settledPaths_normalizePaths {requested : List String}
    (h : ∀ x ∈ requested, normalizePathPattern fs (normalizePathPattern fs x) =
      normalizePathPattern fs x) : SettledPaths fs (normalizePaths fs requested) := by
  intro p hp
  obtain ⟨x, hx, rfl⟩ := mem_normalizePaths.1 hp
  exact h x hx

theorem mem_effectivePaths (h : SettledPaths fs cap.scope.paths) {p : String} :
    p ∈ (cap.effectiveScope fs).paths ↔ p ∈ cap.scope.paths := by
  refine mem_normalizePaths.trans ⟨?_, fun hp => ⟨p, hp, h p hp⟩⟩
  rintro ⟨v, hv, rfl⟩
  rw [h v hv]
  exact hv

/-- The paths that a request for a scope names. -/
def CapabilityScopeInput.requestedPaths (scope : CapabilityScopeInput) : List String :=
  (scope.paths.or scope.write).getD []

/-- The child of a parent with normalized paths is narrower, and its paths are normalized. -/
theorem childOf_narrows
    (h : childOf fs d parent narrowerScope actor config suffix now = .ok child)
    (hdomain : parent.domainId = d.domainId) (hparent : SettledPaths fs parent.scope.paths)
    (hrequested : ∀ x ∈ narrowerScope.requestedPaths,
      normalizePathPattern fs (normalizePathPattern fs x) = normalizePathPattern fs x) :
    Narrows fs child parent ∧ SettledPaths fs child.scope.paths := by
  unfold childOf at h
  obtain ⟨scope, hscope, h⟩ := except_bind_ok h
  obtain ⟨-, h⟩ := except_seq_ok_iff.1 h
  obtain ⟨limits, hlimits, h⟩ := except_bind_ok h
  cases h
  obtain ⟨hexclusive, hopcodes, hsecrets, hworkspaces, hcontained, horigin⟩ :=
    validateScopeNarrowing_ok hscope
  have hsettled : SettledPaths fs scope.paths := by
    rcases horigin with heq | ⟨requested, hreq, heq⟩
    · rw [heq]
      intro p hp
      exact hparent p ((mem_effectivePaths hparent).1 hp)
    · rw [heq]
      refine settledPaths_normalizePaths fun x hx => hrequested x ?_
      unfold CapabilityScopeInput.requestedPaths
      rw [hreq]
      exact hx
  refine ⟨?_, hsettled⟩
  refine
    { domainId := hdomain.symm
      policyVersion := rfl
      expiresAt := ?_
      limits := narrowCapabilityLimits_ok hlimits
      exclusive := fun r hr => hexclusive r (mem_unique.1 hr)
      opcodes := fun o ho => hopcodes o (mem_unique.1 ho)
      secrets := fun r hr => hsecrets r (mem_unique.1 hr)
      workspaces := ?_
      paths := ?_ }
  · show childExpiry config parent now ≤ parent.expiresAt
    unfold childExpiry
    split
    · exact Nat.le_refl _
    · exact Nat.min_le_right _ _
  · rcases hworkspaces with hfree | ⟨hne, hsub⟩
    · exact .inl hfree
    · exact .inr ⟨fun hempty => hne (unique_eq_nil_iff.1 hempty),
        fun w hw => hsub w (mem_unique.1 hw)⟩
  · intro c hc
    exact hcontained c ((mem_effectivePaths hsettled).1 hc)

/-! ## What is kept along a run -/

/-- Every stored capability has normalized paths and is narrower than its parent, which is there,
    and no capability is its own ancestor. -/
structure Attenuated (fs : FileSystem) (s : SqliteStore) : Prop where
  settled : ∀ id cap, storedCapability s id = some cap → SettledPaths fs cap.scope.paths
  narrows : ∀ id cap parentId, storedCapability s id = some cap → cap.parentId = some parentId →
    ∃ parent, storedCapability s parentId = some parent ∧ Narrows fs cap parent
  rooted : ∃ height : String → Nat,
    (∀ id cap, storedCapability s id = some cap → height id < s.db.capabilities.rows.length) ∧
    ∀ id cap parentId, storedCapability s id = some cap → cap.parentId = some parentId →
      height parentId < height id

/-- A capability with another mark of revocation. -/
def marked (at? : Option Timestamp) (cap : Capability) : Capability :=
  { cap with revokedAt := at? }

/-- Revoking capabilities keeps the invariant, and so does whatever leaves them alone. -/
theorem Attenuated.mark (hs : Attenuated fs s) (g : Capability → Option Timestamp)
    (hstored : ∀ id, storedCapability s' id = (storedCapability s id).map fun c => marked (g c) c)
    (hrows : s'.db.capabilities.rows.length = s.db.capabilities.rows.length) :
    Attenuated fs s' := by
  have hback : ∀ id cap, storedCapability s' id = some cap →
      ∃ old, storedCapability s id = some old ∧ cap = marked (g old) old := by
    intro id cap hcap
    rw [hstored] at hcap
    obtain ⟨old, hold, rfl⟩ := Option.map_eq_some_iff.1 hcap
    exact ⟨old, hold, rfl⟩
  refine ⟨?_, ?_, ?_⟩
  · intro id cap hcap
    obtain ⟨old, hold, rfl⟩ := hback id cap hcap
    exact hs.settled id old hold
  · intro id cap parentId hcap hparentId
    obtain ⟨old, hold, rfl⟩ := hback id cap hcap
    obtain ⟨parent, hparent, hnarrows⟩ := hs.narrows id old parentId hold hparentId
    refine ⟨marked (g parent) parent, ?_, hnarrows.revoked _ _⟩
    rw [hstored, hparent]
    rfl
  · obtain ⟨height, hbound, hlower⟩ := hs.rooted
    refine ⟨height, fun id cap hcap => ?_, fun id cap parentId hcap hparentId => ?_⟩
    · obtain ⟨old, hold, -⟩ := hback id cap hcap
      rw [hrows]
      exact hbound id old hold
    · obtain ⟨old, hold, rfl⟩ := hback id cap hcap
      exact hlower id old parentId hold hparentId

theorem Attenuated.congr (hs : Attenuated fs s) (h : s'.db.capabilities = s.db.capabilities) :
    Attenuated fs s' := by
  refine hs.mark Capability.revokedAt (fun id => ?_) (by rw [h])
  have hsame : storedCapability s' id = storedCapability s id := by
    unfold storedCapability getCapability
    rw [h]
  rw [hsame]
  cases storedCapability s id <;> rfl

theorem storedCapability_replace (h : s'.db.capabilities = s.db.capabilities.replace new)
    (id : String) : storedCapability s' id =
      if new.id = id then some (mapCapabilityRow new) else storedCapability s id := by
  unfold storedCapability getCapability
  rw [h, Table.get?_replace]
  split <;> rfl

theorem ne_of_stored {id : String} (hfresh : s.getCapability new.id = none)
    (hcap : storedCapability s id = some cap) : new.id ≠ id := by
  rintro rfl
  unfold storedCapability at hcap
  rw [hfresh] at hcap
  cases hcap

/-- A new capability under a new id keeps the invariant. -/
theorem Attenuated.insert (hs : Attenuated fs s)
    (hfresh : s.getCapability new.id = none) (hsettled : SettledPaths fs new.scope.paths)
    (hparent : ∀ parentId, (mapCapabilityRow new).parentId = some parentId →
      ∃ parent, storedCapability s parentId = some parent ∧
        Narrows fs (mapCapabilityRow new) parent)
    (h : s'.db.capabilities = s.db.capabilities.replace new) : Attenuated fs s' := by
  have hstored := storedCapability_replace h
  have hkept : ∀ id cap, storedCapability s id = some cap → storedCapability s' id = some cap := by
    intro id cap hcap
    rw [hstored, if_neg (ne_of_stored hfresh hcap), hcap]
  refine ⟨?_, ?_, ?_⟩
  · intro id cap hcap
    rw [hstored] at hcap
    split at hcap
    · cases hcap
      exact hsettled
    · exact hs.settled id cap hcap
  · intro id cap parentId hcap hparentId
    rw [hstored] at hcap
    split at hcap
    · cases hcap
      obtain ⟨parent, hpar, hnarrows⟩ := hparent parentId hparentId
      exact ⟨parent, hkept _ _ hpar, hnarrows⟩
    · obtain ⟨parent, hpar, hnarrows⟩ := hs.narrows id cap parentId hcap hparentId
      exact ⟨parent, hkept _ _ hpar, hnarrows⟩
  · -- the new row is the last, above all others
    obtain ⟨height, hbound, hlower⟩ := hs.rooted
    have hlength : s'.db.capabilities.rows.length = s.db.capabilities.rows.length + 1 := by
      rw [h, Table.replace_rows hfresh, List.length_append]
      rfl
    have hold : ∀ id cap, storedCapability s id = some cap →
        Function.update height new.id s.db.capabilities.rows.length id = height id := by
      intro id cap hcap
      exact Function.update_of_ne (ne_of_stored hfresh hcap).symm _ _
    refine ⟨Function.update height new.id s.db.capabilities.rows.length,
      fun id cap hcap => ?_, fun id cap parentId hcap hparentId => ?_⟩
    · rw [hstored] at hcap
      split at hcap
      · rename_i heq
        rw [← heq, Function.update_self]
        omega
      · rw [hold id cap hcap]
        have := hbound id cap hcap
        omega
    · rw [hstored] at hcap
      split at hcap
      · rename_i heq
        cases hcap
        obtain ⟨parent, hpar, -⟩ := hparent parentId hparentId
        rw [← heq, Function.update_self, hold parentId parent hpar]
        exact hbound parentId parent hpar
      · obtain ⟨parent, hpar, -⟩ := hs.narrows id cap parentId hcap hparentId
        rw [hold id cap hcap, hold parentId parent hpar]
        exact hlower id cap parentId hcap hparentId

/-! ## One step -/

theorem recordEvent_capabilities (e : EventInput) (s : SqliteStore) :
    ((recordEvent e).run s).1.db.capabilities = s.db.capabilities := by
  rcases hrun : (recordEvent e).run s with ⟨s', err | u⟩
  · rw [atomic_recordEvent e s s' err hrun]
  · obtain ⟨row, rfl⟩ := (recordEvent_ok hrun).frame
    rfl

theorem recordNewCapability_capabilities (cap : Capability) (s : SqliteStore) :
    ((recordNewCapability cap).run s).1.db.capabilities = s.db.capabilities ∨
      ((recordNewCapability cap).run s).1.db.capabilities = s.db.capabilities.replace cap := by
  unfold recordNewCapability recordCapability verifyEpochFencing
  simp only [run_bind, run_check]
  cases epochFencing cap.domainId s with
  | error => exact .inl rfl
  | ok => exact .inr (recordEvent_capabilities _ _)

/-- A capability that a domain revokes, where it is its own. -/
def revokedRow (capId domainId : String) (now : Timestamp) (cap : Capability) : Option Timestamp :=
  if cap.id = capId && cap.domainId = domainId then some now else cap.revokedAt

/-- Revoking only marks, and takes no mark away. -/
theorem revoke_marks (capId domainId : String) (now : Timestamp) (e : EventInput)
    (s : SqliteStore) : ∃ g : Capability → Option Timestamp,
      let s' := ((do revokeCapability capId domainId now
                     recordEvent e : StoreM Unit).run s).1
      (∀ id, storedCapability s' id = (storedCapability s id).map fun c => marked (g c) c) ∧
        s'.db.capabilities.rows.length = s.db.capabilities.rows.length ∧
        ∀ c, c.revokedAt ≠ none → g c ≠ none := by
  unfold revokeCapability verifyEpochFencing
  simp only [run_bind, run_check]
  cases epochFencing domainId s with
  | error =>
    refine ⟨Capability.revokedAt, fun id => ?_, rfl, fun _ => id⟩
    simp only
    cases storedCapability s id <;> rfl
  | ok =>
    simp only [run_modify]
    refine ⟨revokedRow capId domainId now, fun id => ?_, ?_, fun c hc => ?_⟩
    · unfold storedCapability getCapability
      rw [recordEvent_capabilities, withDb_db, Table.get?_updateWhere, Option.map_map,
        Option.map_map]
      congr 1
      funext row
      simp only [Function.comp]
      unfold revokedRow
      by_cases hrow : (row.id = capId && row.domainId = domainId) = true
      · rw [if_pos hrow]
        show _ = marked (if (row.id = capId && row.domainId = domainId) = true then _ else _) _
        rw [if_pos hrow]
        rfl
      · rw [if_neg hrow]
        show _ = marked (if (row.id = capId && row.domainId = domainId) = true then _ else _) _
        rw [if_neg hrow]
        rfl
    · rw [recordEvent_capabilities]
      exact List.length_map ..
    · unfold revokedRow
      split
      · exact Option.some_ne_none now
      · exact hc

/-- The steps that keep attenuation honest: what is normalized once stays as it is, a domain
    attenuates its own capabilities, and generated ids are new. -/
def CapabilityStep.Plain (fs : FileSystem) (d : ExecutionDomain) : CapabilityStep → Prop
  | issueCapability args suffix _ =>
    d.store.getCapability (args.idPrefix ++ suffix) = none ∧
      ∀ x ∈ args.scope.requestedPaths,
        normalizePathPattern fs (normalizePathPattern fs x) = normalizePathPattern fs x
  | attenuate capId narrowerScope _ _ suffix _ =>
    (∀ idPrefix ∈ ["cap:", "cap-"], d.store.getCapability (idPrefix ++ suffix) = none) ∧
      (∀ parent, storedCapability d.store capId = some parent → parent.domainId = d.domainId) ∧
      ∀ x ∈ narrowerScope.requestedPaths,
        normalizePathPattern fs (normalizePathPattern fs x) = normalizePathPattern fs x
  | _ => True

/-- A stored capability has a policy version. -/
theorem storedCapability_policyVersion {id : String} (h : storedCapability s id = some cap) :
    cap.policyVersion ≠ "" := by
  obtain ⟨row, -, rfl⟩ := Option.map_eq_some_iff.1 h
  show (if row.policyVersion = "" then "legacy/0" else row.policyVersion) ≠ ""
  split
  · decide
  · assumption

theorem storedCapability_id {id : String} (h : storedCapability s id = some cap) : cap.id = id := by
  obtain ⟨row, hrow, rfl⟩ := Option.map_eq_some_iff.1 h
  have hkey := Table.key_of_get? (t := s.db.capabilities) hrow
  exact hkey

/-- Reading a child back from the store does not widen it. -/
theorem Narrows.mapped (h : Narrows fs child parent) (hpolicy : parent.policyVersion ≠ "") :
    Narrows fs (mapCapabilityRow child) parent := by
  refine ⟨h.domainId, ?_, h.expiresAt, h.limits, h.exclusive, h.opcodes, h.secrets, h.workspaces,
    h.paths⟩
  show (if child.policyVersion = "" then "legacy/0" else child.policyVersion) = _
  rw [if_neg (h.policyVersion ▸ hpolicy)]
  exact h.policyVersion

theorem issuedCapability_ok {args : IssueArguments}
    (h : issuedCapability fs d args suffix now = .ok cap) :
    cap.id = args.idPrefix ++ suffix ∧ cap.parentId = none ∧
      cap.scope = normalizeScope fs args.scope := by
  unfold issuedCapability at h
  split at h
  · cases h
  split at h
  · cases h
  split at h
  · cases h
  · obtain ⟨limits, -, h⟩ := except_bind_ok h
    cases h
    exact ⟨rfl, rfl, rfl⟩

theorem attenuatedCapability_ok {capId : String}
    (h : attenuatedCapability fs d capId narrowerScope actor config suffix now = some (.ok cap)) :
    ∃ parent, storedCapability d.store capId = some parent ∧
      childOf fs d parent narrowerScope actor config suffix now = .ok cap := by
  unfold attenuatedCapability at h
  split at h
  · cases h
  split at h
  · cases h
  · rename_i parent hparent
    split at h
    · cases h
    split at h
    · cases h
    · cases h
    · exact ⟨parent, hparent, Option.some.inj h⟩

theorem childOf_ids (h : childOf fs d parent narrowerScope actor config suffix now = .ok child) :
    (∃ idPrefix ∈ ["cap:", "cap-"], child.id = idPrefix ++ suffix) ∧
      child.parentId = some parent.id := by
  unfold childOf at h
  obtain ⟨scope, -, h⟩ := except_bind_ok h
  obtain ⟨-, h⟩ := except_seq_ok_iff.1 h
  obtain ⟨limits, -, h⟩ := except_bind_ok h
  cases h
  refine ⟨⟨_, ?_, rfl⟩, rfl⟩
  split <;> decide

theorem CapabilityStep.attenuated (step : CapabilityStep) (hs : Attenuated fs d.store)
    (hplain : step.Plain fs d) : Attenuated fs (step.after fs d).store := by
  cases step with
  | issueCapability args suffix now =>
    simp only [CapabilityStep.after]
    split
    · rename_i cap hcap
      obtain ⟨hid, hroot, hscope⟩ := issuedCapability_ok hcap
      rcases recordNewCapability_capabilities cap d.store with hsame | hnew
      · exact hs.congr hsame
      · refine hs.insert (hid ▸ hplain.1) ?_ (fun parentId hparentId => ?_) hnew
        · rw [hscope]
          refine settledPaths_normalizePaths fun x hx => hplain.2 x ?_
          unfold CapabilityScopeInput.requestedPaths
          cases hpaths : args.scope.paths with
          | none | some =>
            rw [hpaths] at hx
            exact hx
        · rw [show (mapCapabilityRow cap).parentId = nonEmpty cap.parentId from rfl, hroot]
            at hparentId
          cases hparentId
    · exact hs
  | attenuate capId =>
    simp only [CapabilityStep.after]
    split
    · rename_i cap hcap
      obtain ⟨parent, hparent, hchild⟩ := attenuatedCapability_ok hcap
      obtain ⟨⟨idPrefix, hprefix, hid⟩, hparentId⟩ := childOf_ids hchild
      obtain ⟨hnarrows, hsettled⟩ := childOf_narrows hchild (hplain.2.1 parent hparent)
        (hs.settled capId parent hparent) hplain.2.2
      rcases recordNewCapability_capabilities cap d.store with hsame | hnew
      · exact hs.congr hsame
      · refine hs.insert (hid ▸ hplain.1 idPrefix hprefix) hsettled
          (fun parentId hmapped => ?_) hnew
        rw [show (mapCapabilityRow cap).parentId = nonEmpty cap.parentId from rfl, hparentId]
          at hmapped
        obtain ⟨-, rfl⟩ := nonEmpty_some_eq hmapped
        refine ⟨parent, ?_, hnarrows.mapped (storedCapability_policyVersion hparent)⟩
        rw [storedCapability_id hparent]
        exact hparent
    · exact hs
  | revokeCapability capId actor now =>
    simp only [CapabilityStep.after]
    split
    · exact hs
    · obtain ⟨g, hstored, hrows, -⟩ := revoke_marks capId d.domainId now _ d.store
      exact hs.mark g hstored hrows
  | handover | elsewhere => exact hs.congr rfl

/-! ## Every chain -/

/-- The request is admitted at a time, with a result. -/
def Accepts (fs : FileSystem) (s : SqliteStore) (now : Timestamp)
    (options : CheckCapabilityAdmissionOptions) (result : CapabilityAdmissionResult) : Prop :=
  ((checkCapabilityAdmission fs now options).run s).2 = .ok (some result)

def Rejects (fs : FileSystem) (s : SqliteStore) (now : Timestamp)
    (options : CheckCapabilityAdmissionOptions) : Prop :=
  ∃ e, ((checkCapabilityAdmission fs now options).run s).2 = .error e

/-- Authority only shrinks along the chains of a store: what the end of a chain admits each of its
    ancestors admits and covers, and a spoiled ancestor spoils the end. -/
structure MonotoneChains (fs : FileSystem) (s : SqliteStore) : Prop where
  accepted : ∀ leafId leaf ancestorId, storedCapability s leafId = some leaf →
    Ancestor s leaf.parentId ancestorId → ∀ now options narrow, options.capabilityId = leafId →
      Accepts fs s now options narrow →
        ∃ wide, Accepts fs s now (options.for ancestorId) wide ∧ Covered fs narrow wide
  bounded : ∀ leafId leaf ancestorId, storedCapability s leafId = some leaf →
    Ancestor s leaf.parentId ancestorId → ∃ ancestor,
      storedCapability s ancestorId = some ancestor ∧ leaf.expiresAt ≤ ancestor.expiresAt ∧
        ∀ key, leaf.limits.get key ≤ ancestor.limits.get key
  spoiled : ∀ leafId leaf ancestorId, storedCapability s leafId = some leaf →
    Ancestor s leaf.parentId ancestorId → ∀ now options, options.capabilityId = leafId →
      Spoiled options.currentEpoch now (storedCapability s ancestorId) → Rejects fs s now options

/-- Journaling a rejection does not change the answer. -/
theorem checkCapabilityAdmission_answer (fs : FileSystem) (s : SqliteStore) (now : Timestamp)
    (options : CheckCapabilityAdmissionOptions) :
    ((checkCapabilityAdmission fs now options).run s).2 =
      match admission fs s now options with
      | none => .ok none
      | some (.ok result) => .ok (some result)
      | some (.error e) => .error e := by
  unfold checkCapabilityAdmission
  rw [run_bind, run_read]
  simp only
  rcases admission fs s now options with _ | e | result
  · rfl
  · cases e with
    | capabilityViolation reason message =>
      obtain ⟨s', u, hrun⟩ := run_tryCatch_pure
        (recordEvent (rejectedEvent options reason message now)) () s
      simp only
      rw [run_bind, hrun]
      rfl
    | _ => rfl
  · rfl

theorem accepts_iff {options : CheckCapabilityAdmissionOptions}
    {result : CapabilityAdmissionResult} :
    Accepts fs s now options result ↔ admission fs s now options = some (.ok result) := by
  unfold Accepts
  rw [checkCapabilityAdmission_answer]
  rcases admission fs s now options with _ | e | result' <;> simp

theorem rejects_iff {options : CheckCapabilityAdmissionOptions} :
    Rejects fs s now options ↔ ∃ e, admission fs s now options = some (.error e) := by
  unfold Rejects
  rw [checkCapabilityAdmission_answer]
  rcases admission fs s now options with _ | e | result' <;> simp

/-- A check comes to an end. -/
theorem Attenuated.admission_returns (hs : Attenuated fs s) (now : Timestamp)
    (options : CheckCapabilityAdmissionOptions) :
    ∃ answer, admission fs s now options = some answer := by
  unfold admission
  cases hcap : storedCapability s options.capabilityId with
  | none => exact ⟨_, rfl⟩
  | some cap =>
    simp only
    cases capabilityAdmissible options now cap with
    | error e => exact ⟨_, rfl⟩
    | ok u =>
      obtain ⟨height, hbound, hlower⟩ := hs.rooted
      have hfuel : ∀ id, cap.parentId = some id → height id < ancestorFuel s := by
        intro parentId hparentId
        obtain ⟨parent, hparent, -⟩ := hs.narrows _ cap parentId hcap hparentId
        exact Nat.lt_succ_of_lt (hbound parentId parent hparent)
      obtain ⟨r, hwalk⟩ : ∃ r, walkAncestors s (ancestorAdmissible options.currentEpoch now)
          (ancestorFuel s) cap.parentId = some r := walkAncestors_returns hlower hfuel
      simp only
      rw [hwalk]
      cases r <;> exact ⟨_, rfl⟩

theorem Attenuated.narrows_ancestor (hs : Attenuated fs s) {leafId : String} {leaf : Capability}
    (hleaf : storedCapability s leafId = some leaf) {ancestorId : String}
    (h : Ancestor s leaf.parentId ancestorId) :
    ∃ ancestor, storedCapability s ancestorId = some ancestor ∧ Narrows fs leaf ancestor := by
  generalize hnext : leaf.parentId = next at h
  induction h generalizing leafId leaf with
  | here id => exact hs.narrows leafId leaf id hleaf hnext
  | up hcap habove ih =>
    obtain ⟨parent, hparent, hnarrows⟩ := hs.narrows leafId leaf _ hleaf hnext
    rw [hcap, Option.some.injEq] at hparent
    subst hparent
    obtain ⟨ancestor, hancestor, hrest⟩ := ih hcap rfl
    exact ⟨ancestor, hancestor, hnarrows.trans hrest⟩

theorem Attenuated.monotoneChains (hs : Attenuated fs s) : MonotoneChains fs s := by
  refine ⟨?_, ?_, ?_⟩
  · rintro leafId leaf ancestorId hleaf hancestor now options narrow rfl haccepted
    obtain ⟨ancestor, hstored, hnarrows⟩ := hs.narrows_ancestor hleaf hancestor
    obtain ⟨wide, hwide, hcovered⟩ := admission_of_ancestor hleaf (accepts_iff.1 haccepted)
      hancestor fun cap hcap => by
        rw [hstored, Option.some.injEq] at hcap
        exact hcap ▸ hnarrows
    exact ⟨wide, accepts_iff.2 hwide, hcovered⟩
  · intro leafId leaf ancestorId hleaf hancestor
    obtain ⟨ancestor, hstored, hnarrows⟩ := hs.narrows_ancestor hleaf hancestor
    exact ⟨ancestor, hstored, hnarrows.expiresAt, hnarrows.limits⟩
  · rintro leafId leaf ancestorId hleaf hancestor now options rfl hspoiled
    obtain ⟨answer, hanswer⟩ := hs.admission_returns now options
    cases answer with
    | error e => exact rejects_iff.2 ⟨e, hanswer⟩
    | ok result => exact absurd hanswer (not_admitted_of_spoiled hleaf hancestor hspoiled result)

theorem monotoneChains_along {fs : FileSystem} {d : ExecutionDomain}
    (hempty : d.store.db.capabilities = Table.empty) {steps : List CapabilityStep}
    (h : Along (CapabilityStep.after fs) (fun d step => step.Plain fs d) d steps) :
    MonotoneChains fs (afterAll (CapabilityStep.after fs) d steps).store := by
  have hnone : ∀ id, storedCapability d.store id = none := by
    intro id
    unfold storedCapability getCapability
    rw [hempty]
    rfl
  have hstart : Attenuated fs d.store := by
    refine ⟨fun id cap hcap => ?_, fun id cap parentId hcap => ?_, fun _ => 0,
      fun id cap hcap => ?_, fun id cap parentId hcap => ?_⟩ <;>
    · rw [hnone] at hcap
      cases hcap
  have hrun : Attenuated fs d.store →
      Attenuated fs (afterAll (CapabilityStep.after fs) d steps).store :=
    h.relates (R := fun (d d' : ExecutionDomain) => Attenuated fs d.store → Attenuated fs d'.store)
      (fun _ => id)
      (fun _ _ _ hab hbc hs => hbc (hab hs)) fun _ step hplain hs => step.attenuated hs hplain
  exact (hrun hstart).monotoneChains

/-! ## A route directory -/

/-- A file system without links, seen from a working directory. -/
def plainFiles (cwd : Path) : FileSystem where
  cwd := cwd
  realpathSync := some
  existsSync := fun _ => true

theorem plainFiles_settled {cwd : Path} (h : ∀ name ∈ cwd, ProperName name) :
    (plainFiles cwd).Settled :=
  FileSystem.settled_of_realPath h (fun _ hpath => hpath) fun _ _ => rfl

/-- A domain in its first epoch, without capabilities. -/
def firstEpoch : ExecutionDomain where
  domainId := "d"
  store := { db := Database.sample, currentEpoch := some 1 }
  epoch := 1

/-- A capability on `/a`, and a child of it on the given path. -/
def childOn (path : String) : List CapabilityStep := [
  .issueCapability (.legacy { paths := some ["/a"] } "agent" none) "1" 1,
  .attenuate "cap-1" { paths := some [path] } "agent" {} "2" 1]

/-- A child on a directory below `/a`, where no name holds a wildcard. -/
theorem child_below_parent :
    MonotoneChains (plainFiles ["a"])
      (afterAll (CapabilityStep.after (plainFiles ["a"])) firstEpoch (childOn "b")).store := by
  refine monotoneChains_along rfl ⟨⟨by decide, by decide⟩, ⟨?_, ?_, by decide⟩, trivial⟩
  · decide +kernel
  · have hdomains : ∀ row ∈ (CapabilityStep.after (plainFiles ["a"])
        (.issueCapability (.legacy { paths := some ["/a"] } "agent" none) "1" 1)
        firstEpoch).store.db.capabilities.rows, row.domainId = "d" := by decide +kernel
    rintro parent hparent
    obtain ⟨row, hrow, rfl⟩ := Option.map_eq_some_iff.1 hparent
    exact hdomains row (Table.mem_of_get? hrow)

/-- A request to write next to `/a`. -/
def outside (capabilityId : String) : CheckCapabilityAdmissionOptions where
  domainId := "d"
  currentEpoch := 1
  capabilityId := capabilityId
  mutationRoots := some ["/a[b]/f"]

/-- The working directory is named as the routes of a web project are, and the child asks for
    it. -/
theorem child_leaves_parent :
    (plainFiles ["a", "[b]"]).Settled ∧ firstEpoch.store.db.capabilities = Table.empty ∧
      ¬ MonotoneChains (plainFiles ["a", "[b]"])
        (afterAll (CapabilityStep.after (plainFiles ["a", "[b]"])) firstEpoch
          (childOn ".")).store := by
  have hproper : ∀ name ∈ ["a", "[b]"], ProperName name := by
    unfold ProperName
    decide
  refine ⟨plainFiles_settled hproper, rfl, fun hmono => ?_⟩
  have hfacts : ∀ s, s = (afterAll (CapabilityStep.after (plainFiles ["a", "[b]"])) firstEpoch
      (childOn ".")).store →
      (storedCapability s "cap-2").map Capability.parentId = some (some "cap-1") ∧
      (admission (plainFiles ["a", "[b]"]) s 2 (outside "cap-2")).map Except.isOk = some true ∧
      (admission (plainFiles ["a", "[b]"]) s 2 (outside "cap-1")).map Except.isOk =
        some false := by
    rintro s rfl
    decide +kernel
  obtain ⟨hchild, hadmits, hrefuses⟩ := hfacts _ rfl
  obtain ⟨leaf, hleaf, hparent⟩ := Option.map_eq_some_iff.1 hchild
  obtain ⟨answer, hanswer, hok⟩ := Option.map_eq_some_iff.1 hadmits
  cases answer with
  | error => cases hok
  | ok narrow =>
    have habove := Ancestor.here (s := (afterAll (CapabilityStep.after (plainFiles ["a", "[b]"]))
      firstEpoch (childOn ".")).store) "cap-1"
    obtain ⟨wide, hwide, -⟩ := hmono.accepted "cap-2" leaf "cap-1" hleaf (hparent ▸ habove) 2
      (outside "cap-2") narrow rfl (accepts_iff.2 hanswer)
    rw [show (outside "cap-2").for "cap-1" = outside "cap-1" from rfl, accepts_iff] at hwide
    rw [hwide] at hrefuses
    cases hrefuses

/-! ## Revocation -/

/-- The ids that a step generates are new. -/
def CapabilityStep.Fresh (d : ExecutionDomain) : CapabilityStep → Prop
  | issueCapability args suffix _ => d.store.getCapability (args.idPrefix ++ suffix) = none
  | attenuate _ _ _ _ suffix _ =>
    ∀ idPrefix ∈ ["cap:", "cap-"], d.store.getCapability (idPrefix ++ suffix) = none
  | _ => True

def Revoked (id : String) (d : ExecutionDomain) : Prop :=
  ∃ cap, storedCapability d.store id = some cap ∧ cap.revokedAt ≠ none

theorem CapabilityStep.revoked {id : String} (step : CapabilityStep) (h : Revoked id d)
    (hfresh : step.Fresh d) : Revoked id (step.after fs d) := by
  have hsame := h
  obtain ⟨cap, hcap, hrevoked⟩ := h
  have hrecord : ∀ new : Capability, d.store.getCapability new.id = none →
      Revoked id (storing (recordNewCapability new) d) := by
    intro new hnew
    refine ⟨cap, ?_, hrevoked⟩
    rcases recordNewCapability_capabilities new d.store with heq | heq
    · exact (congrArg (fun t => (t.get? id).map mapCapabilityRow) heq).trans hcap
    · exact (storedCapability_replace heq id).trans
        ((if_neg (ne_of_stored hnew hcap)).trans hcap)
  cases step with
  | issueCapability args suffix now =>
    simp only [CapabilityStep.after]
    split
    · rename_i new hnew
      exact hrecord new ((issuedCapability_ok hnew).1 ▸ hfresh)
    · exact hsame
  | attenuate capId =>
    simp only [CapabilityStep.after]
    split
    · rename_i new hnew
      obtain ⟨parent, -, hchild⟩ := attenuatedCapability_ok hnew
      obtain ⟨⟨idPrefix, hprefix, hid⟩, -⟩ := childOf_ids hchild
      exact hrecord new (hid ▸ hfresh idPrefix hprefix)
    · exact hsame
  | revokeCapability capId actor now =>
    simp only [CapabilityStep.after]
    split
    · exact hsame
    · obtain ⟨g, hstored, -, hkept⟩ := revoke_marks capId d.domainId now
        (revokedEvent d.domainId capId actor now) d.store
      exact ⟨marked (g cap) cap, (hstored id).trans (by rw [hcap]; rfl), hkept cap hrevoked⟩
  | handover | elsewhere => exact hsame

/-- Neither the capability nor one that descends from it is admitted. -/
def Barred (fs : FileSystem) (id : String) (s : SqliteStore) : Prop :=
  ∀ leafId leaf, storedCapability s leafId = some leaf →
    leafId = id ∨ Ancestor s leaf.parentId id → ∀ now options result,
      options.capabilityId = leafId → ¬ Accepts fs s now options result

/-- Whatever is issued, attenuated, revoked or taken over in another epoch later. -/
theorem revocation_isFinal {fs : FileSystem} {d : ExecutionDomain} {id : String}
    (hrevoked : Revoked id d) {steps : List CapabilityStep}
    (h : Along (CapabilityStep.after fs) CapabilityStep.Fresh d steps) :
    Barred fs id (afterAll (CapabilityStep.after fs) d steps).store := by
  rintro leafId leaf hleaf hbelow now options result rfl haccepts
  obtain ⟨cap, hcap, hmark⟩ := h.invariant
    (fun d step hd hfresh => step.revoked hd hfresh) hrevoked
  have hadmitted := accepts_iff.1 haccepts
  rcases hbelow with rfl | habove
  · obtain ⟨_, hstored, hadmissible, -⟩ := admission_ok_iff.1 hadmitted
    rw [hcap, Option.some.injEq] at hstored
    exact hmark (hstored ▸ (capabilityAdmissible_ok_iff.1 hadmissible).2.2.2.1)
  · refine not_admitted_of_spoiled hleaf habove (fun c hc => .inl ?_) result hadmitted
    rw [hcap, Option.some.injEq] at hc
    exact hc ▸ hmark

/-- A parent and its child, after the parent is revoked. -/
def revokedParent : ExecutionDomain :=
  afterAll (CapabilityStep.after (plainFiles ["a"])) firstEpoch
    (childOn "b" ++ [.revokeCapability "cap-1" "agent" 2])

theorem revokedParent_barred : Barred (plainFiles ["a"]) "cap-1"
    (afterAll (CapabilityStep.after (plainFiles ["a"])) revokedParent
      [.handover "d" 2 false (some 2)]).store := by
  have hmarked : (storedCapability revokedParent.store "cap-1").map Capability.revokedAt =
      some (some 2) := by decide +kernel
  obtain ⟨cap, hcap, hmark⟩ := Option.map_eq_some_iff.1 hmarked
  exact revocation_isFinal ⟨cap, hcap, by rw [hmark]; nofun⟩ ⟨trivial, trivial⟩

end XioFlow
