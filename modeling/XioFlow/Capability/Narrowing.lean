/-
  XioFlow.Capability.Narrowing

  When one capability is narrower than another, and what follows for requests:
  whatever the narrower one admits, the wider one admits.
-/

import XioFlow.Capability.Check
import XioFlow.Lib.Outcome

namespace XioFlow

open Lib

/-! ## Single checks -/

variable {values : List String} {now : Timestamp} {ancestorId : String}

theorem refuseOutside_ok_iff {reason : CapabilityViolationReason} {allowed : String → Bool}
    {message : String → String} :
    refuseOutside reason allowed message values = .ok () ↔ ∀ v ∈ values, allowed v = true := by
  unfold refuseOutside
  split
  · rename_i value hfind
    have hmem := List.mem_of_find?_eq_some hfind
    have hnot := List.find?_some hfind
    constructor
    · intro h
      cases h
    · intro h
      rw [h value hmem] at hnot
      cases hnot
  · rename_i hfind
    rw [List.find?_eq_none] at hfind
    exact ⟨fun _ v hv => by simpa using hfind v hv, fun _ => rfl⟩

theorem mem_unique {v : String} : v ∈ unique values ↔ v ∈ values :=
  List.mem_eraseDups

theorem mem_normalizePaths {fs : FileSystem} {p : String} :
    p ∈ normalizePaths fs values ↔ ∃ v ∈ values, normalizePathPattern fs v = p := by
  unfold normalizePaths
  rw [mem_unique, List.mem_map]

theorem unique_eq_nil_iff : unique values = [] ↔ values = [] := by
  constructor
  · intro h
    cases values with
    | nil => rfl
    | cons v values =>
      have hmem : v ∈ unique (v :: values) := mem_unique.2 List.mem_cons_self
      rw [h] at hmem
      cases hmem
  · rintro rfl
    rfl

/-! ## Narrower capabilities -/

/-- The scope a capability is used under. -/
def Capability.effectiveScope (fs : FileSystem) (cap : Capability) : CapabilityScope :=
  normalizeScope fs cap.scope.toInput

/-- In each dimension the child has at most what the parent has. -/
structure Narrows (fs : FileSystem) (child parent : Capability) : Prop where
  domainId : child.domainId = parent.domainId
  policyVersion : child.policyVersion = parent.policyVersion
  expiresAt : child.expiresAt ≤ parent.expiresAt
  limits : ∀ key, child.limits.get key ≤ parent.limits.get key
  exclusive : ∀ r ∈ (child.effectiveScope fs).exclusive, r ∈ (parent.effectiveScope fs).exclusive
  opcodes : ∀ o ∈ (child.effectiveScope fs).opcodes, o ∈ (parent.effectiveScope fs).opcodes
  secrets : ∀ r ∈ (child.effectiveScope fs).secrets, r ∈ (parent.effectiveScope fs).secrets
  /-- No workspaces at all is no restriction. -/
  workspaces : (parent.effectiveScope fs).workspaces = [] ∨
    (child.effectiveScope fs).workspaces ≠ [] ∧
      ∀ w ∈ (child.effectiveScope fs).workspaces, w ∈ (parent.effectiveScope fs).workspaces
  paths : ∀ c ∈ (child.effectiveScope fs).paths,
    ∃ p ∈ (parent.effectiveScope fs).paths, fs.isPathContained p c = true

variable {fs : FileSystem}

theorem Narrows.trans {a b c : Capability} (hab : Narrows fs a b) (hbc : Narrows fs b c) :
    Narrows fs a c where
  domainId := hab.domainId.trans hbc.domainId
  policyVersion := hab.policyVersion.trans hbc.policyVersion
  expiresAt := Nat.le_trans hab.expiresAt hbc.expiresAt
  limits key := Nat.le_trans (hab.limits key) (hbc.limits key)
  exclusive r hr := hbc.exclusive r (hab.exclusive r hr)
  opcodes o ho := hbc.opcodes o (hab.opcodes o ho)
  secrets r hr := hbc.secrets r (hab.secrets r hr)
  workspaces := by
    rcases hbc.workspaces with hfree | ⟨hne, hsub⟩
    · exact .inl hfree
    rcases hab.workspaces with hfree | ⟨hne', hsub'⟩
    · exact absurd hfree hne
    · exact .inr ⟨hne', fun w hw => hsub w (hsub' w hw)⟩
  paths := by
    intro p hp
    obtain ⟨q, hq, hpq⟩ := hab.paths p hp
    obtain ⟨r, hr, hqr⟩ := hbc.paths q hq
    exact ⟨r, hr, fs.isPathContained_trans hqr hpq⟩

/-- Revoking changes nothing that narrowing compares. -/
theorem Narrows.revoked {child parent : Capability} (h : Narrows fs child parent)
    (at₁ at₂ : Option Timestamp) :
    Narrows fs { child with revokedAt := at₁ } { parent with revokedAt := at₂ } :=
  ⟨h.domainId, h.policyVersion, h.expiresAt, h.limits, h.exclusive, h.opcodes, h.secrets,
    h.workspaces, h.paths⟩

/-! ## What a request must meet -/

variable {options : CheckCapabilityAdmissionOptions} {scope : CapabilityScope} {s : SqliteStore}

theorem scopeAdmissible_ok_iff : scopeAdmissible options scope = .ok () ↔
      (∀ opcode, options.opcode = some opcode → opcode ∈ scope.opcodes) ∧
      (∀ workspace, options.workspace = some workspace →
        scope.workspaces = [] ∨ workspace ∈ scope.workspaces) ∧
      ∀ secret ∈ options.secretRefs.getD [], secret ∈ scope.secrets := by
  unfold scopeAdmissible
  simp only [except_seq_ok_iff, refuseOutside_ok_iff, List.contains_iff_mem, Option.mem_toList,
    Bool.or_eq_true, List.isEmpty_iff]

theorem any_le_eq_false_iff {limit : Nat} {c : Option Nat} :
    (c.any fun n => decide (limit ≤ n)) = false ↔ ∀ n, c = some n → n < limit := by
  cases c with
  | none => simp
  | some => simp

theorem limitsAdmissible_ok_iff {limits : CapabilityLimits} :
    limitsAdmissible options limits = .ok () ↔
      (∀ key value, options.requestedLimits key = some value →
        value.exceeds (limits.get key) = false) ∧
      (∀ current, options.currentConcurrentOps = some current → current < limits.concurrentOps) ∧
      (options.opcode = some "proc.spawn" → ∀ current, options.currentProcesses = some current →
        current < limits.processes) := by
  have hall : ∀ key, key ∈ LimitKey.all := by
    intro key
    cases key <;> decide
  unfold limitsAdmissible
  simp only
  split
  · rename_i key requested hover
    constructor
    · intro h
      cases h
    · rintro ⟨hlimits, -⟩
      obtain ⟨key', -, hkey⟩ := List.exists_of_findSome?_eq_some hover
      obtain ⟨value, hvalue, -⟩ := Option.map_eq_some_iff.1 hkey
      rw [Option.filter_eq_some_iff] at hvalue
      rw [hlimits key' value hvalue.1] at hvalue
      cases hvalue.2
  · rename_i hover
    rw [List.findSome?_eq_none_iff] at hover
    have hlimits : ∀ key value, options.requestedLimits key = some value →
        value.exceeds (limits.get key) = false := by
      intro key value hvalue
      have hnone := hover key (hall key)
      rw [hvalue, Option.map_eq_none_iff, Option.filter_eq_none_iff] at hnone
      simpa using hnone
    rw [← any_le_eq_false_iff (c := options.currentConcurrentOps)]
    cases options.currentConcurrentOps.any fun n => decide (limits.concurrentOps ≤ n) with
    | true => simp
    | false =>
      simp only [Bool.false_eq_true, if_false, true_and]
      by_cases hspawn : options.opcode = some "proc.spawn"
      · rw [← any_le_eq_false_iff (c := options.currentProcesses)]
        cases options.currentProcesses.any fun n => decide (limits.processes ≤ n) with
        | true => simp [hspawn]
        | false => simpa [hspawn] using hlimits
      · simpa [hspawn] using hlimits

theorem LimitValue.exceeds_mono {value : LimitValue} {limit limit' : Nat} (h : limit ≤ limit')
    (hchild : value.exceeds limit = false) : value.exceeds limit' = false := by
  cases value with
  | finite =>
    unfold LimitValue.exceeds at hchild ⊢
    rw [decide_eq_false_iff_not, Rat.not_lt] at hchild ⊢
    exact Rat.le_trans hchild (Rat.natCast_le_natCast.2 h)
  | infinity => cases hchild
  | undefined => rfl
  | other => rfl

/-- The effective lists of a request: its own when it has one, inside the scope, else all of it. -/
theorem effectiveResources_ok_iff {resources : List String} :
    effectiveResources options scope = .ok resources ↔
      (options.requiredResources.getD [] = [] ∧ resources = scope.exclusive) ∨
      (options.requiredResources.getD [] ≠ [] ∧ resources = options.requiredResources.getD [] ∧
        ∀ r ∈ resources, r ∈ scope.exclusive) := by
  unfold effectiveResources
  cases options.requiredResources.getD [] with
  | nil =>
    constructor
    · intro h
      cases h
      exact .inl ⟨rfl, rfl⟩
    · rintro (⟨-, rfl⟩ | ⟨hne, -⟩)
      · rfl
      · exact absurd rfl hne
  | cons =>
    simp only [except_seq_ok_iff, refuseOutside_ok_iff, List.contains_iff_mem]
    constructor
    · rintro ⟨hallowed, heq⟩
      cases heq
      exact .inr ⟨by simp, rfl, hallowed⟩
    · rintro (⟨⟨⟩, -⟩ | ⟨-, rfl, hallowed⟩)
      exact ⟨hallowed, rfl⟩

theorem effectiveMutationRoots_ok_iff {fs : FileSystem} {roots : List String} :
    effectiveMutationRoots fs options scope = .ok roots ↔
      (options.mutationRoots.getD [] = [] ∧ roots = scope.paths) ∨
      (options.mutationRoots.getD [] ≠ [] ∧
        roots = (options.mutationRoots.getD []).map (normalizePathPattern fs) ∧
        ∀ rr ∈ roots, ∃ cw ∈ scope.paths, fs.isPathContained cw rr = true) := by
  unfold effectiveMutationRoots
  cases options.mutationRoots.getD [] with
  | nil =>
    constructor
    · intro h
      cases h
      exact .inl ⟨rfl, rfl⟩
    · rintro (⟨-, rfl⟩ | ⟨hne, -⟩)
      · rfl
      · exact absurd rfl hne
  | cons =>
    simp only [except_seq_ok_iff, refuseOutside_ok_iff, List.any_eq_true]
    constructor
    · rintro ⟨hallowed, heq⟩
      cases heq
      exact .inr ⟨by simp, rfl, hallowed⟩
    · rintro (⟨⟨⟩, -⟩ | ⟨-, rfl, hallowed⟩)
      exact ⟨hallowed, rfl⟩

theorem withinScope_ok_iff {cap : Capability} {result : CapabilityAdmissionResult} :
    withinScope fs options cap = .ok result ↔
      scopeAdmissible options (cap.effectiveScope fs) = .ok () ∧
      limitsAdmissible options cap.limits = .ok () ∧
      effectiveResources options (cap.effectiveScope fs) = .ok result.effectiveResources ∧
      effectiveMutationRoots fs options (cap.effectiveScope fs) =
        .ok result.effectiveMutationRoots ∧
      { cap with scope := cap.effectiveScope fs } = result.capability ∧
      cap.limits = result.effectiveLimits := by
  unfold withinScope Capability.effectiveScope
  simp only [except_seq_ok_iff]
  constructor
  · rintro ⟨hscope, hlimits, h⟩
    obtain ⟨resources, hresources, h⟩ := except_bind_ok h
    obtain ⟨roots, hroots, h⟩ := except_bind_ok h
    cases h
    exact ⟨hscope, hlimits, hresources, hroots, rfl, rfl⟩
  · rintro ⟨hscope, hlimits, hresources, hroots, hcap, hcapLimits⟩
    refine ⟨hscope, hlimits, ?_⟩
    rw [hresources, hroots]
    show Except.ok (CapabilityAdmissionResult.mk _ _ _ _) = _
    rw [hcap, hcapLimits]

/-- What an admitted request may use under one capability is covered by what it may use under
    another. -/
structure Covered (fs : FileSystem) (narrow wide : CapabilityAdmissionResult) : Prop where
  resources : ∀ r ∈ narrow.effectiveResources, r ∈ wide.effectiveResources
  mutationRoots : ∀ rr ∈ narrow.effectiveMutationRoots, ∃ wr ∈ wide.effectiveMutationRoots,
    fs.isPathContained wr rr = true
  limits : ∀ key, narrow.effectiveLimits.get key ≤ wide.effectiveLimits.get key

/-- The same request for another capability. -/
def CheckCapabilityAdmissionOptions.for (options : CheckCapabilityAdmissionOptions)
    (capabilityId : String) : CheckCapabilityAdmissionOptions := { options with capabilityId }

theorem withinScope_of_narrows {child parent : Capability} (h : Narrows fs child parent)
    (parentId : String) {narrow : CapabilityAdmissionResult}
    (hchild : withinScope fs options child = .ok narrow) :
    ∃ wide, withinScope fs (options.for parentId) parent = .ok wide ∧ Covered fs narrow wide := by
  obtain ⟨hscope, hlimits, hresources, hroots, -, hcapLimits⟩ := withinScope_ok_iff.1 hchild
  obtain ⟨hopcode, hworkspace, hsecret⟩ := scopeAdmissible_ok_iff.1 hscope
  obtain ⟨hover, hops, hprocesses⟩ := limitsAdmissible_ok_iff.1 hlimits
  have hscope' : scopeAdmissible (options.for parentId) (parent.effectiveScope fs) = .ok () := by
    refine scopeAdmissible_ok_iff.2 ⟨fun o ho => h.opcodes o (hopcode o ho), fun w hw => ?_,
      fun r hr => h.secrets r (hsecret r hr)⟩
    rcases h.workspaces with hfree | ⟨hne, hsub⟩
    · exact .inl hfree
    · exact .inr (hsub w ((hworkspace w hw).resolve_left hne))
  have hlimits' : limitsAdmissible (options.for parentId) parent.limits = .ok () := by
    refine limitsAdmissible_ok_iff.2 ⟨fun key value hv => ?_, fun n hn => ?_, fun ho n hn => ?_⟩
    · exact LimitValue.exceeds_mono (h.limits key) (hover key value hv)
    · exact Nat.lt_of_lt_of_le (hops n hn) (h.limits .concurrentOps)
    · exact Nat.lt_of_lt_of_le (hprocesses ho n hn) (h.limits .processes)
  obtain ⟨resources', hresources', hcovered⟩ : ∃ resources',
      effectiveResources (options.for parentId) (parent.effectiveScope fs) = .ok resources' ∧
        ∀ r ∈ narrow.effectiveResources, r ∈ resources' := by
    rcases effectiveResources_ok_iff.1 hresources with ⟨hnone, heq⟩ | ⟨hsome, heq, hin⟩
    · rw [heq]
      exact ⟨_, effectiveResources_ok_iff.2 (.inl ⟨hnone, rfl⟩), h.exclusive⟩
    · rw [heq] at hin ⊢
      exact ⟨_, effectiveResources_ok_iff.2 (.inr ⟨hsome, rfl,
        fun r hr => h.exclusive r (hin r hr)⟩), fun r hr => hr⟩
  obtain ⟨roots', hroots', hcontained⟩ : ∃ roots',
      effectiveMutationRoots fs (options.for parentId) (parent.effectiveScope fs) = .ok roots' ∧
        ∀ rr ∈ narrow.effectiveMutationRoots, ∃ wr ∈ roots', fs.isPathContained wr rr = true := by
    rcases effectiveMutationRoots_ok_iff.1 hroots with ⟨hnone, heq⟩ | ⟨hsome, heq, hin⟩
    · rw [heq]
      exact ⟨_, effectiveMutationRoots_ok_iff.2 (.inl ⟨hnone, rfl⟩), h.paths⟩
    · rw [heq] at hin ⊢
      refine ⟨_, effectiveMutationRoots_ok_iff.2 (.inr ⟨hsome, rfl, fun rr hrr => ?_⟩),
        fun rr hrr => ⟨rr, hrr, fs.isPathContained_refl rr⟩⟩
      obtain ⟨cw, hcw, hcontained⟩ := hin rr hrr
      obtain ⟨p, hp, hpc⟩ := h.paths cw hcw
      exact ⟨p, hp, fs.isPathContained_trans hpc hcontained⟩
  refine ⟨⟨{ parent with scope := parent.effectiveScope fs }, resources', roots', parent.limits⟩,
    withinScope_ok_iff.2 ⟨hscope', hlimits', hresources', hroots', rfl, rfl⟩,
    hcovered, hcontained, ?_⟩
  rw [← hcapLimits]
  exact h.limits

/-! ## Ancestors -/

/-- The ids that the loop over the ancestors comes by. -/
inductive Ancestor (s : SqliteStore) : Option String → String → Prop where
  | here (id : String) : Ancestor s (some id) id
  | up {id : String} {cap : Capability} {ancestorId : String}
      (hcap : storedCapability s id = some cap) (habove : Ancestor s cap.parentId ancestorId) :
      Ancestor s (some id) ancestorId

section Walk

variable {s : SqliteStore} {check : String → Option Capability → Except KernelError Unit}

variable {fuel : Nat} {next : Option String}

theorem walkAncestors_mono {fuel' : Nat} (hle : fuel ≤ fuel') {r : Except KernelError Unit}
    (h : walkAncestors s check fuel next = some r) : walkAncestors s check fuel' next = some r := by
  induction fuel generalizing fuel' next with
  | zero =>
    cases next with
    | none => cases fuel' <;> exact h
    | some => cases h
  | succ fuel ih =>
    obtain ⟨fuel', rfl⟩ : ∃ n, fuel' = n + 1 := ⟨fuel' - 1, by omega⟩
    cases next with
    | none => exact h
    | some id =>
      simp only [walkAncestors] at h ⊢
      cases hcheck : check id (storedCapability s id) with
      | error =>
        rw [hcheck] at h
        exact h
      | ok =>
        rw [hcheck] at h
        exact ih (by omega) h

theorem walkAncestors_some_ok {id : String}
    (h : walkAncestors s check fuel (some id) = some (.ok ())) :
    check id (storedCapability s id) = .ok () ∧ ∃ fuel' < fuel,
      walkAncestors s check fuel' ((storedCapability s id).bind Capability.parentId) =
        some (.ok ()) := by
  cases fuel with
  | zero => cases h
  | succ fuel =>
    simp only [walkAncestors] at h
    cases hcheck : check id (storedCapability s id) with
    | error =>
      rw [hcheck] at h
      cases h
    | ok =>
      rw [hcheck] at h
      exact ⟨rfl, fuel, Nat.lt_succ_self _, h⟩

/-- A walk that comes through has checked every ancestor, and comes through from each. -/
theorem walkAncestors_ok (h : walkAncestors s check fuel next = some (.ok ()))
    {ancestorId : String} (hancestor : Ancestor s next ancestorId) :
    check ancestorId (storedCapability s ancestorId) = .ok () ∧
      walkAncestors s check fuel ((storedCapability s ancestorId).bind Capability.parentId) =
        some (.ok ()) := by
  induction hancestor generalizing fuel with
  | here =>
    obtain ⟨hcheck, fuel', hlt, hrest⟩ := walkAncestors_some_ok h
    exact ⟨hcheck, walkAncestors_mono (Nat.le_of_lt hlt) hrest⟩
  | up hcap habove ih =>
    obtain ⟨-, fuel', hlt, hrest⟩ := walkAncestors_some_ok h
    rw [hcap, Option.bind_some] at hrest
    exact ih (walkAncestors_mono (Nat.le_of_lt hlt) hrest)

/-- Where parents are lower than their children the walk comes to an end. -/
theorem walkAncestors_returns {height : String → Nat}
    (hheight : ∀ id cap parentId, storedCapability s id = some cap → cap.parentId = some parentId →
      height parentId < height id) (hfuel : ∀ id, next = some id → height id < fuel) :
    ∃ r, walkAncestors s check fuel next = some r := by
  induction fuel generalizing next with
  | zero =>
    cases next with
    | none => exact ⟨_, rfl⟩
    | some id => exact absurd (hfuel id rfl) (Nat.not_lt_zero _)
  | succ fuel ih =>
    cases next with
    | none => exact ⟨_, rfl⟩
    | some id =>
      simp only [walkAncestors]
      split
      · exact ⟨_, rfl⟩
      · refine ih fun parentId hparent => ?_
        obtain ⟨cap, hcap, hparentId⟩ := Option.bind_eq_some_iff.1 hparent
        have hlower := hheight id cap parentId hcap hparentId
        have hid := hfuel id rfl
        omega

end Walk

/-! ## Admission -/

theorem ancestorAdmissible_ok {currentEpoch : Int} {ancestor : Option Capability}
    (h : ancestorAdmissible currentEpoch now ancestorId ancestor = .ok ()) :
    ∃ cap, ancestor = some cap ∧ cap.revokedAt = none ∧ cap.epoch = currentEpoch ∧
      now < cap.expiresAt := by
  unfold ancestorAdmissible at h
  split at h
  · cases h
  · rename_i cap
    split at h
    · cases h
    · rename_i hrevoked
      split at h
      · cases h
      · rename_i hepoch
        split at h
        · cases h
        · rename_i hexpired
          exact ⟨cap, rfl, by simpa using hrevoked, not_not.1 hepoch, Nat.lt_of_not_le hexpired⟩

theorem capabilityAdmissible_ok_iff {cap : Capability} :
    capabilityAdmissible options now cap = .ok () ↔
      cap.domainId = options.domainId ∧ cap.epoch = options.currentEpoch ∧ now < cap.expiresAt ∧
        cap.revokedAt = none ∧ ∀ version, options.policyVersion = some version →
          cap.policyVersion = version := by
  unfold capabilityAdmissible
  simp only
  by_cases hdomain : cap.domainId = options.domainId
  · rw [if_neg (not_not.2 hdomain)]
    by_cases hepoch : cap.epoch = options.currentEpoch
    · rw [if_neg (not_not.2 hepoch)]
      by_cases hexpired : cap.expiresAt ≤ now
      · rw [if_pos hexpired]
        exact ⟨fun h => (by cases h), fun h => absurd hexpired (Nat.not_le.2 h.2.2.1)⟩
      · rw [if_neg hexpired]
        cases hrevoked : cap.revokedAt with
        | some => exact ⟨fun h => (by cases h), fun h => (by cases h.2.2.2.1)⟩
        | none =>
          have hlive := Nat.lt_of_not_le hexpired
          cases hpolicy : options.policyVersion with
          | none => exact ⟨fun _ => ⟨hdomain, hepoch, hlive, rfl, by simp⟩, fun _ => rfl⟩
          | some version =>
            simp only [Option.some.injEq, forall_eq']
            by_cases hversion : cap.policyVersion = version
            · rw [if_neg (not_not.2 hversion)]
              exact ⟨fun _ => ⟨hdomain, hepoch, hlive, trivial, hversion⟩, fun _ => rfl⟩
            · rw [if_pos hversion]
              exact ⟨fun h => (by cases h), fun h => absurd h.2.2.2.2 hversion⟩
    · rw [if_pos hepoch]
      exact ⟨fun h => (by cases h), fun h => absurd h.2.1 hepoch⟩
  · rw [if_pos hdomain]
    exact ⟨fun h => (by cases h), fun h => absurd h.1 hdomain⟩

theorem admission_ok_iff {result : CapabilityAdmissionResult} :
    admission fs s now options = some (.ok result) ↔
      ∃ cap, storedCapability s options.capabilityId = some cap ∧
        capabilityAdmissible options now cap = .ok () ∧
        walkAncestors s (ancestorAdmissible options.currentEpoch now) (ancestorFuel s)
          cap.parentId = some (.ok ()) ∧
        withinScope fs options cap = .ok result := by
  unfold admission
  cases hcap : storedCapability s options.capabilityId with
  | none => simp
  | some cap =>
    simp only [Option.some.injEq, exists_eq_left']
    cases capabilityAdmissible options now cap with
    | error => simp
    | ok u =>
      simp only [true_and]
      rcases walkAncestors s (ancestorAdmissible options.currentEpoch now) (ancestorFuel s)
        cap.parentId with _ | e | u
      · simp
      · simp
      · simp

/-- A capability that is narrower than each of its ancestors admits no more than they do. -/
theorem admission_of_ancestor {narrow : CapabilityAdmissionResult} {leaf : Capability}
    (hleaf : storedCapability s options.capabilityId = some leaf)
    (hadmitted : admission fs s now options = some (.ok narrow))
    (hancestor : Ancestor s leaf.parentId ancestorId)
    (hnarrows : ∀ cap, storedCapability s ancestorId = some cap → Narrows fs leaf cap) :
    ∃ wide, admission fs s now (options.for ancestorId) = some (.ok wide) ∧
      Covered fs narrow wide := by
  obtain ⟨cap, hcap, hself, hwalk, hwithin⟩ := admission_ok_iff.1 hadmitted
  rw [hleaf, Option.some.injEq] at hcap
  subst hcap
  obtain ⟨hcheck, hwalk'⟩ := walkAncestors_ok hwalk hancestor
  obtain ⟨ancestor, hstored, hrevoked, hepoch, hlive⟩ := ancestorAdmissible_ok hcheck
  have h := hnarrows ancestor hstored
  obtain ⟨hdomain, -, -, -, hpolicy⟩ := capabilityAdmissible_ok_iff.1 hself
  obtain ⟨wide, hwide, hcovered⟩ := withinScope_of_narrows h ancestorId hwithin
  refine ⟨wide, admission_ok_iff.2 ⟨ancestor, hstored, ?_, ?_, hwide⟩, hcovered⟩
  · exact capabilityAdmissible_ok_iff.2 ⟨h.domainId.symm.trans hdomain, hepoch, hlive, hrevoked,
      fun version hv => h.policyVersion.symm.trans (hpolicy version hv)⟩
  · rw [hstored, Option.bind_some] at hwalk'
    exact hwalk'

/-- No longer usable: missing, revoked, expired or of another epoch. -/
def Spoiled (currentEpoch : Int) (now : Timestamp) (cap : Option Capability) : Prop :=
  ∀ c, cap = some c → c.revokedAt ≠ none ∨ c.epoch ≠ currentEpoch ∨ c.expiresAt ≤ now

/-- A capability with a spoiled ancestor is not admitted. -/
theorem not_admitted_of_spoiled {leaf : Capability}
    (hleaf : storedCapability s options.capabilityId = some leaf)
    (hancestor : Ancestor s leaf.parentId ancestorId)
    (hspoiled : Spoiled options.currentEpoch now (storedCapability s ancestorId))
    (result : CapabilityAdmissionResult) : admission fs s now options ≠ some (.ok result) := by
  intro hadmitted
  obtain ⟨cap, hcap, -, hwalk, -⟩ := admission_ok_iff.1 hadmitted
  rw [hleaf, Option.some.injEq] at hcap
  subst hcap
  obtain ⟨ancestor, hstored, hrevoked, hepoch, hlive⟩ :=
    ancestorAdmissible_ok (walkAncestors_ok hwalk hancestor).1
  rcases hspoiled ancestor hstored with h | h | h
  · exact h hrevoked
  · exact h hepoch
  · exact absurd hlive (Nat.not_lt.2 h)

end XioFlow
