/-
  XioFlow.Supervisor.RequestIdentity

  Two requests under one operation id: whether the second is replayed or
  refused as a conflict.

  The fingerprint is computed from the options as admission leaves them, so it
  depends on the file system and on the locale; and it does not cover the mode
  of standard input, the mutation roots and the confinement.
-/

import XioFlow.Supervisor.Fingerprint

namespace XioFlow

open Lib Lib.JsonText

namespace Supervisor

/-! ## Sorting -/

instance textLe_isTotal : Std.Total fun a b : String => textLe a b = true := ⟨textLe_total⟩

instance textLe_isTrans : IsTrans String fun a b => textLe a b = true :=
  ⟨fun _ _ _ => textLe_trans⟩

/-- Sorted lists are equal exactly where the lists have the same items, each as often. -/
theorem sortTexts_eq_iff {xs ys : List String} : sortTexts xs = sortTexts ys ↔ xs.Perm ys := by
  unfold sortTexts
  have hxs := List.perm_insertionSort (fun a b => textLe a b = true) xs
  have hys := List.perm_insertionSort (fun a b => textLe a b = true) ys
  constructor
  · intro heq
    rw [heq] at hxs
    exact hxs.symm.trans hys
  · intro hperm
    exact List.Perm.eq_of_pairwise (fun _ _ _ _ hab hba => textLe_antisymm hab hba)
      (List.pairwise_insertionSort (fun a b => textLe a b = true) xs)
      (List.pairwise_insertionSort (fun a b => textLe a b = true) ys)
      (hxs.trans (hperm.trans hys.symm))

/-- The same properties, added in any order. -/
def SameProperties (a b : StringRecord) : Prop := a.entries.Perm b.entries

theorem sortedByKey_perm (env : StringRecord) : (sortedByKey env).Perm env.entries :=
  List.perm_insertionSort _ _

theorem sortedByLocale_perm (h : Host) (env : StringRecord) :
    (sortedByLocale h env).Perm env.entries :=
  List.perm_insertionSort _ _

/-- Keys are distinct, so the order of the code units leaves nothing open. -/
theorem sortedByKey_eq_iff {a b : StringRecord} :
    sortedByKey a = sortedByKey b ↔ SameProperties a b := by
  constructor
  · intro heq
    have hperm := sortedByKey_perm a
    rw [heq] at hperm
    exact hperm.symm.trans (sortedByKey_perm b)
  · intro hperm
    have htotal : Std.Total fun e f : String × String => textLe e.1 f.1 = true :=
      ⟨fun e f => textLe_total e.1 f.1⟩
    have htrans : IsTrans (String × String) fun e f => textLe e.1 f.1 = true :=
      ⟨fun _ _ _ => textLe_trans⟩
    have hantisymm : ∀ e f, e ∈ sortedByKey a → f ∈ sortedByKey b → textLe e.1 f.1 = true →
        textLe f.1 e.1 = true → e = f := by
      intro e f he hf hef hfe
      have hea : e ∈ a.entries := (sortedByKey_perm a).mem_iff.1 he
      have hfa : f ∈ a.entries := hperm.mem_iff.2 ((sortedByKey_perm b).mem_iff.1 hf)
      exact List.inj_on_of_nodup_map a.distinct hea hfa (textLe_antisymm hef hfe)
    exact List.Perm.eq_of_pairwise hantisymm
      (List.pairwise_insertionSort (fun e f => textLe e.1 f.1 = true) a.entries)
      (List.pairwise_insertionSort (fun e f => textLe e.1 f.1 = true) b.entries)
      ((sortedByKey_perm a).trans (hperm.trans (sortedByKey_perm b).symm))

/-! ## One request or two -/

/-- Both absent, or both there and related. -/
inductive OptionRel {α : Type} (R : α → α → Prop) : Option α → Option α → Prop where
  | none : OptionRel R none none
  | some {a b : α} (h : R a b) : OptionRel R (some a) (some b)

/-- The fields that a fingerprint covers as they are given, properties in any order. -/
structure SameGiven (r r' : ProcessRequest) : Prop where
  execPath : r.command.execPath = r'.command.execPath
  args : r.command.args = r'.command.args
  cwd : r.command.cwd = r'.command.cwd
  stdin : r.command.stdin = r'.command.stdin
  envWhiteList : OptionRel SameProperties r.command.envWhiteList r'.command.envWhiteList
  inheritEnv : r.command.inheritEnv = r'.command.inheritEnv
  capabilityId : r.capabilityId = r'.capabilityId
  capabilityWorkspace : r.capabilityWorkspace = r'.capabilityWorkspace
  capabilityPolicyVersion : r.capabilityPolicyVersion = r'.capabilityPolicyVersion
  timeoutMs : r.timeoutMs = r'.timeoutMs
  resourceBudget : r.resourceBudget = r'.resourceBudget

/-- Equal up to the order of object keys and of the resource list. -/
structure EqualUpToOrder (r r' : ProcessRequest) : Prop extends SameGiven r r' where
  stdinMode : r.command.stdinMode = r'.command.stdinMode
  secretEnv : OptionRel SameProperties r.command.secretEnv r'.command.secretEnv
  requiredResources : OptionRel List.Perm r.requiredResources r'.requiredResources
  mutationRoots : r.mutationRoots = r'.mutationRoots
  capabilitySecretRefs : r.capabilitySecretRefs = r'.capabilitySecretRefs
  confinement : r.confinement = r'.confinement
  confinementDriver : r.confinementDriver = r'.confinementDriver

/-- The fields that no fingerprint covers. -/
structure SameUncovered (r r' : ProcessRequest) : Prop where
  stdinMode : r.command.stdinMode.getD .once = r'.command.stdinMode.getD .once
  mutationRoots : r.mutationRoots.getD [] = r'.mutationRoots.getD []
  confinement : r.confinement = r'.confinement
  confinementDriver : r.confinementDriver = r'.confinementDriver

/-- The requests execute the same: every field is equal that says what is executed and under which
    limits, the resources by their names on the hosts. -/
structure ExecutesSame (h h' : Host) (r r' : ProcessRequest) : Prop extends
    SameGiven r r', SameUncovered r r' where
  secretEnv : OptionRel SameProperties r.command.secretEnv r'.command.secretEnv
  requiredResources : (r.resourceNames h).Perm (r'.resourceNames h')
  capabilitySecretRefs : (r.secretRefs.getD []).Perm (r'.secretRefs.getD [])

/-- The fingerprint that `executeProcess` computes. -/
def requestFingerprint (sha256 : List UInt8 → String) (h : Host) (r : ProcessRequest) : String :=
  computeInputFingerprint sha256 h (r.admitted h)

/-- Equal requests have equal fingerprints, and only requests that execute the same do. -/
def Identifies (sha256 : List UInt8 → String) (h h' : Host) (r r' : ProcessRequest) : Prop :=
  (EqualUpToOrder r r' → requestFingerprint sha256 h r = requestFingerprint sha256 h' r') ∧
  (requestFingerprint sha256 h r = requestFingerprint sha256 h' r' → ExecutesSame h h' r r')

/-- The two hosts see the same: resources have the same names, and the locales order the secrets in
    the same way. -/
structure SameSeen (h h' : Host) (r r' : ProcessRequest) : Prop where
  resources : (r.resourceNames h).Perm (r'.resourceNames h')
  secretEnv : r.command.secretEnv.map (sortedByLocale h) =
    r'.command.secretEnv.map (sortedByLocale h')

/-- The requests agree in everything that a fingerprint covers. -/
structure SameCovered (h h' : Host) (r r' : ProcessRequest) : Prop extends
    SameGiven r r', SameSeen h h' r r' where
  capabilitySecretRefs : (r.secretRefs.getD []).Perm (r'.secretRefs.getD [])

/-! ## When the fingerprint identifies -/

section Identity

variable {sha256 : List UInt8 → String} {h h' : Host} {r r' : ProcessRequest}

/-- The sorted environments are equal where the properties are the same. -/
theorem sortedEnv_eq_iff {x y : Option StringRecord} :
    ((x.map fun env => (sortedByKey env).map fun e => (e.1, id e.2)) =
      y.map fun env => (sortedByKey env).map fun e => (e.1, id e.2)) ↔
    OptionRel SameProperties x y := by
  have hid : ∀ env : StringRecord, ((sortedByKey env).map fun e => (e.1, id e.2)) =
      sortedByKey env := fun env => List.map_id' _
  simp only [hid]
  constructor
  · intro heq
    cases x with
    | none =>
      cases y with
      | none => exact .none
      | some => cases heq
    | some =>
      cases y with
      | none => cases heq
      | some => exact .some (sortedByKey_eq_iff.1 (Option.some.inj heq))
  · intro hrel
    cases hrel with
    | none => rfl
    | some hsame => exact congrArg some (sortedByKey_eq_iff.2 hsame)

/-- Equal fingerprints tell that everything covered is equal, and nothing else. -/
theorem requestFingerprint_eq_iff (hsha : Function.Injective sha256) :
    requestFingerprint sha256 h r = requestFingerprint sha256 h' r' ↔ SameCovered h h' r r' := by
  unfold requestFingerprint
  rw [inputFingerprint_eq_iff hsha]
  constructor
  · rintro ⟨hcommand, hresources, hbinding⟩
    have hargs : r.command.args = r'.command.args := by
      have hmapped := hcommand.args
      rwa [List.map_id, List.map_id] at hmapped
    exact {
      execPath := hcommand.execPath
      args := hargs
      cwd := hcommand.cwd
      stdin := hbinding.stdin
      envWhiteList := sortedEnv_eq_iff.1 hcommand.envWhiteList
      inheritEnv := hcommand.inheritEnv
      capabilityId := hbinding.capabilityId
      capabilityWorkspace := hbinding.capabilityWorkspace
      capabilityPolicyVersion := hbinding.capabilityPolicyVersion
      timeoutMs := hbinding.timeoutMs
      resourceBudget := hbinding.resourceBudget
      resources := sortTexts_eq_iff.1 hresources
      secretEnv := hcommand.secretEnv
      capabilitySecretRefs := sortTexts_eq_iff.1 hbinding.capabilitySecretRefs }
  · intro hsame
    refine ⟨⟨?_, hsame.cwd, sortedEnv_eq_iff.2 hsame.envWhiteList, hsame.secretEnv,
      hsame.execPath, hsame.inheritEnv⟩, sortTexts_eq_iff.2 hsame.resources,
      ⟨hsame.resourceBudget, hsame.stdin, hsame.timeoutMs, hsame.capabilityId,
        hsame.capabilityWorkspace, sortTexts_eq_iff.2 hsame.capabilitySecretRefs,
        hsame.capabilityPolicyVersion⟩⟩
    show r.command.args.map id = r'.command.args.map id
    rw [hsame.args]

/-- The references of a command's secrets, in any order of the keys. -/
theorem commandSecretRefs_perm
    (hsecret : OptionRel SameProperties r.command.secretEnv r'.command.secretEnv) :
    r.commandSecretRefs.Perm r'.commandSecretRefs := by
  unfold ProcessRequest.commandSecretRefs
  generalize r.command.secretEnv = x at hsecret
  generalize r'.command.secretEnv = y at hsecret
  cases hsecret with
  | none => exact List.Perm.refl _
  | some hsame => exact hsame.map Prod.snd

/-- Entries that are sorted alike are the same entries. -/
theorem sameProperties_of_sortedByLocale {x y : Option StringRecord}
    (heq : x.map (sortedByLocale h) = y.map (sortedByLocale h')) :
    OptionRel SameProperties x y := by
  cases x with
  | none =>
    cases y with
    | none => exact .none
    | some => cases heq
  | some a =>
    cases y with
    | none => cases heq
    | some b =>
      have hsorted : sortedByLocale h a = sortedByLocale h' b := Option.some.inj heq
      have hperm := sortedByLocale_perm h a
      rw [hsorted] at hperm
      exact .some (hperm.symm.trans (sortedByLocale_perm h' b))

/-- Without repeats, lists with the same members have the same items. -/
theorem eraseDups_perm {xs ys : List String} (hperm : xs.Perm ys) :
    xs.eraseDups.Perm ys.eraseDups := by
  rw [List.perm_ext_iff_of_nodup (nodup_eraseDups xs) (nodup_eraseDups ys)]
  intro a
  rw [List.mem_eraseDups, List.mem_eraseDups]
  exact hperm.mem_iff

theorem EqualUpToOrder.secretRefs_perm (hsame : EqualUpToOrder r r') :
    (r.secretRefs.getD []).Perm (r'.secretRefs.getD []) := by
  have hrefs := commandSecretRefs_perm hsame.secretEnv
  unfold ProcessRequest.secretRefs
  rw [hsame.capabilityId, hsame.capabilitySecretRefs]
  have hnil : r.commandSecretRefs = [] ↔ r'.commandSecretRefs = [] := by
    rw [← List.length_eq_zero_iff, ← List.length_eq_zero_iff, hrefs.length_eq]
  by_cases hnone : (nonEmpty r'.capabilityId).isNone ∨ r'.commandSecretRefs = []
  · rw [if_pos hnone, if_pos (hnone.imp_right hnil.2)]
  · rw [if_neg hnone, if_neg fun hor => hnone (hor.imp_right hnil.1)]
    exact eraseDups_perm (hrefs.append_left _)

/-- A request is told from the others by its fingerprint exactly where equal requests are seen alike
    by both hosts, and requests that agree in all that is covered agree in what is not. -/
theorem identifies_iff (hsha : Function.Injective sha256) :
    Identifies sha256 h h' r r' ↔
      (EqualUpToOrder r r' → SameSeen h h' r r') ∧
      (SameCovered h h' r r' → SameUncovered r r') := by
  unfold Identifies
  rw [requestFingerprint_eq_iff hsha]
  constructor
  · rintro ⟨hequal, hexecutes⟩
    exact ⟨fun hsame => (hequal hsame).toSameSeen,
      fun hcovered => (hexecutes hcovered).toSameUncovered⟩
  · rintro ⟨hseen, huncovered⟩
    constructor
    · intro hsame
      exact {
        hsame.toSameGiven, hseen hsame with
        capabilitySecretRefs := hsame.secretRefs_perm }
    · intro hcovered
      exact {
        hcovered.toSameGiven, huncovered hcovered with
        secretEnv := sameProperties_of_sortedByLocale hcovered.secretEnv
        requiredResources := hcovered.resources
        capabilitySecretRefs := hcovered.capabilitySecretRefs }

end Identity

/-! ## A link, a locale and an open input -/

/-- No links; names by their code units. -/
def plainHost : Host where
  fs := plainFiles []
  localeLe := textLe
  exclusive := fun _ => []

/-- The same host, after `/out` has become a link to `/w`. -/
def relinkedHost : Host :=
  { plainHost with
    fs := { plainFiles [] with
      realpathSync := fun path => some (if path = ["out"] then ["w"] else path) } }

/-- The same host in a locale that puts `b` before `A`. -/
def otherLocale : Host := { plainHost with localeLe := fun a b => textLe b a }

def shell : StructuredCommand where
  execPath := "/bin/sh"
  cwd := "/"

def writesOut : ProcessRequest where
  command := shell
  requiredResources := some ["workspace:write:/out", "gpu"]

def twoSecrets : StringRecord where
  entries := [("A", "secret:1"), ("b", "secret:2")]
  distinct := by decide

def usesSecrets : ProcessRequest where
  command := { shell with secretEnv := some twoSecrets }

/-- The same request, with its resources in the other order. -/
def writesOutLast : ProcessRequest :=
  { writesOut with requiredResources := some ["gpu", "workspace:write:/out"] }

theorem OptionRel.refl {α : Type} {R : α → α → Prop} (hrefl : ∀ a, R a a) (x : Option α) :
    OptionRel R x x := by
  cases x with
  | none => exact .none
  | some a => exact .some (hrefl a)

theorem EqualUpToOrder.refl (r : ProcessRequest) : EqualUpToOrder r r where
  execPath := rfl
  args := rfl
  cwd := rfl
  stdin := rfl
  envWhiteList := .refl (fun a => List.Perm.refl a.entries) _
  inheritEnv := rfl
  capabilityId := rfl
  capabilityWorkspace := rfl
  capabilityPolicyVersion := rfl
  timeoutMs := rfl
  resourceBudget := rfl
  stdinMode := rfl
  secretEnv := .refl (fun a => List.Perm.refl a.entries) _
  requiredResources := .refl List.Perm.refl _
  mutationRoots := rfl
  capabilitySecretRefs := rfl
  confinement := rfl
  confinementDriver := rfl

/-- Resources in another order are the same request, on a host where nothing has changed. -/
theorem reordered_identified :
    Identifies plainDigest plainHost plainHost writesOut writesOutLast :=
  (identifies_iff plainDigest_injective).2
    ⟨fun _ => ⟨by decide +kernel, rfl⟩, fun _ => ⟨rfl, rfl, rfl, rfl⟩⟩

/-- One request has two fingerprints where a link has changed, and where the locale has; and two
    requests have one fingerprint that differ in the mode of standard input, in the mutation roots
    or in the confinement. -/
theorem fingerprint_misidentifies :
    ¬ Identifies plainDigest plainHost relinkedHost writesOut writesOut ∧
    ¬ Identifies plainDigest plainHost otherLocale usesSecrets usesSecrets ∧
    ¬ Identifies plainDigest plainHost plainHost writesOut
      { writesOut with command := { shell with stdinMode := some .stream } } ∧
    ¬ Identifies plainDigest plainHost plainHost writesOut
      { writesOut with mutationRoots := some ["/w"] } ∧
    ¬ Identifies plainDigest plainHost plainHost writesOut
      { writesOut with confinement := some (.flag true) } := by
  refine ⟨fun hid => ?_, fun hid => ?_, fun hid => ?_, fun hid => ?_, fun hid => ?_⟩
  · have hsame := (requestFingerprint_eq_iff plainDigest_injective).1
      (hid.1 (EqualUpToOrder.refl writesOut))
    have hnames := hsame.resources
    revert hnames
    decide +kernel
  · have hsame := (requestFingerprint_eq_iff plainDigest_injective).1
      (hid.1 (EqualUpToOrder.refl usesSecrets))
    have hsecrets := hsame.secretEnv
    revert hsecrets
    decide +kernel
  · have hmode := (hid.2 rfl).stdinMode
    cases hmode
  · have hroots := (hid.2 rfl).mutationRoots
    cases hroots
  · have hconfinement := (hid.2 rfl).confinement
    cases hconfinement

end Supervisor
end XioFlow
