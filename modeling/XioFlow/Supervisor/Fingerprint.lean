/-
  XioFlow.Supervisor.Fingerprint

  The canonical forms of a request, and their fingerprints.

  A number is kept by the text it is written as, and standard input by its
  bytes.  Of the host a fingerprint sees what realpath answers, how names are
  ordered in its locale, and what its capabilities hold.
-/

import XioFlow.Supervisor.Execute
import XioFlow.Workspace.IncrementalIndex
import XioFlow.Lib.JsonRoundTrip
import XioFlow.Lib.Utf8Decoder

namespace XioFlow

open Lib Lib.JsonText
open Value

namespace Supervisor

/-! ## Requests -/

/-- An object whose values are strings: its properties in the order in which they were added. -/
structure StringRecord where
  entries : List (String × String)
  distinct : (entries.map Prod.fst).Nodup

inductive StdinMode where
  | once | stream
  deriving DecidableEq

structure StructuredCommand where
  execPath : String
  args : List String := []
  cwd : String
  /-- The bytes of `stdin`; a string is written as UTF-8. -/
  stdin : Option (List UInt8) := none
  stdinMode : Option StdinMode := none
  envWhiteList : Option StringRecord := none
  inheritEnv : Option Bool := none
  secretEnv : Option StringRecord := none

/-- `boolean | string` -/
inductive Confinement where
  | flag (on : Bool)
  | named (driver : String)
  deriving DecidableEq

/-- `resourceBudget` of a request -/
structure RequestBudget where
  enforcement : Enforcement
  maxCpuTimeMs : Option Numeral := none
  maxMemoryBytes : Option Numeral := none
  maxOutputBytes : Option Numeral := none
  maxPids : Option Numeral := none
  deriving DecidableEq

/-- The fields of `ExecuteProcessOptions` that say what is executed, and under which limits. -/
structure ProcessRequest where
  command : StructuredCommand
  requiredResources : Option (List String) := none
  mutationRoots : Option (List String) := none
  capabilityId : Option String := none
  capabilityWorkspace : Option String := none
  capabilitySecretRefs : Option (List String) := none
  capabilityPolicyVersion : Option String := none
  confinement : Option Confinement := none
  /-- `confinementDriver`, by its name -/
  confinementDriver : Option String := none
  timeoutMs : Option Numeral := none
  resourceBudget : Option RequestBudget := none

/-- What a fingerprint depends on beside the request. -/
structure Host where
  fs : FileSystem
  /-- `a.localeCompare(b) <= 0` -/
  localeLe : String → String → Bool
  /-- `scope.exclusive` of a capability -/
  exclusive : String → List String

/-! ## Admission -/

/-- `Object.values(options.command.secretEnv ?? {})` -/
def ProcessRequest.commandSecretRefs (r : ProcessRequest) : List String :=
  (r.command.secretEnv.map fun env => env.entries.map Prod.snd).getD []

/-- The names of the resources on a host: real paths, or what the capability has. -/
def ProcessRequest.resourceNames (h : Host) (r : ProcessRequest) : List String :=
  let given := r.requiredResources.getD []
  match nonEmpty r.capabilityId with
  | none => given.map (normalizeResourceName h.fs)
  | some capabilityId => if given = [] then h.exclusive capabilityId else given

/-- The secrets that the capability is asked for. -/
def ProcessRequest.secretRefs (r : ProcessRequest) : Option (List String) :=
  if (nonEmpty r.capabilityId).isNone ∨ r.commandSecretRefs = [] then r.capabilitySecretRefs
  else some (r.capabilitySecretRefs.getD [] ++ r.commandSecretRefs).eraseDups

/-- The options as `admitProcessScope` leaves them. -/
def ProcessRequest.admitted (h : Host) (r : ProcessRequest) : ProcessRequest :=
  { r with
    capabilitySecretRefs := r.secretRefs
    requiredResources := some (r.resourceNames h) }

/-! ## Canonical forms -/

/-- `value ?? null` -/
def nullOr {α : Type} (value : α → Value) : Option α → Value
  | none => .null
  | some a => value a

def textValue (s : String) : Value := .str (units s)

def textsValue (texts : List String) : Value := .arr (texts.map textValue)

/-- `[key, value][]` -/
def entriesValue (entries : List (String × String)) : Value :=
  .arr (entries.map fun e => .arr [textValue e.1, textValue e.2])

/-- The entries by their keys, code unit by code unit. -/
def sortedByKey (env : StringRecord) : List (String × String) :=
  env.entries.insertionSort fun a b => textLe a.1 b.1 = true

/-- The entries by their keys, as the locale orders them; the sort is stable. -/
def sortedByLocale (h : Host) (env : StringRecord) : List (String × String) :=
  env.entries.insertionSort fun a b => h.localeLe a.1 b.1 = true

def budgetValue (b : RequestBudget) : Value :=
  .obj [
    (units "enforcement", textValue b.enforcement.text),
    (units "maxCpuTimeMs", nullOr .num b.maxCpuTimeMs),
    (units "maxMemoryBytes", nullOr .num b.maxMemoryBytes),
    (units "maxOutputBytes", nullOr .num b.maxOutputBytes),
    (units "maxPids", nullOr .num b.maxPids)]

section Canonical

variable (sha256 : List UInt8 → String) (h : Host)

/-- What both forms say of the command; `text` is what becomes of its texts. -/
def commandEntries (text : String → String) (c : StructuredCommand) : List (Utf16 × Value) := [
  (units "args", textsValue (c.args.map text)),
  (units "cwd", textValue (text c.cwd)),
  (units "envWhiteList", nullOr
    (fun env => entriesValue ((sortedByKey env).map fun e => (e.1, text e.2))) c.envWhiteList),
  (units "secretEnv", nullOr (fun env => entriesValue (sortedByLocale h env)) c.secretEnv),
  (units "execPath", textValue (text c.execPath)),
  (units "inheritEnv", nullOr .bool c.inheritEnv)]

/-- What both forms say of the limits, the standard input and the capability. -/
def bindingEntries (r : ProcessRequest) : List (Utf16 × Value) := [
  (units "resourceBudget", nullOr budgetValue r.resourceBudget),
  (units "stdinHash", nullOr (fun bytes => textValue (sha256 bytes)) r.command.stdin),
  (units "timeoutMs", nullOr .num r.timeoutMs),
  (units "capabilityId", nullOr textValue r.capabilityId),
  (units "capabilityWorkspace", nullOr textValue r.capabilityWorkspace),
  (units "capabilitySecretRefs", textsValue (sortTexts (r.capabilitySecretRefs.getD []))),
  (units "capabilityPolicyVersion", nullOr textValue r.capabilityPolicyVersion)]

/-- `canonical` in `computeInputFingerprint` -/
def inputCanonical (r : ProcessRequest) : Value :=
  .obj (commandEntries h id r.command ++
    [(units "requiredResources", textsValue (sortTexts (r.requiredResources.getD [])))] ++
    bindingEntries sha256 r)

/-- SHA-256 of the JSON text of a value. -/
def digest (v : Value) : String := sha256 (utf8 (Utf16.scalars (stringify v)))

def computeInputFingerprint (r : ProcessRequest) : String :=
  digest sha256 (inputCanonical sha256 h r)

end Canonical

/-! ## A digest tells values apart -/

section Digest

variable {sha256 : List UInt8 → String}

theorem digest_inj (hsha : Function.Injective sha256) {v w : Value} (hv : v.Distinct)
    (hw : w.Distinct) : digest sha256 v = digest sha256 w ↔ v = w := by
  refine ⟨fun heq => ?_, congrArg (digest sha256)⟩
  have hscalars : Utf16.scalars (stringify v) = Utf16.scalars (stringify w) :=
    Utf8Decoder.utf8_injective (hsha heq)
  have htext : stringify v = stringify w := by
    rw [← Utf16.ofChars_scalars (clean_stringify v).wellFormed, hscalars,
      Utf16.ofChars_scalars (clean_stringify w).wellFormed]
  have hparse := parse_stringify hv
  rw [htext, parse_stringify hw] at hparse
  exact (Option.some.inj hparse).symm

@[simp] theorem textValue_inj {s t : String} : textValue s = textValue t ↔ s = t := by
  unfold textValue
  rw [str.injEq, units_inj]

@[simp] theorem textsValue_inj {xs ys : List String} : textsValue xs = textsValue ys ↔ xs = ys := by
  unfold textsValue
  rw [arr.injEq]
  exact (List.map_injective_iff.2 fun s t h => textValue_inj.1 h).eq_iff

@[simp] theorem entriesValue_inj {xs ys : List (String × String)} :
    entriesValue xs = entriesValue ys ↔ xs = ys := by
  unfold entriesValue
  rw [arr.injEq]
  refine (List.map_injective_iff.2 fun a b h => ?_).eq_iff
  simp only [arr.injEq, List.cons.injEq, textValue_inj, and_true] at h
  exact Prod.ext h.1 h.2

variable {α : Type}

/-- A field that is written as `null` when it is absent, by a writer that never writes `null`. -/
theorem nullOr_inj {value : α → Value} (hnull : ∀ a, value a ≠ .null)
    (hvalue : Function.Injective value) {x y : Option α} :
    nullOr value x = nullOr value y ↔ x = y := by
  refine ⟨fun heq => ?_, congrArg (nullOr value)⟩
  cases x with
  | none =>
    cases y with
    | none => rfl
    | some b => exact absurd heq.symm (hnull b)
  | some a =>
    cases y with
    | none => exact absurd heq (hnull a)
    | some b => exact congrArg some (hvalue heq)

theorem enforcement_text_injective : Function.Injective Enforcement.text := by
  intro a b h
  cases a <;> cases b <;> first | rfl | (revert h; decide)

@[simp] theorem budgetValue_inj {b c : RequestBudget} : budgetValue b = budgetValue c ↔ b = c := by
  refine ⟨fun heq => ?_, congrArg budgetValue⟩
  have hnum : ∀ {x y : Option Numeral}, nullOr num x = nullOr num y ↔ x = y :=
    nullOr_inj (fun _ => Value.noConfusion) fun _ _ h => Value.num.inj h
  unfold budgetValue at heq
  simp only [obj.injEq, List.cons.injEq, Prod.mk.injEq, textValue_inj, hnum, true_and,
    and_true] at heq
  obtain ⟨henforcement, hcpu, hmemory, houtput, hpids⟩ := heq
  cases b
  cases c
  simp only [RequestBudget.mk.injEq]
  exact ⟨enforcement_text_injective henforcement, hcpu, hmemory, houtput, hpids⟩

/-! ## Canonical forms are objects -/

theorem distinct_num (n : Numeral) : (num n).Distinct := trivial

theorem distinct_bool (b : Bool) : (bool b).Distinct := trivial

theorem distinct_textValue (s : String) : (textValue s).Distinct := trivial

theorem distinct_textsValue (texts : List String) : (textsValue texts).Distinct := by
  unfold textsValue
  rw [Value.Distinct, distinctItems_iff]
  intro v hv
  obtain ⟨s, -, rfl⟩ := List.mem_map.1 hv
  exact distinct_textValue s

theorem distinct_entriesValue (entries : List (String × String)) :
    (entriesValue entries).Distinct := by
  unfold entriesValue
  rw [Value.Distinct, distinctItems_iff]
  intro v hv
  obtain ⟨e, -, rfl⟩ := List.mem_map.1 hv
  exact ⟨distinct_textValue e.1, distinct_textValue e.2, trivial⟩

theorem distinct_nullOr {value : α → Value} (h : ∀ a, (value a).Distinct) (x : Option α) :
    (nullOr value x).Distinct := by
  cases x with
  | none => exact trivial
  | some a => exact h a

/-- An object with literal names, each of them once. -/
theorem distinct_obj {entries : List (Utf16 × Value)} (names : List String)
    (hnames : entries.map Prod.fst = names.map units) (hnodup : names.Nodup)
    (hvalues : ∀ e ∈ entries, e.2.Distinct) : (obj entries).Distinct := by
  rw [Value.Distinct, hnames]
  exact ⟨hnodup.map fun _ _ h => units_inj.1 h, distinctEntries_iff.2 hvalues⟩

theorem distinct_budgetValue (b : RequestBudget) : (budgetValue b).Distinct := by
  refine distinct_obj ["enforcement", "maxCpuTimeMs", "maxMemoryBytes", "maxOutputBytes",
    "maxPids"] rfl (by decide) ?_
  simp only [List.forall_mem_cons]
  exact ⟨distinct_textValue _, distinct_nullOr distinct_num _, distinct_nullOr distinct_num _,
    distinct_nullOr distinct_num _, distinct_nullOr distinct_num _, List.forall_mem_nil _⟩

theorem distinct_commandEntries (h : Host) (text : String → String) (c : StructuredCommand) :
    ∀ e ∈ commandEntries h text c, e.2.Distinct := by
  unfold commandEntries
  simp only [List.forall_mem_cons]
  exact ⟨distinct_textsValue _, distinct_textValue _,
    distinct_nullOr (fun _ => distinct_entriesValue _) _,
    distinct_nullOr (fun _ => distinct_entriesValue _) _, distinct_textValue _,
    distinct_nullOr distinct_bool _, List.forall_mem_nil _⟩

theorem distinct_bindingEntries (r : ProcessRequest) :
    ∀ e ∈ bindingEntries sha256 r, e.2.Distinct := by
  unfold bindingEntries
  simp only [List.forall_mem_cons]
  exact ⟨distinct_nullOr distinct_budgetValue _, distinct_nullOr (fun _ => distinct_textValue _) _,
    distinct_nullOr distinct_num _, distinct_nullOr distinct_textValue _,
    distinct_nullOr distinct_textValue _, distinct_textsValue _,
    distinct_nullOr distinct_textValue _, List.forall_mem_nil _⟩

theorem distinct_inputCanonical (h : Host) (r : ProcessRequest) :
    (inputCanonical sha256 h r).Distinct := by
  refine distinct_obj ["args", "cwd", "envWhiteList", "secretEnv", "execPath", "inheritEnv",
    "requiredResources", "resourceBudget", "stdinHash", "timeoutMs", "capabilityId",
    "capabilityWorkspace", "capabilitySecretRefs", "capabilityPolicyVersion"] rfl (by decide) ?_
  intro e he
  rcases List.mem_append.1 he with he | hbinding
  · rcases List.mem_append.1 he with hcommand | hresources
    · exact distinct_commandEntries h id r.command e hcommand
    · rw [List.mem_singleton.1 hresources]
      exact distinct_textsValue _
  · exact distinct_bindingEntries r e hbinding

/-! ## What a canonical form tells -/

/-- Two commands that a form does not tell apart. -/
structure SameCommand (h h' : Host) (text text' : String → String) (c c' : StructuredCommand) :
    Prop where
  args : c.args.map text = c'.args.map text'
  cwd : text c.cwd = text' c'.cwd
  envWhiteList :
    (c.envWhiteList.map fun env => (sortedByKey env).map fun e => (e.1, text e.2)) =
      c'.envWhiteList.map fun env => (sortedByKey env).map fun e => (e.1, text' e.2)
  secretEnv : c.secretEnv.map (sortedByLocale h) = c'.secretEnv.map (sortedByLocale h')
  execPath : text c.execPath = text' c'.execPath
  inheritEnv : c.inheritEnv = c'.inheritEnv

/-- Two requests with the same limits, standard input and capability. -/
structure SameBinding (r r' : ProcessRequest) : Prop where
  resourceBudget : r.resourceBudget = r'.resourceBudget
  stdin : r.command.stdin = r'.command.stdin
  timeoutMs : r.timeoutMs = r'.timeoutMs
  capabilityId : r.capabilityId = r'.capabilityId
  capabilityWorkspace : r.capabilityWorkspace = r'.capabilityWorkspace
  capabilitySecretRefs : sortTexts (r.capabilitySecretRefs.getD []) =
    sortTexts (r'.capabilitySecretRefs.getD [])
  capabilityPolicyVersion : r.capabilityPolicyVersion = r'.capabilityPolicyVersion

theorem nullOr_map {β : Type} (value : β → Value) (f : α → β) (x : Option α) :
    nullOr value (x.map f) = nullOr (fun a => value (f a)) x := by
  cases x <;> rfl

theorem nullOr_entries_inj {β : Type} {f : α → List (String × String)}
    {g : β → List (String × String)} {x : Option α} {y : Option β} :
    (nullOr (fun a => entriesValue (f a)) x = nullOr (fun b => entriesValue (g b)) y) ↔
      x.map f = y.map g := by
  rw [← nullOr_map entriesValue f, ← nullOr_map entriesValue g]
  exact nullOr_inj (fun _ => Value.noConfusion) fun _ _ heq => entriesValue_inj.1 heq

theorem nullOr_text_inj {x y : Option String} : nullOr textValue x = nullOr textValue y ↔ x = y :=
  nullOr_inj (fun _ => Value.noConfusion) fun _ _ heq => textValue_inj.1 heq

theorem nullOr_num_inj {x y : Option Numeral} : nullOr num x = nullOr num y ↔ x = y :=
  nullOr_inj (fun _ => Value.noConfusion) fun _ _ heq => Value.num.inj heq

theorem nullOr_bool_inj {x y : Option Bool} : nullOr bool x = nullOr bool y ↔ x = y :=
  nullOr_inj (fun _ => Value.noConfusion) fun _ _ heq => Value.bool.inj heq

theorem nullOr_budget_inj {x y : Option RequestBudget} :
    nullOr budgetValue x = nullOr budgetValue y ↔ x = y :=
  nullOr_inj (fun _ => Value.noConfusion) fun _ _ heq => budgetValue_inj.1 heq

theorem nullOr_hash_inj (hsha : Function.Injective sha256) {x y : Option (List UInt8)} :
    (nullOr (fun bytes => textValue (sha256 bytes)) x =
      nullOr (fun bytes => textValue (sha256 bytes)) y) ↔ x = y :=
  nullOr_inj (fun _ => Value.noConfusion) fun _ _ heq => hsha (textValue_inj.1 heq)

theorem commandEntries_inj {h h' : Host} {text text' : String → String}
    {c c' : StructuredCommand} :
    commandEntries h text c = commandEntries h' text' c' ↔ SameCommand h h' text text' c c' := by
  unfold commandEntries
  simp only [List.cons.injEq, Prod.mk.injEq, textsValue_inj, textValue_inj, nullOr_entries_inj,
    nullOr_bool_inj, true_and, and_true]
  constructor
  · rintro ⟨hargs, hcwd, henv, hsecret, hexec, hinherit⟩
    exact ⟨hargs, hcwd, henv, hsecret, hexec, hinherit⟩
  · intro hsame
    exact ⟨hsame.args, hsame.cwd, hsame.envWhiteList, hsame.secretEnv, hsame.execPath,
      hsame.inheritEnv⟩

theorem bindingEntries_inj (hsha : Function.Injective sha256) {r r' : ProcessRequest} :
    bindingEntries sha256 r = bindingEntries sha256 r' ↔ SameBinding r r' := by
  unfold bindingEntries
  simp only [List.cons.injEq, Prod.mk.injEq, textsValue_inj, nullOr_text_inj, nullOr_num_inj,
    nullOr_budget_inj, nullOr_hash_inj hsha, true_and, and_true]
  constructor
  · rintro ⟨hbudget, hstdin, htimeout, hid, hworkspace, hrefs, hpolicy⟩
    exact ⟨hbudget, hstdin, htimeout, hid, hworkspace, hrefs, hpolicy⟩
  · intro hsame
    exact ⟨hsame.resourceBudget, hsame.stdin, hsame.timeoutMs, hsame.capabilityId,
      hsame.capabilityWorkspace, hsame.capabilitySecretRefs, hsame.capabilityPolicyVersion⟩

/-- The fingerprints of two requests are equal where the command, the resources and the binding
    are. -/
theorem inputFingerprint_eq_iff (hsha : Function.Injective sha256) {h h' : Host}
    {r r' : ProcessRequest} :
    computeInputFingerprint sha256 h r = computeInputFingerprint sha256 h' r' ↔
      SameCommand h h' id id r.command r'.command ∧
      sortTexts (r.requiredResources.getD []) = sortTexts (r'.requiredResources.getD []) ∧
      SameBinding r r' := by
  unfold computeInputFingerprint
  rw [digest_inj hsha (distinct_inputCanonical h r) (distinct_inputCanonical h' r')]
  unfold inputCanonical
  rw [obj.injEq, ← commandEntries_inj, ← bindingEntries_inj hsha]
  constructor
  · intro heq
    obtain ⟨hfront, hbinding⟩ := List.append_inj heq rfl
    obtain ⟨hcommand, hresources⟩ := List.append_inj hfront rfl
    have hone := (List.cons.inj hresources).1
    exact ⟨hcommand, textsValue_inj.1 (congrArg Prod.snd hone), hbinding⟩
  · rintro ⟨hcommand, hresources, hbinding⟩
    rw [hcommand, hresources, hbinding]

end Digest

end Supervisor
end XioFlow
