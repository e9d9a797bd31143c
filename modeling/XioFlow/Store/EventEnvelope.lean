/-
  XioFlow.Store.EventEnvelope

  What every journal payload passes through before it is stored: key-based
  redaction at any depth, the checks on the envelope's names, the defaults.
-/

import XioFlow.Types

namespace XioFlow

open Lib
open JsValue

/-! ## The names that are dropped -/

/-- Case folding of a regular expression with the flags `i` and `u`, on the characters that fold
    to an ASCII letter: the long s and the Kelvin sign fold like `s` and `k`. -/
def foldCase (c : Char) : Char :=
  if c = Char.ofNat 0x17F then 's'
  else if c = Char.ofNat 0x212A then 'k'
  else c.toLower

/-- The alternatives of `SECRET_KEY` that match anywhere in a name. -/
def secretWords : List String :=
  ["prompt", "secret", "token", "password", "authorization", "credential",
    "apikey", "api_key", "api-key", "environment", "content", "body", "stdin", "stdout", "stderr"]

/-- `[_-]` -/
def isSeparator (c : Char) : Bool := c = '_' || c = '-'

/-- `env(?:$|[_-])` at the start of the list. -/
def envAt : List Char → Bool
  | 'e' :: 'n' :: 'v' :: [] => true
  | 'e' :: 'n' :: 'v' :: c :: _ => isSeparator c
  | _ => false

/-- `[_-]env(?:$|[_-])` anywhere. -/
def envAfterSeparator : List Char → Bool
  | [] => false
  | c :: cs => (isSeparator c && envAt cs) || envAfterSeparator cs

/-- `SECRET_KEY.test(key)` -/
def isSecretKey (key : String) : Bool :=
  let cs := key.toList.map foldCase
  secretWords.any (fun word => infixAt word.toList cs) || envAt cs || envAfterSeparator cs

example : isSecretKey "API_Key" = true ∧ isSecretKey "my-env" = true ∧
    isSecretKey "environmental" = true ∧ isSecretKey "envelope" = false := by decide

/-! ## Redaction -/

mutual

/-- The JSON value of a host value: secret and undefined properties go, and whatever JSON cannot
    carry is an error that names the path. -/
def jsonValue : JsValue → String → Except KernelError Json
  | .null, _ => .ok .null
  | .str s, _ => .ok (.str s)
  | .bool b, _ => .ok (.bool b)
  | .num (.finite q), _ => .ok (.num q)
  -- `JSON.stringify(-0)` is `0`.
  | .num .negZero, _ => .ok (.num 0)
  | .num .nonFinite, path => .error (.typeError (path ++ " contains a non-finite number"))
  | .arr items, path => do return .arr (← jsonItems items path 0)
  | .obj entries, path => do return .obj (← jsonEntries entries path)
  | .exotic entries, path => do return .obj (← jsonEntries entries path)
  | .undefined, path => .error (.typeError (path ++ " contains a non-JSON value"))
  | .bigint _, path => .error (.typeError (path ++ " contains a non-JSON value"))
  | .callable, path => .error (.typeError (path ++ " contains a non-JSON value"))

def jsonItems : List JsValue → String → Nat → Except KernelError (List Json)
  | [], _, _ => .ok []
  | item :: items, path, index => do
    let value ← jsonValue item (path ++ "[" ++ toString index ++ "]")
    let rest ← jsonItems items path (index + 1)
    return value :: rest

def jsonEntries : List (String × JsValue) → String → Except KernelError (List (String × Json))
  | [], _ => .ok []
  | (key, item) :: entries, path =>
    if isSecretKey key || item.isUndefined then jsonEntries entries path
    else do
      let value ← jsonValue item (path ++ "." ++ key)
      let rest ← jsonEntries entries path
      -- Assigning to `__proto__` sets the prototype and adds no property.
      return if key = "__proto__" then rest else (key, value) :: rest

end

inductive EventSensitivity where
  | publicly | internal | sensitive | secret
  deriving DecidableEq, Repr

def redactEventPayload (payload : JsValue) (sensitivity : EventSensitivity) :
    Except KernelError Json :=
  if sensitivity = .secret then .ok (.obj [("redacted", .bool true)])
  else do
    let value ← jsonValue (match payload with
      | .undefined | .null => .obj []
      | payload => payload) "payload"
    match value with
    | .obj entries => return .obj entries
    | _ => throw (.typeError "event payload must be an object")

/-! ## Values that JSON can carry -/

mutual

/-- A tree of finite numbers, strings, booleans and nulls; properties may be undefined. -/
def JsValue.plain : JsValue → Bool
  | .null | .bool _ | .str _ | .num (.finite _) | .num .negZero => true
  | .arr items => plainItems items
  | .obj entries | .exotic entries => plainEntries entries
  | .num .nonFinite | .undefined | .bigint _ | .callable => false

def JsValue.plainItems : List JsValue → Bool
  | [] => true
  | item :: items => item.plain && plainItems items

def JsValue.plainEntries : List (String × JsValue) → Bool
  | [] => true
  | (_, item) :: entries => (item.isUndefined || item.plain) && plainEntries entries

end

mutual

/-- A plain value is never refused. -/
theorem jsonValue_of_plain : ∀ (v : JsValue) (path : String), v.plain = true →
    ∃ j, jsonValue v path = .ok j
  | .null, _, _ => ⟨_, rfl⟩
  | .bool _, _, _ => ⟨_, rfl⟩
  | .str _, _, _ => ⟨_, rfl⟩
  | .num (.finite _), _, _ => ⟨_, rfl⟩
  | .num .negZero, _, _ => ⟨_, rfl⟩
  | .arr items, path, h => by
      obtain ⟨js, hjs⟩ := jsonItems_of_plain items path 0 (by simpa [plain] using h)
      exact ⟨.arr js, by simp [jsonValue, hjs]⟩
  | .obj entries, path, h => by
      obtain ⟨js, hjs⟩ := jsonEntries_of_plain entries path (by simpa [plain] using h)
      exact ⟨.obj js, by simp [jsonValue, hjs]⟩
  | .exotic entries, path, h => by
      obtain ⟨js, hjs⟩ := jsonEntries_of_plain entries path (by simpa [plain] using h)
      exact ⟨.obj js, by simp [jsonValue, hjs]⟩
  | .num .nonFinite, _, h => by simp [plain] at h
  | .undefined, _, h => by simp [plain] at h
  | .bigint _, _, h => by simp [plain] at h
  | .callable, _, h => by simp [plain] at h

theorem jsonItems_of_plain : ∀ (items : List JsValue) (path : String) (index : Nat),
    plainItems items = true → ∃ js, jsonItems items path index = .ok js
  | [], _, _, _ => ⟨[], rfl⟩
  | item :: items, path, index, h => by
      simp only [plainItems, Bool.and_eq_true] at h
      obtain ⟨j, hj⟩ := jsonValue_of_plain item (path ++ "[" ++ toString index ++ "]") h.1
      obtain ⟨js, hjs⟩ := jsonItems_of_plain items path (index + 1) h.2
      exact ⟨j :: js, by simp only [jsonItems, hj, hjs]; rfl⟩

theorem jsonEntries_of_plain : ∀ (entries : List (String × JsValue)) (path : String),
    plainEntries entries = true → ∃ js, jsonEntries entries path = .ok js
  | [], _, _ => ⟨[], rfl⟩
  | (key, item) :: entries, path, h => by
      simp only [plainEntries, Bool.and_eq_true, Bool.or_eq_true] at h
      obtain ⟨js, hjs⟩ := jsonEntries_of_plain entries path h.2
      by_cases hdrop : (isSecretKey key || item.isUndefined) = true
      · exact ⟨js, by rw [jsonEntries, if_pos hdrop, hjs]⟩
      have hitem : item.plain = true := by
        rcases h.1 with hundef | hplain
        · simp [hundef] at hdrop
        · exact hplain
      obtain ⟨j, hj⟩ := jsonValue_of_plain item (path ++ "." ++ key) hitem
      exact ⟨if key = "__proto__" then js else (key, j) :: js, by
        rw [jsonEntries, if_neg hdrop, hj, hjs]; rfl⟩

end

/-! ## Taking a conversion apart -/

theorem jsonItems_cons_ok {item : JsValue} {items : List JsValue} {path : String} {index : Nat}
    {js : List Json} (h : jsonItems (item :: items) path index = .ok js) :
    ∃ j rest, jsonValue item (path ++ "[" ++ toString index ++ "]") = .ok j ∧
      jsonItems items path (index + 1) = .ok rest ∧ js = j :: rest := by
  rw [jsonItems] at h
  cases hj : jsonValue item (path ++ "[" ++ toString index ++ "]") with
  | error =>
    rw [hj] at h
    cases h
  | ok j =>
    cases hrest : jsonItems items path (index + 1) with
    | error =>
      rw [hj, hrest] at h
      cases h
    | ok rest =>
      rw [hj, hrest] at h
      cases h
      exact ⟨j, rest, rfl, rfl, rfl⟩

variable {entries : List (String × JsValue)} {input : EventEnvelopeInput} {envelope : EventEnvelope}

theorem jsonEntries_cons_ok {key : String} {item : JsValue} {path : String}
    {js : List (String × Json)} (h : jsonEntries ((key, item) :: entries) path = .ok js) :
    ((isSecretKey key || item.isUndefined) = true ∧ jsonEntries entries path = .ok js) ∨
      ((isSecretKey key || item.isUndefined) = false ∧
        ∃ j rest, jsonValue item (path ++ "." ++ key) = .ok j ∧
          jsonEntries entries path = .ok rest ∧
          js = if key = "__proto__" then rest else (key, j) :: rest) := by
  rw [jsonEntries] at h
  by_cases hdrop : (isSecretKey key || item.isUndefined) = true
  · rw [if_pos hdrop] at h
    exact Or.inl ⟨hdrop, h⟩
  · rw [if_neg hdrop] at h
    refine Or.inr ⟨by simpa using hdrop, ?_⟩
    cases hj : jsonValue item (path ++ "." ++ key) with
    | error =>
      rw [hj] at h
      cases h
    | ok j =>
      cases hrest : jsonEntries entries path with
      | error =>
        rw [hj, hrest] at h
        cases h
      | ok rest =>
        rw [hj, hrest] at h
        exact ⟨j, rest, rfl, rfl, (Except.ok.inj h).symm⟩

/-! ## The envelope -/

structure EventEnvelopeInput where
  schemaVersion : Option String := none
  domainId : String
  requestId : Option String := none
  programId : Option String := none
  instructionId : Option String := none
  opId : Option String := none
  event : String
  payload : JsValue := .undefined
  sensitivity : Option EventSensitivity := none
  createdAt : Option Timestamp := none

structure EventEnvelope where
  schemaVersion : String
  domainId : String
  requestId : Option String
  programId : Option String
  instructionId : Option String
  opId : Option String
  event : String
  payload : Json
  sensitivity : EventSensitivity
  createdAt : Timestamp
  deriving DecidableEq

/-- `[A-Za-z]` -/
def isAsciiLetter (c : Char) : Bool := c.isAlpha

/-- A letter, then up to 63 letters, digits, dots, underscores, slashes or hyphens. -/
def validSchemaVersion : String → Bool :=
  matchesName isAsciiLetter
    (fun c => c.isAlphanum || c = '.' || c = '_' || c = '/' || c = '-') 64

/-- A letter, then up to 127 letters, digits, dots, underscores, colons or hyphens. -/
def validEventName : String → Bool :=
  matchesName isAsciiLetter
    (fun c => c.isAlphanum || c = '.' || c = '_' || c = ':' || c = '-') 128

def createEventEnvelope (input : EventEnvelopeInput) (now : Timestamp) :
    Except KernelError EventEnvelope :=
  let schemaVersion := input.schemaVersion.getD "xio/event/1.0"
  let sensitivity := input.sensitivity.getD .internal
  if input.domainId = "" || input.event = "" then
    .error (.typeError "event envelope requires domainId and event")
  else if !validSchemaVersion schemaVersion then
    .error (.typeError "invalid event schemaVersion")
  else if !validEventName input.event then .error (.typeError "invalid event name")
  else do
    let payload ← redactEventPayload input.payload sensitivity
    return {
      schemaVersion
      domainId := input.domainId
      requestId := input.requestId
      programId := input.programId
      instructionId := input.instructionId
      opId := input.opId
      event := input.event
      payload
      sensitivity
      createdAt := input.createdAt.getD now }

theorem redactEventPayload_of_plain (h : plainEntries entries = true)
    (sensitivity : EventSensitivity) :
    ∃ j, redactEventPayload (.obj entries) sensitivity = .ok j := by
  unfold redactEventPayload
  split
  · exact ⟨_, rfl⟩
  · obtain ⟨js, hjs⟩ := jsonEntries_of_plain entries "payload" h
    exact ⟨.obj js, by simp only [jsonValue, hjs]; rfl⟩

variable {now : Timestamp}

/-- An envelope with valid names around a plain payload is never refused. -/
theorem createEventEnvelope_of_plain (hdomain : input.domainId ≠ "")
    (hschema : validSchemaVersion (input.schemaVersion.getD "xio/event/1.0") = true)
    (hname : validEventName input.event = true) (hpayload : input.payload = .obj entries)
    (hplain : plainEntries entries = true) :
    ∃ envelope, createEventEnvelope input now = .ok envelope := by
  obtain ⟨j, hj⟩ := redactEventPayload_of_plain hplain (input.sensitivity.getD .internal)
  have hevent : input.event ≠ "" := by
    intro hempty
    rw [hempty] at hname
    exact absurd hname (by decide)
  unfold createEventEnvelope
  simp only [hdomain, hevent, hschema, hname, hpayload, hj, decide_false, Bool.or_self,
    Bool.false_eq_true, if_false, Bool.not_true]
  exact ⟨_, rfl⟩

/-- An envelope names the domain of its input. -/
theorem createEventEnvelope_names (h : createEventEnvelope input now = .ok envelope) :
    envelope.domainId = input.domainId := by
  unfold createEventEnvelope at h
  simp only at h
  split at h
  · cases h
  split at h
  · cases h
  split at h
  · cases h
  cases hpayload : redactEventPayload input.payload (input.sensitivity.getD .internal) with
  | error =>
    rw [hpayload] at h
    cases h
  | ok =>
    rw [hpayload] at h
    cases h
    rfl

/-- What an envelope keeps of its input. -/
theorem createEventEnvelope_ok (h : createEventEnvelope input now = .ok envelope) :
    envelope.opId = input.opId ∧ envelope.event = input.event ∧
      redactEventPayload input.payload (input.sensitivity.getD .internal) =
        .ok envelope.payload := by
  unfold createEventEnvelope at h
  simp only at h
  split at h
  · cases h
  split at h
  · cases h
  split at h
  · cases h
  cases hpayload : redactEventPayload input.payload (input.sensitivity.getD .internal) with
  | error =>
    rw [hpayload] at h
    cases h
  | ok =>
    rw [hpayload] at h
    cases h
    exact ⟨rfl, rfl, rfl⟩

/-- An envelope names a domain. -/
theorem createEventEnvelope_domainId (h : createEventEnvelope input now = .ok envelope) :
    input.domainId ≠ "" := by
  intro hempty
  unfold createEventEnvelope at h
  simp [hempty] at h

end XioFlow
