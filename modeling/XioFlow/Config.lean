/-
  XioFlow.Config

  The request binding of runs and operations: its check before it is stored
  or used, and the white list that run configurations are filtered through.
-/

import XioFlow.Types

namespace XioFlow

open Lib

/-- The hash the kernel uses, as a function of the value whose JSON text is hashed. -/
class Crypto where
  /-- SHA-256 of the JSON text of a value, in lower case hexadecimal digits. -/
  sha256 : Json → String

/-- A hash for examples in which no request binding is stored. -/
abbrev plainCrypto : Crypto := ⟨fun _ => ""⟩

/-! ## The binding -/

def configSchemaVersion : String := "xio/config/1"

/-- An optional property of a stored object: absent properties are not written. -/
def optEntry (name : String) : Option String → List (String × Json)
  | none => []
  | some value => [(name, .str value)]

/-- The snapshot without its digest, in property order. -/
def RequestConfigSnapshot.withoutDigest (s : RequestConfigSnapshot) : Json :=
  .obj ([("schemaVersion", .str s.schemaVersion)] ++
    optEntry "capabilityId" s.capabilityId ++
    optEntry "capabilityPolicyVersion" s.capabilityPolicyVersion ++
    [("driverName", .str s.driverName), ("driverVersion", .str s.driverVersion),
      ("driverCapabilities", .obj s.driverCapabilities),
      ("retentionVersion", .str s.retentionVersion),
      ("redactionVersion", .str s.redactionVersion),
      ("config", .obj s.config), ("createdAt", .str (toISOString s.createdAt))])

/-- A boolean, a string, or an array of strings. -/
def validCapabilityFact : Json → Bool
  | .bool _ | .str _ => true
  | .arr items => items.all fun item => match item with
      | .str _ => true
      | _ => false
  | _ => false

/-- `/^[0-9a-f]{64}$/` -/
def validDigest (digest : String) : Bool :=
  digest.toList.length == 64 && digest.toList.all fun c => c.isDigit || ('a' ≤ c && c ≤ 'f')

/-- Recompute and verify the immutable binding. -/
def assertRequestConfigSnapshot [Crypto] (s : RequestConfigSnapshot) : Except KernelError Unit :=
  if s.schemaVersion ≠ configSchemaVersion then
    .error (.error ("Unsupported config snapshot schema '" ++ s.schemaVersion ++ "'"))
  else if s.driverName = "" ∨ s.driverVersion = "" ∨ s.retentionVersion = "" ∨
      s.redactionVersion = "" then
    .error (.error "Config snapshot is incomplete")
  else if !s.driverCapabilities.all fun fact => validCapabilityFact fact.2 then
    .error (.error "Config snapshot driverCapabilities contains an invalid value")
  else if !validDigest s.digest then .error (.error "Config snapshot digest is invalid")
  else if Crypto.sha256 s.withoutDigest ≠ s.digest then
    .error (.error "Config snapshot digest mismatch")
  else .ok ()

/-- The check on an optional binding. -/
def assertOptionalSnapshot [Crypto] : Option RequestConfigSnapshot → Except KernelError Unit
  | none => .ok ()
  | some s => assertRequestConfigSnapshot s

/-! ## Run configurations -/

def safeConfigWhitelist : List String :=
  ["model", "temperature", "maxTokens", "cwd", "timeoutMs", "maxRetries", "mode", "environment",
    "permissionScope", "toolsAllowed"]

/-- `String.prototype.toLowerCase`, on the characters that become ASCII letters. -/
def lowerCase (c : Char) : Char := if c = Char.ofNat 0x212A then 'k' else c.toLower

/-- The names `sanitizeConfigSnapshot` drops. -/
def sensitiveConfigKey (key : String) : Bool :=
  let cs := key.toList.map lowerCase
  ["token", "key", "secret", "password", "auth", "credential"].any fun word =>
    infixAt word.toList cs

def isPrimitive : Json → Bool
  | .str _ | .num _ | .bool _ => true
  | .null | .arr _ | .obj _ => false

def sanitizeConfigSnapshot (config : List (String × Json)) : List (String × Json) :=
  config.filter fun entry =>
    !sensitiveConfigKey entry.1 && entry.1 ≠ "__proto__" &&
      (safeConfigWhitelist.contains entry.1 || isPrimitive entry.2)

end XioFlow
