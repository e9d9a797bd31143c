/-
  XioFlow.Ipc.LocalSocket

  The local IPC server (src/ipc/local-socket.ts): framing of requests by lines,
  and authentication by a nonce that is bound to session, capability and epoch.

  A connection takes one event at a time: a chunk of bytes, the answer of
  `resolveCapability` to a request, or the outcome of the handler.  Lines of a
  chunk are started one after the other and finish in any order.

  The limit on the size of a message is applied to the buffer before the lines
  in it are taken out, so it counts several messages as one.
-/

import XioFlow.Lib.Transition
import XioFlow.Lib.Utf8Decoder
import XioFlow.Types

namespace XioFlow.Ipc

open Lib Utf8Decoder

abbrev Text := List Char

/-! ## Keys and nonces -/

/-- The codes of `LocalIpcAuthError`. -/
inductive AuthCode where
  | invalidRequest | missingSessionKey | invalidSessionKey | missingCapability
  | capabilityRejected | invalidNonce
  deriving DecidableEq, Repr

def AuthCode.text : AuthCode → String
  | .invalidRequest => "invalid_request"
  | .missingSessionKey => "missing_session_key"
  | .invalidSessionKey => "invalid_session_key"
  | .missingCapability => "missing_capability"
  | .capabilityRejected => "capability_rejected"
  | .invalidNonce => "invalid_nonce"

/-- `[a-f0-9]` -/
def isHexDigit (c : Char) : Bool :=
  ('0'.toNat ≤ c.toNat && c.toNat ≤ '9'.toNat) || ('a'.toNat ≤ c.toNat && c.toNat ≤ 'f'.toNat)

/-- `/^[a-f0-9]{64}$/u` -/
def isHexKey (value : String) : Bool := value.toList.length = 64 && value.toList.all isHexDigit

def hexDigit (c : Char) : Nat :=
  if c.toNat ≤ '9'.toNat then c.toNat - '0'.toNat else c.toNat - 'a'.toNat + 10

/-- The bytes that hexadecimal digits spell. -/
def hexBytes : List Char → List Nat
  | high :: low :: rest => (hexDigit high * 16 + hexDigit low) :: hexBytes rest
  | _ => []

def hexKey (value : String) : Except AuthCode (List Nat) :=
  if isHexKey value then .ok (hexBytes value.toList) else .error .invalidSessionKey

def constantTimeHexEquals (actual expected : String) : Bool :=
  match hexKey actual, hexKey expected with
  | .ok left, .ok right => left.length = right.length && left = right
  | _, _ => false

/-- `Number.MAX_SAFE_INTEGER` -/
def maxSafeInteger : Int := 9007199254740991

/-- `Number.isSafeInteger(epoch) && epoch >= 0` -/
def validEpoch (epoch : Rat) : Bool :=
  epoch.den = 1 && 0 ≤ epoch.num && epoch.num ≤ maxSafeInteger

/-- `createHmac('sha256', key).update(message).digest('hex')` -/
abbrev Hmac := List Nat → String → String

/-- What a nonce authenticates. -/
def nonceMessage (capabilityId : String) (epoch : Rat) : String :=
  "xio/local-ipc/v1\x00" ++ capabilityId ++ "\x00" ++ String.ofList (digitsOf epoch.num.toNat)

def capabilityBoundNonce (hmac : Hmac) (sessionKey capabilityId : String) (epoch : Rat) :
    Except String String :=
  if capabilityId.isEmpty || !validEpoch epoch then
    .error "capability-bound nonce requires a capability id and non-negative epoch"
  else match hexKey sessionKey with
    | .error code => .error code.text
    | .ok key => .ok (hmac key (nonceMessage capabilityId epoch))

/-! ## The server -/

/-- `LocalIpcServer`, as its constructor accepts it. -/
structure LocalIpcServer where
  maxMessageBytes : Nat := 1024 * 1024
  sessionKey : String
  enough : 1024 ≤ maxMessageBytes
  keyed : isHexKey sessionKey = true

structure LocalIpcAuth where
  sessionKey : String
  capabilityId : String
  nonce : String
  deriving DecidableEq, Repr

/-- The `auth` member of a request that carries the credentials. -/
def LocalIpcAuth.toJson (auth : LocalIpcAuth) : Json :=
  .obj [("sessionKey", .str auth.sessionKey), ("capabilityId", .str auth.capabilityId),
    ("nonce", .str auth.nonce)]

def LocalIpcServer.credentials (server : LocalIpcServer) (hmac : Hmac) (capabilityId : String)
    (epoch : Rat) : Except String LocalIpcAuth :=
  match capabilityBoundNonce hmac server.sessionKey capabilityId epoch with
  | .error message => .error message
  | .ok nonce => .ok ⟨server.sessionKey, capabilityId, nonce⟩

/-- What `resolveCapability` comes back with. -/
inductive Resolution where
  | bound (epoch : Rat)
  | unbound
  | rejects (message : String)
  deriving DecidableEq, Repr

structure LocalIpcHandlerContext where
  capabilityId : String
  epoch : Rat
  nonce : String
  deriving DecidableEq, Repr

/-- How a request fails: with an authentication error, or with any other. -/
inductive Failure where
  | auth (code : AuthCode)
  | other (message : String)
  deriving DecidableEq, Repr

/-- `authenticate`, up to the call of `resolveCapability`. -/
def LocalIpcServer.checkAuth (server : LocalIpcServer) (auth : Option Json) :
    Except AuthCode LocalIpcAuth :=
  match auth with
  | some (.obj entries) =>
    match (Json.obj entries).field? "sessionKey" with
    | some (.str sessionKey) =>
      if !constantTimeHexEquals sessionKey server.sessionKey then .error .invalidSessionKey
      else match (Json.obj entries).field? "capabilityId" with
        | some (.str capabilityId) =>
          if capabilityId.isEmpty then .error .missingCapability
          else match (Json.obj entries).field? "nonce" with
            | some (.str nonce) =>
              if isHexKey nonce then .ok ⟨sessionKey, capabilityId, nonce⟩
              else .error .invalidNonce
            | _ => .error .invalidNonce
        | _ => .error .missingCapability
    | _ => .error .missingSessionKey
  | _ => .error .missingSessionKey

/-- `authenticate`, from the answer of `resolveCapability` on. -/
def LocalIpcServer.checkBinding (server : LocalIpcServer) (hmac : Hmac) (candidate : LocalIpcAuth) :
    Resolution → Except Failure LocalIpcHandlerContext
  | .rejects message => .error (.other message)
  | .unbound => .error (.auth .capabilityRejected)
  | .bound epoch =>
    if !validEpoch epoch then .error (.auth .capabilityRejected)
    else match capabilityBoundNonce hmac server.sessionKey candidate.capabilityId epoch with
      | .error message => .error (.other message)
      | .ok expectedNonce =>
        if !constantTimeHexEquals candidate.nonce expectedNonce then .error (.auth .invalidNonce)
        else .ok ⟨candidate.capabilityId, epoch, candidate.nonce⟩

/-- The answer of a domain whose capabilities are `getCapability`. -/
def resolveDomainCapability (getCapability : String → Option Capability) (now : Timestamp)
    (capabilityId : String) : Resolution :=
  match getCapability capabilityId with
  | none => .unbound
  | some capability =>
    if capability.revokedAt.isSome || capability.expiresAt ≤ now then .unbound
    else .bound capability.epoch

/-! ## Lines -/

/-- The complete lines of a buffer, and what is behind the last newline. -/
def takeLines : Text → List Text × Text
  | [] => ([], [])
  | c :: buffer =>
    let (lines, rest) := takeLines buffer
    if c = '\n' then ([] :: lines, rest)
    else match lines with
      | [] => ([], c :: rest)
      | line :: lines => ((c :: line) :: lines, rest)

/-- The lines that are handled. -/
def nonblank (lines : List Text) : List Text := (lines.map trim).filter (· ≠ [])

/-! ## Requests -/

structure LocalIpcRequest where
  /-- `null` unless the line gives a string or a number -/
  id : Json
  method : String
  params : Option Json
  auth : Option Json

structure LocalIpcResponse where
  id : Json
  result : Option Json := none
  error : Option (String × String) := none

/-- How the handler settles.  A result that `JSON.stringify` does not take
    throws in the same `try`. -/
inductive Outcome where
  | resolves (result : Option Json)
  | fails (failure : Failure)

def Failure.response (failure : Failure) (id : Json) : LocalIpcResponse :=
  match failure with
  | .auth code => { id, error := some (code.text, code.text) }
  | .other message => { id, error := some ("handler_error", message) }

def Outcome.response (outcome : Outcome) (id : Json) : LocalIpcResponse :=
  match outcome with
  | .resolves result => { id, result }
  | .fails failure => failure.response id

/-- `handleLine` at one of its awaits. -/
inductive Task where
  | resolving (request : LocalIpcRequest) (candidate : LocalIpcAuth)
  | handling (request : LocalIpcRequest) (context : LocalIpcHandlerContext)

/-- A call of the handler, with the answer its request was admitted on. -/
structure Invocation where
  request : LocalIpcRequest
  resolution : Resolution
  context : LocalIpcHandlerContext

/-- What a step of a line leaves behind. -/
structure Progress where
  tasks : List Task := []
  invocations : List Invocation := []
  responses : List LocalIpcResponse := []

/-- A handler, a way to read JSON and the host's HMAC. -/
structure Host where
  hmac : Hmac
  /-- `JSON.parse` -/
  parse : Text → Option Json

def readRequest (entries : List (String × Json)) : Json × Option LocalIpcRequest :=
  let id := match (Json.obj entries).field? "id" with
    | some (.str s) => .str s
    | some (.num n) => .num n
    | _ => .null
  match (Json.obj entries).field? "method" with
  | some (.str method) =>
    if method.isEmpty then (id, none)
    else (id, some ⟨id, method, (Json.obj entries).field? "params",
      (Json.obj entries).field? "auth"⟩)
  | _ => (id, none)

/-- `handleLine`, up to its first await. -/
def LocalIpcServer.handleLine (server : LocalIpcServer) (host : Host) (line : Text) : Progress :=
  match host.parse line with
  | some (.obj entries) =>
    match readRequest entries with
    | (id, none) =>
      { responses := [{ id, error := some ("invalid_request", "method is required") }] }
    | (id, some request) =>
      match server.checkAuth request.auth with
      | .error code => { responses := [(Failure.auth code).response id] }
      | .ok candidate => { tasks := [.resolving request candidate] }
  | _ =>
    { responses := [{
        id := .null
        error := some ("invalid_request", "request must be one JSON object per line") }] }

/-- `handleLine`, from the answer of `resolveCapability` to the handler. -/
def LocalIpcServer.onResolution (server : LocalIpcServer) (host : Host) (request : LocalIpcRequest)
    (candidate : LocalIpcAuth) (resolution : Resolution) : Progress :=
  match server.checkBinding host.hmac candidate resolution with
  | .error failure => { responses := [failure.response request.id] }
  | .ok context =>
    { tasks := [.handling request context], invocations := [⟨request, resolution, context⟩] }

/-! ## A connection -/

structure Connection where
  /-- `setEncoding('utf8')` -/
  decoder : Utf8Decoder := idle
  buffer : Text := []
  destroyed : Bool := false
  tasks : List Task := []
  invocations : List Invocation := []
  /-- what was written to the socket -/
  responses : List LocalIpcResponse := []

namespace Connection

variable (server : LocalIpcServer) (host : Host)

/-- Something in flight gives way to what comes of it.  A response to a
    destroyed socket is dropped. -/
def progress (c : Connection) (tasks : List Task) (p : Progress) : Connection :=
  { c with
    tasks := tasks ++ p.tasks
    invocations := c.invocations ++ p.invocations
    responses := if c.destroyed then c.responses else c.responses ++ p.responses }

/-- The lines of a chunk, one after the other. -/
def handleLines (c : Connection) : List Text → Connection
  | [] => c
  | line :: lines => handleLines (c.progress c.tasks (server.handleLine host line)) lines

/-- `socket.on('data', ...)` -/
def onData (c : Connection) (chunk : List UInt8) : Connection :=
  if c.destroyed then c
  else
    let (text, decoder) := c.decoder.feed chunk
    let buffer := c.buffer ++ text
    if byteLength buffer > server.maxMessageBytes then
      { c with decoder, buffer, destroyed := true }
    else
      let (lines, rest) := takeLines buffer
      handleLines server host { c with decoder, buffer := rest } (nonblank lines)

end Connection

/-- What happens to a connection. -/
inductive Event where
  | data (chunk : List UInt8)
  | resolved (task : Nat) (resolution : Resolution)
  | settled (task : Nat) (outcome : Outcome)

/-- An event on a connection; an answer nobody waits for changes nothing. -/
def Connection.after (server : LocalIpcServer) (host : Host) (e : Event) (c : Connection) :
    Connection :=
  match e with
  | .data chunk => c.onData server host chunk
  | .resolved i resolution =>
    match c.tasks[i]? with
    | some (.resolving request candidate) =>
      c.progress (c.tasks.eraseIdx i) (server.onResolution host request candidate resolution)
    | _ => c
  | .settled i outcome =>
    match c.tasks[i]? with
    | some (.handling request _) =>
      c.progress (c.tasks.eraseIdx i) { responses := [outcome.response request.id] }
    | _ => c

end XioFlow.Ipc
