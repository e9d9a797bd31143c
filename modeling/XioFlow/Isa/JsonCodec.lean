/-
  XioFlow.Isa.JsonCodec

  The JSON codec of values: `encodeJson`, plain and canonical, `decodeJson`,
  and the fingerprints that are digests of canonical texts.

  Numbers are double precision numbers.  Objects enumerate the properties that
  are array indices first; assigning to `__proto__` sets the prototype of an
  object, so it adds no property.
-/

import XioFlow.Isa.Codec
import XioFlow.Lib.NumberText

namespace XioFlow.Isa

open Lib Lib.JsonText

/-! ## Objects -/

/-- The array index that a property name spells. -/
def indexOf? (key : Utf16) : Option Nat :=
  (natural? key).filter fun n => decide (n < 4294967295 ∧ key = decimal n)

/-- By array index. -/
def indexLe {α : Type} (a b : Utf16 × α) : Bool :=
  decide ((indexOf? a.1).getD 0 ≤ (indexOf? b.1).getD 0)

/-- The order in which an object enumerates properties that were added in this order. -/
def enumerated {α : Type} (entries : List (Utf16 × α)) : List (Utf16 × α) :=
  (entries.filter fun e => (indexOf? e.1).isSome).mergeSort indexLe ++
    entries.filter fun e => (indexOf? e.1).isNone

def protoKey : Utf16 := units "__proto__"

/-- `output[key] = v`; the keys of an object come once each, so none is there already. -/
def assign (output : List (Utf16 × Tree)) (key : Utf16) (v : Tree) : List (Utf16 × Tree) :=
  if key = protoKey then output else output ++ [(key, v)]

/-- A loop of assignments. -/
def assignAll (entries : List (Utf16 × Tree)) : List (Utf16 × Tree) :=
  entries.foldl (fun output e => assign output e.1 e.2) []

/-! ## Encoding -/

mutual

def canonicalize : Tree → Tree
  | .arr items => .arr (canonicalizeItems items)
  | .obj entries => .obj (assignAll ((canonicalizeEntries entries).mergeSort keyLe))
  | .null => .null
  | .bool b => .bool b
  | .num d => .num d
  | .str s => .str s

def canonicalizeItems : List Tree → List Tree
  | [] => []
  | v :: vs => canonicalize v :: canonicalizeItems vs

def canonicalizeEntries : List (Utf16 × Tree) → List (Utf16 × Tree)
  | [] => []
  | (key, v) :: es => (key, canonicalize v) :: canonicalizeEntries es

end

mutual

/-- What `JSON.stringify` writes of a value. -/
def written : Tree → Value
  | .null => .null
  | .bool b => .bool b
  | .num d => .num ⟨numberText d, isNumeral_numberText d⟩
  | .str s => .str s
  | .arr items => .arr (writtenItems items)
  | .obj entries => .obj (enumerated (writtenEntries entries))

def writtenItems : List Tree → List Value
  | [] => []
  | v :: vs => written v :: writtenItems vs

def writtenEntries : List (Utf16 × Tree) → List (Utf16 × Value)
  | [] => []
  | (key, v) :: es => (key, written v) :: writtenEntries es

end

/-- `encodeJson` of what `assertJsonValue` accepts. -/
def encodeJson (canonical : Bool) (v : Tree) : Utf16 :=
  stringify (written (if canonical then canonicalize v else v))

/-! ## Decoding -/

inductive JsonCodecError where
  /-- `invalid JSON: …` -/
  | invalidJson
  /-- `${path} must contain only finite JSON numbers` -/
  | notFinite (path : Utf16)
  deriving DecidableEq

/-- The results in their order, up to the first error. -/
def inOrder {α β : Type} : List (α × Except JsonCodecError β) → Except JsonCodecError (List (α × β))
  | [] => .ok []
  | (a, result) :: rest => do
    let b ← result
    let more ← inOrder rest
    return (a, b) :: more

mutual

/-- `assertJsonValue` of what `JSON.parse` made; `path` is where the value is. -/
def accepted (path : Utf16) : Value → Except JsonCodecError Tree
  | .null => .ok .null
  | .bool b => .ok (.bool b)
  | .num n =>
    match toNumber n.text with
    | some d => .ok (.num d)
    | none => .error (.notFinite path)
  | .str s => .ok (.str s)
  | .arr items => do
    let items ← acceptedItems path 0 items
    return .arr items
  | .obj entries => do
    let entries ← inOrder (enumerated (acceptedEntries path entries))
    return .obj entries

def acceptedItems (path : Utf16) (index : Nat) : List Value → Except JsonCodecError (List Tree)
  | [] => .ok []
  | v :: vs => do
    let item ← accepted (path ++ unit '[' :: (decimal index ++ [unit ']'])) v
    let rest ← acceptedItems path (index + 1) vs
    return item :: rest

def acceptedEntries (path : Utf16) :
    List (Utf16 × Value) → List (Utf16 × Except JsonCodecError Tree)
  | [] => []
  | (key, v) :: es => (key, accepted (path ++ unit '.' :: key) v) :: acceptedEntries path es

end

def decodeJson (encoded : Utf16) : Except JsonCodecError Tree :=
  match parse encoded with
  | none => .error .invalidJson
  | some v => accepted (units "value") v

/-! ## Fingerprints -/

/-- The parts of a program and an instruction that a fingerprint is taken of. -/
structure InstructionInput where
  isa : Utf16
  programId : Utf16
  capability : Option Utf16
  workspace : Option Utf16
  options : Option JsonValue
  instruction : JsonValue

/-- `value ?? null` -/
def nullOr {α : Type} (toTree : α → Tree) : Option α → Tree
  | none => .null
  | some a => toTree a

/-- `input` in `instructionFingerprint` -/
def InstructionInput.tree (input : InstructionInput) : Tree :=
  .obj [
    (units "isa", .str input.isa),
    (units "programId", .str input.programId),
    (units "capability", nullOr .str input.capability),
    (units "workspace", nullOr .str input.workspace),
    (units "options", nullOr Subtype.val input.options),
    (units "instruction", input.instruction.val)]

section

variable (sha256 : List UInt8 → String)

/-- `createHash('sha256').update(encodeJson(input, { canonical: true })).digest('hex')` -/
def canonicalDigest (v : Tree) : String := sha256 (bufferFrom (encodeJson true v))

def instructionFingerprint (input : InstructionInput) : String := canonicalDigest sha256 input.tree

end

end XioFlow.Isa
