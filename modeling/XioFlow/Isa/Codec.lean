/-
  XioFlow.Isa.Codec

  The CBOR codec of JSON values: `CborWriter` and `CborReader`.

  The two are written apart.  The writer knows no limit on depth or width, the
  reader does; the writer leaves text to one library routine, the reader to
  another one, and puts all bytes of a text into the arguments of one call.
-/

import XioFlow.Lib.Unicode
import XioFlow.Lib.Binary64

namespace XioFlow.Isa

open Lib

/-! ## Values -/

/-- What `assertJsonValue` accepts: entries are the own properties of an object, in any order. -/
inductive Tree where
  | null
  | bool (b : Bool)
  | num (d : Binary64)
  | str (s : Utf16)
  | arr (items : List Tree)
  | obj (entries : List (Utf16 × Tree))

mutual

/-- No object has two properties of one name. -/
def Tree.Distinct : Tree → Prop
  | .arr items => Tree.DistinctItems items
  | .obj entries => (entries.map Prod.fst).Nodup ∧ Tree.DistinctEntries entries
  | _ => True

def Tree.DistinctItems : List Tree → Prop
  | [] => True
  | v :: vs => v.Distinct ∧ Tree.DistinctItems vs

def Tree.DistinctEntries : List (Utf16 × Tree) → Prop
  | [] => True
  | (_, v) :: es => v.Distinct ∧ Tree.DistinctEntries es

end

/-- A JSON value. -/
abbrev JsonValue := { v : Tree // v.Distinct }

/-- What the codec throws; `duplicateKey` is the error that quotes the key. -/
inductive CodecError where
  | typeError (message : String)
  | rangeError (message : String)
  | duplicateKey (key : Utf16)
  deriving DecidableEq

def maxSafeInteger : Nat := 9007199254740991

def MAX_CBOR_COLLECTION_LENGTH : Nat := 1000000

def MAX_CBOR_DEPTH : Nat := 128

/-- The engine that runs the codec: how many arguments a call may spread before it throws. -/
class Engine where
  maxSpread : Nat

/-! ## The writer -/

/-- The bytes of a number, the most significant one first. -/
def bigEndian : Nat → Nat → List UInt8
  | 0, _ => []
  | width + 1, value => UInt8.ofNat (value >>> (8 * width)) :: bigEndian width value

def initialByte (major additional : Nat) : UInt8 := UInt8.ofNat (major <<< 5 ||| additional)

def writeHead (major value : Nat) : Except CodecError (List UInt8) :=
  if maxSafeInteger < value then
    .error (.rangeError "CBOR length/value must be a nonnegative safe integer")
  else if value < 24 then .ok [initialByte major value]
  else if value ≤ 0xff then .ok (initialByte major 24 :: bigEndian 1 value)
  else if value ≤ 0xffff then .ok (initialByte major 25 :: bigEndian 2 value)
  else if value ≤ 0xffffffff then .ok (initialByte major 26 :: bigEndian 4 value)
  else .ok (initialByte major 27 :: bigEndian 8 value)

/-- `Buffer.from(value, 'utf8')` -/
def bufferFrom (s : Utf16) : List UInt8 := utf8 s.scalars

section Writer

variable [Engine]

/-- `this.bytes.push(...bytes)` has an argument for every byte. -/
def writeText (s : Utf16) : Except CodecError (List UInt8) := do
  let head ← writeHead 3 (bufferFrom s).length
  if Engine.maxSpread < (bufferFrom s).length then
    throw (.rangeError "Maximum call stack size exceeded")
  else return head ++ bufferFrom s

/-- Safe integers are written as integers, negative zero with them. -/
def writeNumber (d : Binary64) : Except CodecError (List UInt8) :=
  match d.safeInteger? with
  | some n => if 0 ≤ n then writeHead 0 n.toNat else writeHead 1 (-1 - n).toNat
  | none => .ok (0xfb :: bigEndian 8 d.bits)

/-- The order of `Object.keys(value).sort()`, by code units. -/
def keyLe {α : Type} (a b : Utf16 × α) : Bool := a.1 ≤ b.1

/-- Each key with what it stands for. -/
def writeEntries : List (Utf16 × Except CodecError (List UInt8)) → Except CodecError (List UInt8)
  | [] => .ok []
  | (key, value) :: rest => do
    let key ← writeText key
    let value ← value
    let rest ← writeEntries rest
    return key ++ (value ++ rest)

mutual

/-- `CborWriter.write` -/
def write : Tree → Except CodecError (List UInt8)
  | .null => .ok [0xf6]
  | .bool b => .ok [if b then 0xf5 else 0xf4]
  | .str s => writeText s
  | .num d => writeNumber d
  | .arr items => do
    let head ← writeHead 4 items.length
    let items ← writeItems items
    return head ++ items
  | .obj entries => do
    let head ← writeHead 5 entries.length
    let entries ← writeEntries ((writeValues entries).mergeSort keyLe)
    return head ++ entries

def writeItems : List Tree → Except CodecError (List UInt8)
  | [] => .ok []
  | v :: vs => do
    let item ← write v
    let rest ← writeItems vs
    return item ++ rest

/-- What would be written for each property. -/
def writeValues : List (Utf16 × Tree) → List (Utf16 × Except CodecError (List UInt8))
  | [] => []
  | (key, v) :: es => (key, write v) :: writeValues es

end

def encodeCbor (value : Tree) : Except CodecError (List UInt8) := write value

end Writer

/-! ## The reader -/

/-- A method of the reader, on the bytes from the offset on. -/
abbrev Reader := StateT (List UInt8) (Except CodecError)

def truncated : CodecError := .typeError "truncated CBOR input"

def depthExceeded : CodecError := .rangeError "CBOR nesting depth exceeds the codec limit"

def collectionExceeded : CodecError := .rangeError "CBOR collection exceeds the codec limit"

/-- `(value << 8n) | BigInt(byte)` -/
def shiftIn (value : Nat) (byte : UInt8) : Nat := value <<< 8 ||| byte.toNat

def readByte : Reader UInt8 := do
  match ← get with
  | [] => throw truncated
  | byte :: rest => do
    set rest
    return byte

/-- `ensureAvailable` and `subarray` -/
def readBytes (length : Nat) : Reader (List UInt8) := do
  let bytes ← get
  if bytes.length < length then throw truncated
  else do
    set (bytes.drop length)
    return bytes.take length

/-- The loop over the bytes of a number. -/
def readUnsigned : Nat → Nat → Reader Nat
  | 0, value => pure value
  | width + 1, value => do
    let byte ← readByte
    readUnsigned width (shiftIn value byte)

def additionalWidth (additional : Nat) : Nat :=
  if additional = 24 then 1
  else if additional = 25 then 2
  else if additional = 26 then 4
  else if additional = 27 then 8
  else 0

def readAdditional (additional : Nat) : Reader Nat :=
  if additional < 24 then pure additional
  else if additional = 31 then
    throw (.typeError "indefinite-length CBOR items are not supported")
  else if additionalWidth additional = 0 then
    throw (.typeError ("unsupported CBOR additional information " ++ toString additional))
  else do
    let value ← readUnsigned (additionalWidth additional) 0
    if maxSafeInteger < value then
      throw (.rangeError "CBOR integer exceeds JavaScript safe integer range")
    else return value

/-- The bytes of a `DataView` as one number. -/
def fromBigEndian (bytes : List UInt8) : Nat :=
  bytes.foldl shiftIn 0

/-- A finite number, or the error about the others. -/
def finite : Option Binary64 → Reader Tree
  | some d => pure (.num d)
  | none => throw (.typeError "CBOR non-finite numbers are not JSON values")

/-- Every product in `readFloat16` is exact. -/
def readFloat16 : Reader Tree := do
  let bits ← readUnsigned 2 0
  finite (Binary64.ofBinary16? bits)

def readFloat32 : Reader Tree := do
  let bytes ← readBytes 4
  finite (Binary64.ofBinary32? (fromBigEndian bytes))

def readFloat64 : Reader Tree := do
  let bytes ← readBytes 8
  finite (Binary64.ofBits? (fromBigEndian bytes))

def readSimple (additional : Nat) : Reader Tree :=
  match additional with
  | 20 => pure (.bool false)
  | 21 => pure (.bool true)
  | 22 => pure .null
  | 25 => readFloat16
  | 26 => readFloat32
  | 27 => readFloat64
  | _ => throw (.typeError ("unsupported CBOR simple value 0x" ++
      String.ofList (Nat.toDigits 16 additional)))

/-- `new TextDecoder('utf-8', { fatal: true, ignoreBOM }).decode` -/
def textDecode (ignoreBOM : Bool) (bytes : List UInt8) : Except CodecError Utf16 :=
  match ofUtf8? bytes with
  | some cs => .ok (Utf16.ofChars (if ignoreBOM then cs else stripMark cs))
  | none => .error (.typeError "The encoded data was not valid for encoding utf-8")

def readText (ignoreBOM : Bool) (length : Nat) : Reader Tree := do
  let bytes ← readBytes length
  match textDecode ignoreBOM bytes with
  | .ok text => pure (.str text)
  | .error e => throw e

def checkCollectionLength (length : Nat) : Reader Unit :=
  if MAX_CBOR_COLLECTION_LENGTH < length then throw collectionExceeded else pure ()

def readItems (readValue : Reader Tree) : Nat → Reader (List Tree)
  | 0 => pure []
  | n + 1 => do
    let v ← readValue
    let vs ← readItems readValue n
    return v :: vs

/-- The entries from the first `acc` on. -/
def readEntries (readValue : Reader Tree) :
    Nat → List (Utf16 × Tree) → Reader (List (Utf16 × Tree))
  | 0, acc => pure acc
  | n + 1, acc => do
    match ← readValue with
    | .str key =>
      if key ∈ acc.map Prod.fst then throw (.duplicateKey key)
      else do
        let entry ← readValue
        readEntries readValue n (acc ++ [(key, entry)])
    | _ => throw (.typeError "CBOR map keys must be strings")

def readArray (readValue : Reader Tree) (length : Nat) : Reader Tree := do
  checkCollectionLength length
  let items ← readItems readValue length
  return .arr items

def readMap (readValue : Reader Tree) (length : Nat) : Reader Tree := do
  checkCollectionLength length
  let entries ← readEntries readValue length []
  return .obj entries

/-- What follows the head of an item. -/
def readContent (ignoreBOM : Bool) (readValue : Reader Tree) (major length : Nat) : Reader Tree :=
  match major with
  | 0 => pure (.num (Binary64.ofInt length))
  | 1 => pure (.num (Binary64.ofInt (-1 - length)))
  | 2 => throw (.typeError "CBOR byte strings are outside the JSON value subset")
  | 3 => readText ignoreBOM length
  | 4 => readArray readValue length
  | 5 => readMap readValue length
  | 6 => throw (.typeError "CBOR tags are outside the ISA JSON value subset")
  | _ => throw (.typeError ("unsupported CBOR major type " ++ toString major))

/-- `readValue`, with the number of levels that are left. -/
def readValue (ignoreBOM : Bool) : Nat → Reader Tree
  | 0 => throw depthExceeded
  | levels + 1 => do
    let initial ← readByte
    let major := initial.toNat >>> 5
    let additional := initial.toNat &&& 0x1f
    if major = 7 then readSimple additional
    else do
      let length ← readAdditional additional
      readContent ignoreBOM (readValue ignoreBOM levels) major length

/-- `readDocument`; the depths are those from zero to `MAX_CBOR_DEPTH`. -/
def readDocument (ignoreBOM : Bool) : Reader Tree := do
  let value ← readValue ignoreBOM (MAX_CBOR_DEPTH + 1)
  match ← get with
  | [] => return value
  | _ => throw (.typeError "CBOR has trailing bytes")

/-- The reader is made without `ignoreBOM`. -/
def decodeCbor (encoded : List UInt8) : Except CodecError Tree :=
  ((readDocument false).run encoded).map Prod.fst

end XioFlow.Isa
