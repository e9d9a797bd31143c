/-
  XioFlow.Lib.JsonText

  JSON values and their text: what `JSON.stringify` writes and what
  `JSON.parse` reads, on UTF-16 code units.

  A number is kept as the numeral that it is written as.  An object keeps its
  properties in the order in which they were set; the order has no meaning
  beyond the text.
-/

import XioFlow.Lib.Unicode
import Mathlib.Data.Nat.Digits.Defs

namespace XioFlow.Lib.JsonText

open Lib

/-! ## Code units of literals -/

/-- The code unit of a character below U+10000. -/
def unit (c : Char) : CodeUnit := CodeUnit.ofNat c.toNat

/-- The code units of a literal. -/
def units (s : String) : Utf16 := Utf16.ofChars s.toList

def isDigit (u : CodeUnit) : Bool := 0x30 ≤ u.val && u.val ≤ 0x39

/-- What a numeral is made of. -/
def isNumeralUnit (u : CodeUnit) : Bool :=
  isDigit u || u = unit '-' || u = unit '+' || u = unit '.' || u = unit 'e' || u = unit 'E'

/-- The white space of JSON text. -/
def isJsonSpace (u : CodeUnit) : Bool :=
  u = unit ' ' || u = unit '\t' || u = unit '\n' || u = unit '\r'

/-! ## Numerals -/

/-- At least one digit, and nothing else. -/
def isDigits (s : Utf16) : Bool := s ≠ [] && s.all isDigit

/-- The text without one unit of the given kind in front. -/
def dropOne (p : CodeUnit → Bool) : Utf16 → Utf16
  | [] => []
  | u :: rest => if p u then rest else u :: rest

/-- `[eE][+-]?[0-9]+`, or nothing -/
def isExponent : Utf16 → Bool
  | [] => true
  | u :: rest =>
    (u = unit 'e' || u = unit 'E') && isDigits (dropOne (fun v => v = unit '+' || v = unit '-') rest)

/-- `.[0-9]+` and an exponent, or an exponent -/
def isFraction : Utf16 → Bool
  | [] => true
  | u :: rest =>
    if u = unit '.' then isDigits (rest.takeWhile isDigit) && isExponent (rest.dropWhile isDigit)
    else isExponent (u :: rest)

/-- The digits before the point: a zero leads only where it is alone. -/
def isWhole (s : Utf16) : Bool := isDigits s && (s.head? ≠ some (unit '0') || s.length = 1)

/-- The number grammar of JSON. -/
def isNumeral (s : Utf16) : Bool :=
  let unsigned := dropOne (fun u => u = unit '-') s
  isWhole (unsigned.takeWhile isDigit) && isFraction (unsigned.dropWhile isDigit)

/-- A number, as the text that stands for it. -/
structure Numeral where
  text : Utf16
  valid : isNumeral text = true
  deriving DecidableEq

/-! ## Values -/

inductive Value where
  | null
  | bool (b : Bool)
  | num (n : Numeral)
  | str (s : Utf16)
  | arr (items : List Value)
  | obj (entries : List (Utf16 × Value))

mutual

/-- No object has two properties of one name. -/
def Value.Distinct : Value → Prop
  | .arr items => Value.DistinctItems items
  | .obj entries => (entries.map Prod.fst).Nodup ∧ Value.DistinctEntries entries
  | _ => True

def Value.DistinctItems : List Value → Prop
  | [] => True
  | v :: vs => v.Distinct ∧ Value.DistinctItems vs

def Value.DistinctEntries : List (Utf16 × Value) → Prop
  | [] => True
  | (_, v) :: es => v.Distinct ∧ Value.DistinctEntries es

end

/-- A value whose objects are objects. -/
abbrev JsonValue := { v : Value // v.Distinct }

/-- `object[key] = v`: a property that is there keeps its place. -/
def setEntry (key : Utf16) (v : Value) : List (Utf16 × Value) → List (Utf16 × Value)
  | [] => [(key, v)]
  | e :: es => if e.1 = key then (key, v) :: es else e :: setEntry key v es

/-- `object[key]` among the properties of an object. -/
def lookup (key : Utf16) (entries : List (Utf16 × Value)) : Option Value :=
  (entries.find? fun e => e.1 = key).map Prod.snd

/-! ## `JSON.stringify` -/

def hexDigit (n : Nat) : CodeUnit := CodeUnit.ofNat (if n < 10 then 0x30 + n else 0x57 + n)

/-- `\u` and four digits -/
def escapeUnit (u : CodeUnit) : Utf16 :=
  [unit '\\', unit 'u', hexDigit (u.val / 4096), hexDigit (u.val / 256 % 16),
    hexDigit (u.val / 16 % 16), hexDigit (u.val % 16)]

/-- The letters of the short escapes, with what they stand for. -/
def shortEscapes : List (CodeUnit × CodeUnit) :=
  [(unit '"', unit '"'), (unit '\\', unit '\\'), (unit 'b', 0x08), (unit 'f', 0x0c),
    (unit 'n', 0x0a), (unit 'r', 0x0d), (unit 't', 0x09)]

/-- A unit of a string that is in no surrogate pair. -/
def quoteUnit (u : CodeUnit) : Utf16 :=
  match shortEscapes.find? fun e => e.2 = u with
  | some e => [unit '\\', e.1]
  | none => if u.val < 0x20 || u.isSurrogate then escapeUnit u else [u]

def quoteBody : Utf16 → Utf16
  | [] => []
  | [u] => quoteUnit u
  | u :: v :: rest =>
    if u.isHigh && v.isLow then u :: v :: quoteBody rest
    else quoteUnit u ++ quoteBody (v :: rest)

def quote (s : Utf16) : Utf16 := unit '"' :: (quoteBody s ++ [unit '"'])

/-- The texts with commas between them. -/
def commaSeparated : List Utf16 → Utf16
  | [] => []
  | [x] => x
  | x :: y :: rest => x ++ unit ',' :: commaSeparated (y :: rest)

mutual

def stringify : Value → Utf16
  | .null => units "null"
  | .bool true => units "true"
  | .bool false => units "false"
  | .num n => n.text
  | .str s => quote s
  | .arr items => unit '[' :: (commaSeparated (stringifyItems items) ++ [unit ']'])
  | .obj entries => unit '{' :: (commaSeparated (stringifyEntries entries) ++ [unit '}'])

def stringifyItems : List Value → List Utf16
  | [] => []
  | v :: vs => stringify v :: stringifyItems vs

def stringifyEntries : List (Utf16 × Value) → List Utf16
  | [] => []
  | (key, v) :: es => (quote key ++ unit ':' :: stringify v) :: stringifyEntries es

end

/-! ## `JSON.parse` -/

def skipSpace (s : Utf16) : Utf16 := s.dropWhile isJsonSpace

def hexValue (u : CodeUnit) : Option Nat :=
  if isDigit u then some (u.val - 0x30)
  else if 0x61 ≤ u.val && u.val ≤ 0x66 then some (u.val - 0x57)
  else if 0x41 ≤ u.val && u.val ≤ 0x46 then some (u.val - 0x37)
  else none

/-- What a letter after the backslash stands for; `/` is an escape that is never written. -/
def unescape (u : CodeUnit) : Option CodeUnit :=
  if u = unit '/' then some u else (shortEscapes.find? fun e => e.1 = u).map Prod.snd

/-- A string after its opening quote, and what follows it. -/
def parseString : Utf16 → Option (Utf16 × Utf16)
  | [] => none
  | u :: rest =>
    if u = unit '"' then some ([], rest)
    else if u = unit '\\' then
      match rest with
      | [] => none
      | e :: rest =>
        if e = unit 'u' then
          match rest with
          | a :: b :: c :: d :: rest => do
            let a ← hexValue a
            let b ← hexValue b
            let c ← hexValue c
            let d ← hexValue d
            let (s, rest) ← parseString rest
            return (CodeUnit.ofNat (((a * 16 + b) * 16 + c) * 16 + d) :: s, rest)
          | _ => none
        else do
          let v ← unescape e
          let (s, rest) ← parseString rest
          return (v :: s, rest)
    else if u.val < 0x20 then none
    else do
      let (s, rest) ← parseString rest
      return (u :: s, rest)

/-- What follows a literal that the text begins with. -/
def dropLiteral (literal s : Utf16) : Option Utf16 :=
  if literal.isPrefixOf s then some (s.drop literal.length) else none

/-- The rest of a sequence, after one of its items; at most `n` steps. -/
def parseMore {α : Type} (close : CodeUnit) (item : Utf16 → Option (α × Utf16)) :
    Nat → Utf16 → Option (List α × Utf16)
  | 0, _ => none
  | n + 1, s =>
    match skipSpace s with
    | [] => none
    | u :: rest =>
      if u = close then some ([], rest)
      else if u = unit ',' then do
        let (x, rest) ← item rest
        let (xs, rest) ← parseMore close item n rest
        return (x :: xs, rest)
      else none

/-- A sequence after its opening bracket. -/
def parseSequence {α : Type} (close : CodeUnit) (item : Utf16 → Option (α × Utf16)) (n : Nat)
    (s : Utf16) : Option (List α × Utf16) :=
  match skipSpace s with
  | [] => none
  | u :: rest =>
    if u = close then some ([], rest)
    else do
      let (x, rest) ← item (u :: rest)
      let (xs, rest) ← parseMore close item n rest
      return (x :: xs, rest)

/-- `"key": value` -/
def parseEntry {α : Type} (value : Utf16 → Option (α × Utf16)) (s : Utf16) :
    Option ((Utf16 × α) × Utf16) :=
  match skipSpace s with
  | [] => none
  | u :: rest =>
    if u = unit '"' then do
      let (key, rest) ← parseString rest
      match skipSpace rest with
      | [] => none
      | u :: rest =>
        if u = unit ':' then do
          let (v, rest) ← value rest
          return ((key, v), rest)
        else none
    else none

/-- Of the properties of one name the last one counts. -/
def ofEntries (entries : List (Utf16 × Value)) : List (Utf16 × Value) :=
  entries.foldl (fun acc e => setEntry e.1 e.2 acc) []

/-- A numeral, as long as it goes. -/
def parseNumeral (s : Utf16) : Option (Value × Utf16) :=
  if h : isNumeral (s.takeWhile isNumeralUnit) = true then
    some (.num ⟨s.takeWhile isNumeralUnit, h⟩, s.dropWhile isNumeralUnit)
  else none

/-- A literal word or a numeral. -/
def parseScalar (s : Utf16) : Option (Value × Utf16) :=
  match dropLiteral (units "null") s with
  | some rest => some (.null, rest)
  | none =>
    match dropLiteral (units "true") s with
    | some rest => some (.bool true, rest)
    | none =>
      match dropLiteral (units "false") s with
      | some rest => some (.bool false, rest)
      | none => parseNumeral s

/-- A value and what follows it; at most `fuel` levels. -/
def parseValue : Nat → Utf16 → Option (Value × Utf16)
  | 0, _ => none
  | fuel + 1, s =>
    match skipSpace s with
    | [] => none
    | u :: rest =>
      if u = unit '"' then do
        let (s, rest) ← parseString rest
        return (.str s, rest)
      else if u = unit '[' then do
        let (items, rest) ← parseSequence (unit ']') (parseValue fuel) fuel rest
        return (.arr items, rest)
      else if u = unit '{' then do
        let (entries, rest) ← parseSequence (unit '}') (parseEntry (parseValue fuel)) fuel rest
        return (.obj (ofEntries entries), rest)
      else parseScalar (u :: rest)

/-- A text nests no deeper, and holds no more items, than it is long. -/
def parse (s : Utf16) : Option Value :=
  match parseValue (s.length + 1) s with
  | none => none
  | some (v, rest) => if skipSpace rest = [] then some v else none

/-! ## Natural numbers -/

def decimal (n : Nat) : Utf16 :=
  if n = 0 then [unit '0'] else (Nat.digits 10 n).reverse.map hexDigit

/-- The number that plain digits stand for. -/
def natural? (s : Utf16) : Option Nat :=
  if isDigits s then some (s.foldl (fun acc u => acc * 10 + (u.val - 0x30)) 0) else none

end XioFlow.Lib.JsonText
