/-
  XioFlow.Wire.Access

  The wire protocols, and how the proxy reads the values of a body.

  A field that is not there is `none`.
-/

import XioFlow.Lib.JsonText

namespace XioFlow.Wire

open Lib Lib.JsonText

inductive WireProtocolName where
  | chatCompletions
  | responses
  | gemini
  | anthropic
  deriving DecidableEq

/-- A numeral other than zero. -/
def nonzero (n : Numeral) : Bool :=
  (n.text.takeWhile fun u => u ≠ unit 'e' && u ≠ unit 'E').any fun u => isDigit u && u ≠ unit '0'

def truthy : Option Value → Bool
  | none | some .null => false
  | some (.bool b) => b
  | some (.num n) => nonzero n
  | some (.str s) => s ≠ []
  | some (.arr _) | some (.obj _) => true

/-- The white space that `trim` takes off. -/
def isWhiteSpace (u : CodeUnit) : Bool :=
  (0x09 ≤ u.val && u.val ≤ 0x0d) || u.val = 0x20 || u.val = 0xa0 || u.val = 0x1680 ||
    (0x2000 ≤ u.val && u.val ≤ 0x200a) || u.val = 0x2028 || u.val = 0x2029 || u.val = 0x202f ||
      u.val = 0x205f || u.val = 0x3000 || u.val = 0xfeff

def trim (s : Utf16) : Utf16 :=
  ((s.dropWhile isWhiteSpace).reverse.dropWhile isWhiteSpace).reverse

end XioFlow.Wire
