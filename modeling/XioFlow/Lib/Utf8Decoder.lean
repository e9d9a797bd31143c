/-
  XioFlow.Lib.Utf8Decoder

  Decoding of UTF-8 byte by byte, with U+FFFD for what is no character.

  The decoder keeps the character it is in the middle of, so it may be fed a
  text in pieces; text that is cut off inside a character loses it.
-/

import XioFlow.Lib.Unicode

namespace XioFlow.Lib

def replacementCharacter : Char := '\uFFFD'

/-- What the decoder keeps between two bytes: how many bytes the character
    still needs, its value so far, and where the next byte has to lie. -/
structure Utf8Decoder where
  needed : Nat
  codePoint : Nat
  lower : Nat
  upper : Nat
  deriving DecidableEq, Repr

namespace Utf8Decoder

/-- The decoder between two characters. -/
def idle : Utf8Decoder := ⟨0, 0, 0x80, 0xBF⟩

/-- The first byte of a character. -/
def start (byte : Nat) : List Char × Utf8Decoder :=
  if byte < 0x80 then ([Char.ofNat byte], idle)
  else if byte < 0xC2 then ([replacementCharacter], idle)
  else if byte < 0xE0 then ([], ⟨1, byte - 0xC0, 0x80, 0xBF⟩)
  else if byte < 0xF0 then
    -- no overlong forms after E0, no surrogates after ED
    ([], ⟨2, byte - 0xE0, if byte = 0xE0 then 0xA0 else 0x80, if byte = 0xED then 0x9F else 0xBF⟩)
  else if byte < 0xF5 then
    -- no overlong forms after F0, nothing beyond U+10FFFF after F4
    ([], ⟨3, byte - 0xF0, if byte = 0xF0 then 0x90 else 0x80, if byte = 0xF4 then 0x8F else 0xBF⟩)
  else ([replacementCharacter], idle)

/-- One more byte. -/
def next (d : Utf8Decoder) (byte : Nat) : List Char × Utf8Decoder :=
  match d.needed with
  | 0 => start byte
  | needed + 1 =>
    if d.lower ≤ byte ∧ byte ≤ d.upper then
      let codePoint := d.codePoint * 0x40 + (byte - 0x80)
      if needed = 0 then ([Char.ofNat codePoint], idle) else ([], ⟨needed, codePoint, 0x80, 0xBF⟩)
    else
      -- the byte begins something else
      let (chars, d') := start byte
      (replacementCharacter :: chars, d')

/-- The characters completed by some bytes, and the decoder after them. -/
def feed (d : Utf8Decoder) : List UInt8 → List Char × Utf8Decoder
  | [] => ([], d)
  | b :: bytes =>
    let (chars, d') := d.next b.toNat
    let (more, d'') := feed d' bytes
    (chars ++ more, d'')

/-- The end of the input. -/
def flush (d : Utf8Decoder) : List Char :=
  if d.needed = 0 then [] else [replacementCharacter]

/-- The text of some bytes on their own. -/
def decode (bytes : List UInt8) : List Char :=
  (idle.feed bytes).1 ++ (idle.feed bytes).2.flush

/-! ## Pieces -/

theorem feed_nil (d : Utf8Decoder) : d.feed [] = ([], d) := rfl

theorem feed_cons (d : Utf8Decoder) (b : UInt8) (bytes : List UInt8) :
    d.feed (b :: bytes) =
      ((d.next b.toNat).1 ++ ((d.next b.toNat).2.feed bytes).1,
        ((d.next b.toNat).2.feed bytes).2) := rfl

/-- Bytes may be fed in pieces. -/
theorem feed_append (d : Utf8Decoder) (bytes bytes' : List UInt8) :
    d.feed (bytes ++ bytes') =
      ((d.feed bytes).1 ++ ((d.feed bytes).2.feed bytes').1,
        ((d.feed bytes).2.feed bytes').2) := by
  induction bytes generalizing d with
  | nil => rfl
  | cons b bytes ih =>
    rw [List.cons_append, feed_cons, feed_cons, ih, List.append_assoc]

/-! ## Characters -/

theorem idle_next (byte : Nat) : idle.next byte = start byte := rfl

variable {byte : Nat}

theorem start_ascii (h : byte < 0x80) : start byte = ([Char.ofNat byte], idle) :=
  if_pos h

theorem start_two (h : 0xC2 ≤ byte) (h' : byte < 0xE0) :
    start byte = ([], ⟨1, byte - 0xC0, 0x80, 0xBF⟩) := by
  unfold start
  rw [if_neg (by omega), if_neg (by omega), if_pos h']

theorem start_three (h : 0xE0 ≤ byte) (h' : byte < 0xF0) :
    start byte = ([], ⟨2, byte - 0xE0, if byte = 0xE0 then 0xA0 else 0x80,
      if byte = 0xED then 0x9F else 0xBF⟩) := by
  unfold start
  rw [if_neg (by omega), if_neg (by omega), if_neg (by omega), if_pos h']

theorem start_four (h : 0xF0 ≤ byte) (h' : byte < 0xF5) :
    start byte = ([], ⟨3, byte - 0xF0, if byte = 0xF0 then 0x90 else 0x80,
      if byte = 0xF4 then 0x8F else 0xBF⟩) := by
  unfold start
  rw [if_neg (by omega), if_neg (by omega), if_neg (by omega), if_neg (by omega), if_pos h']

theorem next_last {codePoint lower upper : Nat} (h : lower ≤ byte) (h' : byte ≤ upper) :
    next ⟨1, codePoint, lower, upper⟩ byte =
      ([Char.ofNat (codePoint * 0x40 + (byte - 0x80))], idle) := by
  show (if lower ≤ byte ∧ byte ≤ upper then _ else _) = _
  rw [if_pos ⟨h, h'⟩]
  rfl

theorem next_more (needed : Nat) {codePoint lower upper : Nat} (h : lower ≤ byte)
    (h' : byte ≤ upper) :
    next ⟨needed + 2, codePoint, lower, upper⟩ byte =
      ([], ⟨needed + 1, codePoint * 0x40 + (byte - 0x80), 0x80, 0xBF⟩) := by
  show (if lower ≤ byte ∧ byte ≤ upper then _ else _) = _
  rw [if_pos ⟨h, h'⟩]
  rfl

theorem toNat_ofNat_byte {n : Nat} (h : n < 256) : (UInt8.ofNat n).toNat = n :=
  UInt8.toNat_ofNat_of_lt' h

/-- The bytes of a character are read back as that character. -/
theorem feed_char (c : Char) : idle.feed (String.utf8EncodeChar c) = ([c], idle) := by
  have hvalid := char_toNat_cases c
  have hc : ∀ n, n = c.toNat → Char.ofNat n = c := fun n => char_eq_ofNat
  unfold String.utf8EncodeChar
  generalize hv : c.val.toNat = v
  have hv' : c.toNat = v := hv
  rw [hv'] at hvalid hc
  simp only
  split
  · -- one byte
    rw [feed_cons, toNat_ofNat_byte (by omega), idle_next, start_ascii (by omega), feed_nil,
      hc v rfl]
    rfl
  split
  · -- two bytes
    rw [feed_cons, toNat_ofNat_byte (by omega), idle_next, start_two (by omega) (by omega),
      feed_cons, toNat_ofNat_byte (by omega), next_last (by omega) (by omega), feed_nil,
      hc _ (by omega)]
    rfl
  split
  · -- three bytes: E0 and ED narrow the second one
    rw [feed_cons, toNat_ofNat_byte (by omega), idle_next, start_three (by omega) (by omega),
      feed_cons, toNat_ofNat_byte (by omega),
      next_more 0 (by split <;> omega) (by split <;> omega),
      feed_cons, toNat_ofNat_byte (by omega), next_last (by omega) (by omega), feed_nil,
      hc _ (by omega)]
    rfl
  · -- four bytes: F0 and F4 narrow the second one
    rw [feed_cons, toNat_ofNat_byte (by omega), idle_next, start_four (by omega) (by omega),
      feed_cons, toNat_ofNat_byte (by omega),
      next_more 1 (by split <;> omega) (by split <;> omega),
      feed_cons, toNat_ofNat_byte (by omega), next_more 0 (by omega) (by omega),
      feed_cons, toNat_ofNat_byte (by omega), next_last (by omega) (by omega), feed_nil,
      hc _ (by omega)]
    rfl

theorem utf8_cons (c : Char) (cs : List Char) :
    utf8 (c :: cs) = String.utf8EncodeChar c ++ utf8 cs := List.flatMap_cons

theorem utf8_append (cs cs' : List Char) : utf8 (cs ++ cs') = utf8 cs ++ utf8 cs' :=
  List.flatMap_append

theorem length_utf8_append (cs cs' : List Char) :
    (utf8 (cs ++ cs')).length = (utf8 cs).length + (utf8 cs').length := by
  rw [utf8_append, List.length_append]

/-- `Buffer.byteLength(text, 'utf8')` -/
def byteLength (text : List Char) : Nat := (utf8 text).length

theorem byteLength_append (text text' : List Char) :
    byteLength (text ++ text') = byteLength text + byteLength text' := length_utf8_append text text'

theorem length_utf8_cons (c : Char) (cs : List Char) :
    (utf8 (c :: cs)).length = c.utf8Size + (utf8 cs).length := by
  rw [utf8_cons, List.length_append, String.length_utf8EncodeChar]

theorem length_utf8_of_ascii {cs : List Char} (h : ∀ c ∈ cs, c.utf8Size = 1) :
    (utf8 cs).length = cs.length := by
  induction cs with
  | nil => rfl
  | cons c cs ih =>
    obtain ⟨hc, hcs⟩ := List.forall_mem_cons.1 h
    rw [length_utf8_cons, ih hcs, hc, List.length_cons, Nat.add_comm]

theorem length_utf8_replicate (n : Nat) (c : Char) :
    (utf8 (List.replicate n c)).length = n * c.utf8Size := by
  induction n with
  | zero => exact (Nat.zero_mul _).symm
  | succ n ih =>
    rw [List.replicate_succ, length_utf8_cons, ih, Nat.succ_mul]
    omega

/-- A whole text is read back, and leaves the decoder between two characters. -/
theorem feed_utf8 (cs : List Char) : idle.feed (utf8 cs) = (cs, idle) := by
  induction cs with
  | nil => rfl
  | cons c cs ih => rw [utf8_cons, feed_append, feed_char, ih, List.singleton_append]

theorem decode_utf8 (cs : List Char) : decode (utf8 cs) = cs := by
  unfold decode
  rw [feed_utf8]
  exact List.append_nil cs

theorem utf8_injective {cs cs' : List Char} (h : utf8 cs = utf8 cs') : cs = cs' := by
  rw [← decode_utf8 cs, h, decode_utf8]

end Utf8Decoder
end XioFlow.Lib
