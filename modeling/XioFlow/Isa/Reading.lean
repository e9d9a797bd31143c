/-
  XioFlow.Isa.Reading

  What the reader makes of what the writer has written, whatever follows it.
-/

import XioFlow.Isa.Codec

namespace XioFlow.Isa

open Lib

/-! ## Programs of the reader -/

namespace Reader

variable {α β : Type} {p : Reader α} {f : α → Reader β} {s t : List UInt8}

theorem run_bind_ok {a : α} (h : p.run s = .ok (a, t)) : (p >>= f).run s = (f a).run t := by
  rw [StateT.run_bind, h]
  rfl

theorem run_bind_error {e : CodecError} (h : p.run s = .error e) :
    (p >>= f).run s = .error e := by
  rw [StateT.run_bind, h]
  rfl

theorem bind_ok {b : β} (h : (p >>= f).run s = .ok (b, t)) :
    ∃ a u, p.run s = .ok (a, u) ∧ (f a).run u = .ok (b, t) := by
  rcases hp : p.run s with e | ⟨a, u⟩
  · rw [run_bind_error hp] at h
    cases h
  · rw [run_bind_ok hp] at h
    exact ⟨a, u, rfl, h⟩

theorem pure_ok {a b : α} (h : (pure a : Reader α).run s = .ok (b, t)) : b = a ∧ t = s := by
  cases h
  exact ⟨rfl, rfl⟩

end Reader

open Reader

/-! ## More input -/

/-- What is read does not depend on what comes after it. -/
def Extends {α : Type} (p : Reader α) : Prop :=
  ∀ s a rest more, p.run s = .ok (a, rest) → p.run (s ++ more) = .ok (a, rest ++ more)

section Extends

variable {α β : Type}

theorem extends_pure (a : α) : Extends (pure a : Reader α) := by
  intro s b rest more h
  obtain ⟨rfl, rfl⟩ := pure_ok h
  rfl

theorem extends_throw (e : CodecError) : Extends (throw e : Reader α) := by
  intro s b rest more h
  cases h

theorem Extends.bind {p : Reader α} {f : α → Reader β} (hp : Extends p)
    (hf : ∀ a, Extends (f a)) : Extends (p >>= f) := by
  intro s b rest more h
  obtain ⟨a, u, hpa, hfb⟩ := bind_ok h
  rw [run_bind_ok (hp s a u more hpa)]
  exact hf a u b rest more hfb

theorem extends_readByte : Extends readByte := by
  intro s b rest more h
  cases s with
  | nil => cases h
  | cons =>
    cases h
    rfl

theorem run_readBytes (n : Nat) (s : List UInt8) :
    (readBytes n).run s =
      if s.length < n then .error truncated else .ok (s.take n, s.drop n) := by
  unfold readBytes
  rw [run_bind_ok (show (get : Reader (List UInt8)).run s = .ok (s, s) from rfl)]
  split
  · rfl
  · rfl

theorem extends_readBytes (n : Nat) : Extends (readBytes n) := by
  intro s a rest more h
  rw [run_readBytes] at h ⊢
  by_cases hshort : s.length < n
  · rw [if_pos hshort] at h
    cases h
  · rw [if_neg hshort] at h
    cases h
    have hle : n ≤ s.length := not_lt.1 hshort
    rw [if_neg (by rw [List.length_append]; omega), List.take_append_of_le_length hle,
      List.drop_append_of_le_length hle]

theorem extends_readUnsigned (width value : Nat) : Extends (readUnsigned width value) := by
  induction width generalizing value with
  | zero => exact extends_pure value
  | succ width ih => exact extends_readByte.bind fun byte => ih _

theorem extends_readAdditional (additional : Nat) : Extends (readAdditional additional) := by
  unfold readAdditional
  split
  · exact extends_pure _
  split
  · exact extends_throw _
  split
  · exact extends_throw _
  · refine (extends_readUnsigned _ _).bind fun value => ?_
    split
    · exact extends_throw _
    · exact extends_pure _

theorem extends_finite (d : Option Binary64) : Extends (finite d) := by
  cases d with
  | none => exact extends_throw _
  | some => exact extends_pure _

theorem extends_readSimple (additional : Nat) : Extends (readSimple additional) := by
  unfold readSimple
  split
  · exact extends_pure _
  · exact extends_pure _
  · exact extends_pure _
  · exact (extends_readUnsigned _ _).bind fun bits => extends_finite _
  · exact (extends_readBytes _).bind fun bytes => extends_finite _
  · exact (extends_readBytes _).bind fun bytes => extends_finite _
  · exact extends_throw _

theorem extends_readText (ignoreBOM : Bool) (length : Nat) :
    Extends (readText ignoreBOM length) := by
  refine (extends_readBytes length).bind fun bytes => ?_
  split
  · exact extends_pure _
  · exact extends_throw _

theorem extends_checkCollectionLength (length : Nat) :
    Extends (checkCollectionLength length) := by
  unfold checkCollectionLength
  split
  · exact extends_throw _
  · exact extends_pure _

variable {p : Reader Tree}

theorem extends_readItems (hp : Extends p) (n : Nat) : Extends (readItems p n) := by
  induction n with
  | zero => exact extends_pure _
  | succ n ih => exact hp.bind fun v => ih.bind fun vs => extends_pure _

theorem extends_readEntries (hp : Extends p) (n : Nat) (acc : List (Utf16 × Tree)) :
    Extends (readEntries p n acc) := by
  induction n generalizing acc with
  | zero => exact extends_pure _
  | succ n ih =>
    refine hp.bind fun key => ?_
    split
    · split
      · exact extends_throw _
      · exact hp.bind fun entry => ih _
    · exact extends_throw _

theorem extends_readContent (hp : Extends p) (ignoreBOM : Bool) (major length : Nat) :
    Extends (readContent ignoreBOM p major length) := by
  unfold readContent
  split
  · exact extends_pure _
  · exact extends_pure _
  · exact extends_throw _
  · exact extends_readText _ _
  · exact (extends_checkCollectionLength _).bind fun _ =>
      (extends_readItems hp _).bind fun items => extends_pure _
  · exact (extends_checkCollectionLength _).bind fun _ =>
      (extends_readEntries hp _ _).bind fun entries => extends_pure _
  · exact extends_throw _
  · exact extends_throw _

theorem extends_readValue (ignoreBOM : Bool) (levels : Nat) :
    Extends (readValue ignoreBOM levels) := by
  induction levels with
  | zero => exact extends_throw _
  | succ levels ih =>
    refine extends_readByte.bind fun initial => ?_
    simp only
    split
    · exact extends_readSimple _
    · exact (extends_readAdditional _).bind fun length => extends_readContent ih _ _ _

end Extends

/-! ## Heads -/

theorem shiftIn_eq (value : Nat) (byte : UInt8) :
    shiftIn value byte = value * 2 ^ 8 + byte.toNat := by
  unfold shiftIn
  rw [← Nat.shiftLeft_add_eq_or_of_lt byte.toNat_lt, Nat.shiftLeft_eq]

theorem length_bigEndian (width value : Nat) : (bigEndian width value).length = width := by
  induction width with
  | zero => rfl
  | succ width ih => rw [bigEndian, List.length_cons, ih]

theorem foldl_bigEndian (width value acc : Nat) :
    (bigEndian width value).foldl shiftIn acc =
      acc * 2 ^ (8 * width) + value % 2 ^ (8 * width) := by
  induction width generalizing acc with
  | zero =>
    rw [Nat.mul_zero, pow_zero, mul_one, Nat.mod_one]
    rfl
  | succ width ih =>
    rw [bigEndian, List.foldl_cons, ih, shiftIn_eq, UInt8.toNat_ofNat',
      Nat.shiftRight_eq_div_pow]
    have hmod : value % 2 ^ (8 * (width + 1)) =
        value / 2 ^ (8 * width) % 2 ^ 8 * 2 ^ (8 * width) + value % 2 ^ (8 * width) := by
      rw [show 8 * (width + 1) = 8 * width + 8 by ring, pow_add, Nat.mod_mul]
      ring
    rw [hmod]
    ring

variable {width value : Nat}

/-- Bytes are read back as the number they were written for. -/
theorem fromBigEndian_bigEndian (h : value < 2 ^ (8 * width)) :
    fromBigEndian (bigEndian width value) = value := by
  unfold fromBigEndian
  rw [foldl_bigEndian, Nat.zero_mul, Nat.zero_add, Nat.mod_eq_of_lt h]

theorem run_readUnsigned (bytes : List UInt8) (acc : Nat) (tail : List UInt8) :
    (readUnsigned bytes.length acc).run (bytes ++ tail) = .ok (bytes.foldl shiftIn acc, tail) := by
  induction bytes generalizing acc with
  | nil => rfl
  | cons byte bytes ih =>
    have hread : readByte.run (byte :: (bytes ++ tail)) = .ok (byte, bytes ++ tail) := rfl
    rw [List.length_cons, List.cons_append, readUnsigned, run_bind_ok hread, ih]
    rfl

theorem run_readUnsigned_bigEndian (h : value < 2 ^ (8 * width)) (tail : List UInt8) :
    (readUnsigned width 0).run (bigEndian width value ++ tail) = .ok (value, tail) := by
  have hrun := run_readUnsigned (bigEndian width value) 0 tail
  rw [length_bigEndian] at hrun
  rw [hrun]
  exact congrArg (fun n => Except.ok (n, tail)) (fromBigEndian_bigEndian h)

variable {major additional : Nat}

theorem initialByte_parts (hmajor : major < 8) (hadditional : additional < 32) :
    (initialByte major additional).toNat >>> 5 = major ∧
      (initialByte major additional).toNat &&& 0x1f = additional := by
  have hvalue : (initialByte major additional).toNat = major * 2 ^ 5 + additional := by
    unfold initialByte
    rw [UInt8.toNat_ofNat', ← Nat.shiftLeft_add_eq_or_of_lt (by omega), Nat.shiftLeft_eq]
    omega
  rw [hvalue, Nat.shiftRight_eq_div_pow, show 0x1f = 2 ^ 5 - 1 from rfl,
    Nat.and_two_pow_sub_one_eq_mod]
  omega

/-- An item is read by what its head says. -/
theorem readValue_initialByte {ignoreBOM : Bool} {levels : Nat} {bytes tail : List UInt8}
    {length : Nat} (hmajor : major < 7) (hadditional : additional < 32)
    (h : (readAdditional additional).run bytes = .ok (length, tail)) :
    (readValue ignoreBOM (levels + 1)).run (initialByte major additional :: bytes) =
      (readContent ignoreBOM (readValue ignoreBOM levels) major length).run tail := by
  obtain ⟨hparts, hlow⟩ := initialByte_parts (by omega : major < 8) hadditional
  have hbyte : readByte.run (initialByte major additional :: bytes) =
      .ok (initialByte major additional, bytes) := rfl
  rw [readValue, run_bind_ok hbyte]
  simp only [hparts, hlow]
  rw [if_neg (by omega), run_bind_ok h]

theorem readAdditional_bigEndian (tail : List UInt8) (hlarge : 24 ≤ additional)
    (hwidth : additionalWidth additional = width) (hpos : 0 < width)
    (hfits : value < 2 ^ (8 * width)) (hsafe : value ≤ maxSafeInteger) :
    (readAdditional additional).run (bigEndian width value ++ tail) = .ok (value, tail) := by
  have hnot : additional ≠ 31 := by
    rintro rfl
    have hzero : additionalWidth 31 = 0 := rfl
    omega
  unfold readAdditional
  rw [if_neg (by omega), if_neg hnot, hwidth, if_neg (by omega),
    run_bind_ok (run_readUnsigned_bigEndian hfits tail), if_neg (by omega)]
  rfl

/-- A head that was written is read as it was meant. -/
theorem readValue_writeHead {ignoreBOM : Bool} {levels : Nat} {head : List UInt8}
    (hmajor : major < 7) (h : writeHead major value = .ok head) (tail : List UInt8) :
    (readValue ignoreBOM (levels + 1)).run (head ++ tail) =
      (readContent ignoreBOM (readValue ignoreBOM levels) major value).run tail := by
  unfold writeHead at h
  by_cases hsafe : maxSafeInteger < value
  · rw [if_pos hsafe] at h
    cases h
  rw [if_neg hsafe] at h
  have hle : value ≤ maxSafeInteger := not_lt.1 hsafe
  by_cases h1 : value < 24
  · rw [if_pos h1] at h
    cases h
    refine readValue_initialByte hmajor (by omega) ?_
    unfold readAdditional
    rw [if_pos h1]
    rfl
  rw [if_neg h1] at h
  by_cases h2 : value ≤ 0xff
  · rw [if_pos h2] at h
    cases h
    exact readValue_initialByte hmajor (by omega)
      (readAdditional_bigEndian tail (by omega) rfl (by omega) (by omega) hle)
  rw [if_neg h2] at h
  by_cases h3 : value ≤ 0xffff
  · rw [if_pos h3] at h
    cases h
    exact readValue_initialByte hmajor (by omega)
      (readAdditional_bigEndian tail (by omega) rfl (by omega) (by omega) hle)
  rw [if_neg h3] at h
  by_cases h4 : value ≤ 0xffffffff
  · rw [if_pos h4] at h
    cases h
    exact readValue_initialByte hmajor (by omega)
      (readAdditional_bigEndian tail (by omega) rfl (by omega) (by omega) hle)
  · rw [if_neg h4] at h
    cases h
    unfold maxSafeInteger at hle
    exact readValue_initialByte hmajor (by omega)
      (readAdditional_bigEndian tail (by omega) rfl (by omega) (by omega) (by
        unfold maxSafeInteger
        exact hle))

end XioFlow.Isa
