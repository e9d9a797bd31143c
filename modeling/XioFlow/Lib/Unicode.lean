/-
  XioFlow.Lib.Unicode

  Strings as sequences of UTF-16 code units, and their UTF-8 form.

  A surrogate that stands alone belongs to no scalar value: writing such a
  string as UTF-8 replaces it, so only well-formed strings come back.  UTF-8
  itself is that of the core library.
-/

import Mathlib.Data.List.Basic

namespace XioFlow.Lib

/-! ## Code units -/

abbrev CodeUnit := Fin 65536

instance neZero_codeUnits : @NeZero Nat Zero.ofOfNat0 65536 := ⟨by decide⟩

/-- A string of the host language: any sequence of code units. -/
abbrev Utf16 := List CodeUnit

instance lawfulBEq_utf16 : LawfulBEq Utf16 := inferInstance

namespace CodeUnit

def ofNat (n : Nat) : CodeUnit := Fin.ofNat 65536 n

def isHigh (u : CodeUnit) : Bool := 0xD800 ≤ u.val && u.val < 0xDC00

def isLow (u : CodeUnit) : Bool := 0xDC00 ≤ u.val && u.val < 0xE000

def isSurrogate (u : CodeUnit) : Bool := u.isHigh || u.isLow

/-- The scalar value of a unit that is in no pair; U+FFFD for a surrogate. -/
def scalar (u : CodeUnit) : Char := if u.isSurrogate then '\uFFFD' else Char.ofNat u.val

/-- The scalar value of a surrogate pair. -/
def pair (hi lo : CodeUnit) : Char :=
  Char.ofNat (0x10000 + (hi.val - 0xD800) * 0x400 + (lo.val - 0xDC00))

end CodeUnit

/-- The code units of a scalar value. -/
def utf16Units (c : Char) : Utf16 :=
  if c.toNat < 0x10000 then [CodeUnit.ofNat c.toNat]
  else [CodeUnit.ofNat (0xD800 + (c.toNat - 0x10000) / 0x400),
    CodeUnit.ofNat (0xDC00 + (c.toNat - 0x10000) % 0x400)]

namespace Utf16

/-- The string of scalar values. -/
def ofChars (cs : List Char) : Utf16 := cs.flatMap utf16Units

/-- The scalar values of a string, with U+FFFD for surrogates that stand alone. -/
def scalars : Utf16 → List Char
  | [] => []
  | [u] => [u.scalar]
  | u :: v :: rest =>
    if u.isHigh && v.isLow then u.pair v :: scalars rest else u.scalar :: scalars (v :: rest)

/-- No surrogate stands alone. -/
def wellFormed : Utf16 → Bool
  | [] => true
  | [u] => !u.isSurrogate
  | u :: v :: rest =>
    if u.isHigh && v.isLow then wellFormed rest else !u.isSurrogate && wellFormed (v :: rest)

end Utf16

/-! ## Scalar values and code units -/

theorem char_toNat_cases (c : Char) :
    c.toNat < 0xD800 ∨ (0xDFFF < c.toNat ∧ c.toNat < 0x110000) := c.valid

theorem char_ofNat_toNat {n : Nat} (h : n.isValidChar) : (Char.ofNat n).toNat = n := by
  rw [Char.ofNat, dif_pos h]
  rfl

/-- The characters of two bytes are the same only if the bytes are. -/
theorem char_ofByte_injective : Function.Injective fun b : UInt8 => Char.ofNat b.toNat := by
  intro b c hchar
  have hvalid : ∀ b : UInt8, b.toNat.isValidChar := fun b =>
    Or.inl (Nat.lt_trans b.toNat_lt (by decide))
  have hnat := congrArg Char.toNat hchar
  rw [char_ofNat_toNat (hvalid b), char_ofNat_toNat (hvalid c)] at hnat
  exact UInt8.toNat_inj.1 hnat

/-- The bytes as a text, for where a digest has to be injective. -/
def plainDigest (bytes : List UInt8) : String :=
  String.ofList (bytes.map fun b => Char.ofNat b.toNat)

theorem plainDigest_injective : Function.Injective plainDigest := by
  intro xs ys heq
  exact List.map_injective_iff.2 char_ofByte_injective (String.ofList_injective heq)

theorem char_eq_ofNat {c : Char} {n : Nat} (h : n = c.toNat) : Char.ofNat n = c := by
  subst h
  exact Char.ofNat_toNat c

namespace CodeUnit

theorem ofNat_val {n : Nat} (h : n < 65536) : (ofNat n).val = n := Nat.mod_eq_of_lt h

variable {u : CodeUnit}

theorem isHigh_iff : u.isHigh = true ↔ 0xD800 ≤ u.val ∧ u.val < 0xDC00 := by
  unfold isHigh
  rw [Bool.and_eq_true, decide_eq_true_eq, decide_eq_true_eq]

theorem isLow_iff : u.isLow = true ↔ 0xDC00 ≤ u.val ∧ u.val < 0xE000 := by
  unfold isLow
  rw [Bool.and_eq_true, decide_eq_true_eq, decide_eq_true_eq]

theorem isSurrogate_iff :
    u.isSurrogate = true ↔ 0xD800 ≤ u.val ∧ u.val < 0xE000 := by
  unfold isSurrogate
  rw [Bool.or_eq_true, isHigh_iff, isLow_iff]
  omega

theorem isSurrogate_eq_false_iff :
    u.isSurrogate = false ↔ u.val < 0xD800 ∨ 0xE000 ≤ u.val := by
  rw [← Bool.not_eq_true, isSurrogate_iff]
  omega

theorem scalar_toNat (h : u.isSurrogate = false) : u.scalar.toNat = u.val := by
  unfold scalar
  rw [h, if_neg Bool.false_ne_true]
  refine char_ofNat_toNat ?_
  have hlt := u.isLt
  rcases isSurrogate_eq_false_iff.1 h with h | h
  · exact Or.inl h
  · exact Or.inr ⟨by omega, by omega⟩

theorem pair_toNat {hi lo : CodeUnit} (hhi : hi.isHigh = true) (hlo : lo.isLow = true) :
    (hi.pair lo).toNat = 0x10000 + (hi.val - 0xD800) * 0x400 + (lo.val - 0xDC00) := by
  have h1 := isHigh_iff.1 hhi
  have h2 := isLow_iff.1 hlo
  unfold pair
  exact char_ofNat_toNat (Or.inr ⟨by omega, by omega⟩)

end CodeUnit

open CodeUnit

/-- A unit outside the surrogates is the one unit of its scalar value. -/
theorem utf16Units_scalar {u : CodeUnit} (h : u.isSurrogate = false) :
    utf16Units u.scalar = [u] := by
  unfold utf16Units
  have hlt := u.isLt
  rw [scalar_toNat h, if_pos hlt]
  congr 1
  exact Fin.ext (ofNat_val hlt)

theorem utf16Units_pair {hi lo : CodeUnit} (hhi : hi.isHigh = true) (hlo : lo.isLow = true) :
    utf16Units (hi.pair lo) = [hi, lo] := by
  have h1 := isHigh_iff.1 hhi
  have h2 := isLow_iff.1 hlo
  unfold utf16Units
  rw [pair_toNat hhi hlo, if_neg (by omega)]
  have hfirst : ofNat (0xD800 + (0x10000 + (hi.val - 0xD800) * 0x400 +
      (lo.val - 0xDC00) - 0x10000) / 0x400) = hi := by
    refine Fin.ext ?_
    rw [ofNat_val (by omega)]
    omega
  have hsecond : ofNat (0xDC00 + (0x10000 + (hi.val - 0xD800) * 0x400 +
      (lo.val - 0xDC00) - 0x10000) % 0x400) = lo := by
    refine Fin.ext ?_
    rw [ofNat_val (by omega)]
    omega
  rw [hfirst, hsecond]

/-- The units of a scalar value: one outside the surrogates, or a pair. -/
theorem utf16Units_cases (c : Char) :
    (∃ u : CodeUnit, utf16Units c = [u] ∧ u.isSurrogate = false ∧ u.scalar = c) ∨
      ∃ hi lo : CodeUnit, utf16Units c = [hi, lo] ∧ hi.isHigh = true ∧ lo.isLow = true ∧
        hi.pair lo = c := by
  have hc := char_toNat_cases c
  unfold utf16Units
  by_cases hbmp : c.toNat < 0x10000
  · left
    have hval : (ofNat c.toNat).val = c.toNat := ofNat_val hbmp
    have hout : (ofNat c.toNat).isSurrogate = false := by
      rw [isSurrogate_eq_false_iff, hval]
      omega
    refine ⟨ofNat c.toNat, if_pos hbmp, hout, ?_⟩
    rw [← Char.ofNat_toNat (CodeUnit.scalar _), scalar_toNat hout, hval]
    exact Char.ofNat_toNat c
  · right
    have hhi := ofNat_val (n := 0xD800 + (c.toNat - 0x10000) / 0x400) (by omega)
    have hlo := ofNat_val (n := 0xDC00 + (c.toNat - 0x10000) % 0x400) (by omega)
    refine ⟨_, _, if_neg hbmp, isHigh_iff.2 ?_, isLow_iff.2 ?_, ?_⟩
    · rw [hhi]
      omega
    · rw [hlo]
      omega
    · unfold CodeUnit.pair
      rw [hhi, hlo]
      exact char_eq_ofNat (by omega)

namespace Utf16

theorem ofChars_cons (c : Char) (cs : List Char) :
    ofChars (c :: cs) = utf16Units c ++ ofChars cs := List.flatMap_cons

theorem scalars_pair {hi lo : CodeUnit} (hhi : hi.isHigh = true) (hlo : lo.isLow = true)
    (s : Utf16) : scalars (hi :: lo :: s) = hi.pair lo :: scalars s := by
  rw [scalars, if_pos (by rw [hhi, hlo]; rfl)]

theorem scalars_single {u : CodeUnit} (h : u.isSurrogate = false) (s : Utf16) :
    scalars (u :: s) = u.scalar :: scalars s := by
  have hhigh : u.isHigh = false := by
    unfold isSurrogate at h
    exact (Bool.or_eq_false_iff.1 h).1
  cases s with
  | nil => rfl
  | cons => rw [scalars, if_neg (by rw [hhigh]; exact Bool.false_ne_true)]

/-- The units of scalar values are read back as these scalar values. -/
theorem scalars_ofChars (cs : List Char) : scalars (ofChars cs) = cs := by
  induction cs with
  | nil => rfl
  | cons c cs ih =>
    rw [ofChars_cons]
    rcases utf16Units_cases c with ⟨u, hunits, hout, rfl⟩ | ⟨hi, lo, hunits, hhi, hlo, rfl⟩
    · rw [hunits, List.singleton_append, scalars_single hout, ih]
    · rw [hunits, List.cons_append, List.singleton_append, scalars_pair hhi hlo, ih]

theorem ofChars_injective {cs cs' : List Char} (h : ofChars cs = ofChars cs') : cs = cs' := by
  rw [← scalars_ofChars cs, h, scalars_ofChars]

theorem wellFormed_ofChars (cs : List Char) : wellFormed (ofChars cs) = true := by
  induction cs with
  | nil => rfl
  | cons c cs ih =>
    rw [ofChars_cons]
    rcases utf16Units_cases c with ⟨u, hunits, hout, -⟩ | ⟨hi, lo, hunits, hhi, hlo, -⟩
    · rw [hunits, List.singleton_append]
      have hhigh : u.isHigh = false := by
        unfold isSurrogate at hout
        exact (Bool.or_eq_false_iff.1 hout).1
      cases hrest : ofChars cs with
      | nil =>
        rw [wellFormed, hout]
        rfl
      | cons =>
        rw [hrest] at ih
        rw [wellFormed, if_neg (by rw [hhigh]; exact Bool.false_ne_true), hout, ih]
        rfl
    · rw [hunits, List.cons_append, List.singleton_append, wellFormed,
        if_pos (by rw [hhi, hlo]; rfl)]
      exact ih

/-- Only a well-formed string is the string of its scalar values. -/
theorem ofChars_scalars {s : Utf16} (h : wellFormed s = true) : ofChars (scalars s) = s := by
  induction s using scalars.induct with
  | case1 => rfl
  | case2 =>
    rw [wellFormed, Bool.not_eq_true'] at h
    rw [scalars, ofChars_cons, utf16Units_scalar h]
    rfl
  | case3 u v rest hpair ih =>
    rw [wellFormed, if_pos hpair] at h
    obtain ⟨hhi, hlo⟩ := (Bool.and_eq_true _ _).mp hpair
    rw [scalars, if_pos hpair, ofChars_cons, utf16Units_pair hhi hlo, ih h]
    rfl
  | case4 u v rest hpair ih =>
    rw [wellFormed, if_neg hpair, Bool.and_eq_true, Bool.not_eq_true'] at h
    rw [scalars, if_neg hpair, ofChars_cons, utf16Units_scalar h.1, ih h.2]
    rfl

/-- The string starts with U+FEFF. -/
def marked : Utf16 → Bool
  | [] => false
  | u :: _ => u.val = 0xFEFF

theorem marked_ofChars {cs : List Char} :
    marked (ofChars cs) = true ↔ cs.head? = some '\uFEFF' := by
  have hmark : ('\uFEFF' : Char).toNat = 0xFEFF := rfl
  cases cs with
  | nil => simp [ofChars, marked]
  | cons c =>
    rw [ofChars_cons, List.head?_cons, Option.some.injEq]
    rcases utf16Units_cases c with ⟨u, hunits, hout, rfl⟩ | ⟨hi, lo, hunits, hhi, hlo, rfl⟩
    · rw [hunits]
      show decide (u.val = 0xFEFF) = true ↔ _
      rw [decide_eq_true_eq, ← Char.toNat_inj, scalar_toNat hout, hmark]
    · rw [hunits]
      show decide (hi.val = 0xFEFF) = true ↔ _
      rw [decide_eq_true_eq, ← Char.toNat_inj, pair_toNat hhi hlo, hmark]
      have h1 := isHigh_iff.1 hhi
      omega

end Utf16

/-! ## Byte order marks -/

/-- The scalar values without a leading U+FEFF. -/
def stripMark : List Char → List Char
  | [] => []
  | c :: cs => if c = '\uFEFF' then cs else c :: cs

theorem stripMark_eq_self_iff {cs : List Char} :
    stripMark cs = cs ↔ cs.head? ≠ some '\uFEFF' := by
  cases cs with
  | nil => simp [stripMark]
  | cons c cs =>
    show (if c = '\uFEFF' then cs else c :: cs) = c :: cs ↔ _
    rw [List.head?_cons, ne_eq, Option.some.injEq]
    by_cases hmark : c = '\uFEFF'
    · rw [if_pos hmark]
      have hshort : cs ≠ c :: cs := fun h => by
        have hlength := congrArg List.length h
        rw [List.length_cons] at hlength
        omega
      exact ⟨fun h => absurd h hshort, fun h => absurd hmark h⟩
    · rw [if_neg hmark]
      exact ⟨fun _ => hmark, fun _ => rfl⟩

/-! ## UTF-8 -/

/-- The UTF-8 form of scalar values. -/
def utf8 (cs : List Char) : List UInt8 := cs.flatMap String.utf8EncodeChar

/-- The scalar values of bytes that are valid UTF-8. -/
def ofUtf8? (bytes : List UInt8) : Option (List Char) :=
  (String.fromUTF8? bytes.toByteArray).map String.toList

theorem utf8_toByteArray (cs : List Char) : (utf8 cs).toByteArray = cs.utf8Encode := rfl

theorem ofUtf8?_utf8 (cs : List Char) : ofUtf8? (utf8 cs) = some cs := by
  unfold ofUtf8? String.fromUTF8?
  rw [utf8_toByteArray, dif_pos ByteArray.isValidUTF8_utf8Encode]
  have hstring : String.fromUTF8 cs.utf8Encode ByteArray.isValidUTF8_utf8Encode =
      String.ofList cs := by
    rw [← String.toByteArray_inj, String.toByteArray_ofList]
    rfl
  rw [hstring, Option.map_some, String.toList_ofList]

theorem utf8_ofUtf8? {bytes : List UInt8} {cs : List Char} (h : ofUtf8? bytes = some cs) :
    utf8 cs = bytes := by
  unfold ofUtf8? String.fromUTF8? at h
  split at h
  · rename_i hvalid
    rw [Option.map_some, Option.some.injEq] at h
    have hbytes : (utf8 cs).toByteArray = bytes.toByteArray := by
      rw [utf8_toByteArray, ← String.toByteArray_ofList, ← h, String.ofList_toList]
      rfl
    have hlist := congrArg (fun b : ByteArray => b.data.toList) hbytes
    simp only [List.toList_data_toByteArray] at hlist
    exact hlist
  · cases h

end XioFlow.Lib
