/-
  XioFlow.Lib.Binary64

  Finite double precision numbers: their bits, their exact value, and the
  integers among them.
-/

import Mathlib.Algebra.Order.Field.Power
import Mathlib.Tactic.Ring
import Mathlib.Tactic.FieldSimp
import Mathlib.Tactic.Positivity
import Mathlib.Tactic.Linarith

namespace XioFlow.Lib

/-- A finite number of the format: neither an infinity nor a NaN. -/
structure Binary64 where
  sign : Bool
  exponent : Fin 2047
  fraction : Fin (2 ^ 52)
  deriving DecidableEq

namespace Binary64

/-- The number itself; both zeros have the value zero. -/
def value (d : Binary64) : ℚ :=
  (if d.sign then -1 else 1) *
    if d.exponent.val = 0 then (d.fraction.val : ℚ) * (2 : ℚ) ^ (-1074 : ℤ)
    else ((2 : ℚ) ^ 52 + d.fraction.val) * (2 : ℚ) ^ ((d.exponent.val : ℤ) - 1075)

/-! ## Bits -/

def bits (d : Binary64) : Nat :=
  (if d.sign then 2 ^ 63 else 0) + d.exponent.val * 2 ^ 52 + d.fraction.val

/-- The finite number with these bits; nothing for infinities and NaNs. -/
def ofBits? (n : Nat) : Option Binary64 :=
  if h : n / 2 ^ 52 % 2 ^ 11 < 2047 then
    some {
      sign := n / 2 ^ 63 % 2 = 1
      exponent := ⟨n / 2 ^ 52 % 2 ^ 11, h⟩
      fraction := Fin.ofNat (2 ^ 52) n }
  else none

theorem bits_lt (d : Binary64) : d.bits < 2 ^ 64 := by
  have he := d.exponent.isLt
  have hf := d.fraction.isLt
  unfold bits
  split <;> omega

theorem ofBits?_bits (d : Binary64) : ofBits? d.bits = some d := by
  obtain ⟨sign, ⟨e, he⟩, ⟨f, hf⟩⟩ := d
  have hexponent : (bits ⟨sign, ⟨e, he⟩, ⟨f, hf⟩⟩) / 2 ^ 52 % 2 ^ 11 = e := by
    unfold bits
    cases sign <;> simp <;> omega
  have hfraction : (bits ⟨sign, ⟨e, he⟩, ⟨f, hf⟩⟩) % 2 ^ 52 = f := by
    unfold bits
    cases sign <;> simp <;> omega
  have hsign : (bits ⟨sign, ⟨e, he⟩, ⟨f, hf⟩⟩) / 2 ^ 63 % 2 = if sign then 1 else 0 := by
    unfold bits
    cases sign <;> simp <;> omega
  unfold ofBits?
  rw [dif_pos (by rw [hexponent]; exact he)]
  congr 2
  · rw [hsign]
    cases sign <;> rfl
  · exact Fin.ext hexponent
  · exact Fin.ext hfraction

/-! ## Scaled integers -/

/-- The number `± m * 2 ^ e`, where it is one of the normal numbers or zero. -/
def ofScaled (sign : Bool) (m : Nat) (e : ℤ) : Binary64 :=
  if m = 0 then { sign, exponent := 0, fraction := 0 }
  else {
    sign
    exponent := Fin.ofNat 2047 (e + m.log2 + 1023).toNat
    fraction := Fin.ofNat (2 ^ 52) (m * 2 ^ 52 / 2 ^ m.log2) }

/-- The number with these bits of the half precision format. -/
def ofBinary16? (n : Nat) : Option Binary64 :=
  let sign : Bool := n / 2 ^ 15 % 2 = 1
  let exponent : Nat := n / 2 ^ 10 % 2 ^ 5
  let fraction : Nat := n % 2 ^ 10
  if exponent = 0 then some (ofScaled sign fraction (-24))
  else if exponent = 31 then none
  else some (ofScaled sign (2 ^ 10 + fraction) ((exponent : ℤ) - 25))

/-- The number with these bits of the single precision format. -/
def ofBinary32? (n : Nat) : Option Binary64 :=
  let sign : Bool := n / 2 ^ 31 % 2 = 1
  let exponent : Nat := n / 2 ^ 23 % 2 ^ 8
  let fraction : Nat := n % 2 ^ 23
  if exponent = 0 then some (ofScaled sign fraction (-149))
  else if exponent = 255 then none
  else some (ofScaled sign (2 ^ 23 + fraction) ((exponent : ℤ) - 150))

theorem value_ofScaled {m : Nat} {e : ℤ} (sign : Bool) (hexact : 2 ^ m.log2 ∣ m * 2 ^ 52)
    (hlow : -1022 ≤ e + m.log2) (hhigh : e + m.log2 ≤ 1023) :
    (ofScaled sign m e).value = (if sign then -1 else 1) * ((m : ℚ) * (2 : ℚ) ^ e) := by
  unfold ofScaled
  by_cases hzero : m = 0
  · subst hzero
    simp [value]
  rw [if_neg hzero]
  obtain ⟨q, hq⟩ := hexact
  have hpos : 0 < 2 ^ m.log2 := Nat.two_pow_pos _
  have hdiv : m * 2 ^ 52 / 2 ^ m.log2 = q := by
    rw [hq]
    exact Nat.mul_div_cancel_left q hpos
  -- the leading bit of the quotient is the one that the format leaves out
  have hfrom : 2 ^ 52 ≤ q := by
    have hle := Nat.mul_le_mul_right (2 ^ 52) (Nat.log2_self_le hzero)
    rw [hq] at hle
    exact Nat.le_of_mul_le_mul_left hle hpos
  have hto : q < 2 ^ 53 := by
    have hlt := Nat.mul_lt_mul_of_pos_right (Nat.lt_log2_self (n := m)) (Nat.two_pow_pos 52)
    rw [hq, show 2 ^ (m.log2 + 1) * 2 ^ 52 = 2 ^ m.log2 * 2 ^ 53 by ring] at hlt
    exact Nat.lt_of_mul_lt_mul_left hlt
  have hexponent : (Fin.ofNat 2047 (e + m.log2 + 1023).toNat : Fin 2047).val =
      (e + m.log2 + 1023).toNat := Nat.mod_eq_of_lt (by omega)
  have hfraction : (Fin.ofNat (2 ^ 52) (m * 2 ^ 52 / 2 ^ m.log2) : Fin (2 ^ 52)).val =
      q - 2 ^ 52 := by
    rw [hdiv]
    show q % 2 ^ 52 = q - 2 ^ 52
    omega
  have hsum : (2 : ℚ) ^ 52 + ((q - 2 ^ 52 : Nat) : ℚ) = q := by
    rw [Nat.cast_sub hfrom]
    push_cast
    ring
  have hcast : (m : ℚ) * 2 ^ 52 = 2 ^ m.log2 * q := by exact_mod_cast hq
  unfold value
  simp only
  congr 1
  rw [hexponent, hfraction, if_neg (by omega), hsum,
    show (((e + m.log2 + 1023).toNat : ℤ) - 1075) = e + m.log2 - (52 : Nat) by omega,
    zpow_sub₀ (by norm_num), zpow_add₀ (by norm_num), zpow_natCast, zpow_natCast]
  field_simp
  linarith only [hcast]

/-! ## Integers -/

def ofInt (n : ℤ) : Binary64 := ofScaled (n < 0) n.natAbs 0

theorem value_ofInt {n : ℤ} (h : n.natAbs ≤ 2 ^ 53) : (ofInt n).value = n := by
  have hexact : 2 ^ n.natAbs.log2 ∣ n.natAbs * 2 ^ 52 := by
    by_cases hlt : n.natAbs < 2 ^ 53
    · have hlog : n.natAbs.log2 < 53 := by
        by_cases hzero : n.natAbs = 0
        · rw [hzero]
          decide
        · exact (Nat.log2_lt hzero).2 hlt
      exact Dvd.dvd.mul_left (Nat.pow_dvd_pow 2 (by omega)) _
    · rw [show n.natAbs = 2 ^ 53 by omega, Nat.log2_two_pow]
      exact Nat.dvd_mul_right _ _
  have hlog : n.natAbs.log2 ≤ 53 := by
    by_cases hzero : n.natAbs = 0
    · rw [hzero]
      decide
    · have hlt := (Nat.log2_lt (k := 54) hzero).2 (by omega)
      omega
  unfold ofInt
  rw [value_ofScaled _ hexact (by omega) (by omega), zpow_zero, mul_one]
  by_cases hneg : n < 0
  · rw [if_pos (decide_eq_true hneg)]
    have habs : (n.natAbs : ℤ) = -n := Int.ofNat_natAbs_of_nonpos (le_of_lt hneg)
    have hcast : (n.natAbs : ℚ) = -(n : ℚ) := by
      rw [← Int.cast_natCast, habs, Int.cast_neg]
    rw [hcast]
    ring
  · rw [if_neg (by simpa using hneg)]
    have habs : (n.natAbs : ℤ) = n := Int.natAbs_of_nonneg (not_lt.1 hneg)
    have hcast : (n.natAbs : ℚ) = (n : ℚ) := by
      rw [← Int.cast_natCast, habs]
    rw [hcast, one_mul]

/-- The value when it is an integer whose neighbours are numbers of the format too. -/
def safeInteger? (d : Binary64) : Option ℤ :=
  if d.value.den = 1 ∧ d.value.num.natAbs ≤ 9007199254740991 then some d.value.num else none

theorem safeInteger?_eq_some {d : Binary64} {n : ℤ} (h : d.safeInteger? = some n) :
    d.value = n ∧ n.natAbs ≤ 9007199254740991 := by
  unfold safeInteger? at h
  split at h
  · rename_i hsafe
    cases h
    exact ⟨(Rat.den_eq_one_iff _).1 hsafe.1 |>.symm, hsafe.2⟩
  · cases h

end Binary64
end XioFlow.Lib
