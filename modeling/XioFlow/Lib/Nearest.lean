/-
  XioFlow.Lib.Nearest

  Rounding a rational number to the nearest double precision number, ties to
  the even one; nothing where the result would be infinite.  A number of the
  format is its own rounding.
-/

import XioFlow.Lib.Binary64
import Mathlib.Data.Int.Log
import Mathlib.Data.Rat.Floor

namespace XioFlow.Lib

/-- The nearest integer, of two the even one. -/
def roundHalfEven (q : ℚ) : ℤ :=
  let below := ⌊q⌋
  let rest := q - below
  if rest < 1 / 2 ∨ (rest = 1 / 2 ∧ below % 2 = 0) then below else below + 1

theorem roundHalfEven_intCast (n : ℤ) : roundHalfEven n = n := by
  unfold roundHalfEven
  dsimp only
  rw [Int.floor_intCast, sub_self, if_pos (Or.inl (by norm_num))]

theorem log_eq_of_bounds {b : ℕ} (hb : 1 < b) {q : ℚ} {k : ℤ} (hlow : (b : ℚ) ^ k ≤ q)
    (hhigh : q < (b : ℚ) ^ (k + 1)) : Int.log b q = k := by
  have hbase : (0 : ℚ) < b := by exact_mod_cast Nat.lt_trans Nat.zero_lt_one hb
  have hpos : 0 < q := lt_of_lt_of_le (zpow_pos hbase k) hlow
  have hle : k ≤ Int.log b q := (Int.zpow_le_iff_le_log hb hpos).1 hlow
  have hlt : Int.log b q < k + 1 := (Int.lt_zpow_iff_log_lt hb hpos).1 hhigh
  omega

namespace Binary64

/-- The binary exponent of the last place of a number of this size. -/
def lastPlace (q : ℚ) : ℤ := max (Int.log 2 q) (-1022) - 52

theorem mod_lt_fraction (m : Nat) : m % 2 ^ 52 < 2 ^ 52 := Nat.mod_lt m (Nat.two_pow_pos 52)

theorem subnormal_lt : 0 < 2047 := by decide

/-- The last 52 bits. -/
def fractionOf (m : Nat) : Fin (2 ^ 52) := ⟨m % 2 ^ 52, mod_lt_fraction m⟩

/-- The number `± m * 2 ^ e`, for an `m` of at most 53 bits or `2 ^ 53`. -/
def ofMantissa? (sign : Bool) (m : Nat) (e : ℤ) : Option Binary64 :=
  if m < 2 ^ 52 then some { sign, exponent := ⟨0, subnormal_lt⟩, fraction := fractionOf m }
  else
    let carried := m = 2 ^ 53
    let exponent := (e + 1075 + if carried then 1 else 0).toNat
    if h : exponent < 2047 then
      some {
        sign
        exponent := ⟨exponent, h⟩
        fraction := fractionOf (if carried then 0 else m - 2 ^ 52) }
    else none

/-- The number of the format that is nearest to `± q`, for a `q` that is not negative. -/
def nearest? (sign : Bool) (q : ℚ) : Option Binary64 :=
  ofMantissa? sign (roundHalfEven (q / (2 : ℚ) ^ lastPlace q)).toNat (lastPlace q)

/-- The number without its sign. -/
def magnitude (d : Binary64) : ℚ :=
  if d.exponent.val = 0 then (d.fraction.val : ℚ) * (2 : ℚ) ^ (-1074 : ℤ)
  else ((2 : ℚ) ^ 52 + d.fraction.val) * (2 : ℚ) ^ ((d.exponent.val : ℤ) - 1075)

theorem value_eq (d : Binary64) : d.value = (if d.sign then -1 else 1) * d.magnitude := rfl

theorem magnitude_nonneg (d : Binary64) : 0 ≤ d.magnitude := by
  unfold magnitude
  split <;> positivity

theorem abs_value (d : Binary64) : |d.value| = d.magnitude := by
  rw [value_eq, abs_mul, abs_of_nonneg d.magnitude_nonneg]
  cases d.sign <;> simp

variable {m : Nat}

/-- What is scaled to an integer rounds to it. -/
theorem nearest?_of_scaled {sign : Bool} {q : ℚ} {e : ℤ} (hplace : lastPlace q = e)
    (hq : q = m * (2 : ℚ) ^ e) : nearest? sign q = ofMantissa? sign m e := by
  have hscaled : q / (2 : ℚ) ^ e = ((m : ℤ) : ℚ) := by
    rw [hq, mul_div_assoc, div_self (zpow_ne_zero _ two_ne_zero), mul_one, Int.cast_natCast]
  unfold nearest?
  rw [hplace, hscaled, roundHalfEven_intCast, Int.toNat_natCast]

theorem lastPlace_subnormal {f : Nat} (hpos : 0 < f) (hf : f < 2 ^ 52) :
    lastPlace ((f : ℚ) * (2 : ℚ) ^ (-1074 : ℤ)) = -1074 := by
  have hq : 0 < (f : ℚ) * (2 : ℚ) ^ (-1074 : ℤ) := by positivity
  have hbound : (f : ℚ) * (2 : ℚ) ^ (-1074 : ℤ) < ((2 : Nat) : ℚ) ^ (-1022 : ℤ) := by
    have hcast : (f : ℚ) < (2 : ℚ) ^ (52 : ℤ) := by exact_mod_cast hf
    have hsplit : (2 : ℚ) ^ (-1022 : ℤ) = (2 : ℚ) ^ (52 : ℤ) * (2 : ℚ) ^ (-1074 : ℤ) := by
      rw [← zpow_add₀ two_ne_zero]
      norm_num
    rw [Nat.cast_ofNat, hsplit]
    exact mul_lt_mul_of_pos_right hcast (by positivity)
  have hlog := (Int.lt_zpow_iff_log_lt (by norm_num) hq).1 hbound
  unfold lastPlace
  omega

theorem lastPlace_normal {e f : Nat} (he : 0 < e) (hf : f < 2 ^ 52) :
    lastPlace (((2 : ℚ) ^ 52 + f) * (2 : ℚ) ^ ((e : ℤ) - 1075)) = (e : ℤ) - 1075 := by
  have hcast : (f : ℚ) < (2 : ℚ) ^ 52 := by exact_mod_cast hf
  have hscale : (0 : ℚ) < (2 : ℚ) ^ ((e : ℤ) - 1075) := by positivity
  have hlog : Int.log 2 (((2 : ℚ) ^ 52 + f) * (2 : ℚ) ^ ((e : ℤ) - 1075)) = (e : ℤ) - 1023 := by
    apply log_eq_of_bounds (by norm_num)
    · have hsplit : (2 : ℚ) ^ ((e : ℤ) - 1023) = (2 : ℚ) ^ 52 * (2 : ℚ) ^ ((e : ℤ) - 1075) := by
        rw [← zpow_natCast, ← zpow_add₀ two_ne_zero]
        congr 1
        push_cast
        ring
      rw [Nat.cast_ofNat, hsplit]
      exact mul_le_mul_of_nonneg_right (by linarith only [Nat.cast_nonneg (α := ℚ) f]) hscale.le
    · have hsplit : (2 : ℚ) ^ ((e : ℤ) - 1023 + 1) = (2 : ℚ) ^ 53 * (2 : ℚ) ^ ((e : ℤ) - 1075) := by
        rw [← zpow_natCast, ← zpow_add₀ two_ne_zero]
        congr 1
        push_cast
        ring
      rw [Nat.cast_ofNat, hsplit]
      exact mul_lt_mul_of_pos_right (by linarith only [hcast]) hscale
  unfold lastPlace
  rw [hlog]
  omega

theorem ofMantissa?_small (sign : Bool) (hm : m < 2 ^ 52) (e : ℤ) :
    ofMantissa? sign m e = some { sign, exponent := 0, fraction := fractionOf m } :=
  if_pos hm

/-- A number of the format is its own rounding. -/
theorem nearest?_magnitude (sign : Bool) (d : Binary64) :
    nearest? sign d.magnitude = some { d with sign } := by
  obtain ⟨s, ⟨e, he⟩, ⟨f, hf⟩⟩ := d
  have hfraction : fractionOf f = ⟨f, hf⟩ := Fin.ext (Nat.mod_eq_of_lt hf)
  by_cases hsub : e = 0
  · subst hsub
    have hmagnitude : magnitude ⟨s, ⟨0, he⟩, ⟨f, hf⟩⟩ = (f : ℚ) * (2 : ℚ) ^ (-1074 : ℤ) := if_pos rfl
    rw [hmagnitude]
    by_cases hzero : f = 0
    · subst hzero
      have hscaled : ((0 : Nat) : ℚ) * (2 : ℚ) ^ (-1074 : ℤ) =
          ((0 : Nat) : ℚ) * (2 : ℚ) ^ lastPlace (((0 : Nat) : ℚ) * (2 : ℚ) ^ (-1074 : ℤ)) := by
        rw [Nat.cast_zero, zero_mul, zero_mul]
      rw [nearest?_of_scaled rfl hscaled, ofMantissa?_small sign (by norm_num)]
      rfl
    · rw [nearest?_of_scaled (lastPlace_subnormal (Nat.pos_of_ne_zero hzero) hf) rfl,
        ofMantissa?_small sign hf, hfraction]
      rfl
  · have hmagnitude : magnitude ⟨s, ⟨e, he⟩, ⟨f, hf⟩⟩ =
        ((2 : ℚ) ^ 52 + f) * (2 : ℚ) ^ ((e : ℤ) - 1075) := if_neg hsub
    have hplace := lastPlace_normal (Nat.pos_of_ne_zero hsub) hf
    rw [hmagnitude, nearest?_of_scaled (m := 2 ^ 52 + f) hplace (by push_cast; rfl)]
    have hcarried : ¬2 ^ 52 + f = 2 ^ 53 := by omega
    have hexponent : ((e : ℤ) - 1075 + 1075 + if 2 ^ 52 + f = 2 ^ 53 then 1 else 0).toNat = e := by
      rw [if_neg hcarried]
      omega
    unfold ofMantissa?
    rw [if_neg (by omega)]
    dsimp only
    rw [dif_pos (by rw [hexponent]; exact he), Option.some.injEq, Binary64.mk.injEq]
    refine ⟨rfl, Fin.ext hexponent, ?_⟩
    rw [if_neg hcarried, Nat.add_sub_cancel_left, hfraction]

theorem nearest?_zero (sign : Bool) : nearest? sign 0 = some ⟨sign, 0, 0⟩ := by
  have hzero : magnitude ⟨sign, 0, 0⟩ = 0 := by simp [magnitude]
  rw [← hzero]
  exact nearest?_magnitude sign ⟨sign, 0, 0⟩

theorem ofMantissa?_sign {e : ℤ} {d : Binary64} (h : ofMantissa? false m e = some d) (sign : Bool) :
    ofMantissa? sign m e = some { d with sign } := by
  unfold ofMantissa? at h ⊢
  by_cases hsmall : m < 2 ^ 52
  · rw [if_pos hsmall] at h ⊢
    cases h
    rfl
  · rw [if_neg hsmall] at h ⊢
    dsimp only at h ⊢
    by_cases hfinite : (e + 1075 + if m = 2 ^ 53 then 1 else 0).toNat < 2047
    · rw [dif_pos hfinite] at h ⊢
      cases h
      rfl
    · rw [dif_neg hfinite] at h
      cases h

/-- The sign does not take part in rounding. -/
theorem nearest?_sign {q : ℚ} {d : Binary64} (h : nearest? false q = some d) (sign : Bool) :
    nearest? sign q = some { d with sign } := ofMantissa?_sign h sign

/-- Numbers of one value are the same, but for the sign of zero. -/
theorem eq_of_value_eq {a b : Binary64} (h : a.value = b.value) (hne : a.value ≠ 0) : a = b := by
  have hmagnitude : a.magnitude = b.magnitude := by rw [← abs_value, h, abs_value]
  have hpos : 0 < a.magnitude := by
    rw [← abs_value]
    exact abs_pos.2 hne
  have hsign : a.sign = b.sign := by
    rw [value_eq, value_eq, ← hmagnitude] at h
    by_contra hne
    cases ha : a.sign with
    | false =>
      have hb : b.sign = true := by simpa [ha] using hne
      rw [ha, hb, if_neg Bool.false_ne_true, if_pos rfl] at h
      linarith only [h, hpos]
    | true =>
      have hb : b.sign = false := by simpa [ha] using hne
      rw [ha, hb, if_neg Bool.false_ne_true, if_pos rfl] at h
      linarith only [h, hpos]
  have hround := nearest?_magnitude a.sign a
  rw [hmagnitude, nearest?_magnitude, Option.some.injEq, hsign] at hround
  have hb : ({ b with sign := b.sign } : Binary64) = b := rfl
  have ha : ({ a with sign := b.sign } : Binary64) = a := by rw [← hsign]
  rw [ha, hb] at hround
  exact hround.symm

end Binary64
end XioFlow.Lib
