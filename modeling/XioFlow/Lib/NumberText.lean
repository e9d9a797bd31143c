/-
  XioFlow.Lib.NumberText

  Double precision numbers as text: the fewest digits that are read back as
  the number, written the way `Number.prototype.toString` writes them, and the
  number that is nearest to what a JSON numeral says.

  The digits are searched with one more of them at a time.  A number of the
  format ends at the 1074th digit behind the point at the latest, so the
  search ends.
-/

import XioFlow.Lib.JsonRoundTrip
import XioFlow.Lib.Nearest

namespace XioFlow.Lib

namespace JsonText

/-! ## Reading -/

/-- The number that digits stand for. -/
def digitsValue (s : Utf16) : Nat := s.foldl (fun acc u => acc * 10 + (u.val - 0x30)) 0

/-- The number behind `e` or `E`. -/
def exponentValue : Utf16 → ℤ
  | _ :: u :: ds =>
    if u = unit '-' then -(digitsValue ds : ℤ)
    else if u = unit '+' then digitsValue ds
    else digitsValue (u :: ds)
  | _ => 0

/-- What a numeral without a sign says. -/
def unsignedValue (s : Utf16) : ℚ :=
  let whole := s.takeWhile isDigit
  match s.dropWhile isDigit with
  | [] => digitsValue whole
  | u :: rest =>
    if u = unit '.' then
      let fraction := rest.takeWhile isDigit
      digitsValue (whole ++ fraction) *
        (10 : ℚ) ^ (exponentValue (rest.dropWhile isDigit) - fraction.length)
    else digitsValue whole * (10 : ℚ) ^ exponentValue (u :: rest)

def isMinus (u : CodeUnit) : Bool := u = unit '-'

/-- The number that is nearest to a numeral, if it is finite. -/
def toNumber (s : Utf16) : Option Binary64 :=
  Binary64.nearest? (s.head?.any isMinus) (unsignedValue (dropOne isMinus s))

/-! ## Writing -/

def zeros (n : Nat) : Utf16 := List.replicate n (unit '0')

def exponentText (e : ℤ) : Utf16 :=
  unit 'e' :: (if e < 0 then unit '-' else unit '+') :: decimal e.natAbs

/-- The digits with the point behind the first `n` of them. -/
def placeDigits (ds : Utf16) (n : ℤ) : Utf16 :=
  if ds.length ≤ n ∧ n ≤ 21 then ds ++ zeros (n - ds.length).toNat
  else if 0 < n ∧ n ≤ 21 then ds.take n.toNat ++ unit '.' :: ds.drop n.toNat
  else if -6 < n ∧ n ≤ 0 then unit '0' :: unit '.' :: (zeros (-n).toNat ++ ds)
  else match ds with
    | [] => []
    | [d] => d :: exponentText (n - 1)
    | d :: rest => d :: unit '.' :: (rest ++ exponentText (n - 1))

/-- The number of digits before the point. -/
def digitsBefore (q : ℚ) : ℤ := Int.log 10 q + 1

/-- The two integers around a number, the nearer one first, of two the even one. -/
def around (q : ℚ) : List Nat :=
  let below := ⌊q⌋.toNat
  if q - below < 1 / 2 ∨ (q - below = 1 / 2 ∧ below % 2 = 0) then [below, below + 1]
  else [below + 1, below]

/-- `k` digits that are read back as the number. -/
def pickDigits (d : Binary64) (k : Nat) : Option Nat :=
  let n := digitsBefore d.magnitude
  (around (d.magnitude * (10 : ℚ) ^ (k - n))).find? fun s =>
    Binary64.nearest? false (s * (10 : ℚ) ^ (n - k)) = some { d with sign := false }

/-- The first number of digits from `k` on that will do, and the digits. -/
def searchDigits (d : Binary64) : Nat → Nat → Option (Nat × Nat)
  | 0, _ => none
  | fuel + 1, k =>
    match pickDigits d k with
    | some s => some (s, k)
    | none => searchDigits d fuel (k + 1)

def shortestDigits (d : Binary64) : Option (Nat × Nat) :=
  searchDigits d (1074 + digitsBefore d.magnitude).toNat 1

/-- The text of `k` digits; all nines and one more are the next power of ten. -/
def digitsText (s k : Nat) (n : ℤ) : Utf16 :=
  if s = 10 ^ k then placeDigits [unit '1'] (n + 1)
  else placeDigits (decimal s) (n - k + (decimal s).length)

/-- `String(d)`; both zeros are written the same. -/
def numberText (d : Binary64) : Utf16 :=
  if d.magnitude = 0 then [unit '0']
  else match shortestDigits d with
    | none => []
    | some (s, k) =>
      (if d.sign then [unit '-'] else []) ++ digitsText s k (digitsBefore d.magnitude)

/-! ## Digits -/

/-- Digits only. -/
def AllDigits (s : Utf16) : Prop := ∀ u ∈ s, isDigit u = true

variable {s : Utf16}

theorem AllDigits.append {t : Utf16} (hs : AllDigits s) (ht : AllDigits t) :
    AllDigits (s ++ t) := by
  intro u hu
  rcases List.mem_append.1 hu with hu | hu
  · exact hs u hu
  · exact ht u hu

theorem allDigits_zeros (n : Nat) : AllDigits (zeros n) := by
  intro u hu
  rw [(List.mem_replicate.1 hu).2]
  decide

theorem allDigits_decimal (n : Nat) : AllDigits (decimal n) :=
  List.all_eq_true.1 ((Bool.and_eq_true _ _).mp (isDigits_decimal n)).2

theorem decimal_ne_nil (n : Nat) : decimal n ≠ [] :=
  of_decide_eq_true ((Bool.and_eq_true _ _).mp (isDigits_decimal n)).1

theorem isDigits_of_allDigits (h : AllDigits s) (hne : s ≠ []) : isDigits s = true := by
  unfold isDigits
  rw [Bool.and_eq_true, decide_eq_true_eq]
  exact ⟨hne, List.all_eq_true.2 h⟩

/-- The digits in front of a text are the whole of them. -/
theorem span_digits {rest : Utf16} (hs : AllDigits s)
    (hrest : ∀ u, rest.head? = some u → isDigit u = false) :
    (s ++ rest).takeWhile isDigit = s ∧ (s ++ rest).dropWhile isDigit = rest :=
  takeWhile_follows hs hrest

theorem nil_head (u : CodeUnit) (hu : ([] : Utf16).head? = some u) : isDigit u = false := by
  cases hu

theorem allDigits_zero : AllDigits [unit '0'] := allDigits_zeros 1

theorem span_all (hs : AllDigits s) : s.takeWhile isDigit = s ∧ s.dropWhile isDigit = [] := by
  have hspan := span_digits hs nil_head
  rw [List.append_nil] at hspan
  exact hspan

theorem foldl_digitsValue (s : Utf16) (acc : Nat) :
    s.foldl (fun acc u => acc * 10 + (u.val - 0x30)) acc = acc * 10 ^ s.length + digitsValue s := by
  induction s generalizing acc with
  | nil => simp [digitsValue]
  | cons u s ih =>
    have hvalue : digitsValue (u :: s) = (u.val - 0x30) * 10 ^ s.length + digitsValue s := by
      show s.foldl _ (0 * 10 + (u.val - 0x30)) = _
      rw [ih, Nat.zero_mul, Nat.zero_add]
    rw [List.foldl_cons, ih, hvalue, List.length_cons, Nat.pow_succ]
    ring

theorem digitsValue_append (s t : Utf16) :
    digitsValue (s ++ t) = digitsValue s * 10 ^ t.length + digitsValue t := by
  unfold digitsValue
  rw [List.foldl_append]
  exact foldl_digitsValue t _

theorem digitsValue_zeros (n : Nat) : digitsValue (zeros n) = 0 := by
  induction n with
  | zero => rfl
  | succ n ih =>
    show digitsValue ([unit '0'] ++ zeros n) = 0
    have hzero : digitsValue [unit '0'] = 0 := rfl
    rw [digitsValue_append, ih, hzero, Nat.zero_mul]

theorem digitsValue_decimal (n : Nat) : digitsValue (decimal n) = n := by
  have hread := natural?_decimal n
  rw [natural?, if_pos (isDigits_decimal n)] at hread
  exact Option.some.inj hread

/-! ## What is written is read -/

theorem exponentValue_nil : exponentValue [] = 0 := rfl

theorem exponentValue_exponentText (e : ℤ) : exponentValue (exponentText e) = e := by
  unfold exponentText
  by_cases he : e < 0
  · rw [if_pos he, exponentValue, if_pos rfl, digitsValue_decimal]
    omega
  · rw [if_neg he, exponentValue, if_neg (by decide), if_pos rfl, digitsValue_decimal]
    omega

theorem exponentText_head (e : ℤ) (u : CodeUnit) (hu : (exponentText e).head? = some u) :
    isDigit u = false := by
  cases hu
  decide

theorem point_head (rest : Utf16) (u : CodeUnit) (hu : (unit '.' :: rest).head? = some u) :
    isDigit u = false := by
  cases hu
  decide

variable {ds whole : Utf16} {d : Binary64} {k : Nat}

theorem unsignedValue_digits (hds : AllDigits ds) : unsignedValue ds = digitsValue ds := by
  unfold unsignedValue
  rw [(span_all hds).1, (span_all hds).2]

/-- Digits with a point among them, and what follows the last one. -/
theorem unsignedValue_point {fraction tail : Utf16} (hwhole : AllDigits whole)
    (hfraction : AllDigits fraction) (htail : ∀ u, tail.head? = some u → isDigit u = false) :
    unsignedValue (whole ++ unit '.' :: (fraction ++ tail)) =
      digitsValue (whole ++ fraction) * (10 : ℚ) ^ (exponentValue tail - fraction.length) := by
  obtain ⟨htake, hdrop⟩ := span_digits hwhole (point_head (fraction ++ tail))
  obtain ⟨htake', hdrop'⟩ := span_digits hfraction htail
  unfold unsignedValue
  rw [htake, hdrop]
  dsimp only
  rw [if_pos rfl, htake', hdrop']

theorem unsignedValue_exponent (hwhole : AllDigits whole) (e : ℤ) :
    unsignedValue (whole ++ exponentText e) = digitsValue whole * (10 : ℚ) ^ e := by
  obtain ⟨htake, hdrop⟩ := span_digits hwhole (exponentText_head e)
  unfold unsignedValue
  rw [htake, hdrop]
  show (if unit 'e' = unit '.' then _ else _) = _
  rw [if_neg (by decide)]
  show digitsValue whole * (10 : ℚ) ^ exponentValue (exponentText e) = _
  rw [exponentValue_exponentText]

/-- Wherever the point is placed, the text says the digits times a power of ten. -/
theorem unsignedValue_placeDigits (hds : AllDigits ds) (hne : ds ≠ []) (n : ℤ) :
    unsignedValue (placeDigits ds n) = digitsValue ds * (10 : ℚ) ^ (n - ds.length) := by
  have hten : (10 : ℚ) ≠ 0 := by norm_num
  unfold placeDigits
  split
  · rename_i hwhole
    rw [unsignedValue_digits (hds.append (allDigits_zeros _)), digitsValue_append, digitsValue_zeros,
      Nat.add_zero, Nat.cast_mul, Nat.cast_pow, Nat.cast_ofNat, ← zpow_natCast]
    congr 2
    rw [zeros, List.length_replicate]
    omega
  · split
    · rename_i hshort hinside
      have htake : AllDigits (ds.take n.toNat) := fun u hu => hds u (List.mem_of_mem_take hu)
      have hdrop : AllDigits (ds.drop n.toNat) := fun u hu => hds u (List.mem_of_mem_drop hu)
      have hread := unsignedValue_point htake hdrop nil_head
      rw [List.append_nil] at hread
      rw [hread, List.take_append_drop]
      congr 2
      rw [exponentValue_nil, List.length_drop]
      omega
    · split
      · rename_i hsmall
        have hread := unsignedValue_point allDigits_zero
          ((allDigits_zeros (-n).toNat).append hds) nil_head
        rw [List.append_nil] at hread
        show unsignedValue ([unit '0'] ++ unit '.' :: (zeros (-n).toNat ++ ds)) = _
        rw [hread, ← List.append_assoc, digitsValue_append, digitsValue_append, digitsValue_zeros]
        have hzero : digitsValue [unit '0'] = 0 := rfl
        rw [hzero, Nat.zero_mul, Nat.zero_add, Nat.zero_mul, Nat.zero_add]
        congr 2
        rw [exponentValue_nil, List.length_append, zeros, List.length_replicate]
        omega
      · cases ds with
        | nil => exact absurd rfl hne
        | cons d rest =>
          cases rest with
          | nil =>
            show unsignedValue ([d] ++ exponentText (n - 1)) = _
            rw [unsignedValue_exponent hds]
            rfl
          | cons d' rest =>
            have hd : AllDigits [d] := fun u hu => hds u (List.mem_singleton.1 hu ▸ List.mem_cons_self)
            have hrest : AllDigits (d' :: rest) := fun u hu => hds u (List.mem_cons_of_mem _ hu)
            show unsignedValue ([d] ++ unit '.' :: ((d' :: rest) ++ exponentText (n - 1))) = _
            rw [unsignedValue_point hd hrest (exponentText_head _), exponentValue_exponentText,
              List.singleton_append]
            congr 2
            simp only [List.length_cons]
            omega

/-! ## What is written is a numeral -/

/-- A numeral without a sign. -/
def IsUnsigned (s : Utf16) : Prop :=
  isWhole (s.takeWhile isDigit) = true ∧ isFraction (s.dropWhile isDigit) = true

/-- Digits without a zero in front. -/
structure Leading (ds : Utf16) : Prop where
  digits : AllDigits ds
  ne_nil : ds ≠ []
  head : ds.head? ≠ some (unit '0')

theorem Leading.isWhole (h : Leading ds) : isWhole ds = true := by
  unfold JsonText.isWhole
  rw [isDigits_of_allDigits h.digits h.ne_nil, Bool.true_and, Bool.or_eq_true, decide_eq_true_eq]
  exact Or.inl h.head

theorem leading_decimal {n : Nat} (hn : n ≠ 0) : Leading (decimal n) := by
  refine ⟨allDigits_decimal n, decimal_ne_nil n, fun hhead => hn ?_⟩
  have hwhole := isWhole_decimal n
  rw [isWhole, isDigits_decimal, Bool.true_and, Bool.or_eq_true, decide_eq_true_eq,
    decide_eq_true_eq] at hwhole
  have hlength : (decimal n).length = 1 := hwhole.resolve_left (not_not.2 hhead)
  obtain ⟨u, hu⟩ := List.length_eq_one_iff.1 hlength
  rw [hu, List.head?_cons, Option.some.injEq] at hhead
  rw [← digitsValue_decimal n, hu, hhead]
  rfl

theorem isExponent_exponentText (e : ℤ) : isExponent (exponentText e) = true := by
  unfold exponentText
  have hdrop : dropOne (fun v => v = unit '+' || v = unit '-')
      ((if e < 0 then unit '-' else unit '+') :: decimal e.natAbs) = decimal e.natAbs := by
    split <;> rfl
  rw [isExponent, hdrop, isDigits_decimal]
  rfl

theorem isUnsigned_digits (hds : Leading ds) : IsUnsigned ds := by
  obtain ⟨htake, hdrop⟩ := span_all hds.digits
  refine ⟨?_, ?_⟩
  · rw [htake]
    exact hds.isWhole
  · rw [hdrop]
    rfl

theorem isUnsigned_point {fraction tail : Utf16} (hwhole : isWhole whole = true)
    (hfraction : AllDigits fraction) (hne : fraction ≠ [])
    (htail : ∀ u, tail.head? = some u → isDigit u = false) (hexponent : isExponent tail = true) :
    IsUnsigned (whole ++ unit '.' :: (fraction ++ tail)) := by
  have hdigits : AllDigits whole :=
    List.all_eq_true.1 ((Bool.and_eq_true _ _).mp (whole_digits hwhole)).2
  obtain ⟨htake, hdrop⟩ := span_digits hdigits (point_head (fraction ++ tail))
  obtain ⟨htake', hdrop'⟩ := span_digits hfraction htail
  refine ⟨?_, ?_⟩
  · rw [htake]
    exact hwhole
  · rw [hdrop, isFraction, if_pos rfl, htake', hdrop', isDigits_of_allDigits hfraction hne, hexponent]
    rfl

theorem isUnsigned_exponent (hwhole : Leading whole) (e : ℤ) :
    IsUnsigned (whole ++ exponentText e) := by
  obtain ⟨htake, hdrop⟩ := span_digits hwhole.digits (exponentText_head e)
  refine ⟨?_, ?_⟩
  · rw [htake]
    exact hwhole.isWhole
  · rw [hdrop]
    unfold exponentText
    rw [isFraction, if_neg (by decide)]
    exact isExponent_exponentText e

theorem leading_append {es : Utf16} (hds : Leading ds) (hes : AllDigits es) :
    Leading (ds ++ es) := by
  obtain ⟨u, rest, rfl⟩ := List.exists_cons_of_ne_nil hds.ne_nil
  exact ⟨hds.digits.append hes, List.cons_ne_nil _ _, hds.head⟩

/-- Wherever the point is placed, the text is a numeral. -/
theorem isUnsigned_placeDigits (hds : Leading ds) (n : ℤ) : IsUnsigned (placeDigits ds n) := by
  unfold placeDigits
  split
  · exact isUnsigned_digits (leading_append hds (allDigits_zeros _))
  · split
    · rename_i hshort hinside
      have hlength : n.toNat < ds.length := by omega
      have hdrop : AllDigits (ds.drop n.toNat) := fun u hu => hds.digits u (List.mem_of_mem_drop hu)
      have hlead : Leading (ds.take n.toNat) := by
        obtain ⟨u, rest, rfl⟩ := List.exists_cons_of_ne_nil hds.ne_nil
        obtain ⟨m, hm⟩ : ∃ m, n.toNat = m + 1 := ⟨n.toNat - 1, by omega⟩
        rw [hm, List.take_succ_cons]
        refine ⟨fun v hv => ?_, List.cons_ne_nil _ _, hds.head⟩
        rw [← List.take_succ_cons] at hv
        exact hds.digits v (List.mem_of_mem_take hv)
      have hne : ds.drop n.toNat ≠ [] := by
        intro hnil
        have hle := List.drop_eq_nil_iff.1 hnil
        omega
      have hpoint := isUnsigned_point hlead.isWhole hdrop hne nil_head rfl
      rw [List.append_nil] at hpoint
      exact hpoint
    · split
      · have hpoint := isUnsigned_point (show isWhole [unit '0'] = true by decide)
          ((allDigits_zeros (-n).toNat).append hds.digits)
          (List.append_ne_nil_of_right_ne_nil _ hds.ne_nil) nil_head rfl
        rw [List.append_nil] at hpoint
        exact hpoint
      · cases ds with
        | nil => exact absurd rfl hds.ne_nil
        | cons d rest =>
          have hd : Leading [d] := ⟨fun u hu => hds.digits u
            (List.mem_singleton.1 hu ▸ List.mem_cons_self), List.cons_ne_nil _ _, hds.head⟩
          cases rest with
          | nil => exact isUnsigned_exponent hd (n - 1)
          | cons d' rest =>
            have hrest : AllDigits (d' :: rest) :=
              fun u hu => hds.digits u (List.mem_cons_of_mem _ hu)
            exact isUnsigned_point hd.isWhole hrest (List.cons_ne_nil _ _)
              (exponentText_head _) (isExponent_exponentText _)

/-- A numeral without a sign begins with a digit. -/
theorem IsUnsigned.head (h : IsUnsigned s) : ∃ u rest, s = u :: rest ∧ isDigit u = true := by
  have hdigits := whole_digits h.1
  have hne : s.takeWhile isDigit ≠ [] :=
    of_decide_eq_true ((Bool.and_eq_true _ _).mp hdigits).1
  cases s with
  | nil => exact absurd rfl hne
  | cons u rest =>
    refine ⟨u, rest, rfl, ?_⟩
    by_contra hu
    rw [List.takeWhile_cons_of_neg hu] at hne
    exact hne rfl

theorem isMinus_digit {u : CodeUnit} (h : isDigit u = true) : isMinus u = false := by
  rw [isMinus, decide_eq_false_iff_not]
  rintro rfl
  exact absurd h (by decide)

/-- With or without a minus in front, the rest is read without it. -/
theorem dropOne_minus (h : IsUnsigned s) (negative : Bool) :
    dropOne isMinus ((if negative then [unit '-'] else []) ++ s) = s ∧
      (((if negative then [unit '-'] else []) ++ s).head?.any isMinus) = negative := by
  obtain ⟨u, rest, rfl, hu⟩ := h.head
  cases negative with
  | true =>
    rw [if_pos rfl, List.singleton_append, dropOne, if_pos (by decide)]
    exact ⟨rfl, rfl⟩
  | false =>
    rw [if_neg Bool.false_ne_true, List.nil_append, dropOne, isMinus_digit hu,
      if_neg Bool.false_ne_true]
    exact ⟨rfl, isMinus_digit hu⟩

theorem isNumeral_signed (h : IsUnsigned s) (negative : Bool) :
    isNumeral ((if negative then [unit '-'] else []) ++ s) = true := by
  have hdrop := (dropOne_minus h negative).1
  unfold isNumeral
  dsimp only
  rw [show (fun u => decide (u = unit '-')) = isMinus from rfl, hdrop, h.1, h.2]
  rfl

/-! ## The digits that are found -/

/-- Every number of the format ends at the 1074th digit behind the point at the latest. -/
theorem magnitude_scaled (d : Binary64) :
    ∃ n : Nat, d.magnitude * (10 : ℚ) ^ (1074 : ℤ) = n := by
  have hten : ∀ i : Nat, (2 : ℚ) ^ ((i : ℤ) - 1074) * (10 : ℚ) ^ (1074 : ℤ) =
      ((2 ^ i * 5 ^ 1074 : Nat) : ℚ) := by
    intro i
    have hsplit : (10 : ℚ) ^ (1074 : ℤ) = (2 : ℚ) ^ (1074 : ℤ) * (5 : ℚ) ^ (1074 : ℤ) := by
      rw [← mul_zpow]
      norm_num
    rw [hsplit, ← mul_assoc, ← zpow_add₀ two_ne_zero, sub_add_cancel, zpow_natCast, Nat.cast_mul,
      Nat.cast_pow, Nat.cast_pow, Nat.cast_ofNat, Nat.cast_ofNat]
    rfl
  unfold Binary64.magnitude
  split
  · refine ⟨d.fraction.val * (2 ^ 0 * 5 ^ 1074), ?_⟩
    have hscale := hten 0
    rw [Nat.cast_zero, zero_sub] at hscale
    rw [mul_assoc, hscale, ← Nat.cast_mul]
  · rename_i hnormal
    refine ⟨(2 ^ 52 + d.fraction.val) * (2 ^ (d.exponent.val - 1) * 5 ^ 1074), ?_⟩
    have hscale := hten (d.exponent.val - 1)
    rw [show ((d.exponent.val - 1 : Nat) : ℤ) - 1074 = (d.exponent.val : ℤ) - 1075 by omega] at hscale
    rw [mul_assoc, hscale, Nat.cast_mul (2 ^ 52 + d.fraction.val), Nat.cast_add, Nat.cast_pow,
      Nat.cast_ofNat]

theorem pickDigits_sound {s : Nat} (h : pickDigits d k = some s) :
    Binary64.nearest? false (s * (10 : ℚ) ^ (digitsBefore d.magnitude - k)) =
      some { d with sign := false } := by
  unfold pickDigits at h
  dsimp only at h
  have hfound := List.find?_some h
  exact of_decide_eq_true hfound

/-- With all digits of the number the exact one is among the two that are tried. -/
theorem pickDigits_exact (hk : (k : ℤ) = 1074 + digitsBefore d.magnitude) :
    pickDigits d k ≠ none := by
  obtain ⟨n, hn⟩ := magnitude_scaled d
  have hscaled : d.magnitude * (10 : ℚ) ^ ((k : ℤ) - digitsBefore d.magnitude) = n := by
    rw [hk, add_sub_cancel_right, hn]
  have hback : (n : ℚ) * (10 : ℚ) ^ (digitsBefore d.magnitude - (k : ℤ)) = d.magnitude := by
    rw [← hn, hk, mul_assoc, ← zpow_add₀ (by norm_num)]
    norm_num
  intro hnone
  have hall := List.find?_eq_none.1 hnone n (by
    rw [hscaled]
    unfold around
    rw [Int.floor_natCast, Int.toNat_natCast]
    dsimp only
    rw [sub_self, if_pos (Or.inl (by norm_num))]
    exact List.mem_cons_self)
  rw [hback, Binary64.nearest?_magnitude] at hall
  exact hall (decide_eq_true rfl)

theorem searchDigits_sound {fuel s k' : Nat} (h : searchDigits d fuel k = some (s, k')) :
    pickDigits d k' = some s := by
  induction fuel generalizing k with
  | zero => cases h
  | succ fuel ih =>
    rw [searchDigits] at h
    split at h
    · rename_i s' hpick
      cases h
      exact hpick
    · exact ih h

theorem searchDigits_ok {fuel i : Nat} (hi : i < fuel) (hpick : pickDigits d (k + i) ≠ none) :
    ∃ s k', searchDigits d fuel k = some (s, k') := by
  induction fuel generalizing k i with
  | zero => omega
  | succ fuel ih =>
    rw [searchDigits]
    cases hfirst : pickDigits d k with
    | some s => exact ⟨s, k, rfl⟩
    | none =>
      cases i with
      | zero => exact absurd hfirst hpick
      | succ i =>
        refine ih (Nat.lt_of_succ_lt_succ hi) ?_
        rw [Nat.add_right_comm]
        exact hpick

theorem digitsBefore_ge (hpos : 0 < d.magnitude) : -1073 ≤ digitsBefore d.magnitude := by
  obtain ⟨n, hn⟩ := magnitude_scaled d
  have hscale : (0 : ℚ) < (10 : ℚ) ^ (1074 : ℤ) := zpow_pos (by norm_num) _
  have hone : (1 : ℚ) ≤ d.magnitude * (10 : ℚ) ^ (1074 : ℤ) := by
    have hn0 : 0 < n := by
      rw [← Nat.cast_pos (α := ℚ), ← hn]
      exact mul_pos hpos hscale
    rw [hn]
    exact_mod_cast hn0
  have hlow : ((10 : Nat) : ℚ) ^ (-1074 : ℤ) ≤ d.magnitude := by
    rw [zpow_neg, Nat.cast_ofNat, inv_le_iff_one_le_mul₀ hscale]
    exact hone
  have hlog := (Int.zpow_le_iff_le_log (by norm_num) hpos).1 hlow
  unfold digitsBefore
  omega

/-- The search ends with digits that are read back as the number. -/
theorem shortestDigits_ok (hpos : 0 < d.magnitude) :
    ∃ s k, shortestDigits d = some (s, k) ∧
      Binary64.nearest? false (s * (10 : ℚ) ^ (digitsBefore d.magnitude - k)) =
        some { d with sign := false } := by
  have hlow := digitsBefore_ge hpos
  have hexact : pickDigits d (1 + ((1074 + digitsBefore d.magnitude).toNat - 1)) ≠ none :=
    pickDigits_exact (by omega)
  obtain ⟨s, k, hsearch⟩ := searchDigits_ok
    (show _ < (1074 + digitsBefore d.magnitude).toNat by omega) hexact
  exact ⟨s, k, hsearch, pickDigits_sound (searchDigits_sound hsearch)⟩

theorem unsignedValue_digitsText {s : Nat} (k : Nat) (n : ℤ) :
    unsignedValue (digitsText s k n) = s * (10 : ℚ) ^ (n - k) := by
  have hten : (10 : ℚ) ≠ 0 := by norm_num
  unfold digitsText
  split
  · rename_i hcarry
    have hone : AllDigits [unit '1'] := fun u hu => by
      rw [List.mem_singleton.1 hu]
      decide
    have hvalue : digitsValue [unit '1'] = 1 := rfl
    rw [unsignedValue_placeDigits hone (List.cons_ne_nil _ _), hvalue, hcarry, Nat.cast_one,
      one_mul, Nat.cast_pow, Nat.cast_ofNat, ← zpow_natCast, ← zpow_add₀ hten, List.length_singleton]
    congr 1
    omega
  · rw [unsignedValue_placeDigits (allDigits_decimal s) (decimal_ne_nil s), digitsValue_decimal]
    congr 2
    omega

theorem isUnsigned_digitsText {s : Nat} (hs : s ≠ 0) (k : Nat) (n : ℤ) :
    IsUnsigned (digitsText s k n) := by
  unfold digitsText
  split
  · refine isUnsigned_placeDigits ⟨fun u hu => ?_, List.cons_ne_nil _ _, by decide⟩ _
    rw [List.mem_singleton.1 hu]
    decide
  · exact isUnsigned_placeDigits (leading_decimal hs) _

/-! ## A number comes back from its text -/

/-- How a number that is not zero is written. -/
theorem numberText_ok (hpos : 0 < d.magnitude) :
    ∃ s, IsUnsigned s ∧ numberText d = (if d.sign then [unit '-'] else []) ++ s ∧
      Binary64.nearest? false (unsignedValue s) = some { d with sign := false } := by
  obtain ⟨s, k, hsearch, hread⟩ := shortestDigits_ok hpos
  have hs : s ≠ 0 := by
    rintro rfl
    rw [Nat.cast_zero, zero_mul, Binary64.nearest?_zero, Option.some.injEq] at hread
    have hzero : d.magnitude = 0 := by
      have hsame : d.magnitude = ({ d with sign := false } : Binary64).magnitude := rfl
      rw [hsame, ← hread]
      simp [Binary64.magnitude]
    exact absurd hzero (ne_of_gt hpos)
  refine ⟨digitsText s k (digitsBefore d.magnitude), isUnsigned_digitsText hs _ _, ?_, ?_⟩
  · unfold numberText
    rw [if_neg (ne_of_gt hpos), hsearch]
  · rw [unsignedValue_digitsText, hread]

theorem isNumeral_numberText (d : Binary64) : isNumeral (numberText d) = true := by
  rcases eq_or_lt_of_le d.magnitude_nonneg with hzero | hpos
  · unfold numberText
    rw [if_pos hzero.symm]
    decide
  · obtain ⟨s, hs, htext, -⟩ := numberText_ok hpos
    rw [htext]
    exact isNumeral_signed hs d.sign

/-- A number comes back from its text, zero without its sign. -/
theorem toNumber_numberText (d : Binary64) :
    ∃ d', toNumber (numberText d) = some d' ∧ d'.value = d.value := by
  rcases eq_or_lt_of_le d.magnitude_nonneg with hzero | hpos
  · refine ⟨⟨false, 0, 0⟩, ?_, ?_⟩
    · unfold numberText
      rw [if_pos hzero.symm]
      exact Binary64.nearest?_zero false
    · rw [Binary64.value_eq d, ← hzero, mul_zero]
      simp [Binary64.value]
  · obtain ⟨s, hs, htext, hread⟩ := numberText_ok hpos
    obtain ⟨hdrop, hminus⟩ := dropOne_minus hs d.sign
    refine ⟨d, ?_, rfl⟩
    unfold toNumber
    rw [htext, hdrop, hminus, Binary64.nearest?_sign hread]

/-- The text depends on the value alone. -/
theorem numberText_congr {a b : Binary64} (h : a.value = b.value) : numberText a = numberText b := by
  by_cases hzero : a.value = 0
  · have hmagnitude : ∀ {d : Binary64}, d.value = 0 → numberText d = [unit '0'] := by
      intro d hd
      have hd0 : d.magnitude = 0 := by rw [← d.abs_value, hd, abs_zero]
      unfold numberText
      rw [if_pos hd0]
    rw [hmagnitude hzero, hmagnitude (h ▸ hzero)]
  · rw [Binary64.eq_of_value_eq h hzero]

end JsonText
end XioFlow.Lib
