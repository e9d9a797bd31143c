/-
  XioFlow.Lib.JsonRoundTrip

  What `stringify` writes, `parse` reads back.

  The text of a value holds no control character and no surrogate that stands
  alone, so it fits on a line and survives UTF-8.  A value that was read has
  no property twice.
-/

import XioFlow.Lib.JsonText
import Mathlib.Data.List.TakeWhile
import Mathlib.Data.Nat.Digits.Lemmas

namespace XioFlow.Lib

/-! ## Well-formed strings -/

namespace Utf16

theorem wellFormed_append {a : Utf16} (ha : wellFormed a = true) (b : Utf16) :
    wellFormed (a ++ b) = wellFormed b := by
  induction a using wellFormed.induct with
  | case1 => rfl
  | case2 u =>
    rw [wellFormed, Bool.not_eq_true'] at ha
    have hhigh : u.isHigh = false := by
      unfold CodeUnit.isSurrogate at ha
      exact (Bool.or_eq_false_iff.1 ha).1
    cases b with
    | nil =>
      rw [List.append_nil]
      change (!u.isSurrogate) = true
      rw [ha]
      rfl
    | cons =>
      rw [List.singleton_append, wellFormed, if_neg (by rw [hhigh]; exact Bool.false_ne_true),
        ha]
      rfl
  | case3 u v rest hpair ih =>
    rw [wellFormed, if_pos hpair] at ha
    rw [List.cons_append, List.cons_append, wellFormed, if_pos hpair]
    exact ih ha
  | case4 u v rest hpair ih =>
    rw [wellFormed, if_neg hpair, Bool.and_eq_true] at ha
    rw [List.cons_append, List.cons_append, wellFormed, if_neg hpair, ha.1, Bool.true_and]
    exact ih ha.2

end Utf16

namespace JsonText

open Utf16

/-! ## Literals -/

@[simp] theorem units_inj {s t : String} : units s = units t ↔ s = t :=
  ⟨fun h => String.toList_inj.1 (ofChars_injective h), congrArg units⟩

/-! ## Text that fits on a line -/

/-- No control character, and no surrogate that stands alone. -/
structure Clean (s : Utf16) : Prop where
  printable : ∀ u ∈ s, 0x20 ≤ u.val
  wellFormed : s.wellFormed = true

variable {s : Utf16} {u : CodeUnit} {n : Nat} {close : CodeUnit} {texts : List Utf16}

theorem Clean.append {t : Utf16} (hs : Clean s) (ht : Clean t) : Clean (s ++ t) := by
  refine ⟨fun u hu => ?_, (wellFormed_append hs.wellFormed t).trans ht.wellFormed⟩
  rcases List.mem_append.1 hu with hu | hu
  · exact hs.printable u hu
  · exact ht.printable u hu

theorem clean_nil : Clean [] := ⟨nofun, rfl⟩

theorem clean_unit (hprintable : 0x20 ≤ u.val) (hplain : u.isSurrogate = false) : Clean [u] := by
  refine ⟨fun v hv => ?_, ?_⟩
  · rw [List.mem_singleton.1 hv]
    exact hprintable
  · rw [Utf16.wellFormed, hplain]
    rfl

theorem Clean.cons (hs : Clean s) (hprintable : 0x20 ≤ u.val) (hplain : u.isSurrogate = false) :
    Clean (u :: s) :=
  (clean_unit hprintable hplain).append hs

theorem clean_pair {v : CodeUnit} (hs : Clean s) (hhigh : u.isHigh = true) (hlow : v.isLow = true) :
    Clean (u :: v :: s) := by
  have hu := CodeUnit.isHigh_iff.1 hhigh
  have hv := CodeUnit.isLow_iff.1 hlow
  refine ⟨fun w hw => ?_, ?_⟩
  · rcases List.mem_cons.1 hw with rfl | hw
    · omega
    · rcases List.mem_cons.1 hw with rfl | hw
      · omega
      · exact hs.printable w hw
  · rw [Utf16.wellFormed, if_pos (by rw [hhigh, hlow]; rfl)]
    exact hs.wellFormed

/-- Units between the space and the delete character. -/
theorem clean_ascii (h : ∀ u ∈ s, 0x20 ≤ u.val ∧ u.val < 0x7f) : Clean s := by
  induction s with
  | nil => exact clean_nil
  | cons u s ih =>
    have hu := h u List.mem_cons_self
    refine (ih fun v hv => h v (List.mem_cons_of_mem _ hv)).cons hu.1 ?_
    rw [CodeUnit.isSurrogate_eq_false_iff]
    omega

/-- A literal of printable characters. -/
theorem clean_units {s : String} (h : ∀ c ∈ s.toList, 0x20 ≤ c.toNat ∧ c.toNat < 0x7f) :
    Clean (units s) := by
  apply clean_ascii
  intro u hu
  obtain ⟨c, hc, hunit⟩ := List.mem_flatMap.1 hu
  have hrange := h c hc
  rw [utf16Units, if_pos (by omega), List.mem_singleton] at hunit
  rw [hunit, CodeUnit.ofNat_val (by omega)]
  exact hrange

/-! ## Hexadecimal digits -/

theorem hexValue_hexDigit (h : n < 16) : hexValue (hexDigit n) = some n := by
  have hall : ∀ n : Fin 16, hexValue (hexDigit n.val) = some n.val := by decide
  exact hall ⟨n, h⟩

theorem hexDigit_ascii (h : n < 16) : 0x20 ≤ (hexDigit n).val ∧ (hexDigit n).val < 0x7f := by
  have hall : ∀ n : Fin 16, 0x20 ≤ (hexDigit n.val).val ∧ (hexDigit n.val).val < 0x7f := by decide
  exact hall ⟨n, h⟩

/-! ## Strings -/

theorem shortEscapes_read : ∀ e ∈ shortEscapes, e.1 ≠ unit 'u' ∧ unescape e.1 = some e.2 := by
  unfold shortEscapes
  simp only [List.forall_mem_cons, List.not_mem_nil, false_implies, implies_true, and_true]
  refine ⟨⟨?_, ?_⟩, ⟨?_, ?_⟩, ⟨?_, ?_⟩, ⟨?_, ?_⟩, ⟨?_, ?_⟩, ⟨?_, ?_⟩, ?_, ?_⟩ <;> decide

theorem shortEscapes_ascii : ∀ e ∈ shortEscapes, 0x20 ≤ e.1.val ∧ e.1.val < 0x7f := by
  unfold shortEscapes
  simp only [List.forall_mem_cons, List.not_mem_nil, false_implies, implies_true, and_true]
  refine ⟨?_, ?_, ?_, ?_, ?_, ?_, ?_⟩ <;> decide

theorem parseString_quote (rest : Utf16) : parseString (unit '"' :: rest) = some ([], rest) := by
  rw [parseString.eq_def]
  exact if_pos rfl

theorem parseString_hex {a b c d : CodeUnit} {i j k l : Nat} (ha : hexValue a = some i)
    (hb : hexValue b = some j) (hc : hexValue c = some k) (hd : hexValue d = some l)
    (rest : Utf16) :
    parseString (unit '\\' :: unit 'u' :: a :: b :: c :: d :: rest) =
      (parseString rest).map fun r =>
        (CodeUnit.ofNat (((i * 16 + j) * 16 + k) * 16 + l) :: r.1, r.2) := by
  rw [parseString.eq_def]
  simp only
  rw [if_neg (by decide), if_pos trivial, if_pos trivial, ha, hb, hc, hd]
  simp only [Option.bind_eq_bind, Option.bind_some]
  cases parseString rest with
  | none => rfl
  | some => rfl

theorem parseString_short {e v : CodeUnit} (hletter : e ≠ unit 'u') (hread : unescape e = some v)
    (rest : Utf16) :
    parseString (unit '\\' :: e :: rest) = (parseString rest).map fun r => (v :: r.1, r.2) := by
  rw [parseString.eq_def]
  simp only
  rw [if_neg (by decide), if_pos trivial, if_neg hletter, hread]
  simp only [Option.bind_eq_bind, Option.bind_some]
  cases parseString rest with
  | none => rfl
  | some => rfl

theorem parseString_plain (hquote : u ≠ unit '"') (hslash : u ≠ unit '\\')
    (hprintable : 0x20 ≤ u.val) (rest : Utf16) :
    parseString (u :: rest) = (parseString rest).map fun r => (u :: r.1, r.2) := by
  rw [parseString.eq_def]
  simp only
  rw [if_neg hquote, if_neg hslash, if_neg (by omega)]
  cases parseString rest with
  | none => rfl
  | some => rfl

theorem parseString_escapeUnit (u : CodeUnit) (rest : Utf16) :
    parseString (escapeUnit u ++ rest) = (parseString rest).map fun r => (u :: r.1, r.2) := by
  have hlt := u.isLt
  have hvalue : CodeUnit.ofNat (((u.val / 4096 * 16 + u.val / 256 % 16) * 16 + u.val / 16 % 16) * 16 +
      u.val % 16) = u := by
    refine Fin.ext ?_
    rw [CodeUnit.ofNat_val (by omega)]
    omega
  have hmod : ∀ n, n % 16 < 16 := fun n => Nat.mod_lt n (by decide)
  unfold escapeUnit
  simp only [List.cons_append, List.nil_append]
  rw [parseString_hex (hexValue_hexDigit (by omega)) (hexValue_hexDigit (hmod _))
    (hexValue_hexDigit (hmod _)) (hexValue_hexDigit (hmod _)), hvalue]

/-- A surrogate is none of the units that a string treats apart. -/
theorem parseString_surrogate (h : 0xD800 ≤ u.val) (rest : Utf16) :
    parseString (u :: rest) = (parseString rest).map fun r => (u :: r.1, r.2) := by
  refine parseString_plain ?_ ?_ (by omega) rest
  · rintro rfl
    exact absurd h (by decide)
  · rintro rfl
    exact absurd h (by decide)

theorem parseString_quoteUnit (u : CodeUnit) (rest : Utf16) :
    parseString (quoteUnit u ++ rest) = (parseString rest).map fun r => (u :: r.1, r.2) := by
  unfold quoteUnit
  split
  · rename_i e hfound
    have hmem := List.mem_of_find?_eq_some hfound
    have hsame : e.2 = u := by simpa using List.find?_some hfound
    obtain ⟨hletter, hread⟩ := shortEscapes_read e hmem
    simp only [List.cons_append, List.nil_append]
    rw [parseString_short hletter hread, hsame]
  · rename_i hnone
    have hnot : ∀ e ∈ shortEscapes, e.2 ≠ u := by
      intro e he hsame
      have hmiss := List.find?_eq_none.1 hnone e he
      exact hmiss (by simpa using hsame)
    split
    · exact parseString_escapeUnit u rest
    · rename_i hplain
      have hprintable : 0x20 ≤ u.val := by
        simp only [Bool.or_eq_true, decide_eq_true_eq, not_or] at hplain
        omega
      refine parseString_plain ?_ ?_ hprintable rest
      · exact (hnot (unit '"', unit '"') (by decide)).symm
      · exact (hnot (unit '\\', unit '\\') (by decide)).symm

theorem parseString_quoteBody (s rest : Utf16) :
    parseString (quoteBody s ++ unit '"' :: rest) = some (s, rest) := by
  induction s using quoteBody.induct with
  | case1 =>
    exact parseString_quote rest
  | case2 =>
    rw [quoteBody, parseString_quoteUnit, parseString_quote]
    rfl
  | case3 u v s hpair ih =>
    obtain ⟨hhigh, hlow⟩ := (Bool.and_eq_true _ _).mp hpair
    have hu := CodeUnit.isHigh_iff.1 hhigh
    have hv := CodeUnit.isLow_iff.1 hlow
    rw [quoteBody, if_pos hpair, List.cons_append, List.cons_append,
      parseString_surrogate hu.1, parseString_surrogate (by omega), ih]
    rfl
  | case4 u v s hpair ih =>
    rw [quoteBody, if_neg hpair, List.append_assoc, parseString_quoteUnit, ih]
    rfl

theorem clean_quoteUnit (u : CodeUnit) : Clean (quoteUnit u) := by
  unfold quoteUnit
  split
  · rename_i e hfound
    have hascii := shortEscapes_ascii e (List.mem_of_find?_eq_some hfound)
    apply clean_ascii
    intro v hv
    rcases List.mem_cons.1 hv with rfl | hv
    · decide
    · rw [List.mem_singleton.1 hv]
      exact hascii
  · split
    · have hlt := u.isLt
      apply clean_ascii
      intro v hv
      simp only [escapeUnit, List.mem_cons, List.not_mem_nil, or_false] at hv
      rcases hv with rfl | rfl | rfl | rfl | rfl | rfl
      · decide
      · decide
      · exact hexDigit_ascii (by omega)
      · exact hexDigit_ascii (by omega)
      · exact hexDigit_ascii (by omega)
      · exact hexDigit_ascii (by omega)
    · rename_i hplain
      simp only [Bool.or_eq_true, decide_eq_true_eq, not_or, Bool.not_eq_true] at hplain
      exact clean_unit (by omega) hplain.2

theorem clean_quoteBody (s : Utf16) : Clean (quoteBody s) := by
  induction s using quoteBody.induct with
  | case1 => exact clean_nil
  | case2 u => exact clean_quoteUnit u
  | case3 u v s hpair ih =>
    obtain ⟨hhigh, hlow⟩ := (Bool.and_eq_true _ _).mp hpair
    rw [quoteBody, if_pos hpair]
    exact clean_pair ih hhigh hlow
  | case4 u v s hpair ih =>
    rw [quoteBody, if_neg hpair]
    exact (clean_quoteUnit u).append ih

theorem clean_quote (s : Utf16) : Clean (quote s) :=
  ((clean_quoteBody s).append (clean_unit (by decide) (by decide))).cons (by decide) (by decide)

/-! ## Numerals -/

theorem isNumeralUnit_of_isDigit (h : isDigit u = true) : isNumeralUnit u = true := by
  unfold isNumeralUnit
  rw [h]
  rfl

theorem digits_units (h : isDigits s = true) : ∀ u ∈ s, isNumeralUnit u = true := by
  unfold isDigits at h
  obtain ⟨-, hall⟩ := (Bool.and_eq_true _ _).mp h
  intro u hu
  exact isNumeralUnit_of_isDigit (List.all_eq_true.1 hall u hu)

/-- What is left out in front is of the given kind. -/
theorem forall_dropOne {p : CodeUnit → Bool} (hone : ∀ u, p u = true → isNumeralUnit u = true)
    (hrest : ∀ u ∈ dropOne p s, isNumeralUnit u = true) : ∀ u ∈ s, isNumeralUnit u = true := by
  cases s with
  | nil => nofun
  | cons =>
    rw [dropOne] at hrest
    intro u hu
    split at hrest
    · rename_i hv
      rcases List.mem_cons.1 hu with rfl | hu
      · exact hone u hv
      · exact hrest u hu
    · exact hrest u hu

theorem exponent_units (h : isExponent s = true) : ∀ u ∈ s, isNumeralUnit u = true := by
  cases s with
  | nil => nofun
  | cons =>
    obtain ⟨hletter, hdigits⟩ := (Bool.and_eq_true _ _).mp h
    intro u hu
    rcases List.mem_cons.1 hu with rfl | hu
    · simp only [Bool.or_eq_true, decide_eq_true_eq] at hletter
      rcases hletter with rfl | rfl <;> decide
    · refine forall_dropOne (fun w hw => ?_) (digits_units hdigits) u hu
      simp only [Bool.or_eq_true, decide_eq_true_eq] at hw
      rcases hw with rfl | rfl <;> decide

/-- The text is its digits in front, and what follows them. -/
theorem forall_span {P : CodeUnit → Prop} (hfront : ∀ u ∈ s.takeWhile isDigit, P u)
    (hback : ∀ u ∈ s.dropWhile isDigit, P u) : ∀ u ∈ s, P u := by
  intro u hu
  rw [← List.takeWhile_append_dropWhile (p := isDigit) (l := s), List.mem_append] at hu
  rcases hu with hu | hu
  · exact hfront u hu
  · exact hback u hu

theorem fraction_units (h : isFraction s = true) : ∀ u ∈ s, isNumeralUnit u = true := by
  cases s with
  | nil => nofun
  | cons =>
    rw [isFraction] at h
    split at h
    · rename_i hpoint
      obtain ⟨hdigits, hexponent⟩ := (Bool.and_eq_true _ _).mp h
      intro u hu
      rcases List.mem_cons.1 hu with rfl | hu
      · rw [hpoint]
        decide
      · exact forall_span (digits_units hdigits) (exponent_units hexponent) u hu
    · exact exponent_units h

theorem whole_digits (h : isWhole s = true) : isDigits s = true :=
  ((Bool.and_eq_true _ _).mp h).1

theorem numeral_units (h : isNumeral s = true) : ∀ u ∈ s, isNumeralUnit u = true := by
  obtain ⟨hwhole, hfraction⟩ := (Bool.and_eq_true _ _).mp h
  refine forall_dropOne (fun u hu => ?_)
    (forall_span (digits_units (whole_digits hwhole)) (fraction_units hfraction))
  rw [of_decide_eq_true hu]
  decide

theorem numeral_ne_nil (h : isNumeral s = true) : s ≠ [] := by
  rintro rfl
  cases h

/-! ## Reading back -/

/-- What may follow a value: nothing that would make a numeral longer. -/
def Follows (rest : Utf16) : Prop := ∀ u, rest.head? = some u → isNumeralUnit u = false

theorem follows_nil : Follows [] := nofun

theorem follows_cons (h : isNumeralUnit u = false) (rest : Utf16) : Follows (u :: rest) := by
  intro v hv
  cases hv
  exact h

/-- The parser reads the text as the value, whatever follows. -/
def Reads {α : Type} (item : Utf16 → Option (α × Utf16)) (text : Utf16) (x : α) : Prop :=
  ∀ rest, Follows rest → item (text ++ rest) = some (x, rest)

/-- What a text begins with ends where something else follows. -/
theorem takeWhile_follows {p : CodeUnit → Bool} {rest : Utf16} (hs : ∀ u ∈ s, p u = true)
    (hrest : ∀ u, rest.head? = some u → p u = false) :
    (s ++ rest).takeWhile p = s ∧ (s ++ rest).dropWhile p = rest := by
  have hstop : rest.takeWhile p = [] ∧ rest.dropWhile p = rest := by
    cases rest with
    | nil => exact ⟨rfl, rfl⟩
    | cons u =>
      have hu := hrest u rfl
      exact ⟨List.takeWhile_cons_of_neg (by rw [hu]; exact Bool.false_ne_true),
        List.dropWhile_cons_of_neg (by rw [hu]; exact Bool.false_ne_true)⟩
  constructor
  · rw [List.takeWhile_append_of_pos hs, hstop.1, List.append_nil]
  · rw [List.dropWhile_append_of_pos hs, hstop.2]

theorem reads_numeral (n : Numeral) : Reads parseNumeral n.text (.num n) := by
  intro rest hrest
  obtain ⟨htake, hdrop⟩ := takeWhile_follows (numeral_units n.valid) hrest
  have hvalid : isNumeral ((n.text ++ rest).takeWhile isNumeralUnit) = true := by
    rw [htake]
    exact n.valid
  unfold parseNumeral
  rw [dif_pos hvalid]
  simp only [htake, hdrop]

/-! ## Sequences -/

/-- The items after the first one, each with its comma. -/
def continued (texts : List Utf16) : Utf16 := texts.flatMap fun text => unit ',' :: text

theorem commaSeparated_cons (text : Utf16) (texts : List Utf16) :
    commaSeparated (text :: texts) = text ++ continued texts := by
  induction texts generalizing text with
  | nil => exact (List.append_nil text).symm
  | cons next texts ih =>
    rw [commaSeparated, ih]
    rfl

/-- What ends a sequence: neither a comma nor white space, nor part of a numeral. -/
structure Closes (close : CodeUnit) : Prop where
  comma : unit ',' ≠ close
  space : isJsonSpace close = false
  numeral : isNumeralUnit close = false

theorem skipSpace_cons (h : isJsonSpace u = false) (rest : Utf16) :
    skipSpace (u :: rest) = u :: rest :=
  List.dropWhile_cons_of_neg (by rw [h]; exact Bool.false_ne_true)

theorem follows_continued (hclose : Closes close) (texts : List Utf16) (rest : Utf16) :
    Follows (continued texts ++ close :: rest) := by
  cases texts with
  | nil => exact follows_cons hclose.numeral rest
  | cons => exact follows_cons (by decide) _

variable {α : Type}

theorem parseMore_continued (hclose : Closes close) {item : Utf16 → Option (α × Utf16)}
    {xs : List α} (hreads : List.Forall₂ (Reads item) texts xs) (hn : texts.length < n)
    (rest : Utf16) :
    parseMore close item n (continued texts ++ close :: rest) = some (xs, rest) := by
  induction hreads generalizing n with
  | nil =>
    obtain ⟨n, rfl⟩ := Nat.exists_eq_succ_of_ne_zero (Nat.ne_of_gt hn)
    change parseMore close item (n + 1) (close :: rest) = _
    rw [parseMore, skipSpace_cons hclose.space]
    simp only
    rw [if_pos trivial]
  | @cons text x texts xs hread hreads ih =>
    obtain ⟨n, rfl⟩ := Nat.exists_eq_succ_of_ne_zero (Nat.ne_of_gt (Nat.zero_lt_of_lt hn))
    have hmore := ih (n := n) (by rw [List.length_cons] at hn; omega)
    have htext : continued (text :: texts) ++ close :: rest =
        unit ',' :: (text ++ (continued texts ++ close :: rest)) := by
      change (unit ',' :: text ++ continued texts) ++ close :: rest = _
      rw [List.cons_append, List.cons_append, List.append_assoc]
    rw [htext, parseMore, skipSpace_cons (by decide)]
    simp only
    rw [if_neg hclose.comma, if_pos trivial, hread _ (follows_continued hclose texts rest)]
    simp only [Option.bind_eq_bind, Option.bind_some, hmore]
    rfl

/-- A text that a sequence can begin with. -/
def Begins (close : CodeUnit) (text : Utf16) : Prop :=
  ∃ u rest, text = u :: rest ∧ isJsonSpace u = false ∧ u ≠ close

theorem parseSequence_commaSeparated (hclose : Closes close) {item : Utf16 → Option (α × Utf16)}
    {xs : List α} (hreads : List.Forall₂ (Reads item) texts xs)
    (hbegins : ∀ text ∈ texts, Begins close text) (hn : texts.length ≤ n) (rest : Utf16) :
    parseSequence close item n (commaSeparated texts ++ close :: rest) = some (xs, rest) := by
  cases hreads with
  | nil =>
    change parseSequence close item n (close :: rest) = _
    rw [parseSequence, skipSpace_cons hclose.space]
    simp only
    rw [if_pos trivial]
  | @cons text x texts xs hread hreads =>
    obtain ⟨u, tail, htext, hspace, hne⟩ := hbegins text List.mem_cons_self
    have hmore := parseMore_continued hclose hreads (n := n)
      (by rw [List.length_cons] at hn; omega) rest
    have hfirst := hread _ (follows_continued hclose texts rest)
    rw [commaSeparated_cons, List.append_assoc]
    rw [htext, List.cons_append] at hfirst ⊢
    rw [parseSequence, skipSpace_cons hspace]
    simp only
    rw [if_neg hne, hfirst]
    simp only [Option.bind_eq_bind, Option.bind_some, hmore]
    rfl

theorem length_le_commaSeparated {text : Utf16} (h : text ∈ texts) :
    text.length ≤ (commaSeparated texts).length := by
  cases texts with
  | nil => cases h
  | cons first texts =>
    rw [commaSeparated_cons, List.length_append]
    rcases List.mem_cons.1 h with rfl | h
    · omega
    · have hle : (unit ',' :: text).length ≤ (continued texts).length := by
        have hsub : List.Sublist (unit ',' :: text) (continued texts) :=
          List.sublist_flatten_of_mem (List.mem_map_of_mem h)
        exact hsub.length_le
      rw [List.length_cons] at hle
      omega

theorem count_le_commaSeparated (texts : List Utf16) :
    texts.length ≤ (commaSeparated texts).length + 1 := by
  cases texts with
  | nil => exact Nat.zero_le _
  | cons first texts =>
    rw [commaSeparated_cons, List.length_append, List.length_cons]
    have hcount : texts.length ≤ (continued texts).length := by
      unfold continued
      induction texts with
      | nil => exact Nat.zero_le _
      | cons =>
        rw [List.flatMap_cons, List.length_append, List.length_cons, List.length_cons]
        omega
    omega

/-! ## Scalars -/

theorem dropLiteral_self (literal rest : Utf16) : dropLiteral literal (literal ++ rest) = some rest := by
  unfold dropLiteral
  rw [if_pos (List.isPrefixOf_iff_prefix.2 (List.prefix_append literal rest)), List.drop_left]

theorem dropLiteral_none {v : CodeUnit} (h : u ≠ v) (literal s : Utf16) :
    dropLiteral (u :: literal) (v :: s) = none := by
  unfold dropLiteral
  rw [if_neg]
  rw [List.isPrefixOf_iff_prefix, List.cons_prefix_cons]
  exact fun hprefix => h hprefix.1

theorem reads_null : Reads parseScalar (units "null") .null := by
  intro rest _
  rw [parseScalar, dropLiteral_self]

theorem reads_true : Reads parseScalar (units "true") (.bool true) := by
  intro rest _
  have hnull : dropLiteral (units "null") (units "true" ++ rest) = none :=
    dropLiteral_none (show unit 'n' ≠ unit 't' by decide) _ _
  rw [parseScalar, hnull, dropLiteral_self]

theorem reads_false : Reads parseScalar (units "false") (.bool false) := by
  intro rest _
  have hnull : dropLiteral (units "null") (units "false" ++ rest) = none :=
    dropLiteral_none (show unit 'n' ≠ unit 'f' by decide) _ _
  have htrue : dropLiteral (units "true") (units "false" ++ rest) = none :=
    dropLiteral_none (show unit 't' ≠ unit 'f' by decide) _ _
  rw [parseScalar, hnull, htrue, dropLiteral_self]

/-- A numeral begins with a unit that begins no other value. -/
theorem numeral_begins (n : Numeral) :
    ∃ u rest, n.text = u :: rest ∧ isNumeralUnit u = true := by
  cases htext : n.text with
  | nil => exact absurd htext (numeral_ne_nil n.valid)
  | cons u rest =>
    refine ⟨u, rest, rfl, numeral_units n.valid u ?_⟩
    rw [htext]
    exact List.mem_cons_self

theorem reads_num (n : Numeral) : Reads parseScalar n.text (.num n) := by
  intro rest hrest
  have hread := reads_numeral n rest hrest
  obtain ⟨u, tail, htext, hunit⟩ := numeral_begins n
  have hother : ∀ c, isNumeralUnit (unit c) = false → unit c ≠ u := by
    rintro c hc rfl
    rw [hc] at hunit
    cases hunit
  have hskip : ∀ c literal, isNumeralUnit (unit c) = false →
      dropLiteral (unit c :: literal) (n.text ++ rest) = none := by
    intro c literal hc
    rw [htext]
    exact dropLiteral_none (hother c hc) _ _
  have hnull : dropLiteral (units "null") (n.text ++ rest) = none := hskip 'n' _ (by decide)
  have htrue : dropLiteral (units "true") (n.text ++ rest) = none := hskip 't' _ (by decide)
  have hfalse : dropLiteral (units "false") (n.text ++ rest) = none := hskip 'f' _ (by decide)
  rw [parseScalar, hnull, htrue, hfalse]
  exact hread

/-- A unit that begins a literal word or a numeral. -/
structure ScalarUnit (u : CodeUnit) : Prop where
  space : isJsonSpace u = false
  string : u ≠ unit '"'
  array : u ≠ unit '['
  object : u ≠ unit '{'

theorem scalarUnit_numeral (h : isNumeralUnit u = true) : ScalarUnit u := by
  have hother : ∀ c, isNumeralUnit (unit c) = false → u ≠ unit c := by
    rintro c hc rfl
    rw [hc] at h
    cases h
  refine ⟨?_, hother '"' (by decide), hother '[' (by decide), hother '{' (by decide)⟩
  unfold isJsonSpace
  simp only [Bool.or_eq_false_iff, decide_eq_false_iff_not]
  exact ⟨⟨⟨hother ' ' (by decide), hother '\t' (by decide)⟩, hother '\n' (by decide)⟩,
    hother '\r' (by decide)⟩

theorem parseValue_scalar (h : ScalarUnit u) (fuel : Nat) (s : Utf16) :
    parseValue (fuel + 1) (u :: s) = parseScalar (u :: s) := by
  rw [parseValue, skipSpace_cons h.space]
  simp only
  rw [if_neg h.string, if_neg h.array, if_neg h.object]

theorem reads_scalar {tail : Utf16} {v : Value} (h : ScalarUnit u)
    (hread : Reads parseScalar (u :: tail) v) (fuel : Nat) :
    Reads (parseValue (fuel + 1)) (u :: tail) v := by
  intro rest hrest
  rw [List.cons_append, parseValue_scalar h, ← List.cons_append]
  exact hread rest hrest

/-! ## Properties -/

theorem parseString_quote_append (s rest : Utf16) :
    parseString ((quoteBody s ++ [unit '"']) ++ rest) = some (s, rest) := by
  rw [List.append_assoc]
  exact parseString_quoteBody s rest

theorem reads_string (s : Utf16) (fuel : Nat) : Reads (parseValue (fuel + 1)) (quote s) (.str s) := by
  intro rest _
  unfold quote
  rw [List.cons_append, parseValue, skipSpace_cons (by decide)]
  simp only
  rw [if_pos trivial, parseString_quote_append]
  rfl

theorem reads_entry {value : Utf16 → Option (α × Utf16)} {text : Utf16} {x : α} (key : Utf16)
    (hread : Reads value text x) :
    Reads (parseEntry value) (quote key ++ unit ':' :: text) (key, x) := by
  intro rest hrest
  have htext : quote key ++ unit ':' :: text ++ rest =
      unit '"' :: ((quoteBody key ++ [unit '"']) ++ (unit ':' :: (text ++ rest))) := by
    unfold quote
    simp only [List.cons_append, List.append_assoc, List.nil_append]
  rw [htext, parseEntry, skipSpace_cons (by decide)]
  simp only
  rw [if_pos trivial, parseString_quote_append]
  simp only [Option.bind_eq_bind, Option.bind_some]
  rw [skipSpace_cons (by decide)]
  simp only
  rw [if_pos trivial, hread rest hrest]
  rfl

theorem setEntry_new {key : Utf16} {v : Value} {entries : List (Utf16 × Value)}
    (h : key ∉ entries.map Prod.fst) : setEntry key v entries = entries ++ [(key, v)] := by
  induction entries with
  | nil => rfl
  | cons e es ih =>
    rw [List.map_cons, List.mem_cons, not_or] at h
    rw [setEntry, if_neg (Ne.symm h.1), ih h.2, List.cons_append]

theorem ofEntries_of_nodup {entries : List (Utf16 × Value)}
    (h : (entries.map Prod.fst).Nodup) : ofEntries entries = entries := by
  have hfold : ∀ (es acc : List (Utf16 × Value)), ((acc ++ es).map Prod.fst).Nodup →
      es.foldl (fun acc e => setEntry e.1 e.2 acc) acc = acc ++ es := by
    intro es
    induction es with
    | nil =>
      intro acc _
      exact (List.append_nil acc).symm
    | cons e es ih =>
      intro acc hnodup
      have hnew : e.1 ∉ acc.map Prod.fst := by
        rw [List.map_append, List.map_cons] at hnodup
        exact fun hmem => (List.nodup_append.1 hnodup).2.2 e.1 hmem e.1 List.mem_cons_self rfl
      rw [List.foldl_cons, setEntry_new hnew]
      have hrest := ih (acc ++ [e]) (by rw [List.append_assoc]; exact hnodup)
      rw [hrest, List.append_assoc]
      rfl
  exact hfold entries [] h

/-! ## Values -/

theorem closes_array : Closes (unit ']') := ⟨by decide, by decide, by decide⟩

theorem closes_object : Closes (unit '}') := ⟨by decide, by decide, by decide⟩

theorem stringify_begins (v : Value) : Begins (unit ']') (stringify v) := by
  have hsome : ∀ c (tail : Utf16), isJsonSpace (unit c) = false → unit c ≠ unit ']' →
      Begins (unit ']') (unit c :: tail) := fun c tail hspace hne => ⟨_, _, rfl, hspace, hne⟩
  cases v with
  | null => exact hsome 'n' _ (by decide) (by decide)
  | bool b =>
    cases b with
    | true => exact hsome 't' _ (by decide) (by decide)
    | false => exact hsome 'f' _ (by decide) (by decide)
  | num n =>
    obtain ⟨u, tail, htext, hunit⟩ := numeral_begins n
    refine ⟨u, tail, htext, (scalarUnit_numeral hunit).space, ?_⟩
    rintro rfl
    cases hunit
  | str => exact hsome '"' _ (by decide) (by decide)
  | arr => exact hsome '[' _ (by decide) (by decide)
  | obj => exact hsome '{' _ (by decide) (by decide)

theorem stringifyItems_eq (vs : List Value) : stringifyItems vs = vs.map stringify := by
  induction vs with
  | nil => rfl
  | cons v vs ih => rw [stringifyItems, ih, List.map_cons]

theorem stringifyEntries_eq (es : List (Utf16 × Value)) :
    stringifyEntries es = es.map fun e => quote e.1 ++ unit ':' :: stringify e.2 := by
  induction es with
  | nil => rfl
  | cons e es ih => rw [stringifyEntries, ih, List.map_cons]

theorem length_pos_stringify (v : Value) : 0 < (stringify v).length := by
  obtain ⟨u, rest, htext, -⟩ := stringify_begins v
  rw [htext, List.length_cons]
  omega

mutual

/-- Fuel for the length of the text is enough. -/
theorem reads_stringify : ∀ (v : Value), v.Distinct → ∀ fuel, (stringify v).length ≤ fuel →
    Reads (parseValue fuel) (stringify v) v
  | v, hdistinct, 0, hfuel => absurd hfuel (Nat.not_le_of_gt (length_pos_stringify v))
  | .null, _, fuel + 1, _ =>
    reads_scalar (u := unit 'n') ⟨by decide, by decide, by decide, by decide⟩ reads_null fuel
  | .bool true, _, fuel + 1, _ =>
    reads_scalar (u := unit 't') ⟨by decide, by decide, by decide, by decide⟩ reads_true fuel
  | .bool false, _, fuel + 1, _ =>
    reads_scalar (u := unit 'f') ⟨by decide, by decide, by decide, by decide⟩ reads_false fuel
  | .num n, _, fuel + 1, _ => by
      obtain ⟨u, tail, htext, hunit⟩ := numeral_begins n
      have hread := reads_num n
      change Reads _ n.text _
      rw [htext] at hread ⊢
      exact reads_scalar (scalarUnit_numeral hunit) hread fuel
  | .str s, _, fuel + 1, _ => reads_string s fuel
  | .arr items, hdistinct, fuel + 1, hfuel => by
      rw [stringify, List.length_cons, List.length_append, List.length_singleton] at hfuel
      have hcount := count_le_commaSeparated (stringifyItems items)
      have hitems := reads_items items hdistinct fuel fun text htext =>
        (length_le_commaSeparated htext).trans (by omega)
      have hbegins : ∀ text ∈ stringifyItems items, Begins (unit ']') text := by
        intro text htext
        rw [stringifyItems_eq] at htext
        obtain ⟨v, -, rfl⟩ := List.mem_map.1 htext
        exact stringify_begins v
      intro rest _
      rw [stringify, List.cons_append, List.append_assoc, parseValue, skipSpace_cons (by decide)]
      simp only
      rw [if_neg (by decide), if_pos trivial]
      have hsequence := parseSequence_commaSeparated closes_array hitems hbegins
        (n := fuel) (by omega) rest
      rw [List.singleton_append, hsequence]
      rfl
  | .obj entries, hdistinct, fuel + 1, hfuel => by
      rw [stringify, List.length_cons, List.length_append, List.length_singleton] at hfuel
      have hcount := count_le_commaSeparated (stringifyEntries entries)
      have hentries := reads_entries entries hdistinct.2 fuel fun text htext =>
        (length_le_commaSeparated htext).trans (by omega)
      have hbegins : ∀ text ∈ stringifyEntries entries, Begins (unit '}') text := by
        intro text htext
        rw [stringifyEntries_eq] at htext
        obtain ⟨e, -, rfl⟩ := List.mem_map.1 htext
        exact ⟨unit '"', _, rfl, by decide, by decide⟩
      intro rest _
      rw [stringify, List.cons_append, List.append_assoc, parseValue, skipSpace_cons (by decide)]
      simp only
      rw [if_neg (by decide), if_neg (by decide), if_pos trivial]
      have hsequence := parseSequence_commaSeparated closes_object hentries hbegins
        (n := fuel) (by omega) rest
      rw [List.singleton_append, hsequence]
      simp only [Option.bind_eq_bind, Option.bind_some]
      rw [ofEntries_of_nodup hdistinct.1]
      rfl

theorem reads_items : ∀ (vs : List Value), Value.DistinctItems vs → ∀ fuel,
    (∀ text ∈ stringifyItems vs, text.length ≤ fuel) →
      List.Forall₂ (Reads (parseValue fuel)) (stringifyItems vs) vs
  | [], _, _, _ => .nil
  | v :: vs, hdistinct, fuel, hfuel =>
    .cons (reads_stringify v hdistinct.1 fuel (hfuel _ List.mem_cons_self))
      (reads_items vs hdistinct.2 fuel fun text htext =>
        hfuel text (List.mem_cons_of_mem _ htext))

theorem reads_entries : ∀ (es : List (Utf16 × Value)), Value.DistinctEntries es → ∀ fuel,
    (∀ text ∈ stringifyEntries es, text.length ≤ fuel) →
      List.Forall₂ (Reads (parseEntry (parseValue fuel))) (stringifyEntries es) es
  | [], _, _, _ => .nil
  | (key, v) :: es, hdistinct, fuel, hfuel => by
      have hlength := hfuel _ List.mem_cons_self
      rw [List.length_append, List.length_cons] at hlength
      exact .cons (reads_entry key (reads_stringify v hdistinct.1 fuel (by omega)))
        (reads_entries es hdistinct.2 fuel fun text htext =>
          hfuel text (List.mem_cons_of_mem _ htext))

end

/-- `JSON.parse(JSON.stringify(v))` is `v`. -/
theorem parse_stringify {v : Value} (h : v.Distinct) : parse (stringify v) = some v := by
  have hread := reads_stringify v h ((stringify v).length + 1) (Nat.le_succ _) [] follows_nil
  rw [List.append_nil] at hread
  unfold parse
  rw [hread]
  rfl

/-! ## The text of a value -/

theorem numeralUnit_ascii (h : isNumeralUnit u = true) : 0x20 ≤ u.val ∧ u.val < 0x7f := by
  unfold isNumeralUnit isDigit at h
  simp only [Bool.or_eq_true, Bool.and_eq_true, decide_eq_true_eq] at h
  rcases h with ((((h | rfl) | rfl) | rfl) | rfl) | rfl
  · omega
  all_goals decide

theorem clean_commaSeparated (h : ∀ text ∈ texts, Clean text) : Clean (commaSeparated texts) := by
  cases texts with
  | nil => exact clean_nil
  | cons text texts =>
    rw [commaSeparated_cons]
    refine (h text List.mem_cons_self).append ?_
    have hrest : ∀ text ∈ texts, Clean text := fun t ht => h t (List.mem_cons_of_mem _ ht)
    unfold continued
    induction texts with
    | nil => exact clean_nil
    | cons next texts ih =>
      rw [List.flatMap_cons]
      have hnext := (hrest next List.mem_cons_self).cons (u := unit ',') (by decide) (by decide)
      refine hnext.append (ih (fun t ht => ?_) fun t ht => hrest t (List.mem_cons_of_mem _ ht))
      rcases List.mem_cons.1 ht with rfl | ht
      · exact h _ List.mem_cons_self
      · exact hrest t (List.mem_cons_of_mem _ ht)

theorem Clean.bracketed (hs : Clean s) {opening closing : CodeUnit}
    (hopening : 0x20 ≤ opening.val ∧ opening.val < 0x7f)
    (hclosing : 0x20 ≤ closing.val ∧ closing.val < 0x7f) : Clean (opening :: (s ++ [closing])) := by
  have hascii : ∀ u : CodeUnit, 0x20 ≤ u.val ∧ u.val < 0x7f → Clean [u] := fun u hu =>
    clean_ascii fun v hv => by rw [List.mem_singleton.1 hv]; exact hu
  exact (hascii opening hopening).append (hs.append (hascii closing hclosing))

mutual

theorem clean_stringify : ∀ v : Value, Clean (stringify v)
  | .null => clean_units (by simp)
  | .bool true => clean_units (by simp)
  | .bool false => clean_units (by simp)
  | .num n => clean_ascii fun u hu => numeralUnit_ascii (numeral_units n.valid u hu)
  | .str s => clean_quote s
  | .arr items =>
    (clean_commaSeparated (clean_stringifyItems items)).bracketed (by decide) (by decide)
  | .obj entries =>
    (clean_commaSeparated (clean_stringifyEntries entries)).bracketed (by decide) (by decide)

theorem clean_stringifyItems : ∀ (vs : List Value), ∀ text ∈ stringifyItems vs, Clean text
  | [], _, htext => by cases htext
  | v :: vs, text, htext => by
      rcases List.mem_cons.1 htext with rfl | htext
      · exact clean_stringify v
      · exact clean_stringifyItems vs text htext

theorem clean_stringifyEntries :
    ∀ (es : List (Utf16 × Value)), ∀ text ∈ stringifyEntries es, Clean text
  | [], _, htext => by cases htext
  | (key, v) :: es, text, htext => by
      rcases List.mem_cons.1 htext with rfl | htext
      · exact (clean_quote key).append ((clean_stringify v).cons (by decide) (by decide))
      · exact clean_stringifyEntries es text htext

end

/-! ## What was read -/

theorem distinctItems_iff {vs : List Value} :
    Value.DistinctItems vs ↔ ∀ v ∈ vs, v.Distinct := by
  induction vs with
  | nil => exact iff_of_true trivial nofun
  | cons v vs ih =>
    rw [Value.DistinctItems, ih, List.forall_mem_cons]

theorem distinctEntries_iff {es : List (Utf16 × Value)} :
    Value.DistinctEntries es ↔ ∀ e ∈ es, e.2.Distinct := by
  induction es with
  | nil => exact iff_of_true trivial nofun
  | cons e es ih => rw [Value.DistinctEntries, ih, List.forall_mem_cons]

/-! ## Natural numbers -/

theorem hexDigit_digit (h : n < 10) :
    isDigit (hexDigit n) = true ∧ (hexDigit n).val = 0x30 + n := by
  have hall : ∀ n : Fin 10, isDigit (hexDigit n.val) = true ∧
      (hexDigit n.val).val = 0x30 + n.val := by decide
  exact hall ⟨n, h⟩

theorem isDigits_decimal (n : Nat) : isDigits (decimal n) = true := by
  unfold decimal
  split
  · decide
  · rename_i hn
    unfold isDigits
    rw [Bool.and_eq_true, decide_eq_true_eq, List.all_eq_true]
    constructor
    · rw [ne_eq, List.map_eq_nil_iff, List.reverse_eq_nil_iff]
      exact Nat.digits_ne_nil_iff_ne_zero.2 hn
    · intro u hu
      obtain ⟨d, hd, rfl⟩ := List.mem_map.1 hu
      exact (hexDigit_digit (Nat.digits_lt_base (by decide) (List.mem_reverse.1 hd))).1

theorem foldl_digits (ds : List Nat) (h : ∀ d ∈ ds, d < 10) :
    (ds.reverse.map hexDigit).foldl (fun acc u => acc * 10 + (u.val - 0x30)) 0 =
      Nat.ofDigits 10 ds := by
  induction ds with
  | nil => rfl
  | cons d ds ih =>
    have hd := (hexDigit_digit (h d List.mem_cons_self)).2
    rw [List.reverse_cons, List.map_append, List.foldl_append,
      ih fun d' hd' => h d' (List.mem_cons_of_mem _ hd'), Nat.ofDigits_cons]
    simp only [List.map_cons, List.map_nil, List.foldl_cons, List.foldl_nil, hd]
    omega

/-- A natural number is read back from its digits. -/
theorem natural?_decimal (n : Nat) : natural? (decimal n) = some n := by
  unfold natural?
  rw [if_pos (isDigits_decimal n)]
  unfold decimal
  split
  · rename_i hn
    rw [hn]
    rfl
  · rw [foldl_digits _ fun d hd => Nat.digits_lt_base (by decide) hd, Nat.ofDigits_digits]

theorem isWhole_decimal (n : Nat) : isWhole (decimal n) = true := by
  unfold isWhole
  rw [isDigits_decimal, Bool.true_and, Bool.or_eq_true, decide_eq_true_eq, decide_eq_true_eq]
  unfold decimal
  split
  · exact Or.inr rfl
  · rename_i hn
    left
    have hne : Nat.digits 10 n ≠ [] := Nat.digits_ne_nil_iff_ne_zero.2 hn
    have hlast := Nat.getLast_digit_ne_zero 10 hn
    have hlt := Nat.digits_lt_base (b := 10) (by decide) (List.getLast_mem hne)
    rw [List.head?_map, List.head?_reverse, List.getLast?_eq_some_getLast hne, Option.map_some,
      ne_eq, Option.some.injEq]
    intro hzero
    have hval := congrArg Fin.val hzero
    rw [(hexDigit_digit hlt).2] at hval
    change 0x30 + _ = 0x30 at hval
    omega

end JsonText

end XioFlow.Lib
