/-
  XioFlow.Lib.Text

  Tests on strings, read as lists of characters so that they evaluate in the
  kernel: prefixes, infixes, and strings all of whose characters are allowed.
-/

namespace XioFlow.Lib

/-- `s` starts with `pre`. -/
def hasPrefix (pre s : String) : Bool := pre.toList.isPrefixOf s.toList

/-- The list starts with `p` at some position. -/
def infixAt (p : List Char) : List Char → Bool
  | [] => p.isEmpty
  | c :: cs => p.isPrefixOf (c :: cs) || infixAt p cs

/-- The first character satisfies `first`, all later ones `rest`, and there are at most
    `maxLength` of them: the regular expression `^[first][rest]{0,maxLength-1}$`. -/
def matchesName (first rest : Char → Bool) (maxLength : Nat) (s : String) : Bool :=
  match s.toList with
  | [] => false
  | c :: cs => first c && cs.all rest && decide (cs.length < maxLength)

/-- The decimal digits of a number. -/
def digitsOf (n : Nat) : List Char := Nat.toDigits 10 n

theorem digitsOf_injective {m n : Nat} (h : digitsOf m = digitsOf n) : m = n := by
  rw [← Nat.ofDigitChars_ten_toDigits (n := m), ← Nat.ofDigitChars_ten_toDigits (n := n)]
  exact congrArg (Nat.ofDigitChars 10 · 0) h

theorem not_mem_digitsOf {c : Char} (hc : c.isDigit = false) (n : Nat) : c ∉ digitsOf n := by
  intro h
  have hdigit := Nat.isDigit_of_mem_toDigits (by decide) (by decide) h
  rw [hc] at hdigit
  cases hdigit

/-- The decimal text of an integer. -/
def intDigits : Int → List Char
  | .ofNat n => digitsOf n
  | .negSucc n => '-' :: digitsOf (n + 1)

theorem not_mem_intDigits {c : Char} (hc : c.isDigit = false) (hminus : c ≠ '-') (i : Int) :
    c ∉ intDigits i := by
  cases i with
  | ofNat n => exact not_mem_digitsOf hc n
  | negSucc => exact List.not_mem_cons_of_ne_of_not_mem hminus (not_mem_digitsOf hc _)

theorem intDigits_injective {i j : Int} (h : intDigits i = intDigits j) : i = j := by
  have hminus : ∀ n, '-' ∉ digitsOf n := not_mem_digitsOf rfl
  cases i with
  | ofNat m =>
    cases j with
    | ofNat => exact congrArg Int.ofNat (digitsOf_injective h)
    | negSucc n =>
      exfalso
      refine hminus m ?_
      rw [show digitsOf m = '-' :: digitsOf (n + 1) from h]
      exact List.mem_cons_self
  | negSucc m =>
    cases j with
    | ofNat n =>
      exfalso
      refine hminus n ?_
      rw [show digitsOf n = '-' :: digitsOf (m + 1) from h.symm]
      exact List.mem_cons_self
    | negSucc =>
      have hdigits := digitsOf_injective (List.cons.inj h).2
      rw [Nat.succ.inj hdigits]

variable {sep : Char}

/-- The text before the last separator and the one after it are determined. -/
theorem append_sep_inj {a b x y : List Char} (hx : sep ∉ x) (hy : sep ∉ y)
    (h : a ++ sep :: x = b ++ sep :: y) : a = b ∧ x = y := by
  induction a generalizing b with
  | nil =>
    cases b with
    | nil => exact ⟨rfl, (List.cons.inj h).2⟩
    | cons c b =>
      have htail : x = b ++ sep :: y := (List.cons.inj h).2
      exact absurd (htail ▸ by simp) hx
  | cons c a ih =>
    cases b with
    | nil =>
      have htail : a ++ sep :: x = y := (List.cons.inj h).2
      exact absurd (htail ▸ by simp) hy
    | cons =>
      obtain ⟨hhead, htail⟩ := List.cons.inj h
      obtain ⟨rfl, rfl⟩ := ih htail
      exact ⟨by rw [hhead], rfl⟩

/-- Split at a separator, as `String.prototype.split` with one character does. -/
def splitAtChar (sep : Char) : List Char → List (List Char)
  | [] => [[]]
  | c :: cs =>
    if c = sep then [] :: splitAtChar sep cs
    else match splitAtChar sep cs with
      | [] => [[c]]
      | part :: parts => (c :: part) :: parts

/-- Text without the separator joins the first part. -/
theorem splitAtChar_append {cs : List Char} (h : sep ∉ cs) (rest : List Char) :
    splitAtChar sep (cs ++ rest) =
      match splitAtChar sep rest with
      | [] => [cs]
      | part :: parts => (cs ++ part) :: parts := by
  induction cs with
  | nil =>
    rw [List.nil_append]
    cases hrest : splitAtChar sep rest with
    | nil =>
      exfalso
      cases rest with
      | nil => cases hrest
      | cons =>
        rw [splitAtChar] at hrest
        split at hrest
        · cases hrest
        · split at hrest <;> cases hrest
    | cons => rfl
  | cons c cs ih =>
    rw [List.mem_cons, not_or] at h
    rw [List.cons_append, splitAtChar, if_neg (Ne.symm h.1), ih h.2]
    cases splitAtChar sep rest with
    | nil => rfl
    | cons => rfl

/-- No part holds the separator. -/
theorem not_mem_of_splitAtChar {cs part : List Char} (h : part ∈ splitAtChar sep cs) :
    sep ∉ part := by
  induction cs generalizing part with
  | nil =>
    rw [List.mem_singleton.1 h]
    exact List.not_mem_nil
  | cons c cs ih =>
    rw [splitAtChar] at h
    split at h
    · rcases List.mem_cons.1 h with rfl | h
      · exact List.not_mem_nil
      · exact ih h
    · rename_i hc
      split at h
      · rw [List.mem_singleton.1 h, List.mem_singleton]
        exact Ne.symm hc
      · rename_i first parts hparts
        rcases List.mem_cons.1 h with rfl | h
        · rw [List.mem_cons, not_or]
          exact ⟨Ne.symm hc, ih (hparts ▸ List.mem_cons_self)⟩
        · exact ih (hparts ▸ List.mem_cons_of_mem _ h)

theorem splitAtChar_ne_nil (sep : Char) (cs : List Char) : splitAtChar sep cs ≠ [] := by
  cases cs with
  | nil => exact List.cons_ne_nil _ _
  | cons =>
    rw [splitAtChar]
    split
    · exact List.cons_ne_nil _ _
    · split <;> exact List.cons_ne_nil _ _

/-- The last part of one text and the first part of the next become one. -/
theorem splitAtChar_join {a b : List Char} {init : List (List Char)} {last first : List Char}
    {rest : List (List Char)} (ha : splitAtChar sep a = init ++ [last])
    (hb : splitAtChar sep b = first :: rest) :
    splitAtChar sep (a ++ b) = init ++ (last ++ first) :: rest := by
  induction a generalizing init last with
  | nil =>
    obtain ⟨rfl, rfl⟩ : init = [] ∧ last = [] := by
      have hone : [[]] = init ++ [last] := ha
      cases init with
      | nil => exact ⟨rfl, (List.cons.inj hone).1.symm⟩
      | cons =>
        have hlen := congrArg List.length hone
        simp at hlen
    exact hb
  | cons c cs ih =>
    rw [splitAtChar] at ha
    rw [List.cons_append, splitAtChar]
    by_cases hc : c = sep
    · rw [if_pos hc] at ha
      rw [if_pos hc]
      cases init with
      | nil => exact absurd (List.cons.inj ha).2 (splitAtChar_ne_nil sep cs)
      | cons =>
        obtain ⟨rfl, htail⟩ := List.cons.inj ha
        rw [ih htail]
        rfl
    · rw [if_neg hc] at ha
      rw [if_neg hc]
      obtain ⟨part, parts, hparts⟩ := List.exists_cons_of_ne_nil (splitAtChar_ne_nil sep cs)
      rw [hparts] at ha
      cases init with
      | nil =>
        obtain ⟨rfl, rfl⟩ := List.cons.inj ha
        rw [ih (show splitAtChar sep cs = [] ++ [part] from hparts)]
        rfl
      | cons i init =>
        obtain ⟨rfl, rfl⟩ := List.cons.inj ha
        rw [ih (show splitAtChar sep cs = (part :: init) ++ [last] from hparts)]
        rfl

/-- What `trim` takes off. -/
def isWhitespace (c : Char) : Bool :=
  (9 ≤ c.toNat && c.toNat ≤ 13) || c.toNat = 0x20 || c.toNat = 0xA0 || c.toNat = 0x1680 ||
    (0x2000 ≤ c.toNat && c.toNat ≤ 0x200A) || c.toNat = 0x2028 || c.toNat = 0x2029 ||
    c.toNat = 0x202F || c.toNat = 0x205F || c.toNat = 0x3000 || c.toNat = 0xFEFF

def trim (line : List Char) : List Char :=
  ((line.dropWhile isWhitespace).reverse.dropWhile isWhitespace).reverse

theorem isWhitespace_of_isDigit {c : Char} (h : c.isDigit = true) : isWhitespace c = false := by
  have hle : 48 ≤ c.toNat ∧ c.toNat ≤ 57 := Char.isDigit_iff_toNat.1 h
  simp [isWhitespace]
  omega

/-- What starts with a character to keep is kept. -/
theorem dropWhile_start {p : Char → Bool} {v : List Char} (hv : v ≠ [])
    (h : ∀ c ∈ v, p c = false) (s : List Char) : (v ++ s).dropWhile p = v ++ s := by
  obtain ⟨c, v, rfl⟩ := List.exists_cons_of_ne_nil hv
  exact List.dropWhile_cons_of_neg (by simp [h c List.mem_cons_self])

/-- The value of a string of decimal digits. -/
def decimalValue? : List Char → Option Nat
  | [] => none
  | cs => if cs.all Char.isDigit then
      some (cs.foldl (fun acc c => 10 * acc + (c.toNat - '0'.toNat)) 0)
    else none

/-- A number padded with zeros on the left to `width` digits. -/
def padded (width n : Nat) : String :=
  let digits := digitsOf n
  String.ofList (List.replicate (width - digits.length) '0' ++ digits)

end XioFlow.Lib
