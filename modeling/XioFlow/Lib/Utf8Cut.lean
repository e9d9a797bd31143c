/-
  XioFlow.Lib.Utf8Cut

  Where bytes may be cut without cutting a character.

  A place is a boundary when the texts of the two pieces are the text of the
  whole.  Before a byte that begins something, and behind bytes that leave the
  decoder between two characters, there is one, in any bytes.  In UTF-8 the
  boundaries are the ends of characters.
-/

import XioFlow.Lib.Utf8Decoder

namespace XioFlow.Lib

/-- A byte that only goes on with a character. -/
def isContinuation (b : UInt8) : Bool := decide (0x80 ≤ b.toNat) && decide (b.toNat < 0xC0)

theorem isContinuation_iff {b : UInt8} :
    isContinuation b = true ↔ 0x80 ≤ b.toNat ∧ b.toNat < 0xC0 := by
  rw [isContinuation, Bool.and_eq_true, decide_eq_true_iff, decide_eq_true_iff]

/-- How many bytes the character takes that a byte begins. -/
def charSpan (b : UInt8) : Nat :=
  if b.toNat < 0xC0 then 1
  else if b.toNat < 0xE0 then 2
  else if b.toNat < 0xF0 then 3
  else if b.toNat < 0xF8 then 4
  else 1

/-- Bytes are continuations only, or such bytes behind the last that is none. -/
theorem continuations_or_lead (bytes : List UInt8) :
    (∀ b ∈ bytes, isContinuation b = true) ∨
      ∃ pre lead conts, bytes = pre ++ lead :: conts ∧ isContinuation lead = false ∧
        ∀ b ∈ conts, isContinuation b = true := by
  induction bytes with
  | nil => exact .inl fun b hb => absurd hb List.not_mem_nil
  | cons b bytes ih =>
    rcases ih with hall | ⟨pre, lead, conts, rfl, hlead, hconts⟩
    · by_cases hb : isContinuation b = true
      · exact .inl (List.forall_mem_cons.2 ⟨hb, hall⟩)
      · exact .inr ⟨[], b, bytes, rfl, Bool.eq_false_iff.2 hb, hall⟩
    · exact .inr ⟨b :: pre, lead, conts, rfl, hlead, hconts⟩

namespace Utf8Decoder

/-! ## Boundaries -/

/-- No character goes over the place between the two pieces. -/
def Boundary (before after : List UInt8) : Prop :=
  decode (before ++ after) = decode before ++ decode after

/-- What the decoder expects are continuation bytes. -/
def Bounded (d : Utf8Decoder) : Prop := 0x80 ≤ d.lower ∧ d.upper ≤ 0xBF

theorem bounded_idle : Bounded idle := ⟨Nat.le_refl _, Nat.le_refl _⟩

theorem bounded_start (byte : Nat) : Bounded (start byte).2 := by
  unfold start Bounded
  split_ifs <;> simp [idle]

theorem needed_start_le (b : UInt8) : (start b.toNat).2.needed ≤ charSpan b - 1 := by
  unfold start charSpan
  split_ifs <;> simp [idle] <;> omega

theorem bounded_next (d : Utf8Decoder) (byte : Nat) : (d.next byte).2.Bounded := by
  unfold Utf8Decoder.next
  split
  · exact bounded_start byte
  · split
    · dsimp only
      split
      · exact bounded_idle
      · exact ⟨Nat.le_refl _, Nat.le_refl _⟩
    · exact bounded_start byte

variable {d : Utf8Decoder} {conts : List UInt8}

theorem Bounded.feed (h : d.Bounded) (bytes : List UInt8) : (d.feed bytes).2.Bounded := by
  induction bytes generalizing d with
  | nil => exact h
  | cons b bytes ih => exact ih (bounded_next d b.toNat)

variable {b : UInt8}

/-- A byte that is no continuation ends what came before and begins anew. -/
theorem Bounded.next_of_lead (h : d.Bounded) (hb : isContinuation b = false) :
    d.next b.toNat = (d.flush ++ (start b.toNat).1, (start b.toNat).2) := by
  have hrange : ¬ (d.lower ≤ b.toNat ∧ b.toNat ≤ d.upper) := by
    intro hin
    have hcont : isContinuation b = true := by
      rw [isContinuation_iff]
      have hlower := h.1
      have hupper := h.2
      omega
    rw [hb] at hcont
    cases hcont
  unfold Utf8Decoder.next flush
  split
  · rename_i hneeded
    rw [if_pos hneeded, List.nil_append]
  · rename_i needed hneeded
    rw [if_neg hrange, if_neg (by omega)]
    rfl

/-- A decoder between two characters reads on as a new one. -/
theorem decode_of_needed_eq_zero (h : d.needed = 0) (bytes : List UInt8) :
    (d.feed bytes).1 ++ (d.feed bytes).2.flush = decode bytes := by
  cases bytes with
  | nil =>
    show d.flush = idle.flush
    rw [flush, if_pos h]
    rfl
  | cons b =>
    have hnext : d.next b.toNat = idle.next b.toNat := by
      rw [idle_next, next, h]
    rw [decode, feed_cons, feed_cons, hnext]

theorem boundary_of_needed_eq_zero {before : List UInt8} (h : (idle.feed before).2.needed = 0)
    (after : List UInt8) : Boundary before after := by
  have hflush : (idle.feed before).2.flush = [] := if_pos h
  unfold Boundary
  rw [← decode_of_needed_eq_zero h after, decode, decode, feed_append, hflush, List.append_nil,
    List.append_assoc]

theorem boundary_lead (hb : isContinuation b = false) (before after : List UInt8) :
    Boundary before (b :: after) := by
  have hnext := (bounded_idle.feed before).next_of_lead hb
  unfold Boundary
  rw [decode, decode, decode, feed_append, feed_cons, feed_cons, hnext, idle_next]
  simp only [List.append_assoc]

theorem boundary_nil (before : List UInt8) : Boundary before [] := by
  unfold Boundary
  rw [List.append_nil]
  exact (List.append_nil _).symm

/-- A byte that begins something leaves the decoder with the rest of that to read. -/
theorem needed_of_lead (hb : isContinuation b = false) (before : List UInt8) :
    (idle.feed (before ++ [b])).2.needed ≤ charSpan b - 1 := by
  have hnext := (bounded_idle.feed before).next_of_lead hb
  rw [feed_append, feed_cons, feed_nil, hnext]
  exact needed_start_le b

/-- Each continuation byte leaves less to read. -/
theorem needed_of_continuations (d : Utf8Decoder) (h : ∀ b ∈ conts, isContinuation b = true) :
    (d.feed conts).2.needed ≤ d.needed - conts.length := by
  induction conts generalizing d with
  | nil => exact Nat.le_refl _
  | cons b conts ih =>
    obtain ⟨hb, hconts⟩ := List.forall_mem_cons.1 h
    have hstart : (start b.toNat).2.needed = 0 := by
      have hle := needed_start_le b
      have hspan : charSpan b = 1 := if_pos (isContinuation_iff.1 hb).2
      omega
    have hnext : (d.next b.toNat).2.needed ≤ d.needed - 1 := by
      unfold Utf8Decoder.next
      split
      · omega
      · rename_i needed hneeded
        split
        · dsimp only
          split
          · exact Nat.zero_le _
          · show needed ≤ d.needed - 1
            omega
        · show (start b.toNat).2.needed ≤ d.needed - 1
          omega
    have hrest := ih (d.next b.toNat).2 hconts
    rw [feed_cons, List.length_cons]
    dsimp only
    omega

/-- The decoder is between two characters behind a byte with all that it begins. -/
theorem needed_eq_zero_of_whole (hb : isContinuation b = false)
    (hconts : ∀ b ∈ conts, isContinuation b = true) (hwhole : charSpan b ≤ conts.length + 1)
    (before : List UInt8) : (idle.feed (before ++ b :: conts)).2.needed = 0 := by
  have hlead := needed_of_lead hb before
  have hrest := needed_of_continuations (idle.feed (before ++ [b])).2 hconts
  have hsplit : before ++ b :: conts = (before ++ [b]) ++ conts := by
    rw [List.append_assoc, List.singleton_append]
  rw [hsplit, feed_append]
  dsimp only
  omega

/-! ## The bytes of characters -/

theorem isContinuation_ofNat {n : Nat} (h : 0x80 ≤ n) (h' : n < 0xC0) :
    isContinuation (UInt8.ofNat n) = true := by
  rw [isContinuation_iff, toNat_ofNat_byte (by omega)]
  exact ⟨h, h'⟩

theorem lead_ofNat {n : Nat} (h : n < 0x80 ∨ 0xC0 ≤ n) (h' : n < 0x100) :
    isContinuation (UInt8.ofNat n) = false := by
  rw [Bool.eq_false_iff, Ne, isContinuation_iff, toNat_ofNat_byte h']
  omega

/-- A character is a first byte and the continuations that this one announces. -/
theorem utf8EncodeChar_eq (c : Char) :
    ∃ lead conts, String.utf8EncodeChar c = lead :: conts ∧ isContinuation lead = false ∧
      (∀ b ∈ conts, isContinuation b = true) ∧ charSpan lead = conts.length + 1 ∧
      conts.length + 1 ≤ 4 := by
  have hvalid := char_toNat_cases c
  unfold String.utf8EncodeChar
  generalize hv : c.val.toNat = v
  have hv' : c.toNat = v := hv
  rw [hv'] at hvalid
  simp only
  split
  · -- one byte
    refine ⟨_, [], rfl, lead_ofNat (by omega) (by omega), fun _ hb => absurd hb List.not_mem_nil, ?_,
      by decide⟩
    rw [charSpan, toNat_ofNat_byte (by omega), if_pos (by omega)]
    rfl
  split
  · -- two bytes
    refine ⟨_, [_], rfl, lead_ofNat (by omega) (by omega), ?_, ?_, by simp⟩
    · rw [List.forall_mem_singleton]
      exact isContinuation_ofNat (by omega) (by omega)
    · rw [charSpan, toNat_ofNat_byte (by omega), if_neg (by omega), if_pos (by omega)]
      rfl
  split
  · -- three bytes
    refine ⟨_, [_, _], rfl, lead_ofNat (by omega) (by omega), ?_, ?_, by simp⟩
    · rw [List.forall_mem_cons, List.forall_mem_singleton]
      exact ⟨isContinuation_ofNat (by omega) (by omega), isContinuation_ofNat (by omega) (by omega)⟩
    · rw [charSpan, toNat_ofNat_byte (by omega), if_neg (by omega), if_neg (by omega),
        if_pos (by omega)]
      rfl
  · -- four bytes
    refine ⟨_, [_, _, _], rfl, lead_ofNat (by omega) (by omega), ?_, ?_, by simp⟩
    · rw [List.forall_mem_cons, List.forall_mem_cons, List.forall_mem_singleton]
      exact ⟨isContinuation_ofNat (by omega) (by omega),
        isContinuation_ofNat (by omega) (by omega), isContinuation_ofNat (by omega) (by omega)⟩
    · rw [charSpan, toNat_ofNat_byte (by omega), if_neg (by omega), if_neg (by omega),
        if_neg (by omega), if_pos (by omega)]
      rfl

/-! ## Pieces of UTF-8 -/

/-- The first characters that `n` bytes hold. -/
def fitting : Nat → List Char → List Char
  | _, [] => []
  | n, c :: cs => if c.utf8Size ≤ n then c :: fitting (n - c.utf8Size) cs else []

/-- The last characters that `n` bytes hold. -/
def fittingEnd (n : Nat) (cs : List Char) : List Char := (fitting n cs.reverse).reverse

/-- The first bytes of a text are the characters that these hold, and then the beginning of the
    next one. -/
theorem take_utf8 (n : Nat) (cs : List Char) :
    (utf8 cs).take n = utf8 (fitting n cs) ∨
      ∃ lead conts, (utf8 cs).take n = utf8 (fitting n cs) ++ lead :: conts ∧
        isContinuation lead = false ∧ (∀ b ∈ conts, isContinuation b = true) ∧
        conts.length + 1 < charSpan lead ∧ charSpan lead ≤ 4 := by
  induction cs generalizing n with
  | nil => exact .inl (List.take_nil)
  | cons c cs ih =>
    unfold fitting
    have hsize : (String.utf8EncodeChar c).length = c.utf8Size := String.length_utf8EncodeChar c
    split
    · rename_i hfits
      rw [utf8_cons, utf8_cons, List.take_append, List.take_of_length_le (hsize ▸ hfits),
        hsize]
      rcases ih (n - c.utf8Size) with hwhole | ⟨lead, conts, heq, hrest⟩
      · exact .inl (congrArg _ hwhole)
      · refine .inr ⟨lead, conts, ?_, hrest⟩
        rw [heq, List.append_assoc]
    · rename_i hshort
      rw [utf8_cons, List.take_append_of_le_length (by omega)]
      obtain ⟨lead, conts, hchar, hlead, hconts, hspan, hfour⟩ := utf8EncodeChar_eq c
      rw [hchar] at hsize ⊢
      rw [List.length_cons] at hsize
      cases n with
      | zero => exact .inl rfl
      | succ n =>
        refine .inr ⟨lead, conts.take n, rfl, hlead, fun b hb => ?_, ?_, by omega⟩
        · exact hconts b (List.mem_of_mem_take hb)
        · rw [List.length_take]
          omega

theorem utf8_reverse_cons (c : Char) (cs : List Char) :
    utf8 (c :: cs).reverse = utf8 cs.reverse ++ String.utf8EncodeChar c := by
  rw [List.reverse_cons, utf8_append]
  simp [utf8]

/-- The last bytes of a text are the end of a character, and then the characters they hold. -/
theorem drop_utf8 (n : Nat) (cs : List Char) :
    ∃ conts, (utf8 cs).drop ((utf8 cs).length - n) = conts ++ utf8 (fittingEnd n cs) ∧
      ∀ b ∈ conts, isContinuation b = true := by
  -- On the text from behind, so that the last character comes first.
  obtain ⟨rev, rfl⟩ : ∃ rev, cs = rev.reverse := ⟨cs.reverse, (List.reverse_reverse cs).symm⟩
  unfold fittingEnd
  rw [List.reverse_reverse]
  induction rev generalizing n with
  | nil => exact ⟨[], List.drop_nil, fun _ hb => absurd hb List.not_mem_nil⟩
  | cons c rev ih =>
    unfold fitting
    have hsize : (String.utf8EncodeChar c).length = c.utf8Size := String.length_utf8EncodeChar c
    rw [utf8_reverse_cons, List.length_append, hsize]
    split
    · rename_i hfits
      obtain ⟨conts, heq, hconts⟩ := ih (n - c.utf8Size)
      refine ⟨conts, ?_, hconts⟩
      have hplace : (utf8 rev.reverse).length + c.utf8Size - n =
          (utf8 rev.reverse).length - (n - c.utf8Size) := by omega
      rw [hplace, List.drop_append_of_le_length (Nat.sub_le _ _), heq, utf8_reverse_cons,
        List.append_assoc]
    · rename_i hshort
      obtain ⟨lead, conts, hchar, -, hconts, -, -⟩ := utf8EncodeChar_eq c
      rw [hchar] at hsize ⊢
      rw [List.length_cons] at hsize
      have hplace : (utf8 rev.reverse).length + c.utf8Size - n =
          (utf8 rev.reverse).length + (conts.length - n + 1) := by omega
      refine ⟨conts.drop (conts.length - n), ?_, fun b hb => hconts b (List.mem_of_mem_drop hb)⟩
      rw [hplace, List.drop_length_add_append, List.drop_succ_cons]
      exact (List.append_nil _).symm

/-- A text begins with no continuation byte. -/
theorem dropWhile_utf8 (h : ∀ b ∈ conts, isContinuation b = true) (cs : List Char) :
    (conts ++ utf8 cs).dropWhile isContinuation = utf8 cs := by
  rw [List.dropWhile_append_of_pos h]
  cases cs with
  | nil => rfl
  | cons c =>
    obtain ⟨lead, rest, hchar, hlead, -⟩ := utf8EncodeChar_eq c
    have hno : ¬ isContinuation lead = true := Bool.eq_false_iff.1 hlead
    rw [utf8_cons, hchar, List.cons_append, List.dropWhile_cons_of_neg hno]

theorem length_fitting_le (n : Nat) (cs : List Char) : (utf8 (fitting n cs)).length ≤ n := by
  induction cs generalizing n with
  | nil => exact Nat.zero_le _
  | cons c cs ih =>
    unfold fitting
    split
    · rename_i hfits
      have hrest := ih (n - c.utf8Size)
      rw [length_utf8_cons]
      omega
    · exact Nat.zero_le _

end Utf8Decoder
end XioFlow.Lib
