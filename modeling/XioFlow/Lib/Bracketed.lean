/-
  XioFlow.Lib.Bracketed

  Striking bracketed passages out of a text.

  A passage begins with a mark and ends with the first closer behind it.  The
  mark holds no closer, so a mark inside a passage belongs to the passage.  A
  note put into a text leaves no trace after striking exactly when it is made
  of passages and stands in none.
-/

import Mathlib.Data.List.Infix

namespace XioFlow.Lib
namespace Bracketed

universe u

variable {α : Type u} [DecidableEq α]

/-! ## Striking out -/

/-- The text without its passages; the first argument says whether it begins in the middle of one.
    A mark with no closer behind it begins no passage. -/
def strike (m : List α) (c : α) : Bool → List α → List α
  | _, [] => []
  | true, x :: s => strike m c (x ≠ c) s
  | false, x :: s =>
    if m.isPrefixOf (x :: s) && s.contains c then strike m c true s else x :: strike m c false s

/-- Whether a text ends in the middle of a passage. -/
def inside (m : List α) (c : α) : Bool → List α → Bool
  | b, [] => b
  | true, x :: s => inside m c (x ≠ c) s
  | false, x :: s => inside m c (m.isPrefixOf (x :: s)) s

/-- What stays of a text that is closed by what follows it. -/
def kept (m : List α) (c : α) : Bool → List α → List α
  | _, [] => []
  | true, x :: s => kept m c (x ≠ c) s
  | false, x :: s =>
    if m.isPrefixOf (x :: s) then kept m c true s else x :: kept m c false s

/-- A mark with no closer behind it. -/
def Open (m : List α) (c : α) (s : List α) : Prop := ∃ a b, s = a ++ (m ++ b) ∧ c ∉ b

/-- One passage after the other. -/
def passages (m : List α) (c : α) (inner : List (List α)) : List α :=
  inner.flatMap fun a => m ++ (a ++ [c])

omit [DecidableEq α] in
theorem passages_cons (m : List α) (c : α) (a : List α) (inner : List (List α)) :
    passages m c (a :: inner) = m ++ (a ++ c :: passages m c inner) := by
  simp [passages]

/-- No suffix of the mark is the beginning of another one. -/
def Borderless (m : List α) : Prop := ∀ k, 0 < k → k < m.length → ¬ m.drop k <+: m

/-- No mark stands across the end of a text and the beginning of the next one. -/
def Fits (m next : List α) : Prop := ∀ s, s ≠ [] → m <+: s ++ next → m <+: s

variable {m : List α} {c : α}

omit [DecidableEq α] in
theorem fits_of_notMem {q : α} {next : List α} (hq : q ∉ m) : Fits m (q :: next) := by
  intro s _ hm
  by_cases hlen : m.length ≤ s.length
  · exact List.prefix_of_prefix_length_le hm (List.prefix_append s _) hlen
  · -- the mark would reach over the end and hold `q`
    have hshort : s <+: m :=
      List.prefix_of_prefix_length_le (List.prefix_append s _) hm (by omega)
    obtain ⟨t, rfl⟩ := hshort
    cases t with
    | nil => exact absurd (by simp) hlen
    | cons =>
      rw [List.prefix_append_right_inj, List.cons_prefix_cons] at hm
      exact absurd (by simp [hm.1]) hq

omit [DecidableEq α] in
theorem fits_mark (hm : Borderless m) (rest : List α) : Fits m (m ++ rest) := by
  intro s hs hpre
  by_cases hlen : m.length ≤ s.length
  · exact List.prefix_of_prefix_length_le hpre (List.prefix_append s _) hlen
  · have hshort : s <+: m :=
      List.prefix_of_prefix_length_le (List.prefix_append s _) hpre (by omega)
    obtain ⟨t, ht⟩ := hshort
    have hdrop : m.drop s.length = t := by rw [← ht, List.drop_left]
    refine absurd ?_ (hm s.length (List.length_pos_iff.2 hs) (by omega))
    rw [hdrop]
    have ht' : t <+: m ++ rest := by
      have hpre' : s ++ t <+: s ++ (m ++ rest) := by rwa [ht]
      exact (List.prefix_append_right_inj s).1 hpre'
    refine List.prefix_of_prefix_length_le ht' (List.prefix_append m rest) ?_
    rw [← hdrop]
    simp

variable {q : α}

theorem isPrefixOf_cons_eq_false (hm : m ≠ []) (hq : q ∉ m) (s : List α) :
    m.isPrefixOf (q :: s) = false := by
  rw [Bool.eq_false_iff, ne_eq, List.isPrefixOf_iff_prefix]
  intro hpre
  obtain ⟨y, t, rfl⟩ := List.exists_cons_of_ne_nil hm
  exact hq (by simp [(List.cons_prefix_cons.1 hpre).1])

variable {next s a : List α}

/-- Striking goes on behind a text as behind its last passage. -/
theorem strike_append (hfit : Fits m next) (hc : c ∈ next) (b : Bool) (s : List α) :
    strike m c b (s ++ next) = kept m c b s ++ strike m c (inside m c b s) next := by
  induction s generalizing b with
  | nil => rfl
  | cons x s ih =>
    cases b with
    | true =>
      rw [List.cons_append, strike, ih, kept, inside]
    | false =>
      have hsame : m.isPrefixOf (x :: (s ++ next)) = m.isPrefixOf (x :: s) := by
        rw [Bool.eq_iff_iff, List.isPrefixOf_iff_prefix, List.isPrefixOf_iff_prefix]
        exact ⟨hfit (x :: s) (List.cons_ne_nil x s), fun h => h.trans (List.prefix_append _ _)⟩
      have hthere : (s ++ next).contains c = true :=
        List.contains_iff_mem.2 (List.mem_append_right s hc)
      rw [List.cons_append, strike, hsame, hthere, Bool.and_true, kept, inside]
      cases m.isPrefixOf (x :: s) with
      | true => exact ih true
      | false => exact congrArg (x :: ·) (ih false)

/-! ## Where a text ends -/

theorem inside_close (hm : m ≠ []) (hc : c ∉ m) (b : Bool) (s : List α) :
    inside m c b (s ++ [c]) = false := by
  induction s generalizing b with
  | nil =>
    cases b with
    | true => simp [inside]
    | false =>
      rw [List.nil_append, inside, inside, isPrefixOf_cons_eq_false hm hc]
  | cons x s ih =>
    cases b with
    | true | false => exact ih _

omit [DecidableEq α] in
theorem open_cons (hc : c ∉ m) {x : α} :
    Open m c (x :: s) ↔ (m <+: x :: s ∧ c ∉ x :: s) ∨ Open m c s := by
  constructor
  · rintro ⟨a, b, heq, hb⟩
    cases a with
    | nil =>
      refine .inl ⟨⟨b, heq.symm⟩, ?_⟩
      rw [heq]
      simp [hc, hb]
    | cons y a =>
      rw [List.cons_append, List.cons.injEq] at heq
      exact .inr ⟨a, b, heq.2, hb⟩
  · rintro (⟨⟨b, hb⟩, hnone⟩ | ⟨a, b, rfl, hb⟩)
    · refine ⟨[], b, hb.symm, fun hmem => hnone ?_⟩
      rw [← hb]
      exact List.mem_append_right m hmem
    · exact ⟨x :: a, b, rfl, hb⟩

/-- A text ends in the middle of a passage when its last mark is open. -/
theorem inside_iff (hm : m ≠ []) (hc : c ∉ m) (s : List α) :
    (inside m c false s = true ↔ Open m c s) ∧
      (inside m c true s = true ↔ c ∉ s ∨ Open m c s) := by
  induction s with
  | nil =>
    refine ⟨⟨fun h => absurd h Bool.false_ne_true, ?_⟩, ⟨fun _ => .inl (by simp), fun _ => rfl⟩⟩
    rintro ⟨a, b, heq, -⟩
    simp [hm] at heq
  | cons x s ih =>
    have hhead : ¬ m <+: c :: s := by
      rw [← List.isPrefixOf_iff_prefix, isPrefixOf_cons_eq_false hm hc]
      exact Bool.false_ne_true
    constructor
    · rw [inside, open_cons hc]
      by_cases hpre : m <+: x :: s
      · have hx : x ≠ c := fun hx => hhead (hx ▸ hpre)
        rw [List.isPrefixOf_iff_prefix.2 hpre, ih.2]
        simp [hpre, Ne.symm hx]
      · rw [Bool.eq_false_iff.2 (mt List.isPrefixOf_iff_prefix.1 hpre), ih.1]
        simp [hpre]
    · rw [inside, open_cons hc]
      by_cases hx : x = c
      · subst hx
        simp [ih.1]
      · rw [decide_eq_true hx, ih.2]
        have hmem : c ∉ x :: s ↔ c ∉ s := by simp [Ne.symm hx]
        rw [hmem]
        tauto

/-! ## A note in a text -/

theorem length_strike_true_le (hm : m ≠ []) (hc : c ∉ m) (s : List α) :
    (strike m c true s).length ≤ (strike m c false s).length := by
  induction s with
  | nil => exact Nat.le_refl _
  | cons x s ih =>
    rw [strike]
    by_cases hx : x = c
    · rw [hx, decide_eq_false (not_not.2 rfl), strike, isPrefixOf_cons_eq_false hm hc]
      exact Nat.le_succ _
    · rw [decide_eq_true hx, strike]
      split
      · exact Nat.le_refl _
      · exact Nat.le_succ_of_le ih

/-- A text struck from the middle of a passage loses more than one struck from outside. -/
theorem append_strike_ne (hm : m ≠ []) (hc : c ∉ m) (hq : q ∉ m) (hqc : q ≠ c) (out : List α) :
    out ++ strike m c false (q :: next) ≠ strike m c true (q :: next) := by
  intro heq
  have houtside : strike m c false (q :: next) = q :: strike m c false next := by
    rw [strike, isPrefixOf_cons_eq_false hm hq, Bool.false_and, if_neg Bool.false_ne_true]
  have hinside : strike m c true (q :: next) = strike m c true next := by
    rw [strike, decide_eq_true hqc]
  have hlen := congrArg List.length heq
  have hle := length_strike_true_le hm hc next
  rw [houtside, hinside, List.length_append, List.length_cons] at hlen
  omega

/-- A note leaves no trace exactly when no passage is open before it and it is struck as a
    whole. -/
theorem strike_note {pre note : List α} (hm : m ≠ []) (hc : c ∉ m) (hborder : Borderless m)
    (hq : q ∉ m) (hqc : q ≠ c) (hnext : c ∈ next) :
    strike m c false (pre ++ ((m ++ (note ++ [c])) ++ q :: next)) =
        strike m c false (pre ++ q :: next) ↔
      ¬ Open m c pre ∧ kept m c false (m ++ (note ++ [c])) = [] := by
  have hthere : c ∈ q :: next := List.mem_cons_of_mem q hnext
  have hfit : Fits m (q :: next) := fits_of_notMem hq
  have hclose : ∀ b, inside m c b (m ++ (note ++ [c])) = false := by
    intro b
    rw [← List.append_assoc]
    exact inside_close hm hc b _
  have hwith := strike_append (m := m) (c := c)
    (by simpa using fits_mark hborder (note ++ [c] ++ q :: next) :
      Fits m ((m ++ (note ++ [c])) ++ q :: next))
    (List.mem_append_right _ hthere) false pre
  rw [hwith, strike_append hfit hthere, strike_append hfit hthere, hclose,
    List.append_cancel_left_eq, ← (inside_iff hm hc pre).1]
  cases inside m c false pre with
  | true => simpa using append_strike_ne hm hc hq hqc _
  | false => simp

/-! ## Whole passages -/

omit [DecidableEq α] in
/-- A text is cut in one way at its first closer. -/
theorem append_closer_inj {b r : List α} (ha : c ∉ a) (hb : c ∉ b) (h : a ++ c :: r = b ++ c :: s) :
    a = b ∧ r = s := by
  induction a generalizing b with
  | nil =>
    cases b with
    | nil => exact ⟨rfl, (List.cons.inj h).2⟩
    | cons => exact absurd (List.mem_cons.2 (.inl (List.cons.inj h).1)) hb
  | cons x a ih =>
    cases b with
    | nil => exact absurd (List.mem_cons.2 (.inl (List.cons.inj h).1.symm)) ha
    | cons =>
      obtain ⟨rfl, htail⟩ := List.cons.inj h
      obtain ⟨rfl, rfl⟩ := ih (fun hc => ha (.tail x hc)) (fun hc => hb (.tail x hc)) htail
      exact ⟨rfl, rfl⟩

theorem closed_append (ha : c ∉ a) (s : List α) :
    kept m c true (a ++ c :: s) = kept m c false s ∧
      inside m c true (a ++ c :: s) = inside m c false s := by
  induction a with
  | nil => simp [kept, inside]
  | cons x a ih =>
    rw [List.mem_cons, not_or] at ha
    rw [List.cons_append, kept, inside, decide_eq_true (Ne.symm ha.1)]
    exact ih ha.2

/-- A passage is struck, and striking goes on behind it. -/
theorem passage_append (hm : m ≠ []) (hc : c ∉ m) (ha : c ∉ a) (s : List α) :
    kept m c false (m ++ (a ++ c :: s)) = kept m c false s ∧
      inside m c false (m ++ (a ++ c :: s)) = inside m c false s := by
  obtain ⟨x, m', hcons⟩ := List.exists_cons_of_ne_nil hm
  have hpre : m.isPrefixOf (x :: (m' ++ (a ++ c :: s))) = true := by
    rw [List.isPrefixOf_iff_prefix, hcons]
    exact ⟨a ++ c :: s, rfl⟩
  have hmore : c ∉ m' ++ a := by
    rw [hcons] at hc
    simp_all
  have hrest : m ++ (a ++ c :: s) = x :: (m' ++ (a ++ c :: s)) := by
    rw [hcons]
    rfl
  rw [hrest, kept, inside, hpre, if_pos rfl, ← List.append_assoc]
  exact closed_append hmore s

/-- What is struck as a whole is one passage after the other. -/
theorem kept_eq_nil_iff (hm : m ≠ []) (hc : c ∉ m) (hs : inside m c false s = false) :
    kept m c false s = [] ↔ ∃ inner, (∀ a ∈ inner, c ∉ a) ∧ s = passages m c inner := by
  constructor
  · intro hkept
    induction hlen : s.length using Nat.strong_induction_on generalizing s with
    | _ n ih =>
      cases s with
      | nil => exact ⟨[], by simp, rfl⟩
      | cons x s =>
        have hpre : m.isPrefixOf (x :: s) = true := by
          by_contra hno
          rw [kept, if_neg hno] at hkept
          exact absurd hkept (List.cons_ne_nil _ _)
        obtain ⟨r, hr⟩ := List.isPrefixOf_iff_prefix.1 hpre
        rw [← hr] at hs hkept hlen
        -- a mark that nothing closes would leave the text open
        have hclosed : c ∈ r := by
          by_contra hopen
          have hin := (inside_iff hm hc (m ++ r)).1.2 ⟨[], r, rfl, hopen⟩
          rw [hs] at hin
          exact Bool.false_ne_true hin
        obtain ⟨a, r, rfl, ha⟩ := List.eq_append_cons_of_mem hclosed
        rw [(passage_append hm hc ha r).2] at hs
        rw [(passage_append hm hc ha r).1] at hkept
        have hshort : r.length < n := by
          simp only [List.length_append, List.length_cons] at hlen
          omega
        obtain ⟨inner, hinner, rfl⟩ := ih r.length hshort hs hkept rfl
        refine ⟨a :: inner, ?_, ?_⟩
        · intro b hb
          obtain rfl | hb := List.mem_cons.1 hb
          · exact ha
          · exact hinner b hb
        · rw [← hr, passages_cons]
  · rintro ⟨inner, hinner, rfl⟩
    induction inner with
    | nil => rfl
    | cons a inner ih =>
      have hpass := passage_append hm hc (hinner a List.mem_cons_self) (passages m c inner)
      rw [passages_cons, hpass.2] at hs
      rw [passages_cons, hpass.1]
      exact ih (fun b hb => hinner b (List.mem_cons_of_mem a hb)) hs

end Bracketed
end XioFlow.Lib
