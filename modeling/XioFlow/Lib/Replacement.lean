/-
  XioFlow.Lib.Replacement

  Replacing the occurrences of patterns in a text by a marker.

  `split` and `replaceAll` are the left-to-right search of a host language; the
  meaning of a series of replacements is given beside them, on cells that
  remember whether a character was typed or comes from a marker.  A pass may
  be made on the two halves of a text separately where no occurrence that it
  replaces lies across the cut (`replaceAll_append`).
-/

import Mathlib.Data.List.Infix
import Mathlib.Logic.Relation

namespace XioFlow.Lib

universe u

variable {α : Type u} [DecidableEq α]

/-! ## Searching from the left -/

/-- The pieces of a text between the occurrences of a pattern.  The number
    counts the characters left of an occurrence that has begun. -/
def split (pattern : List α) : Nat → List α → List (List α)
  | _, [] => [[]]
  | inside + 1, _ :: text => split pattern inside text
  | 0, c :: text =>
    if pattern.isPrefixOf (c :: text) then [] :: split pattern (pattern.length - 1) text
    else (split pattern 0 text).modifyHead (c :: ·)

/-- The text with every occurrence of the pattern replaced. -/
def replaceAll (pattern marker text : List α) : List α :=
  marker.intercalate (split pattern 0 text)

/-- Where the occurrences that `split` cuts out begin. -/
def found (pattern : List α) : Nat → List α → List Nat
  | _, [] => []
  | inside + 1, _ :: text => (found pattern inside text).map (· + 1)
  | 0, c :: text =>
    if pattern.isPrefixOf (c :: text) then
      0 :: (found pattern (pattern.length - 1) text).map (· + 1)
    else (found pattern 0 text).map (· + 1)

/-- No occurrence of the pattern that is replaced in the joined text lies
    across the cut. -/
def NoneAcross (pattern before after : List α) : Prop :=
  ∀ i ∈ found pattern 0 (before ++ after),
    ¬ (i < before.length ∧ before.length < i + pattern.length)

/-! ## One occurrence after the other -/

section Search

variable {pattern : List α}

theorem split_ne_nil (inside : Nat) (text : List α) : split pattern inside text ≠ [] := by
  induction text generalizing inside with
  | nil => exact List.cons_ne_nil _ _
  | cons c text ih =>
    cases inside with
    | succ inside => exact ih inside
    | zero =>
      unfold split
      split
      · exact List.cons_ne_nil _ _
      · have htail := ih 0
        intro h
        apply htail
        cases hs : split pattern 0 text with
        | nil => rfl
        | cons =>
          rw [hs] at h
          cases h

theorem split_drop (inside : Nat) (text : List α) :
    split pattern inside text = split pattern 0 (text.drop inside) := by
  induction inside generalizing text with
  | zero => rfl
  | succ inside ih =>
    cases text with
    | nil => rfl
    | cons c text => exact ih text

omit [DecidableEq α] in
theorem intercalate_modifyHead {marker : List α} {c : α} {pieces : List (List α)}
    (h : pieces ≠ []) :
    marker.intercalate (pieces.modifyHead (c :: ·)) = c :: marker.intercalate pieces := by
  cases pieces with
  | nil => exact absurd rfl h
  | cons p ps =>
    cases ps with
    | nil => rfl
    | cons => rfl

@[simp] theorem replaceAll_nil (pattern marker : List α) : replaceAll pattern marker [] = [] := rfl

/-- At an occurrence. -/
theorem replaceAll_occurrence (hne : pattern ≠ []) (marker rest : List α) :
    replaceAll pattern marker (pattern ++ rest) = marker ++ replaceAll pattern marker rest := by
  unfold replaceAll
  cases hp : pattern with
  | nil => exact absurd hp hne
  | cons p ps =>
    have hbegins : (p :: ps).isPrefixOf (p :: (ps ++ rest)) = true := by
      rw [List.isPrefixOf_iff_prefix]
      exact ⟨rest, rfl⟩
    have hdrop : (ps ++ rest).drop ps.length = rest := List.drop_left
    rw [List.cons_append, split, if_pos hbegins,
      List.intercalate_cons_of_ne_nil (split_ne_nil _ _), List.nil_append]
    congr 2
    rw [split_drop, List.length_cons, Nat.add_sub_cancel, hdrop]

variable {c : α} {before after : List α}

/-- Where no occurrence begins. -/
theorem replaceAll_other {text : List α} (h : ¬ pattern <+: c :: text) (marker : List α) :
    replaceAll pattern marker (c :: text) = c :: replaceAll pattern marker text := by
  have hbegins : ¬ pattern.isPrefixOf (c :: text) = true := by
    rw [List.isPrefixOf_iff_prefix]
    exact h
  unfold replaceAll
  rw [split, if_neg hbegins, intercalate_modifyHead (split_ne_nil _ _)]

theorem found_drop (inside : Nat) (text : List α) :
    found pattern inside text = (found pattern 0 (text.drop inside)).map (· + inside) := by
  induction inside generalizing text with
  | zero =>
    show _ = (found pattern 0 text).map (· + 0)
    exact (List.map_id _).symm
  | succ inside ih =>
    cases text with
    | nil => rfl
    | cons c text =>
      show (found pattern inside text).map (· + 1) = _
      rw [ih, List.map_map, List.drop_succ_cons]
      rfl

theorem found_occurrence (hne : pattern ≠ []) (rest : List α) :
    found pattern 0 (pattern ++ rest) = 0 :: (found pattern 0 rest).map (· + pattern.length) := by
  cases hp : pattern with
  | nil => exact absurd hp hne
  | cons p ps =>
    have hbegins : (p :: ps).isPrefixOf (p :: (ps ++ rest)) = true := by
      rw [List.isPrefixOf_iff_prefix]
      exact ⟨rest, rfl⟩
    have hdrop : (ps ++ rest).drop ps.length = rest := List.drop_left
    rw [List.cons_append, found, if_pos hbegins, List.length_cons, Nat.add_sub_cancel,
      found_drop, hdrop, List.map_map]
    rfl

theorem found_other {text : List α} (h : ¬ pattern <+: c :: text) :
    found pattern 0 (c :: text) = (found pattern 0 text).map (· + 1) := by
  have hbegins : ¬ pattern.isPrefixOf (c :: text) = true := by
    rw [List.isPrefixOf_iff_prefix]
    exact h
  rw [found, if_neg hbegins]

/-! ## Two halves -/

theorem NoneAcross.of_occurrence (hne : pattern ≠ [])
    (h : NoneAcross pattern (pattern ++ before) after) : NoneAcross pattern before after := by
  intro i hi hacross
  refine h (i + pattern.length) ?_ ?_
  · rw [List.append_assoc, found_occurrence hne]
    exact List.mem_cons_of_mem _ (List.mem_map_of_mem hi)
  · rw [List.length_append]
    omega

theorem NoneAcross.of_other (hother : ¬ pattern <+: c :: (before ++ after))
    (h : NoneAcross pattern (c :: before) after) : NoneAcross pattern before after := by
  intro i hi hacross
  refine h (i + 1) ?_ ?_
  · rw [List.cons_append, found_other hother]
    exact List.mem_map_of_mem hi
  · rw [List.length_cons]
    omega

/-- An occurrence at the start of the joined text lies in the first half. -/
theorem NoneAcross.beginsBefore (h : NoneAcross pattern (c :: before) after)
    (hbegins : pattern <+: c :: before ++ after) (hne : pattern ≠ []) :
    pattern <+: c :: before := by
  have hmem : 0 ∈ found pattern 0 (c :: before ++ after) := by
    obtain ⟨rest, hrest⟩ := hbegins
    rw [← hrest, found_occurrence hne]
    exact List.mem_cons_self
  have hlength := h 0 hmem
  have hpos : 0 < (c :: before).length := Nat.succ_pos _
  exact List.prefix_of_prefix_length_le hbegins (List.prefix_append _ _) (by omega)

/-- A first half is read occurrence by occurrence, where none lies across the cut. -/
theorem NoneAcross.read {P : List α → Prop} (hne : pattern ≠ []) (hnil : P [])
    (hoccurrence : ∀ rest, P rest → P (pattern ++ rest))
    (hother : ∀ c before, ¬ pattern <+: c :: (before ++ after) → ¬ pattern <+: c :: before →
      P before → P (c :: before)) (h : NoneAcross pattern before after) : P before := by
  induction hn : before.length using Nat.strong_induction_on generalizing before with
  | _ n ih =>
    cases before with
    | nil => exact hnil
    | cons c before =>
      by_cases hbegins : pattern <+: c :: before ++ after
      · obtain ⟨rest, hrest⟩ := h.beginsBefore hbegins hne
        have hlength := congrArg List.length hrest
        have hpos := List.length_pos_of_ne_nil hne
        rw [List.length_append] at hlength
        rw [← hrest] at h ⊢
        exact hoccurrence rest (ih rest.length (by omega) (h.of_occurrence hne) rfl)
      · have hlength : before.length + 1 = n := hn
        exact hother c before hbegins (fun hp => hbegins (hp.trans (List.prefix_append _ _)))
          (ih before.length (by omega) (h.of_other hbegins) rfl)

/-- Where no occurrence lies across the cut, the halves are searched apart. -/
theorem found_append (hne : pattern ≠ []) (h : NoneAcross pattern before after) :
    found pattern 0 (before ++ after) =
      found pattern 0 before ++ (found pattern 0 after).map (· + before.length) := by
  refine NoneAcross.read (P := fun before => found pattern 0 (before ++ after) =
    found pattern 0 before ++ (found pattern 0 after).map (· + before.length)) hne
    (List.map_id _).symm (fun rest ih => ?_) (fun c before hother hshort ih => ?_) h
  · rw [List.append_assoc, found_occurrence hne, found_occurrence hne, ih, List.map_append,
      List.map_map, List.cons_append, List.length_append]
    congr 2
    apply List.map_congr_left
    intro i _
    show i + rest.length + pattern.length = i + (pattern.length + rest.length)
    omega
  · rw [List.cons_append, found_other hother, found_other hshort, ih, List.map_append, List.map_map]
    rfl

theorem replaceAll_append (hne : pattern ≠ []) (marker : List α)
    (h : NoneAcross pattern before after) :
    replaceAll pattern marker (before ++ after) =
      replaceAll pattern marker before ++ replaceAll pattern marker after := by
  refine NoneAcross.read (P := fun before => replaceAll pattern marker (before ++ after) =
    replaceAll pattern marker before ++ replaceAll pattern marker after) hne rfl
    (fun rest ih => ?_) (fun c before hother hshort ih => ?_) h
  · rw [List.append_assoc, replaceAll_occurrence hne, replaceAll_occurrence hne, ih,
      List.append_assoc]
  · rw [List.cons_append, replaceAll_other hother, replaceAll_other hshort, ih, List.cons_append]

/-- A clean cut stays one when the text before it, up to another clean cut,
    is left out. -/
theorem NoneAcross.tail (hne : pattern ≠ []) {first : List α}
    (hfirst : NoneAcross pattern first (before ++ after))
    (h : NoneAcross pattern (first ++ before) after) : NoneAcross pattern before after := by
  intro i hi hacross
  refine h (i + first.length) ?_ ?_
  · rw [List.append_assoc, found_append hne hfirst]
    exact List.mem_append_right _ (List.mem_map_of_mem hi)
  · rw [List.length_append]
    omega

/-- And when the text after it, from another clean cut on, is left out. -/
theorem NoneAcross.init (hne : pattern ≠ []) {first : List α}
    (hfirst : NoneAcross pattern first (before ++ after))
    (h : NoneAcross pattern (first ++ before) after) : NoneAcross pattern first before := by
  intro i hi
  refine hfirst i ?_
  rw [← List.append_assoc, found_append hne h]
  exact List.mem_append_left _ hi

end Search

/-! ## The meaning of replacements -/

omit [DecidableEq α]

/-- A character of a text, typed or put there by a replacement. -/
structure Cell (α : Type u) where
  value : α
  typed : Bool

/-- A text as it was typed. -/
def typedText (text : List α) : List (Cell α) := text.map (⟨·, true⟩)

/-- What a replacement puts in. -/
def markedText (marker : List α) : List (Cell α) := marker.map (⟨·, false⟩)

def cellValues (cells : List (Cell α)) : List α := cells.map Cell.value

/-- One occurrence of a secret is replaced by the marker. -/
inductive ReplaceOne (secrets : List (List α)) (marker : List α) :
    List (Cell α) → List (Cell α) → Prop where
  | mk (before occurrence after : List (Cell α)) (h : cellValues occurrence ∈ secrets) :
      ReplaceOne secrets marker (before ++ occurrence ++ after)
        (before ++ markedText marker ++ after)

/-- No part of the text that was typed as it stands spells a secret. -/
def NoSecretTyped (secrets : List (List α)) (cells : List (Cell α)) : Prop :=
  ∀ window, window <:+: cells → (∀ c ∈ window, c.typed = true) → cellValues window ∉ secrets

/-- `out` is the text with occurrences of secrets replaced, and spells no
    secret but by means of the markers. -/
def Redacts (secrets : List (List α)) (marker text out : List α) : Prop :=
  ∃ cells, Relation.ReflTransGen (ReplaceOne secrets marker) (typedText text) cells ∧
    cellValues cells = out ∧ NoSecretTyped secrets cells

@[simp] theorem cellValues_cons (c : Cell α) (cells : List (Cell α)) :
    cellValues (c :: cells) = c.value :: cellValues cells := rfl

@[simp] theorem cellValues_append (cells cells' : List (Cell α)) :
    cellValues (cells ++ cells') = cellValues cells ++ cellValues cells' := List.map_append

@[simp] theorem cellValues_typedText (text : List α) : cellValues (typedText text) = text := by
  unfold cellValues typedText
  rw [List.map_map]
  exact List.map_id text

@[simp] theorem cellValues_markedText (marker : List α) :
    cellValues (markedText marker) = marker := by
  unfold cellValues markedText
  rw [List.map_map]
  exact List.map_id marker

variable {secrets : List (List α)} {cells cells' : List (Cell α)} {pattern : List α}

variable {marker text : List α} {c : α}

/-- Replacements behind some text. -/
theorem replaceOne_prepend (h : Relation.ReflTransGen (ReplaceOne secrets marker) cells cells')
    (front : List (Cell α)) :
    Relation.ReflTransGen (ReplaceOne secrets marker) (front ++ cells) (front ++ cells') := by
  induction h with
  | refl => exact .refl
  | tail _ hstep ih =>
    refine ih.tail ?_
    cases hstep with
    | mk before occurrence after h =>
      have hone : ReplaceOne secrets marker (front ++ before ++ occurrence ++ after)
          (front ++ before ++ markedText marker ++ after) := .mk _ occurrence after h
      simpa only [List.append_assoc] using hone

/-- A typed character that is in no secret is never replaced. -/
theorem ReplaceOne.keeps (h : ReplaceOne secrets marker cells cells') {c : Cell α}
    (hfree : ∀ secret ∈ secrets, c.value ∉ secret) (hc : c ∈ cells) : c ∈ cells' := by
  cases h with
  | mk before occurrence after h =>
    rcases List.mem_append.1 hc with hc | hc
    · rcases List.mem_append.1 hc with hc | hc
      · exact List.mem_append_left _ (List.mem_append_left _ hc)
      · exact absurd (List.mem_map_of_mem hc) (hfree _ h)
    · exact List.mem_append_right _ hc

theorem ReplaceOne.marked (h : ReplaceOne secrets marker cells cells') {m : α} (hm : m ∈ marker) :
    (⟨m, false⟩ : Cell α) ∈ cells' := by
  cases h with
  | mk before occurrence after _ =>
    exact List.mem_append_left _ (List.mem_append_right _ (List.mem_map_of_mem hm))

theorem Redacts.keeps {out : List α} (h : Redacts secrets marker text out)
    (hfree : ∀ secret ∈ secrets, c ∉ secret) (hc : c ∈ text) : c ∈ out := by
  obtain ⟨cells, hcells, rfl, -⟩ := h
  have hstart : (⟨c, true⟩ : Cell α) ∈ typedText text := List.mem_map_of_mem hc
  have hend : (⟨c, true⟩ : Cell α) ∈ cells := by
    induction hcells with
    | refl => exact hstart
    | tail _ hstep ih => exact hstep.keeps hfree ih
  exact List.mem_map_of_mem hend

/-- Either nothing was replaced, or a character of the marker shows it. -/
theorem Redacts.unchanged_or_marked {out : List α} (h : Redacts secrets marker text out) {m : α}
    (hm : m ∈ marker) (hfree : ∀ secret ∈ secrets, m ∉ secret) :
    (out = text ∧ ∀ secret ∈ secrets, ¬ secret <:+: text) ∨ m ∈ out := by
  obtain ⟨cells, hcells, rfl, hnone⟩ := h
  rcases hcells.cases_head with rfl | ⟨cells₁, hfirst, hrest⟩
  · left
    refine ⟨cellValues_typedText text, fun secret hsecret hwithin => ?_⟩
    have htyped : ∀ c ∈ typedText secret, c.typed = true := fun c hc => by
      obtain ⟨a, -, rfl⟩ := List.mem_map.1 hc
      rfl
    refine hnone (typedText secret) (hwithin.map _) htyped ?_
    rw [cellValues_typedText]
    exact hsecret
  · right
    have hstart : (⟨m, false⟩ : Cell α) ∈ cells₁ := hfirst.marked hm
    have hend : (⟨m, false⟩ : Cell α) ∈ cells := by
      clear hnone hcells
      induction hrest with
      | refl => exact hstart
      | tail _ hstep ih => exact hstep.keeps hfree ih
    exact List.mem_map_of_mem hend

/-- A typed prefix behind markers is empty. -/
theorem window_after_marked (hmarker : marker ≠ []) {window : List (Cell α)}
    (h : window <+: markedText marker ++ cells) (htyped : ∀ c ∈ window, c.typed = true) :
    window = [] := by
  cases window with
  | nil => rfl
  | cons w =>
    exfalso
    cases marker with
    | nil => exact hmarker rfl
    | cons m =>
      obtain ⟨rest, hrest⟩ := h
      have hw : w = ⟨m, false⟩ := (List.cons.inj hrest).1
      have := htyped w List.mem_cons_self
      rw [hw] at this
      cases this

/-- A typed window of a text that starts with markers lies behind them. -/
theorem infix_after_marked {window : List (Cell α)} (hne : window ≠ [])
    (h : window <:+: markedText marker ++ cells) (htyped : ∀ c ∈ window, c.typed = true) :
    window <:+: cells := by
  induction marker with
  | nil => exact h
  | cons m marker ih =>
    rcases List.infix_cons_iff.1 h with h | h
    · obtain rfl := window_after_marked (List.cons_ne_nil m marker) h htyped
      exact absurd rfl hne
    · exact ih h

variable [DecidableEq α]

/-- One pass, on cells: it replaces one occurrence after the other, spells its
    own pattern no more, and brings no new typed window about. -/
theorem replaceAll_cells (hne : pattern ≠ []) (hmarker : marker ≠ []) (cells : List (Cell α)) :
    ∃ cells', Relation.ReflTransGen (ReplaceOne [pattern] marker) cells cells' ∧
      cellValues cells' = replaceAll pattern marker (cellValues cells) ∧
      (∀ window, window <+: cells' → (∀ c ∈ window, c.typed = true) → window <+: cells) ∧
      ∀ window, window <:+: cells' → window ≠ [] → (∀ c ∈ window, c.typed = true) →
        window <:+: cells ∧ cellValues window ≠ pattern := by
  induction hn : cells.length using Nat.strong_induction_on generalizing cells with
  | _ n ih =>
    cases cells with
    | nil =>
      refine ⟨[], .refl, rfl, fun window h _ => h, fun window h hwindow _ => ?_⟩
      exact absurd (List.eq_nil_of_infix_nil h) hwindow
    | cons c cells =>
      by_cases hbegins : pattern <+: cellValues (c :: cells)
      · -- an occurrence: the marker takes its place
        obtain ⟨rest, hrest⟩ := hbegins
        obtain ⟨occurrence, after, hsplit, hocc, hafter⟩ := List.map_eq_append_iff.1 hrest.symm
        have hpos := List.length_pos_of_ne_nil hne
        have hlength : occurrence.length = pattern.length := by
          rw [← hocc]
          exact (List.length_map _).symm
        have hcount := congrArg List.length hsplit
        rw [List.length_append] at hcount
        obtain ⟨cells', hcells', hvalues, -, hwindows⟩ :=
          ih after.length (by omega) after rfl
        refine ⟨markedText marker ++ cells', ?_, ?_, fun window h htyped => ?_,
          fun window h hwindow htyped => ?_⟩
        · have hfirst : ReplaceOne [pattern] marker (c :: cells)
              (markedText marker ++ after) := by
            rw [hsplit]
            exact .mk [] occurrence after (by
              show occurrence.map Cell.value ∈ [pattern]
              rw [hocc]
              exact List.mem_cons_self)
          exact .head hfirst (replaceOne_prepend hcells' _)
        · have hvalue : cellValues (c :: cells) = pattern ++ cellValues after := by
            rw [hsplit, cellValues_append]
            congr 1
          rw [cellValues_append, cellValues_markedText, hvalues, hvalue,
            replaceAll_occurrence hne]
        · rw [window_after_marked hmarker h htyped]
          exact List.nil_prefix
        · obtain ⟨hwithin, hspells⟩ :=
            hwindows window (infix_after_marked hwindow h htyped) hwindow htyped
          refine ⟨?_, hspells⟩
          rw [hsplit]
          exact hwithin.trans (List.suffix_append _ _).isInfix
      · -- no occurrence begins here: the cell stays
        have hcount : cells.length + 1 = n := hn
        obtain ⟨cells', hcells', hvalues, hfronts, hwindows⟩ :=
          ih cells.length (by omega) cells rfl
        have hhead : ∀ window, window <+: c :: cells' → (∀ c ∈ window, c.typed = true) →
            window <+: c :: cells := by
          intro window h htyped
          cases window with
          | nil => exact List.nil_prefix
          | cons w window =>
            obtain ⟨rfl, htail⟩ := List.cons_prefix_cons.1 h
            exact List.cons_prefix_cons.2 ⟨rfl, hfronts window htail
              fun x hx => htyped x (List.mem_cons_of_mem _ hx)⟩
        refine ⟨c :: cells', ?_, ?_, hhead, fun window h hwindow htyped => ?_⟩
        · exact replaceOne_prepend hcells' [c]
        · rw [cellValues_cons, hvalues, cellValues_cons]
          exact (replaceAll_other hbegins marker).symm
        · rcases List.infix_cons_iff.1 h with h | h
          · have hbefore := hhead window h htyped
            refine ⟨hbefore.isInfix, fun heq => hbegins ?_⟩
            rw [← heq]
            exact hbefore.map Cell.value
          · obtain ⟨hwithin, hspells⟩ := hwindows window h hwindow htyped
            exact ⟨List.infix_cons hwithin, hspells⟩

omit [DecidableEq α] in
theorem replaceOne_mono {secrets' : List (List α)} (hsub : ∀ secret ∈ secrets, secret ∈ secrets')
    (h : Relation.ReflTransGen (ReplaceOne secrets marker) cells cells') :
    Relation.ReflTransGen (ReplaceOne secrets' marker) cells cells' := by
  induction h with
  | refl => exact .refl
  | tail _ hstep ih =>
    refine ih.tail ?_
    cases hstep with
    | mk before occurrence after h => exact .mk before occurrence after (hsub _ h)

/-- All passes, on cells: what one of them has cleared stays clear. -/
theorem replaceEach_cells (hsecrets : ∀ secret ∈ secrets, secret ≠ []) (hmarker : marker ≠ [])
    (cells : List (Cell α)) :
    ∃ cells', Relation.ReflTransGen (ReplaceOne secrets marker) cells cells' ∧
      cellValues cells' = secrets.foldl (fun out secret => replaceAll secret marker out)
        (cellValues cells) ∧
      ∀ window, window <:+: cells' → window ≠ [] → (∀ c ∈ window, c.typed = true) →
        window <:+: cells ∧ cellValues window ∉ secrets := by
  induction secrets generalizing cells with
  | nil => exact ⟨cells, .refl, rfl, fun window h _ _ => ⟨h, List.not_mem_nil⟩⟩
  | cons secret secrets ih =>
    obtain ⟨cells₁, hfirst, hvalues₁, -, hwindows₁⟩ :=
      replaceAll_cells (hsecrets secret List.mem_cons_self) hmarker cells
    obtain ⟨cells', hrest, hvalues, hwindows⟩ :=
      ih (fun s hs => hsecrets s (List.mem_cons_of_mem _ hs)) cells₁
    refine ⟨cells', ?_, ?_, fun window h hne htyped => ?_⟩
    · have hone : ∀ s ∈ [secret], s ∈ secret :: secrets := fun s hs =>
        List.mem_singleton.1 hs ▸ List.mem_cons_self
      have hothers : ∀ s ∈ secrets, s ∈ secret :: secrets := fun s hs =>
        List.mem_cons_of_mem _ hs
      exact (replaceOne_mono hone hfirst).trans (replaceOne_mono hothers hrest)
    · rw [hvalues, hvalues₁, List.foldl_cons]
    · obtain ⟨hwithin, hrest'⟩ := hwindows window h hne htyped
      obtain ⟨hstart, hother⟩ := hwindows₁ window hwithin hne htyped
      refine ⟨hstart, fun hmem => ?_⟩
      rcases List.mem_cons.1 hmem with heq | hmem
      · exact hother heq
      · exact hrest' hmem

/-- Replacing one pattern after the other redacts. -/
theorem replaceEach_redacts (hsecrets : ∀ secret ∈ secrets, secret ≠ []) (hmarker : marker ≠ [])
    (text : List α) :
    Redacts secrets marker text
      (secrets.foldl (fun out secret => replaceAll secret marker out) text) := by
  obtain ⟨cells, hcells, hvalues, hwindows⟩ :=
    replaceEach_cells hsecrets hmarker (typedText text)
  refine ⟨cells, hcells, ?_, fun window h htyped hmem => ?_⟩
  · rw [hvalues, cellValues_typedText]
  · -- no secret is empty, so the window is not
    have hne : window ≠ [] := by
      rintro rfl
      exact hsecrets _ hmem rfl
    exact (hwindows window h hne htyped).2 hmem

/-! ## The characters of the result -/

theorem mem_of_mem_split {piece : List α} {inside : Nat} (h : piece ∈ split pattern inside text)
    (hc : c ∈ piece) : c ∈ text := by
  induction text generalizing inside piece with
  | nil =>
    obtain rfl := List.mem_singleton.1 h
    exact hc
  | cons d text ih =>
    apply List.mem_cons.2
    cases inside with
    | succ => exact .inr (ih h hc)
    | zero =>
      unfold split at h
      split at h
      · rcases List.mem_cons.1 h with rfl | h
        · cases hc
        · exact .inr (ih h hc)
      · -- the character joins the first piece of the rest
        cases hrest : split pattern 0 text with
        | nil =>
          rw [hrest] at h
          cases h
        | cons =>
          rw [hrest] at h
          rcases List.mem_cons.1 h with rfl | h
          · rcases List.mem_cons.1 hc with rfl | hc
            · exact .inl rfl
            · exact .inr (ih (hrest ▸ List.mem_cons_self) hc)
          · exact .inr (ih (hrest ▸ List.mem_cons_of_mem _ h) hc)

theorem mem_replaceAll (h : c ∈ replaceAll pattern marker text) : c ∈ text ∨ c ∈ marker := by
  have hpieces : ∀ pieces : List (List α), c ∈ marker.intercalate pieces →
      (∃ piece ∈ pieces, c ∈ piece) ∨ c ∈ marker := by
    intro pieces
    induction pieces with
    | nil => exact fun h => absurd h List.not_mem_nil
    | cons piece pieces ih =>
      intro h
      by_cases hnil : pieces = []
      · subst hnil
        left
        exact ⟨piece, List.mem_cons_self, by simpa [List.intercalate] using h⟩
      · rw [List.intercalate_cons_of_ne_nil hnil, List.mem_append, List.mem_append] at h
        rcases h with (h | h) | h
        · exact .inl ⟨piece, List.mem_cons_self, h⟩
        · exact .inr h
        · rcases ih h with ⟨p, hp, hc⟩ | h
          · exact .inl ⟨p, List.mem_cons_of_mem _ hp, hc⟩
          · exact .inr h
  rcases hpieces _ h with ⟨piece, hpiece, hc⟩ | h
  · exact .inl (mem_of_mem_split hpiece hc)
  · exact .inr h

end XioFlow.Lib
