/-
  XioFlow.Lib.RingBuffer

  A ring of slots that is written round and round, and so keeps the last
  elements of what went through it.

  `RingBuffer.Keeps n r s` says that a ring of `n` slots has seen `s`.  One element
  more, or a piece that fills the ring, keeps it so.
-/

import Mathlib.Data.List.Basic

namespace XioFlow.Lib

variable {α : Type}

/-- The slots, and the one that is written next. -/
structure RingBuffer (α : Type) where
  slots : List α
  next : Nat
  deriving DecidableEq

namespace RingBuffer

def push (r : RingBuffer α) (a : α) : RingBuffer α where
  slots := r.slots.set r.next a
  next := (r.next + 1) % r.slots.length

/-- The slots from the oldest on, once all of them are written. -/
def unrolled (r : RingBuffer α) : List α := r.slots.drop r.next ++ r.slots.take r.next

/-- The last elements of a list, at most `n`. -/
def lastOf (n : Nat) (s : List α) : List α := s.drop (s.length - n)

/-- A ring of `n` slots that `s` went through. -/
structure Keeps (n : Nat) (r : RingBuffer α) (s : List α) : Prop where
  length : r.slots.length = n
  filling : s.length < n → r.next = s.length ∧ r.slots.take s.length = s
  full : n ≤ s.length → r.next < n ∧ r.unrolled = lastOf n s

variable {n : Nat} {r : RingBuffer α} {s : List α}

theorem length_lastOf (n : Nat) (s : List α) : (lastOf n s).length = min n s.length := by
  rw [lastOf, List.length_drop]
  omega

theorem lastOf_of_length_le (h : s.length ≤ n) : lastOf n s = s := by
  have hzero : s.length - n = 0 := by omega
  rw [lastOf, hzero, List.drop_zero]

/-- One element comes in, the oldest goes. -/
theorem lastOf_concat (h : n ≤ s.length) (hn : 0 < n) (a : α) :
    lastOf n (s ++ [a]) = (lastOf n s).tail ++ [a] := by
  have hdrop : (s ++ [a]).length - n = s.length - n + 1 := by
    rw [List.length_append, List.length_singleton]
    omega
  rw [lastOf, hdrop, List.drop_append_of_le_length (by omega), lastOf, List.tail_drop]

theorem keeps_start (a : α) (hn : 0 < n) : Keeps n ⟨List.replicate n a, 0⟩ [] := by
  refine ⟨List.length_replicate, fun _ => ⟨rfl, rfl⟩, fun h => ?_⟩
  rw [List.length_nil] at h
  omega

/-- A piece that fills the ring leaves nothing of what was there. -/
theorem keeps_refill {piece : List α} (h : n ≤ piece.length) (hn : 0 < n) :
    Keeps n ⟨lastOf n piece, 0⟩ (s ++ piece) := by
  have hlength : (lastOf n piece).length = n := by
    rw [length_lastOf]
    omega
  refine ⟨hlength, fun hshort => ?_, fun _ => ⟨hn, ?_⟩⟩
  · rw [List.length_append] at hshort
    omega
  · show lastOf n piece ++ [] = _
    have hdrop : (s ++ piece).length - n = s.length + (piece.length - n) := by
      rw [List.length_append]
      omega
    have hrest : s.length + (piece.length - n) - s.length = piece.length - n := by omega
    rw [List.append_nil, lastOf, lastOf, hdrop, List.drop_append, hrest,
      List.drop_eq_nil_of_le (Nat.le_add_right _ _), List.nil_append]

theorem Keeps.push (h : r.Keeps n s) (hn : 0 < n) (a : α) : (r.push a).Keeps n (s ++ [a]) := by
  have hslots : (r.push a).slots.length = n := by
    rw [RingBuffer.push, List.length_set, h.length]
  have hlength : (s ++ [a]).length = s.length + 1 := by
    rw [List.length_append, List.length_singleton]
  by_cases hs : s.length < n
  · obtain ⟨hnext, htake⟩ := h.filling hs
    have hslot : s.length < r.slots.length := h.length.symm ▸ hs
    have htake' : (r.push a).slots.take (s.length + 1) = s ++ [a] := by
      rw [RingBuffer.push, hnext, List.take_add_one, List.take_set_of_le (Nat.le_refl _), htake,
        List.getElem?_set_self hslot]
      rfl
    refine ⟨hslots, fun hshort => ?_, fun hfull => ?_⟩
    · rw [hlength] at hshort ⊢
      refine ⟨?_, htake'⟩
      rw [RingBuffer.push, hnext, h.length, Nat.mod_eq_of_lt hshort]
    · -- The last free slot is written, and the next one is the first.
      rw [hlength] at hfull
      have hlast : s.length + 1 = n := by omega
      have hback : (r.push a).next = 0 := by
        rw [RingBuffer.push, hnext, h.length, hlast, Nat.mod_self]
      have hall : (r.push a).slots = s ++ [a] := by
        rw [← htake', hlast, ← hslots, List.take_length]
      refine ⟨by omega, ?_⟩
      rw [unrolled, hback, List.drop_zero, List.take_zero, List.append_nil, hall,
        lastOf_of_length_le (by omega)]
  · rw [Nat.not_lt] at hs
    obtain ⟨hnext, hunrolled⟩ := h.full hs
    have hdrop : r.slots.drop r.next ≠ [] := by
      intro hnil
      have hle := List.drop_eq_nil_iff.1 hnil
      rw [h.length] at hle
      omega
    have htail : (lastOf n s).tail = r.slots.drop (r.next + 1) ++ r.slots.take r.next := by
      rw [← hunrolled, unrolled, List.tail_append_of_ne_nil hdrop, List.tail_drop]
    have hafter : (r.push a).slots.drop (r.next + 1) = r.slots.drop (r.next + 1) := by
      rw [RingBuffer.push, List.drop_set_of_lt (Nat.lt_succ_self _)]
    have hbefore : (r.push a).slots.take (r.next + 1) = r.slots.take r.next ++ [a] := by
      rw [RingBuffer.push, List.take_add_one, List.take_set_of_le (Nat.le_refl _),
        List.getElem?_set_self (h.length.symm ▸ hnext)]
      rfl
    refine ⟨hslots, fun hshort => by omega, fun _ => ?_⟩
    rw [lastOf_concat hs hn, htail, List.append_assoc, ← hbefore, ← hafter]
    by_cases hwrap : r.next + 1 < n
    · have hnext' : (r.push a).next = r.next + 1 := by
        rw [RingBuffer.push, h.length, Nat.mod_eq_of_lt hwrap]
      rw [unrolled, hnext']
      exact ⟨hwrap, rfl⟩
    · have hlast : r.next + 1 = n := by omega
      have hnext' : (r.push a).next = 0 := by
        rw [RingBuffer.push, h.length, hlast, Nat.mod_self]
      have hdropped : (r.push a).slots.drop n = [] :=
        List.drop_eq_nil_of_le (Nat.le_of_eq hslots)
      have htaken : (r.push a).slots.take n = (r.push a).slots :=
        List.take_of_length_le (Nat.le_of_eq hslots)
      rw [unrolled, hnext', hlast, hdropped, htaken, List.drop_zero, List.take_zero, List.append_nil,
        List.nil_append]
      exact ⟨hn, rfl⟩

theorem Keeps.pushAll (h : r.Keeps n s) (hn : 0 < n) (piece : List α) :
    (piece.foldl RingBuffer.push r).Keeps n (s ++ piece) := by
  induction piece generalizing r s with
  | nil =>
    rw [List.append_nil]
    exact h
  | cons a piece ih =>
    have hrest := ih (h.push hn a)
    rw [List.append_assoc, List.singleton_append] at hrest
    exact hrest

end RingBuffer
end XioFlow.Lib
