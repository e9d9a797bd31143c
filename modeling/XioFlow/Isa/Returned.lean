/-
  XioFlow.Isa.Returned

  What comes back of a value that was written: its text repaired and without a
  byte order mark, its objects with sorted keys, or an error of the reader.

  Whether a value comes back depends on the value alone, not on the bytes that
  follow it.
-/

import XioFlow.Isa.Reading
import XioFlow.Lib.Outcome

namespace XioFlow.Isa

open Lib Reader

/-! ## Trees -/

/-- Items and properties carry the hypothesis. -/
@[elab_as_elim]
theorem Tree.induct {P : Tree → Prop} (null : P .null) (bool : ∀ b, P (.bool b))
    (num : ∀ d, P (.num d)) (str : ∀ s, P (.str s))
    (arr : ∀ items, (∀ v ∈ items, P v) → P (.arr items))
    (obj : ∀ entries, (∀ e ∈ entries, P e.2) → P (.obj entries)) (v : Tree) : P v := by
  refine @Tree.rec P (fun items => ∀ v ∈ items, P v) (fun entries => ∀ e ∈ entries, P e.2)
    (fun e => P e.2) null bool num str arr obj ?_ ?_ ?_ ?_ ?_ v
  · intro v hv
    cases hv
  · intro v vs hv hvs
    exact List.forall_mem_cons.2 ⟨hv, hvs⟩
  · intro e he
    cases he
  · intro e es he hes
    exact List.forall_mem_cons.2 ⟨he, hes⟩
  · intro key v hv
    exact hv

/-! ## What comes back -/

/-- A string after both ways. -/
def received (s : Utf16) : Utf16 := Utf16.ofChars (stripMark s.scalars)

def receivedNumber (d : Binary64) : Binary64 := (d.safeInteger?.map Binary64.ofInt).getD d

/-- The object that the reader builds, from what comes back for its properties in their order. -/
def receive : Nat → List (Utf16 × Tree) → List (Utf16 × Except CodecError Tree) →
    Except CodecError (List (Utf16 × Tree))
  | _, acc, [] => .ok acc
  | 0, _, _ :: _ => .error depthExceeded
  | levels + 1, acc, (key, value) :: rest =>
    if received key ∈ acc.map Prod.fst then .error (.duplicateKey (received key))
    else do
      let value ← value
      receive (levels + 1) (acc ++ [(received key, value)]) rest

mutual

def returned : Nat → Tree → Except CodecError Tree
  | 0, .null => .error depthExceeded
  | 0, .bool _ => .error depthExceeded
  | 0, .num _ => .error depthExceeded
  | 0, .str _ => .error depthExceeded
  | 0, .arr _ => .error depthExceeded
  | 0, .obj _ => .error depthExceeded
  | _ + 1, .null => .ok .null
  | _ + 1, .bool b => .ok (.bool b)
  | _ + 1, .num d => .ok (.num (receivedNumber d))
  | _ + 1, .str s => .ok (.str (received s))
  | levels + 1, .arr items =>
    if MAX_CBOR_COLLECTION_LENGTH < items.length then .error collectionExceeded
    else (returnedItems levels items).map .arr
  | levels + 1, .obj entries =>
    if MAX_CBOR_COLLECTION_LENGTH < entries.length then .error collectionExceeded
    else (receive levels [] ((returnedValues levels entries).mergeSort keyLe)).map .obj

def returnedItems : Nat → List Tree → Except CodecError (List Tree)
  | _, [] => .ok []
  | levels, v :: vs => do
    let v ← returned levels v
    let vs ← returnedItems levels vs
    return v :: vs

def returnedValues : Nat → List (Utf16 × Tree) → List (Utf16 × Except CodecError Tree)
  | _, [] => []
  | levels, (key, v) :: es => (key, returned levels v) :: returnedValues levels es

end

theorem returned_zero (v : Tree) : returned 0 v = .error depthExceeded := by
  cases v <;> rfl

theorem writeValues_eq [Engine] (es : List (Utf16 × Tree)) :
    writeValues es = es.map fun e => (e.1, write e.2) := by
  induction es with
  | nil => rfl
  | cons e es ih => rw [writeValues, ih, List.map_cons]

theorem returnedValues_eq (levels : Nat) (es : List (Utf16 × Tree)) :
    returnedValues levels es = es.map fun e => (e.1, returned levels e.2) := by
  induction es with
  | nil => rfl
  | cons e es ih => rw [returnedValues, ih, List.map_cons]

/-- The order of the keys does not depend on what they stand for. -/
theorem map_mergeSort_keyLe {α β : Type} (f : α → β) (es : List (Utf16 × α)) :
    (es.map fun e => (e.1, f e.2)).mergeSort keyLe =
      (es.mergeSort keyLe).map fun e => (e.1, f e.2) := by
  have hmap := List.map_mergeSort (r := keyLe) (s := keyLe) (f := fun e : Utf16 × α => (e.1, f e.2))
    (l := es) fun _ _ _ _ => rfl
  exact hmap.symm

/-! ## Scalars -/

/-- The bytes of a value are read as what comes back for it, and no byte more. -/
def ReadsAs (levels : Nat) (bytes : List UInt8) (result : Except CodecError Tree) : Prop :=
  ∀ tail, (readValue false levels).run (bytes ++ tail) = result.map fun v => (v, tail)

theorem readsAs_zero (bytes : List UInt8) (v : Tree) : ReadsAs 0 bytes (returned 0 v) := by
  intro tail
  rw [returned_zero]
  rfl

variable {bytes : List UInt8}

/-- A text is written where its bytes are not too many for one call. -/
theorem writeText_eq_ok [Engine] {s : Utf16} (h : writeText s = .ok bytes) :
    ∃ head, writeHead 3 (bufferFrom s).length = .ok head ∧
      (bufferFrom s).length ≤ Engine.maxSpread ∧ bytes = head ++ bufferFrom s := by
  obtain ⟨head, hhead, hbytes⟩ := except_bind_ok h
  split at hbytes
  · cases hbytes
  · rename_i hfits
    cases hbytes
    exact ⟨head, hhead, not_lt.1 hfits, rfl⟩

theorem readsAs_text [Engine] {s : Utf16} (h : writeText s = .ok bytes) (levels : Nat) :
    ReadsAs (levels + 1) bytes (.ok (.str (received s))) := by
  intro tail
  obtain ⟨head, hhead, -, rfl⟩ := writeText_eq_ok h
  rw [List.append_assoc, readValue_writeHead (by omega) hhead]
  show (readText false (bufferFrom s).length).run (bufferFrom s ++ tail) = _
  have hread : (readBytes (bufferFrom s).length).run (bufferFrom s ++ tail) =
      .ok (bufferFrom s, tail) := by
    rw [run_readBytes, List.length_append, if_neg (by omega), List.take_left, List.drop_left]
  have hdecode : textDecode false (bufferFrom s) = .ok (received s) := by
    unfold textDecode bufferFrom
    rw [ofUtf8?_utf8]
    rfl
  rw [readText, run_bind_ok hread, hdecode]
  rfl

theorem readsAs_number {d : Binary64} (h : writeNumber d = .ok bytes) (levels : Nat) :
    ReadsAs (levels + 1) bytes (.ok (.num (receivedNumber d))) := by
  intro tail
  unfold writeNumber at h
  unfold receivedNumber
  cases hsafe : d.safeInteger? with
  | some n =>
    rw [hsafe] at h
    show _ = Except.ok (Tree.num (Binary64.ofInt n), tail)
    by_cases hsign : 0 ≤ n
    · simp only [if_pos hsign] at h
      rw [readValue_writeHead (by omega) h]
      show Except.ok (Tree.num (Binary64.ofInt (n.toNat : ℤ)), tail) = _
      rw [Int.toNat_of_nonneg hsign]
    · simp only [if_neg hsign] at h
      rw [readValue_writeHead (by omega) h]
      show Except.ok (Tree.num (Binary64.ofInt (-1 - ((-1 - n).toNat : ℤ))), tail) = _
      rw [show (-1 - ((-1 - n).toNat : ℤ)) = n by omega]
  | none =>
    rw [hsafe] at h
    cases h
    show (readValue false (levels + 1)).run (0xfb :: (bigEndian 8 d.bits ++ tail)) =
      Except.ok (Tree.num d, tail)
    have hbyte : readByte.run (0xfb :: (bigEndian 8 d.bits ++ tail)) =
        .ok (0xfb, bigEndian 8 d.bits ++ tail) := rfl
    have hread : (readBytes 8).run (bigEndian 8 d.bits ++ tail) =
        .ok (bigEndian 8 d.bits, tail) := by
      rw [run_readBytes, List.length_append, length_bigEndian, if_neg (by omega),
        List.take_left' (length_bigEndian _ _), List.drop_left' (length_bigEndian _ _)]
    rw [readValue, run_bind_ok hbyte]
    show (readFloat64).run (bigEndian 8 d.bits ++ tail) = _
    rw [readFloat64, run_bind_ok hread, fromBigEndian_bigEndian d.bits_lt,
      Binary64.ofBits?_bits]
    rfl

/-! ## Arrays and objects -/

theorem run_readItems [Engine] {levels : Nat} {vs : List Tree}
    (hvs : ∀ v ∈ vs, ∀ bytes, write v = .ok bytes → ReadsAs levels bytes (returned levels v))
    (h : writeItems vs = .ok bytes) (tail : List UInt8) :
    (readItems (readValue false levels) vs.length).run (bytes ++ tail) =
      (returnedItems levels vs).map fun ws => (ws, tail) := by
  induction vs generalizing bytes with
  | nil =>
    cases h
    rfl
  | cons v vs ih =>
    obtain ⟨item, hitem, h1⟩ := except_bind_ok h
    obtain ⟨rest, hrest, h2⟩ := except_bind_ok h1
    cases h2
    have hread := hvs v List.mem_cons_self item hitem (rest ++ tail)
    have hothers := ih (fun w hw => hvs w (List.mem_cons_of_mem _ hw)) hrest
    rw [List.append_assoc, List.length_cons, readItems, returnedItems]
    cases hreturned : returned levels v with
    | error =>
      rw [hreturned] at hread
      rw [run_bind_error hread]
      rfl
    | ok =>
      rw [hreturned] at hread
      rw [run_bind_ok hread]
      cases hreturnedItems : returnedItems levels vs with
      | error =>
        rw [hreturnedItems] at hothers
        rw [run_bind_error hothers]
        rfl
      | ok =>
        rw [hreturnedItems] at hothers
        rw [run_bind_ok hothers]
        rfl

theorem run_readEntries [Engine] {levels : Nat} {es : List (Utf16 × Tree)}
    (hes : ∀ e ∈ es, ∀ bytes, write e.2 = .ok bytes → ReadsAs levels bytes (returned levels e.2))
    (h : writeEntries (writeValues es) = .ok bytes) (acc : List (Utf16 × Tree))
    (tail : List UInt8) :
    (readEntries (readValue false levels) es.length acc).run (bytes ++ tail) =
      (receive levels acc (returnedValues levels es)).map fun entries => (entries, tail) := by
  induction es generalizing bytes acc with
  | nil =>
    cases h
    cases levels <;> rfl
  | cons e es ih =>
    obtain ⟨key, v⟩ := e
    obtain ⟨keyBytes, hkey, h1⟩ := except_bind_ok h
    obtain ⟨item, hitem, h2⟩ := except_bind_ok h1
    obtain ⟨rest, hrest, h3⟩ := except_bind_ok h2
    cases h3
    have hothers := fun acc => ih (fun w hw => hes w (List.mem_cons_of_mem _ hw)) hrest acc
    rw [List.append_assoc, List.append_assoc, List.length_cons, readEntries, returnedValues]
    cases levels with
    | zero =>
      have hread := readsAs_zero keyBytes (.str key) (item ++ (rest ++ tail))
      rw [run_bind_error hread]
      rfl
    | succ levels =>
      have hread := readsAs_text hkey levels (item ++ (rest ++ tail))
      rw [run_bind_ok hread, receive]
      simp only
      by_cases hdouble : received key ∈ acc.map Prod.fst
      · rw [if_pos hdouble, if_pos hdouble]
        rfl
      rw [if_neg hdouble, if_neg hdouble]
      have hvalue := hes (key, v) List.mem_cons_self item hitem (rest ++ tail)
      cases hreturned : returned (levels + 1) v with
      | error =>
        rw [hreturned] at hvalue
        rw [run_bind_error hvalue]
        rfl
      | ok =>
        rw [hreturned] at hvalue
        rw [run_bind_ok hvalue]
        exact hothers _

theorem run_checkCollectionLength (length : Nat) (s : List UInt8) :
    (checkCollectionLength length).run s =
      if MAX_CBOR_COLLECTION_LENGTH < length then .error collectionExceeded else .ok ((), s) := by
  unfold checkCollectionLength
  split <;> rfl

/-- A collection is refused for its length, or comes to what its content comes to. -/
theorem run_collection {α : Type} {p : Reader α} {f : α → Tree} {r : Except CodecError α}
    {s tail : List UInt8} (h : p.run s = r.map fun a => (a, tail)) (length : Nat) :
    (checkCollectionLength length >>= fun _ => p >>= fun a => pure (f a)).run s =
      (if MAX_CBOR_COLLECTION_LENGTH < length then .error collectionExceeded
        else r.map f).map fun v => (v, tail) := by
  have hcheck := run_checkCollectionLength length s
  by_cases hwide : MAX_CBOR_COLLECTION_LENGTH < length
  · rw [if_pos hwide] at hcheck ⊢
    rw [run_bind_error hcheck]
    rfl
  · rw [if_neg hwide] at hcheck ⊢
    rw [run_bind_ok hcheck]
    cases r with
    | error =>
      rw [run_bind_error h]
      rfl
    | ok =>
      rw [run_bind_ok h]
      rfl

/-- What was written is read to its end as what comes back. -/
theorem readsAs_returned [Engine] {v : Tree} (h : write v = .ok bytes) (levels : Nat) :
    ReadsAs levels bytes (returned levels v) := by
  induction v using Tree.induct generalizing bytes levels with
  | null =>
    cases h
    cases levels with
    | zero => exact readsAs_zero _ _
    | succ => exact fun tail => rfl
  | bool b =>
    cases h
    cases levels with
    | zero => exact readsAs_zero _ _
    | succ =>
      cases b
      · exact fun tail => rfl
      · exact fun tail => rfl
  | num =>
    cases levels with
    | zero => exact readsAs_zero _ _
    | succ levels => exact readsAs_number h levels
  | str =>
    cases levels with
    | zero => exact readsAs_zero _ _
    | succ levels => exact readsAs_text h levels
  | arr items ih =>
    cases levels with
    | zero => exact readsAs_zero _ _
    | succ levels =>
      intro tail
      obtain ⟨head, hhead, h1⟩ := except_bind_ok h
      obtain ⟨body, hbody, h2⟩ := except_bind_ok h1
      cases h2
      rw [List.append_assoc, readValue_writeHead (by omega) hhead, returned]
      exact run_collection
        (run_readItems (fun v hv bytes hw => ih v hv hw levels) hbody tail) items.length
  | obj entries ih =>
    cases levels with
    | zero => exact readsAs_zero _ _
    | succ levels =>
      intro tail
      obtain ⟨head, hhead, h1⟩ := except_bind_ok h
      obtain ⟨body, hbody, h2⟩ := except_bind_ok h1
      cases h2
      rw [List.append_assoc, readValue_writeHead (by omega) hhead, returned]
      -- the keys are sorted before anything is written
      have hperm := List.mergeSort_perm entries keyLe
      rw [writeValues_eq, map_mergeSort_keyLe, ← writeValues_eq] at hbody
      rw [returnedValues_eq, map_mergeSort_keyLe, ← returnedValues_eq]
      have hentries := run_readEntries
        (fun e he bytes hw => ih e (hperm.mem_iff.1 he) hw levels) hbody [] tail
      rw [hperm.length_eq] at hentries
      exact run_collection hentries entries.length

end XioFlow.Isa
