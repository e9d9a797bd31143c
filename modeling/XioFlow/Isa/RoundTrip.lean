/-
  XioFlow.Isa.RoundTrip

  Which values come back equal, and why the order of keys does not matter to
  the writer.
-/

import XioFlow.Isa.Returned

namespace XioFlow.Isa

open Lib
open Isa.Tree

/-! ## Equal values -/

section Same

variable (R : Binary64 → Binary64 → Prop)

mutual

/-- The values are the same up to the order of keys, and up to a relation of numbers. -/
def Same : Tree → Tree → Prop
  | .null, .null => True
  | .bool a, .bool b => a = b
  | .num a, .num b => R a b
  | .str s, .str t => s = t
  | .arr vs, .arr ws => SameItems vs ws
  | .obj es, .obj fs => es.length = fs.length ∧ SameEntries es fs
  | _, _ => False

def SameItems : List Tree → List Tree → Prop
  | [], [] => True
  | v :: vs, w :: ws => Same v w ∧ SameItems vs ws
  | _, _ => False

def SameEntries : List (Utf16 × Tree) → List (Utf16 × Tree) → Prop
  | [], _ => True
  | (key, v) :: es, fs => (∃ w, (key, w) ∈ fs ∧ Same v w) ∧ SameEntries es fs

end

variable {R}

theorem sameEntries_iff {es fs : List (Utf16 × Tree)} :
    SameEntries R es fs ↔ ∀ e ∈ es, ∃ w, (e.1, w) ∈ fs ∧ Same R e.2 w := by
  induction es with
  | nil =>
    rw [SameEntries]
    refine ⟨fun _ e he => ?_, fun _ => trivial⟩
    cases he
  | cons e es ih => rw [SameEntries, ih, List.forall_mem_cons]

end Same

/-- Equal values, with numbers compared by `==`. -/
abbrev Equal : Tree → Tree → Prop := Same fun a b => a.value = b.value

/-- Values that differ in the order of keys only. -/
abbrev Reordered : Tree → Tree → Prop := Same fun a b => a = b

/-! ## Text that comes back -/

theorem wellFormed_received (s : Utf16) : (received s).wellFormed = true :=
  Utf16.wellFormed_ofChars _

variable {s : Utf16} {levels : Nat} {entries : List (Utf16 × Tree)} {bytes : List UInt8}

/-- A string comes back when no surrogate in it stands alone and no byte order mark leads it. -/
theorem received_eq_self_iff : received s = s ↔ s.wellFormed = true ∧ s.marked = false := by
  constructor
  · intro h
    have hwell : s.wellFormed = true := by
      rw [← h]
      exact wellFormed_received s
    refine ⟨hwell, ?_⟩
    have hchars : stripMark s.scalars = s.scalars := by
      refine Utf16.ofChars_injective ?_
      rw [Utf16.ofChars_scalars hwell]
      exact h
    rw [← Bool.not_eq_true, ← Utf16.ofChars_scalars hwell, Utf16.marked_ofChars]
    exact stripMark_eq_self_iff.1 hchars
  · rintro ⟨hwell, hmarked⟩
    unfold received
    rw [stripMark_eq_self_iff.2, Utf16.ofChars_scalars hwell]
    intro hhead
    rw [← Utf16.marked_ofChars, Utf16.ofChars_scalars hwell, hmarked] at hhead
    cases hhead

/-- A leading mark is lost. -/
theorem length_received_of_marked (hwell : s.wellFormed = true) (hmarked : s.marked = true) :
    s.length = (received s).length + 1 := by
  have hhead : s.scalars.head? = some '\uFEFF' := by
    rw [← Utf16.marked_ofChars, Utf16.ofChars_scalars hwell]
    exact hmarked
  obtain ⟨cs, hcs⟩ : ∃ cs, s.scalars = '\uFEFF' :: cs := by
    cases hscalars : s.scalars with
    | nil =>
      rw [hscalars] at hhead
      cases hhead
    | cons c cs =>
      rw [hscalars, List.head?_cons, Option.some.injEq] at hhead
      exact ⟨cs, by rw [hhead]⟩
  have hlength := congrArg List.length (Utf16.ofChars_scalars hwell)
  unfold received
  rw [hcs] at hlength ⊢
  rw [← hlength, Utf16.ofChars_cons, List.length_append]
  show 1 + (Utf16.ofChars cs).length = (Utf16.ofChars cs).length + 1
  omega

/-- Keys that are all among the received ones come back unchanged: a key with a mark is received
    from a longer one, and that from a longer one still. -/
theorem received_fixes {keys : List Utf16} (h : ∀ k ∈ keys, ∃ k' ∈ keys, received k' = k) :
    ∀ k ∈ keys, received k = k := by
  have hwell : ∀ k ∈ keys, k.wellFormed = true := by
    intro k hk
    obtain ⟨k', -, rfl⟩ := h k hk
    exact wellFormed_received k'
  intro k hk
  refine received_eq_self_iff.2 ⟨hwell k hk, ?_⟩
  by_contra hmarked
  have hlonger : ∀ n, ∃ k ∈ keys, k.marked = true ∧ n ≤ k.length := by
    intro n
    induction n with
    | zero => exact ⟨k, hk, by simpa using hmarked, Nat.zero_le _⟩
    | succ n ih =>
      obtain ⟨k₁, hk₁, hmarked₁, hlength₁⟩ := ih
      obtain ⟨k₂, hk₂, hreceived⟩ := h k₁ hk₁
      have hmarked₂ : k₂.marked = true := by
        by_contra hunmarked
        have hsame := received_eq_self_iff.2 ⟨hwell k₂ hk₂, by simpa using hunmarked⟩
        rw [← hsame, hreceived] at hunmarked
        exact hunmarked hmarked₁
      refine ⟨k₂, hk₂, hmarked₂, ?_⟩
      rw [length_received_of_marked (hwell k₂ hk₂) hmarked₂, hreceived]
      omega
  obtain ⟨k₁, hk₁, -, hlength⟩ := hlonger (keys.flatten.length + 1)
  have hle := (List.sublist_flatten_of_mem hk₁).length_le
  omega

/-! ## Values that come back -/

mutual

/-- All strings of a value, keys included. -/
def Tree.strings : Tree → List Utf16
  | .str s => [s]
  | .arr items => stringsItems items
  | .obj entries => stringsEntries entries
  | _ => []

def Tree.stringsItems : List Tree → List Utf16
  | [] => []
  | v :: vs => v.strings ++ stringsItems vs

def Tree.stringsEntries : List (Utf16 × Tree) → List Utf16
  | [] => []
  | (key, v) :: es => key :: (v.strings ++ stringsEntries es)

end

mutual

/-- How deep arrays and objects are nested; empty ones do not count. -/
def Tree.depth : Tree → Nat
  | .arr items => depthItems items
  | .obj entries => depthEntries entries
  | _ => 0

def Tree.depthItems : List Tree → Nat
  | [] => 0
  | v :: vs => max (v.depth + 1) (depthItems vs)

def Tree.depthEntries : List (Utf16 × Tree) → Nat
  | [] => 0
  | (_, v) :: es => max (v.depth + 1) (depthEntries es)

end

mutual

/-- The lengths of all arrays and objects. -/
def Tree.widths : Tree → List Nat
  | .arr items => items.length :: widthsItems items
  | .obj entries => entries.length :: widthsEntries entries
  | _ => []

def Tree.widthsItems : List Tree → List Nat
  | [] => []
  | v :: vs => v.widths ++ widthsItems vs

def Tree.widthsEntries : List (Utf16 × Tree) → List Nat
  | [] => []
  | (_, v) :: es => v.widths ++ widthsEntries es

end

/-- Text survives both library routines, and the reader has levels and room enough. -/
structure Fits (levels : Nat) (v : Tree) : Prop where
  text : ∀ s ∈ v.strings, s.wellFormed = true ∧ s.marked = false
  depth : v.depth < levels
  width : ∀ n ∈ v.widths, n ≤ MAX_CBOR_COLLECTION_LENGTH

/-- What the codec carries. -/
abbrev Portable (v : Tree) : Prop := Fits (MAX_CBOR_DEPTH + 1) v

variable {vs : List Tree} {es : List (Utf16 × Tree)} {α : Type}

theorem mem_stringsItems : s ∈ stringsItems vs ↔ ∃ v ∈ vs, s ∈ v.strings := by
  induction vs with
  | nil => simp [stringsItems]
  | cons v vs ih => rw [stringsItems, List.mem_append, ih, List.exists_mem_cons_iff]

theorem mem_stringsEntries : s ∈ stringsEntries es ↔ ∃ e ∈ es, s = e.1 ∨ s ∈ e.2.strings := by
  induction es with
  | nil => simp [stringsEntries]
  | cons e es ih =>
    rw [stringsEntries, List.mem_cons, List.mem_append, ih, List.exists_mem_cons_iff,
      or_assoc]

theorem mem_widthsItems {n : Nat} : n ∈ widthsItems vs ↔ ∃ v ∈ vs, n ∈ v.widths := by
  induction vs with
  | nil => simp [widthsItems]
  | cons v vs ih => rw [widthsItems, List.mem_append, ih, List.exists_mem_cons_iff]

theorem mem_widthsEntries {n : Nat} : n ∈ widthsEntries es ↔ ∃ e ∈ es, n ∈ e.2.widths := by
  induction es with
  | nil => simp [widthsEntries]
  | cons e es ih => rw [widthsEntries, List.mem_append, ih, List.exists_mem_cons_iff]

theorem depthItems_lt : depthItems vs < levels + 1 ↔ ∀ v ∈ vs, v.depth < levels := by
  induction vs with
  | nil => simp [depthItems]
  | cons v vs ih =>
    rw [depthItems, List.forall_mem_cons, ← ih]
    omega

theorem depthEntries_lt : depthEntries es < levels + 1 ↔ ∀ e ∈ es, e.2.depth < levels := by
  induction es with
  | nil => simp [depthEntries]
  | cons e es ih =>
    rw [depthEntries, List.forall_mem_cons, ← ih]
    omega

theorem not_fits_zero (v : Tree) : ¬ Fits 0 v := fun h => absurd h.depth (Nat.not_lt_zero _)

theorem fits_arr {items : List Tree} :
    Fits (levels + 1) (.arr items) ↔
      items.length ≤ MAX_CBOR_COLLECTION_LENGTH ∧ ∀ v ∈ items, Fits levels v := by
  constructor
  · intro h
    refine ⟨h.width _ List.mem_cons_self, fun v hv => ⟨fun s hs => ?_, ?_, fun n hn => ?_⟩⟩
    · exact h.text s (mem_stringsItems.2 ⟨v, hv, hs⟩)
    · exact depthItems_lt.1 h.depth v hv
    · exact h.width n (List.mem_cons_of_mem _ (mem_widthsItems.2 ⟨v, hv, hn⟩))
  · rintro ⟨hlength, hitems⟩
    refine ⟨fun s hs => ?_, depthItems_lt.2 fun v hv => (hitems v hv).depth, fun n hn => ?_⟩
    · obtain ⟨v, hv, hmem⟩ := mem_stringsItems.1 hs
      exact (hitems v hv).text s hmem
    · rcases List.mem_cons.1 hn with rfl | hn
      · exact hlength
      · obtain ⟨v, hv, hmem⟩ := mem_widthsItems.1 hn
        exact (hitems v hv).width n hmem

theorem fits_obj :
    Fits (levels + 1) (.obj entries) ↔
      entries.length ≤ MAX_CBOR_COLLECTION_LENGTH ∧
        ∀ e ∈ entries, received e.1 = e.1 ∧ Fits levels e.2 := by
  constructor
  · intro h
    refine ⟨h.width _ List.mem_cons_self, fun e he => ⟨?_, fun s hs => ?_, ?_, fun n hn => ?_⟩⟩
    · exact received_eq_self_iff.2 (h.text e.1 (mem_stringsEntries.2 ⟨e, he, Or.inl rfl⟩))
    · exact h.text s (mem_stringsEntries.2 ⟨e, he, Or.inr hs⟩)
    · exact depthEntries_lt.1 h.depth e he
    · exact h.width n (List.mem_cons_of_mem _ (mem_widthsEntries.2 ⟨e, he, hn⟩))
  · rintro ⟨hlength, hentries⟩
    refine ⟨fun s hs => ?_, depthEntries_lt.2 fun e he => (hentries e he).2.depth, fun n hn => ?_⟩
    · obtain ⟨e, he, rfl | hmem⟩ := mem_stringsEntries.1 hs
      · exact received_eq_self_iff.1 (hentries e he).1
      · exact (hentries e he).2.text s hmem
    · rcases List.mem_cons.1 hn with rfl | hn
      · exact hlength
      · obtain ⟨e, he, hmem⟩ := mem_widthsEntries.1 hn
        exact (hentries e he).2.width n hmem

/-! ## Objects that come back -/

/-- A property of the object that the reader builds stands for one that was written. -/
def Stands (r : Utf16 × Except CodecError Tree) (f : Utf16 × Tree) : Prop :=
  f.1 = received r.1 ∧ r.2 = .ok f.2

theorem receive_ok {acc : List (Utf16 × Tree)} {rs : List (Utf16 × Except CodecError Tree)}
    {fs : List (Utf16 × Tree)} (h : receive levels acc rs = .ok fs)
    (hnodup : (acc.map Prod.fst).Nodup) :
    (∃ new, fs = acc ++ new ∧ List.Forall₂ Stands rs new) ∧ (fs.map Prod.fst).Nodup := by
  induction rs generalizing acc with
  | nil =>
    have hsame : fs = acc := by
      cases levels <;> exact (Except.ok.inj h).symm
    subst hsame
    exact ⟨⟨[], (List.append_nil _).symm, List.Forall₂.nil⟩, hnodup⟩
  | cons r rs ih =>
    obtain ⟨key, value⟩ := r
    cases levels with
    | zero => cases h
    | succ =>
      rw [receive] at h
      by_cases hdouble : received key ∈ acc.map Prod.fst
      · rw [if_pos hdouble] at h
        cases h
      rw [if_neg hdouble] at h
      obtain ⟨v, hv, hrest⟩ := except_bind_ok h
      have hnodup' : ((acc ++ [(received key, v)]).map Prod.fst).Nodup := by
        rw [List.map_append, List.nodup_append]
        refine ⟨hnodup, List.nodup_singleton _, fun a ha b hb => ?_⟩
        rw [List.mem_singleton.1 hb]
        rintro rfl
        exact hdouble ha
      obtain ⟨⟨new, rfl, hnew⟩, hall⟩ := ih hrest hnodup'
      refine ⟨⟨(received key, v) :: new, ?_, List.Forall₂.cons ⟨rfl, hv⟩ hnew⟩, hall⟩
      rw [List.append_assoc, List.singleton_append]

theorem receive_succeeds {acc : List (Utf16 × Tree)} {rs : List (Utf16 × Except CodecError Tree)}
    (hlevels : rs ≠ [] → 0 < levels) (hok : ∀ r ∈ rs, ∃ v, r.2 = .ok v)
    (hnodup : (acc.map Prod.fst ++ rs.map fun r => received r.1).Nodup) :
    ∃ fs, receive levels acc rs = .ok fs := by
  induction rs generalizing acc with
  | nil => cases levels <;> exact ⟨acc, rfl⟩
  | cons r rs ih =>
    obtain ⟨key, value⟩ := r
    obtain ⟨v, hv⟩ := hok _ List.mem_cons_self
    have hv' : value = .ok v := hv
    subst hv'
    cases levels with
    | zero => exact absurd (hlevels (List.cons_ne_nil _ _)) (Nat.lt_irrefl _)
    | succ =>
      rw [receive]
      have hnew : received key ∉ acc.map Prod.fst := by
        intro hmem
        rw [List.map_cons] at hnodup
        exact (List.nodup_append.1 hnodup).2.2 _ hmem _ List.mem_cons_self rfl
      rw [if_neg hnew]
      refine ih (fun _ => Nat.succ_pos _) (fun r hr => hok r (List.mem_cons_of_mem _ hr)) ?_
      rw [List.map_append, List.append_assoc]
      exact hnodup

theorem mem_of_forall₂ {β : Type} {P : α → β → Prop} {xs : List α} {ys : List β}
    (h : List.Forall₂ P xs ys) {x : α} (hx : x ∈ xs) : ∃ y ∈ ys, P x y := by
  induction h with
  | nil => cases hx
  | cons hp _ ih =>
    rcases List.mem_cons.1 hx with rfl | hx
    · exact ⟨_, List.mem_cons_self, hp⟩
    · obtain ⟨y, hy, hxy⟩ := ih hx
      exact ⟨y, List.mem_cons_of_mem _ hy, hxy⟩

/-- The object that comes back, and what each of its properties stands for. -/
theorem returned_obj_ok {w : Tree} (h : returned (levels + 1) (.obj entries) = .ok w) :
    entries.length ≤ MAX_CBOR_COLLECTION_LENGTH ∧ ∃ fs, w = .obj fs ∧
      fs.length = entries.length ∧ (fs.map Prod.fst).Nodup ∧
      (∀ e ∈ entries, ∃ v, (received e.1, v) ∈ fs ∧ returned levels e.2 = .ok v) ∧
      ∀ f ∈ fs, ∃ e ∈ entries, f.1 = received e.1 := by
  rw [returned] at h
  by_cases hwide : MAX_CBOR_COLLECTION_LENGTH < entries.length
  · rw [if_pos hwide] at h
    cases h
  rw [if_neg hwide] at h
  refine ⟨not_lt.1 hwide, ?_⟩
  cases hreceive : receive levels [] ((returnedValues levels entries).mergeSort keyLe) with
  | error =>
    rw [hreceive] at h
    cases h
  | ok fs =>
    rw [hreceive] at h
    obtain ⟨⟨new, hnew, hstands⟩, hnodup⟩ := receive_ok hreceive List.nodup_nil
    rw [List.nil_append] at hnew
    subst hnew
    have hperm := List.mergeSort_perm (returnedValues levels entries) keyLe
    have hmem : ∀ r, r ∈ (returnedValues levels entries).mergeSort keyLe ↔
        ∃ e ∈ entries, (e.1, returned levels e.2) = r := by
      intro r
      rw [hperm.mem_iff, returnedValues_eq, List.mem_map]
    refine ⟨fs, (Except.ok.inj h).symm, ?_, hnodup, fun e he => ?_, fun f hf => ?_⟩
    · rw [← hstands.length_eq, hperm.length_eq, returnedValues_eq, List.length_map]
    · obtain ⟨f, hf, hkey, hvalue⟩ := mem_of_forall₂ hstands ((hmem _).2 ⟨e, he, rfl⟩)
      refine ⟨f.2, ?_, hvalue⟩
      rw [← hkey]
      exact hf
    · obtain ⟨r, hr, hkey, -⟩ := mem_of_forall₂ hstands.flip hf
      obtain ⟨e, he, rfl⟩ := (hmem r).1 hr
      exact ⟨e, he, hkey⟩

/-! ## The way there and back -/

/-- The value comes back equal. -/
def ComesBack (levels : Nat) (v : Tree) : Prop := ∃ w, returned levels v = .ok w ∧ Equal v w

theorem not_comesBack_zero (v : Tree) : ¬ ComesBack 0 v := by
  rintro ⟨w, hw, -⟩
  rw [returned_zero] at hw
  cases hw

/-- A number comes back as one that is equal, though zero may have changed its sign. -/
theorem value_receivedNumber (d : Binary64) : (receivedNumber d).value = d.value := by
  unfold receivedNumber
  cases hsafe : d.safeInteger? with
  | none => rfl
  | some n =>
    obtain ⟨hvalue, hbound⟩ := Binary64.safeInteger?_eq_some hsafe
    show (Binary64.ofInt n).value = d.value
    rw [Binary64.value_ofInt (by omega), hvalue]

theorem returnedItems_same_iff :
    (∃ ws, returnedItems levels vs = .ok ws ∧ SameItems (fun a b => a.value = b.value) vs ws) ↔
      ∀ v ∈ vs, ComesBack levels v := by
  induction vs with
  | nil => exact ⟨fun _ v hv => absurd hv List.not_mem_nil, fun _ => ⟨[], rfl, trivial⟩⟩
  | cons v vs ih =>
    rw [List.forall_mem_cons, ← ih]
    constructor
    · rintro ⟨ws, hws, hsame⟩
      obtain ⟨w, hw, h1⟩ := except_bind_ok hws
      obtain ⟨rest, hrest, h2⟩ := except_bind_ok h1
      cases h2
      exact ⟨⟨w, hw, hsame.1⟩, rest, hrest, hsame.2⟩
    · rintro ⟨⟨w, hw, hsame⟩, ws, hws, hrest⟩
      refine ⟨w :: ws, ?_, hsame, hrest⟩
      rw [returnedItems, hw, hws]
      rfl

theorem comesBack_arr {items : List Tree} :
    ComesBack (levels + 1) (.arr items) ↔
      items.length ≤ MAX_CBOR_COLLECTION_LENGTH ∧ ∀ v ∈ items, ComesBack levels v := by
  rw [← returnedItems_same_iff]
  unfold ComesBack
  rw [returned]
  by_cases hwide : MAX_CBOR_COLLECTION_LENGTH < items.length
  · rw [if_pos hwide]
    constructor
    · rintro ⟨w, hw, -⟩
      cases hw
    · rintro ⟨hle, -⟩
      exact absurd hwide (not_lt.2 hle)
  · rw [if_neg hwide]
    constructor
    · rintro ⟨w, hw, hsame⟩
      refine ⟨not_lt.1 hwide, ?_⟩
      cases hitems : returnedItems levels items with
      | error =>
        rw [hitems] at hw
        cases hw
      | ok ws =>
        rw [hitems] at hw
        cases hw
        exact ⟨ws, rfl, hsame⟩
    · rintro ⟨-, ws, hws, hsame⟩
      exact ⟨.arr ws, by rw [hws]; rfl, hsame⟩

theorem comesBack_obj (hdistinct : (entries.map Prod.fst).Nodup) :
    ComesBack (levels + 1) (.obj entries) ↔
      entries.length ≤ MAX_CBOR_COLLECTION_LENGTH ∧
        ∀ e ∈ entries, received e.1 = e.1 ∧ ComesBack levels e.2 := by
  constructor
  · rintro ⟨w, hw, hsame⟩
    obtain ⟨hlength, fs, rfl, -, hnodup, hstands, hfrom⟩ := returned_obj_ok hw
    have hfound := sameEntries_iff.1 hsame.2
    have hfixed : ∀ k ∈ entries.map Prod.fst, received k = k := by
      refine received_fixes fun k hk => ?_
      obtain ⟨e, he, rfl⟩ := List.mem_map.1 hk
      obtain ⟨w, hmem, -⟩ := hfound e he
      obtain ⟨e', he', hkey⟩ := hfrom _ hmem
      exact ⟨e'.1, List.mem_map_of_mem he', hkey.symm⟩
    refine ⟨hlength, fun e he => ⟨hfixed e.1 (List.mem_map_of_mem he), ?_⟩⟩
    -- the two properties of this key in the object that came back are one
    obtain ⟨w, hmem, hequal⟩ := hfound e he
    obtain ⟨v, hmem', hreturned⟩ := hstands e he
    rw [hfixed e.1 (List.mem_map_of_mem he)] at hmem'
    have hone := List.inj_on_of_nodup_map hnodup hmem hmem' rfl
    have hvalue : w = v := congrArg Prod.snd hone
    rw [hvalue] at hequal
    exact ⟨v, hreturned, hequal⟩
  · rintro ⟨hlength, hentries⟩
    have hperm := List.mergeSort_perm (returnedValues levels entries) keyLe
    obtain ⟨fs, hreceive⟩ : ∃ fs, receive levels []
        ((returnedValues levels entries).mergeSort keyLe) = .ok fs := by
      refine receive_succeeds (fun hne => ?_) (fun r hr => ?_) ?_
      · obtain ⟨r, hr⟩ := List.exists_mem_of_ne_nil _ hne
        rw [hperm.mem_iff, returnedValues_eq, List.mem_map] at hr
        obtain ⟨e, he, -⟩ := hr
        cases levels with
        | zero => exact absurd (hentries e he).2 (not_comesBack_zero _)
        | succ => exact Nat.succ_pos _
      · rw [hperm.mem_iff, returnedValues_eq, List.mem_map] at hr
        obtain ⟨e, he, rfl⟩ := hr
        obtain ⟨v, hv, -⟩ := (hentries e he).2
        exact ⟨v, hv⟩
      · rw [List.map_nil, List.nil_append, (hperm.map _).nodup_iff, returnedValues_eq,
          List.map_map]
        have hkeys : (entries.map fun e => received e.1) = entries.map Prod.fst :=
          List.map_congr_left fun e he => (hentries e he).1
        exact (congrArg List.Nodup hkeys).mpr hdistinct
    have hreturned : returned (levels + 1) (.obj entries) = .ok (.obj fs) := by
      rw [returned, if_neg (not_lt.2 hlength), hreceive]
      rfl
    obtain ⟨-, fs', hfs', hlengths, -, hstands, -⟩ := returned_obj_ok hreturned
    cases hfs'
    refine ⟨.obj fs, hreturned, hlengths.symm, sameEntries_iff.2 fun e he => ?_⟩
    obtain ⟨v, hmem, hv⟩ := hstands e he
    obtain ⟨hkey, w, hw, hequal⟩ := hentries e he
    rw [hkey] at hmem
    rw [hw] at hv
    cases hv
    exact ⟨_, hmem, hequal⟩

theorem distinctItems_iff : Tree.DistinctItems vs ↔ ∀ v ∈ vs, v.Distinct := by
  induction vs with
  | nil => exact ⟨fun _ v hv => absurd hv List.not_mem_nil, fun _ => trivial⟩
  | cons v vs ih => rw [Tree.DistinctItems, ih, List.forall_mem_cons]

theorem distinctEntries_iff : Tree.DistinctEntries es ↔ ∀ e ∈ es, e.2.Distinct := by
  induction es with
  | nil => exact ⟨fun _ e he => absurd he List.not_mem_nil, fun _ => trivial⟩
  | cons e es ih => rw [Tree.DistinctEntries, ih, List.forall_mem_cons]

/-- A scalar fits where there is a level left and its text is clean. -/
theorem fits_scalar {v : Tree} (hdepth : v.depth = 0) (hwidths : v.widths = []) :
    Fits (levels + 1) v ↔ ∀ s ∈ v.strings, received s = s := by
  constructor
  · exact fun h s hs => received_eq_self_iff.2 (h.text s hs)
  · intro h
    refine ⟨fun s hs => received_eq_self_iff.1 (h s hs), by omega, fun n hn => ?_⟩
    rw [hwidths] at hn
    cases hn

/-- A value comes back equal if and only if it fits. -/
theorem comesBack_iff {v : Tree} (hdistinct : v.Distinct) (levels : Nat) :
    ComesBack levels v ↔ Fits levels v := by
  induction v using induct generalizing levels with
  | null =>
    cases levels with
    | zero => exact iff_of_false (not_comesBack_zero _) (not_fits_zero _)
    | succ =>
      rw [fits_scalar rfl rfl]
      exact iff_of_true ⟨.null, rfl, trivial⟩ fun s hs => by cases hs
  | bool b =>
    cases levels with
    | zero => exact iff_of_false (not_comesBack_zero _) (not_fits_zero _)
    | succ =>
      rw [fits_scalar rfl rfl]
      exact iff_of_true ⟨.bool b, rfl, rfl⟩ fun s hs => by cases hs
  | num d =>
    cases levels with
    | zero => exact iff_of_false (not_comesBack_zero _) (not_fits_zero _)
    | succ =>
      rw [fits_scalar rfl rfl]
      exact iff_of_true ⟨_, rfl, (value_receivedNumber d).symm⟩ fun s hs => by cases hs
  | str s =>
    cases levels with
    | zero => exact iff_of_false (not_comesBack_zero _) (not_fits_zero _)
    | succ =>
      rw [fits_scalar rfl rfl, show strings (.str s) = [s] from rfl,
        List.forall_mem_singleton]
      constructor
      · rintro ⟨w, hw, hequal⟩
        cases hw
        exact hequal.symm
      · intro h
        exact ⟨_, rfl, h.symm⟩
  | arr items ih =>
    cases levels with
    | zero => exact iff_of_false (not_comesBack_zero _) (not_fits_zero _)
    | succ levels =>
      rw [comesBack_arr, fits_arr]
      have hitems := distinctItems_iff.1 hdistinct
      exact and_congr_right fun _ => forall₂_congr fun v hv => ih v hv (hitems v hv) levels
  | obj entries ih =>
    cases levels with
    | zero => exact iff_of_false (not_comesBack_zero _) (not_fits_zero _)
    | succ levels =>
      rw [comesBack_obj hdistinct.1, fits_obj]
      have hentries := distinctEntries_iff.1 hdistinct.2
      exact and_congr_right fun _ => forall₂_congr fun e he =>
        and_congr_right fun _ => ih e he (hentries e he) levels

/-! ## The order of keys -/

theorem pairwise_mergeSort_keyLe (es : List (Utf16 × α)) :
    (es.mergeSort keyLe).Pairwise fun a b => keyLe a b := by
  refine List.pairwise_mergeSort (fun a b c hab hbc => ?_) (fun a b => ?_) es
  · have h1 : a.1 ≤ b.1 := of_decide_eq_true hab
    have h2 : b.1 ≤ c.1 := of_decide_eq_true hbc
    exact decide_eq_true (le_trans h1 h2)
  · rw [Bool.or_eq_true]
    rcases le_total a.1 b.1 with h | h
    · exact Or.inl (decide_eq_true h)
    · exact Or.inr (decide_eq_true h)

/-- Sorted lists of the same properties, with distinct keys, are equal. -/
theorem eq_of_pairwise_keyLe {es fs : List (Utf16 × α)} (hperm : es.Perm fs)
    (hnodup : (es.map Prod.fst).Nodup) (hes : es.Pairwise fun a b => keyLe a b)
    (hfs : fs.Pairwise fun a b => keyLe a b) : es = fs := by
  refine List.Perm.eq_of_pairwise (fun a b ha hb hab hba => ?_) hes hfs hperm
  have hkey : a.1 = b.1 := le_antisymm (of_decide_eq_true hab) (of_decide_eq_true hba)
  exact List.inj_on_of_nodup_map hnodup ha (hperm.mem_iff.2 hb) hkey

/-- Lists of distinct keys are sorted to one list. -/
theorem mergeSort_keyLe_eq {es fs : List (Utf16 × α)} (hperm : es.Perm fs)
    (hnodup : (es.map Prod.fst).Nodup) : es.mergeSort keyLe = fs.mergeSort keyLe := by
  have hes := List.mergeSort_perm es keyLe
  have hfs := List.mergeSort_perm fs keyLe
  exact eq_of_pairwise_keyLe (hes.trans (hperm.trans hfs.symm))
    ((hes.map Prod.fst).nodup_iff.2 hnodup) (pairwise_mergeSort_keyLe es)
    (pairwise_mergeSort_keyLe fs)

theorem writeItems_same [Engine] {ws : List Tree} (hsame : SameItems (fun a b => a = b) vs ws)
    (h : ∀ v ∈ vs, ∀ w, Reordered v w → w.Distinct → write v = write w)
    (hdistinct : Tree.DistinctItems ws) :
    vs.length = ws.length ∧ writeItems vs = writeItems ws := by
  induction vs generalizing ws with
  | nil =>
    cases ws with
    | nil => exact ⟨rfl, rfl⟩
    | cons => exact hsame.elim
  | cons v vs ih =>
    cases ws with
    | nil => exact hsame.elim
    | cons w =>
      obtain ⟨hlength, hrest⟩ := ih hsame.2 (fun v hv => h v (List.mem_cons_of_mem _ hv))
        hdistinct.2
      rw [List.length_cons, List.length_cons, hlength, writeItems, writeItems, hrest,
        h v List.mem_cons_self w hsame.1 hdistinct.1]
      exact ⟨rfl, rfl⟩

/-- The writer does not see the order of keys. -/
theorem write_reordered [Engine] {v w : Tree} (hsame : Reordered v w) (hv : v.Distinct)
    (hw : w.Distinct) : write v = write w := by
  induction v using induct generalizing w with
  | null =>
    cases w with
    | null => rfl
    | _ => exact hsame.elim
  | bool b =>
    cases w with
    | bool => exact congrArg (fun b => write (.bool b)) hsame
    | _ => exact hsame.elim
  | num d =>
    cases w with
    | num => exact congrArg (fun d => write (.num d)) hsame
    | _ => exact hsame.elim
  | str s =>
    cases w with
    | str => exact congrArg (fun s => write (.str s)) hsame
    | _ => exact hsame.elim
  | arr items ih =>
    cases w with
    | arr =>
      have hitems := distinctItems_iff.1 hv
      obtain ⟨hlength, hwritten⟩ := writeItems_same hsame
        (fun v hmem w hvw hdistinct => ih v hmem hvw (hitems v hmem) hdistinct) hw
      rw [write, write, hlength, hwritten]
    | _ => exact hsame.elim
  | obj entries ih =>
    cases w with
    | obj entries' =>
      obtain ⟨hlength, hfound⟩ := hsame
      have hdistinct := distinctEntries_iff.1 hv.2
      have hdistinct' := distinctEntries_iff.1 hw.2
      have hkeys : ((writeValues entries).map Prod.fst).Nodup := by
        rw [writeValues_eq, List.map_map]
        exact hv.1
      have hsubset : writeValues entries ⊆ writeValues entries' := by
        intro r hr
        rw [writeValues_eq, List.mem_map] at hr ⊢
        obtain ⟨e, he, rfl⟩ := hr
        obtain ⟨w, hmem, hvw⟩ := sameEntries_iff.1 hfound e he
        exact ⟨(e.1, w), hmem,
          congrArg (Prod.mk e.1) (ih e he hvw (hdistinct e he) (hdistinct' _ hmem)).symm⟩
      have hperm : (writeValues entries).Perm (writeValues entries') := by
        refine (List.subperm_of_subset hkeys.of_map hsubset).perm_of_length_le ?_
        rw [writeValues_eq, writeValues_eq, List.length_map, List.length_map, hlength]
      rw [write, write, hlength, mergeSort_keyLe_eq hperm hkeys]
    | _ => exact hsame.elim

/-! ## Prefixes and extensions -/

/-- A document is read when a value is, and nothing is left. -/
theorem run_readDocument_ok {ignoreBOM : Bool} {rest : List UInt8} {v : Tree} :
    (readDocument ignoreBOM).run bytes = .ok (v, rest) ↔
      (readValue ignoreBOM (MAX_CBOR_DEPTH + 1)).run bytes = .ok (v, rest) ∧ rest = [] := by
  constructor
  · intro h
    obtain ⟨w, rest', hread, h1⟩ := Reader.bind_ok h
    obtain ⟨bytes', rest'', hget, h2⟩ := Reader.bind_ok h1
    cases hget
    cases rest' with
    | nil =>
      cases h2
      exact ⟨hread, rfl⟩
    | cons => cases h2
  · rintro ⟨hread, rfl⟩
    unfold readDocument
    rw [Reader.run_bind_ok hread]
    rfl

theorem decodeCbor_ok_iff {v : Tree} :
    decodeCbor bytes = .ok v ↔
      (readValue false (MAX_CBOR_DEPTH + 1)).run bytes = .ok (v, []) := by
  unfold decodeCbor
  constructor
  · intro h
    cases hrun : (readDocument false).run bytes with
    | error =>
      rw [hrun] at h
      cases h
    | ok =>
      rw [hrun] at h
      cases h
      obtain ⟨hread, hrest⟩ := run_readDocument_ok.1 hrun
      rw [hread, hrest]
  · intro h
    rw [run_readDocument_ok.2 ⟨h, rfl⟩]
    rfl

/-- What decoding an encoding gives. -/
theorem decodeCbor_encodeCbor [Engine] {v : Tree} (h : encodeCbor v = .ok bytes) (w : Tree) :
    decodeCbor bytes = .ok w ↔ returned (MAX_CBOR_DEPTH + 1) v = .ok w := by
  have hread := readsAs_returned h (MAX_CBOR_DEPTH + 1) []
  rw [List.append_nil] at hread
  rw [decodeCbor_ok_iff, hread]
  cases returned (MAX_CBOR_DEPTH + 1) v with
  | error =>
    constructor
    · intro h
      cases h
    · intro h
      cases h
  | ok =>
    constructor
    · intro h
      cases h
      rfl
    · intro h
      cases h
      rfl

theorem decodeCbor_extension [Engine] {v : Tree} {more : List UInt8}
    (h : encodeCbor v = .ok bytes) (hmore : more ≠ []) (w : Tree) : decodeCbor (bytes ++ more) ≠ .ok w := by
  intro hdecode
  have hread := decodeCbor_ok_iff.1 hdecode
  rw [readsAs_returned h] at hread
  cases hreturned : returned (MAX_CBOR_DEPTH + 1) v with
  | error =>
    rw [hreturned] at hread
    cases hread
  | ok =>
    rw [hreturned] at hread
    exact hmore (congrArg Prod.snd (Except.ok.inj hread))

/-- A prefix that could be read alone would be read alone in the whole encoding too. -/
theorem decodeCbor_prefix [Engine] {v : Tree} {start more : List UInt8}
    (h : encodeCbor v = .ok bytes) (hsplit : bytes = start ++ more) (hmore : more ≠ [])
    (w : Tree) : decodeCbor start ≠ .ok w := by
  intro hdecode
  have hread := extends_readValue false (MAX_CBOR_DEPTH + 1) start w [] more
    (decodeCbor_ok_iff.1 hdecode)
  have hwhole := readsAs_returned h (MAX_CBOR_DEPTH + 1) []
  rw [List.append_nil, hsplit, hread] at hwhole
  cases hreturned : returned (MAX_CBOR_DEPTH + 1) v with
  | error =>
    rw [hreturned] at hwhole
    cases hwhole
  | ok =>
    rw [hreturned] at hwhole
    exact hmore (congrArg Prod.snd (Except.ok.inj hwhole))

end XioFlow.Isa
