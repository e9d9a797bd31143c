/-
  XioFlow.Isa.Canonical

  Which values the canonical text tells apart, and which it gives back.

  The canonical text of a value is the one of the value without its properties
  named `__proto__`; among values without them it is the same exactly for
  equal values.
-/

import XioFlow.Isa.JsonCodec
import XioFlow.Isa.RoundTrip
import XioFlow.Lib.Utf8Decoder

namespace XioFlow.Isa

open Lib Lib.JsonText

/-! ## Values without a property named `__proto__` -/

mutual

/-- No object at any depth has a property named `__proto__`. -/
def Tree.Clean : Tree → Prop
  | .arr items => Tree.CleanItems items
  | .obj entries => Tree.CleanEntries entries
  | _ => True

def Tree.CleanItems : List Tree → Prop
  | [] => True
  | v :: vs => v.Clean ∧ Tree.CleanItems vs

def Tree.CleanEntries : List (Utf16 × Tree) → Prop
  | [] => True
  | (key, v) :: es => (key ≠ protoKey ∧ v.Clean) ∧ Tree.CleanEntries es

end

variable {vs : List Tree} {es : List (Utf16 × Tree)} {α : Type} {w : Tree}

theorem cleanItems_iff : Tree.CleanItems vs ↔ ∀ v ∈ vs, v.Clean := by
  induction vs with
  | nil => exact ⟨fun _ v hv => absurd hv List.not_mem_nil, fun _ => trivial⟩
  | cons v vs ih => rw [Tree.CleanItems, ih, List.forall_mem_cons]

theorem cleanEntries_iff : Tree.CleanEntries es ↔ ∀ e ∈ es, e.1 ≠ protoKey ∧ e.2.Clean := by
  induction es with
  | nil => exact ⟨fun _ e he => absurd he List.not_mem_nil, fun _ => trivial⟩
  | cons e es ih => rw [Tree.CleanEntries, ih, List.forall_mem_cons]

def notProto {α : Type} (e : Utf16 × α) : Bool := e.1 ≠ protoKey

mutual

/-- The value without the properties named `__proto__`. -/
def dropProto : Tree → Tree
  | .arr items => .arr (dropProtoItems items)
  | .obj entries => .obj (dropProtoEntries entries)
  | .null => .null
  | .bool b => .bool b
  | .num d => .num d
  | .str s => .str s

def dropProtoItems : List Tree → List Tree
  | [] => []
  | v :: vs => dropProto v :: dropProtoItems vs

def dropProtoEntries : List (Utf16 × Tree) → List (Utf16 × Tree)
  | [] => []
  | (key, v) :: es =>
    if key = protoKey then dropProtoEntries es else (key, dropProto v) :: dropProtoEntries es

end

theorem dropProtoItems_eq (vs : List Tree) : dropProtoItems vs = vs.map dropProto := by
  induction vs with
  | nil => rfl
  | cons v vs ih => rw [dropProtoItems, ih, List.map_cons]

theorem dropProtoEntries_eq (es : List (Utf16 × Tree)) :
    dropProtoEntries es = (es.filter notProto).map fun e => (e.1, dropProto e.2) := by
  induction es with
  | nil => rfl
  | cons e es ih =>
    rw [dropProtoEntries, ih]
    by_cases hproto : e.1 = protoKey
    · rw [if_pos hproto, List.filter_cons_of_neg (by simpa [notProto] using hproto)]
    · rw [if_neg hproto, List.filter_cons_of_pos (by simpa [notProto] using hproto), List.map_cons]

/-! ## Canonical values -/

/-- What the canonical text of a value is written of. -/
def canonicalValue (v : Tree) : Value := written (canonicalize v)

theorem canonicalizeItems_eq (vs : List Tree) : canonicalizeItems vs = vs.map canonicalize := by
  induction vs with
  | nil => rfl
  | cons v vs ih => rw [canonicalizeItems, ih, List.map_cons]

theorem canonicalizeEntries_eq (es : List (Utf16 × Tree)) :
    canonicalizeEntries es = es.map fun e => (e.1, canonicalize e.2) := by
  induction es with
  | nil => rfl
  | cons e es ih => rw [canonicalizeEntries, ih, List.map_cons]

theorem writtenItems_eq (vs : List Tree) : writtenItems vs = vs.map written := by
  induction vs with
  | nil => rfl
  | cons v vs ih => rw [writtenItems, ih, List.map_cons]

theorem writtenEntries_eq (es : List (Utf16 × Tree)) :
    writtenEntries es = es.map fun e => (e.1, written e.2) := by
  induction es with
  | nil => rfl
  | cons e es ih => rw [writtenEntries, ih, List.map_cons]

/-- Of the assignments the ones under `__proto__` leave nothing. -/
theorem assignAll_eq (es : List (Utf16 × Tree)) : assignAll es = es.filter notProto := by
  have hfold : ∀ (es acc : List (Utf16 × Tree)),
      es.foldl (fun output e => assign output e.1 e.2) acc = acc ++ es.filter notProto := by
    intro es
    induction es with
    | nil => exact fun acc => (List.append_nil acc).symm
    | cons e es ih =>
      intro acc
      rw [List.foldl_cons, ih, assign]
      by_cases hproto : e.1 = protoKey
      · rw [if_pos hproto, List.filter_cons_of_neg (by simpa [notProto] using hproto)]
      · rw [if_neg hproto, List.filter_cons_of_pos (by simpa [notProto] using hproto),
          List.append_assoc, List.singleton_append]
  exact hfold es []

theorem enumerated_perm (es : List (Utf16 × α)) : (enumerated es).Perm es := by
  unfold enumerated
  have hsplit := List.filter_append_perm (fun e : Utf16 × α => (indexOf? e.1).isSome) es
  have hrest : (es.filter fun e => (indexOf? e.1).isNone) =
      es.filter fun e => !(indexOf? e.1).isSome :=
    List.filter_congr fun e _ => by cases indexOf? e.1 <;> rfl
  rw [hrest]
  exact ((List.mergeSort_perm _ _).append_right _).trans hsplit

theorem canonicalValue_arr (items : List Tree) :
    canonicalValue (.arr items) = .arr (items.map canonicalValue) := by
  unfold canonicalValue
  rw [canonicalize, canonicalizeItems_eq, written, writtenItems_eq, List.map_map]
  rfl

/-- The properties of a canonical object: sorted by key, without `__proto__`, and enumerated. -/
theorem canonicalValue_obj (entries : List (Utf16 × Tree)) :
    canonicalValue (.obj entries) = .obj (enumerated
      (((entries.map fun e => (e.1, canonicalValue e.2)).mergeSort keyLe).filter notProto)) := by
  have hwritten : ∀ es : List (Utf16 × Tree),
      (es.filter notProto).map (fun e => (e.1, written e.2)) =
        (es.map fun e => (e.1, written e.2)).filter notProto := by
    intro es
    rw [List.filter_map]
    rfl
  unfold canonicalValue
  rw [canonicalize, canonicalizeEntries_eq, written, writtenEntries_eq, assignAll_eq, hwritten,
    ← map_mergeSort_keyLe written, List.map_map]
  rfl

/-- Sorting does not care for what is left out. -/
theorem filter_mergeSort_keyLe {es : List (Utf16 × α)} (hnodup : (es.map Prod.fst).Nodup)
    (p : Utf16 × α → Bool) : (es.mergeSort keyLe).filter p = (es.filter p).mergeSort keyLe := by
  have hsort := List.mergeSort_perm es keyLe
  have hperm : ((es.mergeSort keyLe).filter p).Perm ((es.filter p).mergeSort keyLe) :=
    (hsort.filter p).trans (List.mergeSort_perm _ _).symm
  have hkeys : (((es.mergeSort keyLe).filter p).map Prod.fst).Nodup :=
    (((hsort.map Prod.fst).nodup_iff.2 hnodup).sublist (List.filter_sublist.map _))
  exact eq_of_pairwise_keyLe hperm hkeys ((pairwise_mergeSort_keyLe es).filter p)
    (pairwise_mergeSort_keyLe _)

/-- The canonical properties of an object, in any order. -/
def canonicalEntries (entries : List (Utf16 × Tree)) : List (Utf16 × Value) :=
  (entries.filter notProto).map fun e => (e.1, canonicalValue e.2)

theorem canonicalEntries_keys {entries : List (Utf16 × Tree)} (h : (entries.map Prod.fst).Nodup) :
    ((canonicalEntries entries).map Prod.fst).Nodup := by
  unfold canonicalEntries
  rw [List.map_map]
  exact h.sublist (List.filter_sublist.map _)

theorem canonicalValue_obj_sorted {entries : List (Utf16 × Tree)}
    (h : (entries.map Prod.fst).Nodup) :
    canonicalValue (.obj entries) =
      .obj (enumerated ((canonicalEntries entries).mergeSort keyLe)) := by
  have hkeys : ((entries.map fun e => (e.1, canonicalValue e.2)).map Prod.fst).Nodup := by
    rw [List.map_map]
    exact h
  rw [canonicalValue_obj, filter_mergeSort_keyLe hkeys, canonicalEntries, List.filter_map]
  rfl

variable {fs : List (Utf16 × Tree)}

/-- Objects have one canonical value exactly if their canonical properties are the same. -/
theorem canonicalValue_obj_eq_iff (hes : (es.map Prod.fst).Nodup) (hfs : (fs.map Prod.fst).Nodup) :
    canonicalValue (.obj es) = canonicalValue (.obj fs) ↔
      (canonicalEntries es).Perm (canonicalEntries fs) := by
  rw [canonicalValue_obj_sorted hes, canonicalValue_obj_sorted hfs, Value.obj.injEq]
  have hsame : ∀ gs : List (Utf16 × Value), (enumerated (gs.mergeSort keyLe)).Perm gs :=
    fun gs => (enumerated_perm _).trans (List.mergeSort_perm gs keyLe)
  constructor
  · intro heq
    have hperm := hsame (canonicalEntries es)
    rw [heq] at hperm
    exact hperm.symm.trans (hsame _)
  · intro hperm
    rw [mergeSort_keyLe_eq hperm (canonicalEntries_keys hes)]

theorem filter_notProto (h : Tree.CleanEntries es) : es.filter notProto = es := by
  rw [List.filter_eq_self]
  intro e he
  exact decide_eq_true (cleanEntries_iff.1 h e he).1

/-! ## The canonical value without `__proto__` -/

variable {v : Tree}

theorem canonicalValue_dropProto (hdistinct : v.Distinct) :
    canonicalValue (dropProto v) = canonicalValue v ∧ (dropProto v).Clean ∧
      (dropProto v).Distinct := by
  induction v using Tree.induct with
  | null | bool | num | str => exact ⟨rfl, trivial, trivial⟩
  | arr items ih =>
    have hitems := distinctItems_iff.1 hdistinct
    rw [dropProto, dropProtoItems_eq]
    refine ⟨?_, cleanItems_iff.2 ?_, distinctItems_iff.2 ?_⟩
    · rw [canonicalValue_arr, canonicalValue_arr, List.map_map, Value.arr.injEq]
      exact List.map_congr_left fun v hv => (ih v hv (hitems v hv)).1
    · intro w hw
      obtain ⟨v, hv, rfl⟩ := List.mem_map.1 hw
      exact (ih v hv (hitems v hv)).2.1
    · intro w hw
      obtain ⟨v, hv, rfl⟩ := List.mem_map.1 hw
      exact (ih v hv (hitems v hv)).2.2
  | obj entries ih =>
    have hentries := distinctEntries_iff.1 hdistinct.2
    have hkeys : ((dropProtoEntries entries).map Prod.fst).Nodup := by
      rw [dropProtoEntries_eq, List.map_map]
      exact hdistinct.1.sublist (List.filter_sublist.map _)
    have hclean : Tree.CleanEntries (dropProtoEntries entries) := by
      rw [cleanEntries_iff, dropProtoEntries_eq]
      intro f hf
      obtain ⟨e, he, rfl⟩ := List.mem_map.1 hf
      obtain ⟨hmem, hproto⟩ := List.mem_filter.1 he
      exact ⟨of_decide_eq_true hproto, (ih e hmem (hentries e hmem)).2.1⟩
    refine ⟨?_, hclean, hkeys, distinctEntries_iff.2 ?_⟩
    · rw [dropProto, canonicalValue_obj_eq_iff hkeys hdistinct.1]
      have hsame : canonicalEntries (dropProtoEntries entries) = canonicalEntries entries := by
        unfold canonicalEntries
        rw [filter_notProto hclean, dropProtoEntries_eq, List.map_map]
        refine List.map_congr_left fun e he => ?_
        have hmem := (List.mem_filter.1 he).1
        exact congrArg (Prod.mk e.1) (ih e hmem (hentries e hmem)).1
      rw [hsame]
    · rw [dropProtoEntries_eq]
      intro f hf
      obtain ⟨e, he, rfl⟩ := List.mem_map.1 hf
      have hmem := (List.mem_filter.1 he).1
      exact (ih e hmem (hentries e hmem)).2.2

theorem distinct_canonicalValue (hdistinct : v.Distinct) :
    (canonicalValue v).Distinct := by
  induction v using Tree.induct with
  | null | bool | num | str => exact trivial
  | arr items ih =>
    have hitems := distinctItems_iff.1 hdistinct
    rw [canonicalValue_arr]
    refine JsonText.distinctItems_iff.2 fun w hw => ?_
    obtain ⟨v, hv, rfl⟩ := List.mem_map.1 hw
    exact ih v hv (hitems v hv)
  | obj entries ih =>
    have hentries := distinctEntries_iff.1 hdistinct.2
    rw [canonicalValue_obj_sorted hdistinct.1]
    have hperm := (enumerated_perm ((canonicalEntries entries).mergeSort keyLe)).trans
      (List.mergeSort_perm (canonicalEntries entries) keyLe)
    refine ⟨(hperm.map Prod.fst).nodup_iff.2 (canonicalEntries_keys hdistinct.1),
      JsonText.distinctEntries_iff.2 fun f hf => ?_⟩
    obtain ⟨e, he, rfl⟩ := List.mem_map.1 (hperm.mem_iff.1 hf)
    have hmem := (List.mem_filter.1 he).1
    exact ih e hmem (hentries e hmem)

/-! ## Equal values -/

theorem numberText_eq_iff {a b : Binary64} : numberText a = numberText b ↔ a.value = b.value := by
  constructor
  · intro htext
    obtain ⟨a', ha, hvalue⟩ := toNumber_numberText a
    obtain ⟨b', hb, hvalue'⟩ := toNumber_numberText b
    rw [htext, hb] at ha
    rw [← hvalue, ← hvalue', Option.some.inj ha]
  · exact numberText_congr

theorem sameItems_iff {ws : List Tree}
    (h : ∀ v ∈ vs, ∀ w ∈ ws, Equal v w ↔ canonicalValue v = canonicalValue w) :
    SameItems (fun a b => a.value = b.value) vs ws ↔ vs.map canonicalValue = ws.map canonicalValue := by
  induction vs generalizing ws with
  | nil =>
    cases ws with
    | nil => exact iff_of_true trivial rfl
    | cons => exact iff_of_false id (fun heq => by cases heq)
  | cons v vs ih =>
    cases ws with
    | nil => exact iff_of_false id (fun heq => by cases heq)
    | cons w =>
      have hrest := ih fun v hv w hw => h v (List.mem_cons_of_mem _ hv) w (List.mem_cons_of_mem _ hw)
      have hhead : Same (fun a b => a.value = b.value) v w ↔
          canonicalValue v = canonicalValue w := h v List.mem_cons_self w List.mem_cons_self
      rw [SameItems, hrest, hhead, List.map_cons, List.map_cons, List.cons.injEq]

/-- Objects of one size with a match for every property have the same properties. -/
theorem sameEntries_iff_perm (hkeys : (es.map Prod.fst).Nodup)
    (h : ∀ e ∈ es, ∀ f ∈ fs, Equal e.2 f.2 ↔ canonicalValue e.2 = canonicalValue f.2) :
    Equal (.obj es) (.obj fs) ↔ (es.map fun e => (e.1, canonicalValue e.2)).Perm
      (fs.map fun e => (e.1, canonicalValue e.2)) := by
  have hnodup : (es.map fun e => (e.1, canonicalValue e.2)).Nodup := by
    refine List.Nodup.of_map Prod.fst ?_
    rw [List.map_map]
    exact hkeys
  constructor
  · rintro ⟨hlength, hfound⟩
    refine (List.subperm_of_subset hnodup fun r hr => ?_).perm_of_length_le (by
      rw [List.length_map, List.length_map, hlength])
    obtain ⟨e, he, rfl⟩ := List.mem_map.1 hr
    obtain ⟨w, hmem, hsame⟩ := sameEntries_iff.1 hfound e he
    exact List.mem_map.2 ⟨(e.1, w), hmem, congrArg (Prod.mk e.1) ((h e he _ hmem).1 hsame).symm⟩
  · intro hperm
    refine ⟨?_, sameEntries_iff.2 fun e he => ?_⟩
    · have hlength := hperm.length_eq
      rw [List.length_map, List.length_map] at hlength
      exact hlength
    · have hmem := hperm.mem_iff.1 (List.mem_map_of_mem he)
      obtain ⟨f, hf, heq⟩ := List.mem_map.1 hmem
      obtain ⟨hkey, hvalue⟩ := Prod.mk.inj heq
      exact ⟨f.2, hkey ▸ hf, (h e he f hf).2 hvalue.symm⟩

/-- Clean values have one canonical value exactly if they are equal. -/
theorem equal_iff_canonicalValue (hv : v.Distinct) (hw : w.Distinct)
    (hvclean : v.Clean) (hwclean : w.Clean) : Equal v w ↔ canonicalValue v = canonicalValue w := by
  induction v using Tree.induct generalizing w with
  | null =>
    cases w with
    | null => exact iff_of_true trivial rfl
    | _ => exact iff_of_false id (fun heq => by cases heq)
  | bool b =>
    cases w with
    | bool b' =>
      show b = b' ↔ Value.bool b = Value.bool b'
      rw [Value.bool.injEq]
    | _ => exact iff_of_false id (fun heq => by cases heq)
  | num d =>
    cases w with
    | num d' =>
      show d.value = d'.value ↔ Value.num _ = Value.num _
      rw [Value.num.injEq, Numeral.mk.injEq, numberText_eq_iff]
    | _ => exact iff_of_false id (fun heq => by cases heq)
  | str s =>
    cases w with
    | str s' =>
      show s = s' ↔ Value.str s = Value.str s'
      rw [Value.str.injEq]
    | _ => exact iff_of_false id (fun heq => by cases heq)
  | arr items ih =>
    cases w with
    | arr =>
      rw [canonicalValue_arr, canonicalValue_arr, Value.arr.injEq]
      exact sameItems_iff fun v hmem w hmem' =>
        ih v hmem (distinctItems_iff.1 hv v hmem) (distinctItems_iff.1 hw w hmem')
          (cleanItems_iff.1 hvclean v hmem) (cleanItems_iff.1 hwclean w hmem')
    | _ => exact iff_of_false id (fun heq => by cases heq)
  | obj entries ih =>
    cases w with
    | obj =>
      rw [canonicalValue_obj_eq_iff hv.1 hw.1, canonicalEntries, canonicalEntries,
        filter_notProto hvclean, filter_notProto hwclean]
      exact sameEntries_iff_perm hv.1 fun e he f hf =>
        ih e he (distinctEntries_iff.1 hv.2 e he) (distinctEntries_iff.1 hw.2 f hf)
          (cleanEntries_iff.1 hvclean e he).2 (cleanEntries_iff.1 hwclean f hf).2
    | _ => exact iff_of_false id (fun heq => by cases heq)

/-! ## What is decoded -/

theorem acceptedEntries_eq (path : Utf16) (es : List (Utf16 × Value)) :
    acceptedEntries path es = es.map fun e => (e.1, accepted (path ++ unit '.' :: e.1) e.2) := by
  induction es with
  | nil => rfl
  | cons e es ih => rw [acceptedEntries, ih, List.map_cons]

theorem inOrder_ok {rs : List (Utf16 × Except JsonCodecError Tree)}
    (h : ∀ r ∈ rs, ∃ t, r.2 = .ok t) :
    ∃ ts, inOrder rs = .ok ts ∧ rs = ts.map fun e => (e.1, .ok e.2) := by
  induction rs with
  | nil => exact ⟨[], rfl, rfl⟩
  | cons r rs ih =>
    obtain ⟨⟨t, ht⟩, hrest⟩ := List.forall_mem_cons.1 h
    obtain ⟨ts, hts, heq⟩ := ih hrest
    obtain ⟨key, result⟩ := r
    dsimp only at ht
    subst ht
    refine ⟨(key, t) :: ts, ?_, ?_⟩
    · show (do let more ← inOrder rs; pure ((key, t) :: more)) = _
      rw [hts]
      rfl
    · rw [List.map_cons, ← heq]

/-- What is decoded: equal to the value without `__proto__`, and without it too. -/
structure Decodes (v t : Tree) : Prop where
  equal : Equal t (dropProto v)
  clean : t.Clean
  distinct : t.Distinct

theorem acceptedItems_ok
    (h : ∀ v ∈ vs, ∀ path, ∃ t, accepted path (canonicalValue v) = .ok t ∧ Decodes v t)
    (path : Utf16) (index : Nat) :
    ∃ ts, acceptedItems path index (vs.map canonicalValue) = .ok ts ∧ Decodes (.arr vs) (.arr ts) := by
  induction vs generalizing index with
  | nil => exact ⟨[], rfl, trivial, trivial, trivial⟩
  | cons v vs ih =>
    obtain ⟨hv, hvs⟩ := List.forall_mem_cons.1 h
    obtain ⟨t, ht, hdecodes⟩ := hv (path ++ unit '[' :: (decimal index ++ [unit ']']))
    obtain ⟨ts, hts, hrest⟩ := ih hvs (index + 1)
    refine ⟨t :: ts, ?_, ⟨hdecodes.equal, hrest.equal⟩, ⟨hdecodes.clean, hrest.clean⟩,
      ⟨hdecodes.distinct, hrest.distinct⟩⟩
    rw [List.map_cons, acceptedItems, ht, hts]
    rfl

/-- Every canonical value is accepted. -/
theorem accepted_canonicalValue (hdistinct : v.Distinct) (path : Utf16) :
    ∃ t, accepted path (canonicalValue v) = .ok t ∧ Decodes v t := by
  induction v using Tree.induct generalizing path with
  | null => exact ⟨.null, rfl, trivial, trivial, trivial⟩
  | bool b => exact ⟨.bool b, rfl, rfl, trivial, trivial⟩
  | str s => exact ⟨.str s, rfl, rfl, trivial, trivial⟩
  | num d =>
    obtain ⟨d', hread, hvalue⟩ := toNumber_numberText d
    refine ⟨.num d', ?_, hvalue, trivial, trivial⟩
    unfold canonicalValue canonicalize written accepted
    simp only [hread]
  | arr items ih =>
    have hitems := distinctItems_iff.1 hdistinct
    obtain ⟨ts, hts, hdecodes⟩ := acceptedItems_ok (fun v hv path => ih v hv (hitems v hv) path)
      path 0
    refine ⟨.arr ts, ?_, hdecodes⟩
    rw [canonicalValue_arr, accepted, hts]
    rfl
  | obj entries ih =>
    have hentries := distinctEntries_iff.1 hdistinct.2
    rw [canonicalValue_obj_sorted hdistinct.1]
    -- the properties that are read, in any order
    let gs := enumerated ((canonicalEntries entries).mergeSort keyLe)
    let rs := enumerated (acceptedEntries path gs)
    have hgs : gs.Perm (canonicalEntries entries) :=
      (enumerated_perm _).trans (List.mergeSort_perm _ keyLe)
    have hrs : rs.Perm (gs.map fun e => (e.1, accepted (path ++ unit '.' :: e.1) e.2)) := by
      show (enumerated (acceptedEntries path gs)).Perm _
      rw [acceptedEntries_eq]
      exact enumerated_perm _
    have horigin : ∀ r ∈ rs, ∃ e ∈ entries, r.1 = e.1 ∧ e.1 ≠ protoKey ∧
        ∃ t, r.2 = .ok t ∧ Decodes e.2 t := by
      intro r hr
      obtain ⟨g, hg, rfl⟩ := List.mem_map.1 (hrs.mem_iff.1 hr)
      obtain ⟨e, he, rfl⟩ := List.mem_map.1 (hgs.mem_iff.1 hg)
      obtain ⟨hmem, hproto⟩ := List.mem_filter.1 he
      exact ⟨e, hmem, rfl, of_decide_eq_true hproto, ih e hmem (hentries e hmem) _⟩
    obtain ⟨ts, hts, heq⟩ := inOrder_ok fun r hr => by
      obtain ⟨e, -, -, -, t, ht, -⟩ := horigin r hr
      exact ⟨t, ht⟩
    have hmember : ∀ f ∈ ts, ∃ e ∈ entries, f.1 = e.1 ∧ e.1 ≠ protoKey ∧ Decodes e.2 f.2 := by
      intro f hf
      have hr : (f.1, Except.ok f.2) ∈ rs := heq ▸ List.mem_map_of_mem hf
      obtain ⟨e, he, hkey, hproto, t, ht, hdecodes⟩ := horigin _ hr
      rw [Except.ok.inj ht]
      exact ⟨e, he, hkey, hproto, hdecodes⟩
    have hkeys : (ts.map Prod.fst).Perm ((canonicalEntries entries).map Prod.fst) := by
      have hfirst : ts.map Prod.fst = rs.map Prod.fst := by
        rw [heq, List.map_map]
        rfl
      have hgkeys := hrs.map Prod.fst
      rw [List.map_map] at hgkeys
      rw [hfirst]
      exact hgkeys.trans (hgs.map Prod.fst)
    refine ⟨.obj ts, ?_, ⟨?_, ?_⟩, ?_, ?_, ?_⟩
    · rw [accepted]
      show (do let entries ← inOrder rs; pure (Tree.obj entries)) = _
      rw [hts]
      rfl
    · have hlength := hkeys.length_eq
      rw [List.length_map, List.length_map, canonicalEntries, List.length_map] at hlength
      rw [hlength, dropProtoEntries_eq, List.length_map]
    · refine sameEntries_iff.2 fun f hf => ?_
      obtain ⟨e, he, hkey, hproto, hdecodes⟩ := hmember f hf
      refine ⟨dropProto e.2, ?_, hdecodes.equal⟩
      rw [hkey, dropProtoEntries_eq]
      have hkept : e ∈ entries.filter notProto := List.mem_filter.2 ⟨he, decide_eq_true hproto⟩
      exact List.mem_map.2 ⟨e, hkept, rfl⟩
    · refine cleanEntries_iff.2 fun f hf => ?_
      obtain ⟨e, he, hkey, hproto, hdecodes⟩ := hmember f hf
      exact ⟨hkey ▸ hproto, hdecodes.clean⟩
    · exact hkeys.nodup_iff.2 (canonicalEntries_keys hdistinct.1)
    · refine distinctEntries_iff.2 fun f hf => ?_
      obtain ⟨e, he, hkey, hproto, hdecodes⟩ := hmember f hf
      exact hdecodes.distinct

/-- A value that equals one without `__proto__` is without it. -/
theorem clean_of_equal {t : Tree} (hsame : Equal t v) (htclean : t.Clean) (ht : t.Distinct)
    (hv : v.Distinct) : v.Clean := by
  induction t using Tree.induct generalizing v with
  | null =>
    cases v with
    | null => trivial
    | _ => exact hsame.elim
  | bool =>
    cases v with
    | bool => trivial
    | _ => exact hsame.elim
  | num =>
    cases v with
    | num => trivial
    | _ => exact hsame.elim
  | str =>
    cases v with
    | str => trivial
    | _ => exact hsame.elim
  | arr items ih =>
    cases v with
    | arr =>
      have hclean : ∀ {ts vs : List Tree}, SameItems (fun a b => a.value = b.value) ts vs →
          (∀ t ∈ ts, t ∈ items) → (∀ v ∈ vs, v.Distinct) → ∀ v ∈ vs, v.Clean := by
        intro ts vs hsame hts hvs
        induction ts generalizing vs with
        | nil =>
          cases vs with
          | nil => exact fun v hv => absurd hv List.not_mem_nil
          | cons => exact hsame.elim
        | cons t ts ihts =>
          cases vs with
          | nil => exact hsame.elim
          | cons =>
            obtain ⟨hmem, hmems⟩ := List.forall_mem_cons.1 hts
            obtain ⟨hv, hvs⟩ := List.forall_mem_cons.1 hvs
            refine List.forall_mem_cons.2 ⟨?_, ihts hsame.2 hmems hvs⟩
            exact ih t hmem hsame.1 (cleanItems_iff.1 htclean t hmem)
              (distinctItems_iff.1 ht t hmem) hv
      exact cleanItems_iff.2 (hclean hsame (fun t ht => ht) (distinctItems_iff.1 hv))
    | _ => exact hsame.elim
  | obj entries ih =>
    cases v with
    | obj entries' =>
      obtain ⟨hlength, hfound⟩ := hsame
      have hmatch := sameEntries_iff.1 hfound
      -- the objects have the same keys, as they have the same number of them
      have hkeys : (entries.map Prod.fst).Perm (entries'.map Prod.fst) := by
        refine (List.subperm_of_subset ht.1 fun key hkey => ?_).perm_of_length_le (by
          rw [List.length_map, List.length_map, hlength])
        obtain ⟨e, he, rfl⟩ := List.mem_map.1 hkey
        obtain ⟨w, hmem, -⟩ := hmatch e he
        exact List.mem_map.2 ⟨_, hmem, rfl⟩
      refine cleanEntries_iff.2 fun f hf => ?_
      obtain ⟨e, he, hkey⟩ := List.mem_map.1 (hkeys.mem_iff.2 (List.mem_map_of_mem hf))
      obtain ⟨hproto, heclean⟩ := cleanEntries_iff.1 htclean e he
      obtain ⟨w, hmem, hsame⟩ := hmatch e he
      have hentry : (e.1, w) = f := List.inj_on_of_nodup_map hv.1 hmem hf hkey
      have hw : w = f.2 := congrArg Prod.snd hentry
      subst hw
      refine ⟨hkey ▸ hproto, ?_⟩
      exact ih e he hsame heclean (distinctEntries_iff.1 ht.2 e he)
        (distinctEntries_iff.1 hv.2 f hf)
    | _ => exact hsame.elim

/-! ## Canonical texts -/

theorem encodeJson_canonical (v : Tree) : encodeJson true v = stringify (canonicalValue v) := rfl

theorem encodeJson_eq_iff (hv : v.Distinct) (hw : w.Distinct) :
    encodeJson true v = encodeJson true w ↔ canonicalValue v = canonicalValue w := by
  rw [encodeJson_canonical, encodeJson_canonical]
  constructor
  · intro htext
    have hread := parse_stringify (distinct_canonicalValue hv)
    rw [htext, parse_stringify (distinct_canonicalValue hw)] at hread
    exact (Option.some.inj hread).symm
  · exact congrArg stringify

/-- The canonical text is read as the value without its properties named `__proto__`. -/
theorem decodeJson_encodeJson (hv : v.Distinct) :
    ∃ t, decodeJson (encodeJson true v) = .ok t ∧ Decodes v t := by
  obtain ⟨t, ht, hdecodes⟩ := accepted_canonicalValue hv (units "value")
  refine ⟨t, ?_, hdecodes⟩
  unfold decodeJson
  rw [encodeJson_canonical, parse_stringify (distinct_canonicalValue hv)]
  exact ht

theorem dropProto_clean (h : v.Clean) : dropProto v = v := by
  induction v using Tree.induct with
  | null => rfl
  | bool => rfl
  | num => rfl
  | str => rfl
  | arr items ih =>
    have hitems : items.map dropProto = items.map id :=
      List.map_congr_left fun v hv => ih v hv (cleanItems_iff.1 h v hv)
    rw [dropProto, dropProtoItems_eq, hitems, List.map_id]
  | obj entries ih =>
    have hentries : (entries.map fun e => (e.1, dropProto e.2)) = entries.map id :=
      List.map_congr_left fun e he => congrArg (Prod.mk e.1) (ih e he (cleanEntries_iff.1 h e he).2)
    rw [dropProto, dropProtoEntries_eq, filter_notProto h, hentries, List.map_id]

/-- The value comes back from its canonical text. -/
def ComesBackCanonical (v : Tree) : Prop := ∃ t, decodeJson (encodeJson true v) = .ok t ∧ Equal t v

theorem comesBackCanonical_iff (hv : v.Distinct) : ComesBackCanonical v ↔ v.Clean := by
  obtain ⟨t, ht, hdecodes⟩ := decodeJson_encodeJson hv
  constructor
  · rintro ⟨t', ht', hsame⟩
    rw [ht, Except.ok.injEq] at ht'
    subst ht'
    exact clean_of_equal hsame hdecodes.clean hdecodes.distinct hv
  · intro hclean
    refine ⟨t, ht, ?_⟩
    have hequal := hdecodes.equal
    rw [dropProto_clean hclean] at hequal
    exact hequal

/-- The canonical text tells two values apart exactly if they differ, and gives both back. -/
structure Faithful (v w : Tree) : Prop where
  same : encodeJson true v = encodeJson true w ↔ Equal v w
  left : ComesBackCanonical v
  right : ComesBackCanonical w

theorem faithful_iff (hv : v.Distinct) (hw : w.Distinct) :
    Faithful v w ↔ v.Clean ∧ w.Clean := by
  constructor
  · intro h
    exact ⟨(comesBackCanonical_iff hv).1 h.left, (comesBackCanonical_iff hw).1 h.right⟩
  · rintro ⟨hvclean, hwclean⟩
    refine ⟨?_, (comesBackCanonical_iff hv).2 hvclean, (comesBackCanonical_iff hw).2 hwclean⟩
    rw [encodeJson_eq_iff hv hw, equal_iff_canonicalValue hv hw hvclean hwclean]

/-! ## Fingerprints -/

/-- The same program identity, options and instruction, up to the order of keys. -/
structure SameInput (a b : InstructionInput) : Prop where
  isa : a.isa = b.isa
  programId : a.programId = b.programId
  capability : a.capability = b.capability
  workspace : a.workspace = b.workspace
  options : Equal (nullOr Subtype.val a.options) (nullOr Subtype.val b.options)
  instruction : Equal a.instruction.val b.instruction.val

theorem distinct_nullOr {toTree : α → Tree} (h : ∀ a, (toTree a).Distinct) (value : Option α) :
    (nullOr toTree value).Distinct := by
  cases value with
  | none => trivial
  | some a => exact h a

theorem nullOr_str {a b : Option Utf16} (h : Equal (nullOr .str a) (nullOr .str b)) : a = b := by
  cases a with
  | none =>
    cases b with
    | none => rfl
    | some => exact h.elim
  | some =>
    cases b with
    | none => exact h.elim
    | some => exact congrArg some h

theorem InstructionInput.distinct (input : InstructionInput) : input.tree.Distinct := by
  have htext : ∀ value : Option Utf16, (nullOr Tree.str value).Distinct :=
    distinct_nullOr fun _ => trivial
  have hkeys : [units "isa", units "programId", units "capability", units "workspace",
      units "options", units "instruction"].Nodup := by decide
  exact ⟨hkeys, trivial, trivial, htext _, htext _, distinct_nullOr (fun v => v.property) _,
    input.instruction.property, trivial⟩

/-- A property of one of two objects with the same key is matched by the one of the other. -/
theorem equal_of_sameEntries (hkeys : (fs.map Prod.fst).Nodup)
    (h : SameEntries (fun a b => a.value = b.value) es fs) {key : Utf16}
    (hv : (key, v) ∈ es) (hw : (key, w) ∈ fs) : Equal v w := by
  obtain ⟨w', hw', hsame⟩ := sameEntries_iff.1 h _ hv
  have hentry : (key, w') = (key, w) := List.inj_on_of_nodup_map hkeys hw' hw rfl
  have hvalue : w' = w := congrArg Prod.snd hentry
  exact hvalue ▸ hsame

theorem sameInput_of_equal {a b : InstructionInput} (h : Equal a.tree b.tree) : SameInput a b where
  isa := equal_of_sameEntries b.distinct.1 h.2 (.head _) (.head _)
  programId := equal_of_sameEntries b.distinct.1 h.2 (.tail _ (.head _)) (.tail _ (.head _))
  capability := nullOr_str (equal_of_sameEntries b.distinct.1 h.2
    (.tail _ (.tail _ (.head _))) (.tail _ (.tail _ (.head _))))
  workspace := nullOr_str (equal_of_sameEntries b.distinct.1 h.2
    (.tail _ (.tail _ (.tail _ (.head _)))) (.tail _ (.tail _ (.tail _ (.head _)))))
  options := equal_of_sameEntries b.distinct.1 h.2
    (.tail _ (.tail _ (.tail _ (.tail _ (.head _))))) (.tail _ (.tail _ (.tail _ (.tail _ (.head _)))))
  instruction := equal_of_sameEntries b.distinct.1 h.2
    (.tail _ (.tail _ (.tail _ (.tail _ (.tail _ (.head _))))))
    (.tail _ (.tail _ (.tail _ (.tail _ (.tail _ (.head _))))))

section

variable {sha256 : List UInt8 → String} (hsha : Function.Injective sha256)
include hsha

/-- Texts are well formed, so their bytes determine them. -/
theorem canonicalDigest_eq_iff {v w : Tree} (hv : v.Distinct) (hw : w.Distinct) :
    canonicalDigest sha256 v = canonicalDigest sha256 w ↔ canonicalValue v = canonicalValue w := by
  rw [← encodeJson_eq_iff hv hw]
  constructor
  · intro hdigest
    have hchars := Utf8Decoder.utf8_injective (hsha hdigest)
    have hwell : ∀ v : Tree, (encodeJson true v).wellFormed = true :=
      fun v => (clean_stringify (canonicalValue v)).wellFormed
    rw [← Utf16.ofChars_scalars (hwell v), hchars, Utf16.ofChars_scalars (hwell w)]
  · intro htext
    unfold canonicalDigest
    rw [htext]

theorem instructionFingerprint_separates {a b : InstructionInput} (ha : a.tree.Clean)
    (hb : b.tree.Clean)
    (h : instructionFingerprint sha256 a = instructionFingerprint sha256 b) : SameInput a b := by
  have hcanonical := (canonicalDigest_eq_iff hsha a.distinct b.distinct).1 h
  exact sameInput_of_equal ((equal_iff_canonicalValue a.distinct b.distinct ha hb).2 hcanonical)

/-- Without properties named `__proto__`, and only then, canonical text is a faithful identity; of
    two instructions without them the fingerprints are equal only if the instructions are. -/
theorem canonicalJson_faithful_iff :
    (∀ v w : JsonValue, Faithful v.val w.val ↔ v.val.Clean ∧ w.val.Clean) ∧
      ∀ a b : InstructionInput,
        (Faithful a.tree b.tree ∧
          (instructionFingerprint sha256 a = instructionFingerprint sha256 b → SameInput a b)) ↔
            a.tree.Clean ∧ b.tree.Clean := by
  refine ⟨fun v w => faithful_iff v.property w.property, fun a b => ?_⟩
  rw [faithful_iff a.distinct b.distinct]
  constructor
  · exact And.left
  · intro hclean
    exact ⟨hclean, instructionFingerprint_separates hsha hclean.1 hclean.2⟩

end

/-! ## A property named `__proto__` -/

/-- What `JSON.parse` makes of `{"__proto__":true}`. -/
def protoValue : JsonValue := ⟨.obj [(protoKey, .bool true)], List.nodup_singleton _, trivial, trivial⟩

/-- What `JSON.parse` makes of `{}`. -/
def emptyValue : JsonValue := ⟨.obj [], List.nodup_nil, trivial⟩

/-- An instruction of a program without capability, workspace and options. -/
def inputOf (instruction : JsonValue) : InstructionInput where
  isa := units "xio/1"
  programId := units "p"
  capability := none
  workspace := none
  options := none
  instruction := instruction

theorem protoValue_not_clean : ¬ protoValue.val.Clean := fun h => h.1.1 rfl

theorem protoValue_not_equal : ¬ Equal protoValue.val emptyValue.val :=
  fun h => Nat.one_ne_zero h.1

theorem clean_inputOf {instruction : JsonValue} (h : instruction.val.Clean) :
    (inputOf instruction).tree.Clean :=
  ⟨⟨by decide, trivial⟩, ⟨by decide, trivial⟩, ⟨by decide, trivial⟩, ⟨by decide, trivial⟩,
    ⟨by decide, trivial⟩, ⟨by decide, h⟩, trivial⟩

/-- The property is lost: two values have one text, the first does not come back, and two
    instructions have one fingerprint. -/
theorem protoValue_lost :
    (encodeJson true protoValue.val = encodeJson true emptyValue.val ∧
        ¬ Equal protoValue.val emptyValue.val) ∧
      ¬ ComesBackCanonical protoValue.val ∧
      ∀ sha256 : List UInt8 → String,
        instructionFingerprint sha256 (inputOf protoValue) =
            instructionFingerprint sha256 (inputOf emptyValue) ∧
          ¬ SameInput (inputOf protoValue) (inputOf emptyValue) := by
  refine ⟨⟨?_, protoValue_not_equal⟩, ?_, fun sha256 => ⟨?_, ?_⟩⟩
  · rw [encodeJson_eq_iff protoValue.property emptyValue.property,
      ← (canonicalValue_dropProto protoValue.property).1]
    rfl
  · rw [comesBackCanonical_iff protoValue.property]
    exact protoValue_not_clean
  · have hdrop : dropProto (inputOf protoValue).tree = (inputOf emptyValue).tree := by
      rfl
    have htext : encodeJson true (inputOf protoValue).tree =
        encodeJson true (inputOf emptyValue).tree := by
      rw [encodeJson_eq_iff (inputOf protoValue).distinct (inputOf emptyValue).distinct, ← hdrop,
        (canonicalValue_dropProto (inputOf protoValue).distinct).1]
    exact congrArg (fun text => sha256 (bufferFrom text)) htext
  · intro hsame
    exact protoValue_not_equal hsame.instruction

/-- `{"flag":true}` -/
def flagValue : JsonValue :=
  ⟨.obj [(units "flag", .bool true)], List.nodup_singleton _, trivial, trivial⟩

theorem flagValue_clean : flagValue.val.Clean := ⟨⟨by decide, trivial⟩, trivial⟩

/-- A property of another name is kept, and it shows in the fingerprint. -/
theorem flagValue_kept :
    Faithful flagValue.val emptyValue.val ∧
      instructionFingerprint plainDigest (inputOf flagValue) ≠
        instructionFingerprint plainDigest (inputOf emptyValue) := by
  have hfaithful := canonicalJson_faithful_iff plainDigest_injective
  have hinputs := (hfaithful.2 (inputOf flagValue) (inputOf emptyValue)).2
    ⟨clean_inputOf flagValue_clean, clean_inputOf trivial⟩
  refine ⟨(hfaithful.1 flagValue emptyValue).2 ⟨flagValue_clean, trivial⟩, ?_⟩
  intro hsame
  exact Nat.one_ne_zero (hinputs.2 hsame).instruction.1

end XioFlow.Isa
