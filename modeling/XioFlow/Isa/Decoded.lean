/-
  XioFlow.Isa.Decoded

  What the reader returns, from whatever bytes: a JSON value that the writer
  takes, but for long texts, and that comes back but for byte order marks.
-/

import XioFlow.Isa.RoundTrip

namespace XioFlow.Isa

open Lib Reader

/-! ## Decoded values -/

/-- What holds of a value that was read with so many levels. -/
structure Decoded (levels : Nat) (v : Tree) : Prop where
  distinct : v.Distinct
  text : ∀ s ∈ v.strings, s.wellFormed = true ∧ (bufferFrom s).length ≤ maxSafeInteger
  depth : v.depth < levels
  width : ∀ n ∈ v.widths, n ≤ MAX_CBOR_COLLECTION_LENGTH

/-- Whatever is read satisfies the predicate. -/
def Yields {α : Type} (P : α → Prop) (p : Reader α) : Prop :=
  ∀ s a rest, p.run s = .ok (a, rest) → P a

section Yields

variable {α β : Type} {P : α → Prop} {Q : β → Prop}

theorem yields_pure {a : α} (h : P a) : Yields P (pure a : Reader α) := by
  intro s b rest hrun
  obtain ⟨rfl, -⟩ := pure_ok hrun
  exact h

theorem yields_throw (e : CodecError) : Yields P (throw e : Reader α) := by
  intro s b rest hrun
  cases hrun

theorem Yields.bind {p : Reader α} {f : α → Reader β} (hp : Yields P p)
    (hf : ∀ a, P a → Yields Q (f a)) : Yields Q (p >>= f) := by
  intro s b rest hrun
  obtain ⟨a, u, hpa, hfb⟩ := bind_ok hrun
  exact hf a (hp s a u hpa) u b rest hfb

theorem yields_any (p : Reader α) : Yields (fun _ => True) p := fun _ _ _ _ => trivial

end Yields

variable {levels : Nat} {v : Tree} {p : Reader Tree}

theorem decoded_scalar (hdistinct : v.Distinct) (hstrings : v.strings = []) (hdepth : v.depth = 0)
    (hwidths : v.widths = []) : Decoded (levels + 1) v := by
  refine ⟨hdistinct, ?_, by omega, ?_⟩
  · rw [hstrings]
    exact fun s hs => absurd hs List.not_mem_nil
  · rw [hwidths]
    exact fun n hn => absurd hn List.not_mem_nil

theorem decoded_num (d : Binary64) : Decoded (levels + 1) (.num d) :=
  decoded_scalar trivial rfl rfl rfl

theorem yields_finite (d : Option Binary64) : Yields (Decoded (levels + 1)) (finite d) := by
  cases d with
  | none => exact yields_throw _
  | some d => exact yields_pure (decoded_num d)

theorem yields_readSimple (additional : Nat) :
    Yields (Decoded (levels + 1)) (readSimple additional) := by
  unfold readSimple
  split
  · exact yields_pure (decoded_scalar trivial rfl rfl rfl)
  · exact yields_pure (decoded_scalar trivial rfl rfl rfl)
  · exact yields_pure (decoded_scalar trivial rfl rfl rfl)
  · exact (yields_any _).bind fun _ _ => yields_finite _
  · exact (yields_any _).bind fun _ _ => yields_finite _
  · exact (yields_any _).bind fun _ _ => yields_finite _
  · exact yields_throw _

theorem yields_readAdditional (additional : Nat) :
    Yields (fun length => length ≤ maxSafeInteger) (readAdditional additional) := by
  unfold readAdditional
  split
  · refine yields_pure ?_
    unfold maxSafeInteger
    omega
  split
  · exact yields_throw _
  split
  · exact yields_throw _
  · refine (yields_any _).bind fun value _ => ?_
    split
    · exact yields_throw _
    · rename_i hsafe
      exact yields_pure (not_lt.1 hsafe)

theorem yields_readBytes (length : Nat) :
    Yields (fun bytes => bytes.length = length) (readBytes length) := by
  intro s bytes rest hrun
  rw [run_readBytes] at hrun
  by_cases hshort : s.length < length
  · rw [if_pos hshort] at hrun
    cases hrun
  · rw [if_neg hshort] at hrun
    cases hrun
    rw [List.length_take]
    omega

theorem length_utf8_le {cs cs' : List Char} (h : cs' <:+ cs) :
    (utf8 cs').length ≤ (utf8 cs).length := by
  obtain ⟨lead, rfl⟩ := h
  unfold utf8
  rw [List.flatMap_append, List.length_append]
  omega

theorem stripMark_suffix (cs : List Char) : stripMark cs <:+ cs := by
  cases cs with
  | nil => exact List.suffix_refl _
  | cons c cs =>
    show (if c = '\uFEFF' then cs else c :: cs) <:+ c :: cs
    split
    · exact List.suffix_cons c cs
    · exact List.suffix_refl _

/-- A text is well-formed, and no longer than its bytes when it is written. -/
theorem textDecode_ok {ignoreBOM : Bool} {bytes : List UInt8} {text : Utf16}
    (h : textDecode ignoreBOM bytes = .ok text) :
    text.wellFormed = true ∧ (bufferFrom text).length ≤ bytes.length := by
  unfold textDecode at h
  cases hchars : ofUtf8? bytes with
  | none =>
    rw [hchars] at h
    cases h
  | some cs =>
    rw [hchars] at h
    cases h
    refine ⟨Utf16.wellFormed_ofChars _, ?_⟩
    unfold bufferFrom
    rw [Utf16.scalars_ofChars, ← utf8_ofUtf8? hchars]
    refine length_utf8_le ?_
    split
    · exact List.suffix_refl cs
    · exact stripMark_suffix cs

theorem yields_readText {ignoreBOM : Bool} {length : Nat} (hsafe : length ≤ maxSafeInteger) :
    Yields (Decoded (levels + 1)) (readText ignoreBOM length) := by
  refine (yields_readBytes length).bind fun bytes hbytes => ?_
  split
  · rename_i text htext
    obtain ⟨hwell, hlength⟩ := textDecode_ok htext
    refine yields_pure ⟨trivial, fun s hs => ?_, Nat.succ_pos _, fun n hn => ?_⟩
    · rw [List.mem_singleton.1 hs]
      exact ⟨hwell, by omega⟩
    · cases hn
  · exact yields_throw _

theorem yields_checkCollectionLength (length : Nat) :
    Yields (fun _ => length ≤ MAX_CBOR_COLLECTION_LENGTH) (checkCollectionLength length) := by
  unfold checkCollectionLength
  split
  · exact yields_throw _
  · rename_i hwide
    exact yields_pure (not_lt.1 hwide)

theorem yields_readItems {P : Tree → Prop} (hp : Yields P p) (n : Nat) :
    Yields (fun vs => vs.length = n ∧ ∀ v ∈ vs, P v) (readItems p n) := by
  induction n with
  | zero => exact yields_pure ⟨rfl, fun v hv => absurd hv List.not_mem_nil⟩
  | succ n ih =>
    refine hp.bind fun v hv => ih.bind fun vs hvs => yields_pure ?_
    exact ⟨by rw [List.length_cons, hvs.1], List.forall_mem_cons.2 ⟨hv, hvs.2⟩⟩

/-- The entries that are read have distinct keys, and each part of them was read. -/
theorem yields_readEntries {P : Tree → Prop} (hp : Yields P p) (n : Nat)
    (acc : List (Utf16 × Tree)) (hnodup : (acc.map Prod.fst).Nodup)
    (hacc : ∀ e ∈ acc, P (.str e.1) ∧ P e.2) :
    Yields (fun es => es.length = acc.length + n ∧ (es.map Prod.fst).Nodup ∧
      ∀ e ∈ es, P (.str e.1) ∧ P e.2) (readEntries p n acc) := by
  induction n generalizing acc with
  | zero => exact yields_pure ⟨rfl, hnodup, hacc⟩
  | succ n ih =>
    refine hp.bind fun key hkey => ?_
    split
    · split
      · exact yields_throw _
      · rename_i key hnew
        refine hp.bind fun entry hentry => ?_
        have hnodup' : ((acc ++ [(key, entry)]).map Prod.fst).Nodup := by
          rw [List.map_append, List.nodup_append]
          refine ⟨hnodup, List.nodup_singleton _, fun a ha b hb => ?_⟩
          rw [List.mem_singleton.1 hb]
          rintro rfl
          exact hnew ha
        have hmore := ih (acc ++ [(key, entry)]) hnodup' fun e he => by
          rcases List.mem_append.1 he with he | he
          · exact hacc e he
          · rw [List.mem_singleton.1 he]
            exact ⟨hkey, hentry⟩
        intro s es rest hrun
        obtain ⟨hlength, hrest⟩ := hmore s es rest hrun
        rw [List.length_append, List.length_singleton] at hlength
        exact ⟨by omega, hrest⟩
    · exact yields_throw _

theorem decoded_arr {items : List Tree} (hlength : items.length ≤ MAX_CBOR_COLLECTION_LENGTH)
    (hitems : ∀ v ∈ items, Decoded levels v) : Decoded (levels + 1) (.arr items) := by
  refine ⟨distinctItems_iff.2 fun v hv => (hitems v hv).distinct, fun s hs => ?_,
    depthItems_lt.2 fun v hv => (hitems v hv).depth, fun n hn => ?_⟩
  · obtain ⟨v, hv, hmem⟩ := mem_stringsItems.1 hs
    exact (hitems v hv).text s hmem
  · rcases List.mem_cons.1 hn with rfl | hn
    · exact hlength
    · obtain ⟨v, hv, hmem⟩ := mem_widthsItems.1 hn
      exact (hitems v hv).width n hmem

theorem decoded_obj {entries : List (Utf16 × Tree)}
    (hlength : entries.length ≤ MAX_CBOR_COLLECTION_LENGTH)
    (hnodup : (entries.map Prod.fst).Nodup)
    (hentries : ∀ e ∈ entries, Decoded levels (.str e.1) ∧ Decoded levels e.2) :
    Decoded (levels + 1) (.obj entries) := by
  refine ⟨⟨hnodup, distinctEntries_iff.2 fun e he => (hentries e he).2.distinct⟩,
    fun s hs => ?_, depthEntries_lt.2 fun e he => (hentries e he).2.depth, fun n hn => ?_⟩
  · obtain ⟨e, he, rfl | hmem⟩ := mem_stringsEntries.1 hs
    · exact (hentries e he).1.text e.1 (List.mem_singleton.2 rfl)
    · exact (hentries e he).2.text s hmem
  · rcases List.mem_cons.1 hn with rfl | hn
    · exact hlength
    · obtain ⟨e, he, hmem⟩ := mem_widthsEntries.1 hn
      exact (hentries e he).2.width n hmem

/-- What is read is a JSON value within the limits of the reader. -/
theorem yields_readValue (ignoreBOM : Bool) (levels : Nat) :
    Yields (Decoded levels) (readValue ignoreBOM levels) := by
  induction levels with
  | zero => exact yields_throw _
  | succ levels ih =>
    refine (yields_any readByte).bind fun initial _ => ?_
    simp only
    split
    · exact yields_readSimple _
    refine (yields_readAdditional _).bind fun length hsafe => ?_
    unfold readContent
    split
    · exact yields_pure (decoded_num _)
    · exact yields_pure (decoded_num _)
    · exact yields_throw _
    · exact yields_readText hsafe
    · refine (yields_checkCollectionLength length).bind fun _ hlength => ?_
      refine (yields_readItems ih length).bind fun items hitems => yields_pure ?_
      exact decoded_arr (hitems.1.trans_le hlength) hitems.2
    · refine (yields_checkCollectionLength length).bind fun _ hlength => ?_
      refine (yields_readEntries ih length [] List.nodup_nil
        fun e he => absurd he List.not_mem_nil).bind fun entries hentries => yields_pure ?_
      refine decoded_obj ?_ hentries.2.1 hentries.2.2
      rw [hentries.1, List.length_nil, Nat.zero_add]
      exact hlength
    · exact yields_throw _
    · exact yields_throw _

/-! ## Decoded values are written -/

theorem writeHead_ok (major : Nat) {value : Nat} (h : value ≤ maxSafeInteger) :
    ∃ head, writeHead major value = .ok head := by
  unfold writeHead
  rw [if_neg (not_lt.2 h)]
  by_cases h1 : value < 24
  · exact ⟨_, if_pos h1⟩
  rw [if_neg h1]
  by_cases h2 : value ≤ 0xff
  · exact ⟨_, if_pos h2⟩
  rw [if_neg h2]
  by_cases h3 : value ≤ 0xffff
  · exact ⟨_, if_pos h3⟩
  rw [if_neg h3]
  by_cases h4 : value ≤ 0xffffffff
  · exact ⟨_, if_pos h4⟩
  · exact ⟨_, if_neg h4⟩

theorem writeNumber_ok (d : Binary64) : ∃ bytes, writeNumber d = .ok bytes := by
  unfold writeNumber
  cases hsafe : d.safeInteger? with
  | none => exact ⟨_, rfl⟩
  | some =>
    obtain ⟨-, hbound⟩ := Binary64.safeInteger?_eq_some hsafe
    simp only
    split
    · refine writeHead_ok _ ?_
      unfold maxSafeInteger
      omega
    · refine writeHead_ok _ ?_
      unfold maxSafeInteger
      omega

section Writer

variable [Engine]

theorem writeText_ok {s : Utf16} (h : (bufferFrom s).length ≤ maxSafeInteger)
    (hfits : (bufferFrom s).length ≤ Engine.maxSpread) : ∃ bytes, writeText s = .ok bytes := by
  obtain ⟨head, hhead⟩ := writeHead_ok 3 h
  refine ⟨head ++ bufferFrom s, ?_⟩
  unfold writeText
  rw [hhead]
  exact if_neg (not_lt.2 hfits)

theorem writeItems_ok {vs : List Tree} (h : ∀ v ∈ vs, ∃ bytes, write v = .ok bytes) :
    ∃ bytes, writeItems vs = .ok bytes := by
  induction vs with
  | nil => exact ⟨[], rfl⟩
  | cons v vs ih =>
    obtain ⟨item, hitem⟩ := h v List.mem_cons_self
    obtain ⟨rest, hrest⟩ := ih fun v hv => h v (List.mem_cons_of_mem _ hv)
    refine ⟨item ++ rest, ?_⟩
    rw [writeItems, hitem, hrest]
    rfl

theorem writeEntries_ok {rs : List (Utf16 × Except CodecError (List UInt8))}
    (h : ∀ r ∈ rs, (∃ bytes, writeText r.1 = .ok bytes) ∧ ∃ bytes, r.2 = .ok bytes) :
    ∃ bytes, writeEntries rs = .ok bytes := by
  induction rs with
  | nil => exact ⟨[], rfl⟩
  | cons r rs ih =>
    obtain ⟨key, value⟩ := r
    obtain ⟨⟨keyBytes, hkey⟩, item, hitem⟩ := h (key, value) List.mem_cons_self
    obtain ⟨rest, hrest⟩ := ih fun r hr => h r (List.mem_cons_of_mem _ hr)
    have hvalue : value = .ok item := hitem
    refine ⟨keyBytes ++ (item ++ rest), ?_⟩
    rw [writeEntries, hkey, hvalue, hrest]
    rfl

theorem encodeCbor_ok (htext : ∀ s ∈ v.strings, (bufferFrom s).length ≤ maxSafeInteger ∧
      (bufferFrom s).length ≤ Engine.maxSpread)
    (hwidth : ∀ n ∈ v.widths, n ≤ MAX_CBOR_COLLECTION_LENGTH) :
    ∃ bytes, encodeCbor v = .ok bytes := by
  have hsafe : ∀ n ≤ MAX_CBOR_COLLECTION_LENGTH, n ≤ maxSafeInteger := by
    intro n hn
    unfold MAX_CBOR_COLLECTION_LENGTH at hn
    unfold maxSafeInteger
    omega
  unfold encodeCbor
  induction v using Tree.induct with
  | null | bool => exact ⟨_, rfl⟩
  | num d => exact writeNumber_ok d
  | str s =>
    obtain ⟨hsafe, hfits⟩ := htext s (List.mem_singleton.2 rfl)
    exact writeText_ok hsafe hfits
  | arr items ih =>
    obtain ⟨head, hhead⟩ := writeHead_ok 4 (hsafe _ (hwidth _ List.mem_cons_self))
    obtain ⟨body, hbody⟩ := writeItems_ok fun v hv => ih v hv
      (fun s hs => htext s (mem_stringsItems.2 ⟨v, hv, hs⟩))
      fun n hn => hwidth n (List.mem_cons_of_mem _ (mem_widthsItems.2 ⟨v, hv, hn⟩))
    refine ⟨head ++ body, ?_⟩
    rw [write, hhead, hbody]
    rfl
  | obj entries ih =>
    obtain ⟨head, hhead⟩ := writeHead_ok 5 (hsafe _ (hwidth _ List.mem_cons_self))
    obtain ⟨body, hbody⟩ :
        ∃ body, writeEntries ((writeValues entries).mergeSort keyLe) = .ok body := by
      refine writeEntries_ok fun r hr => ?_
      rw [(List.mergeSort_perm _ _).mem_iff, writeValues_eq, List.mem_map] at hr
      obtain ⟨e, he, rfl⟩ := hr
      obtain ⟨hkey, hfits⟩ := htext e.1 (mem_stringsEntries.2 ⟨e, he, Or.inl rfl⟩)
      refine ⟨writeText_ok hkey hfits, ?_⟩
      exact ih e he (fun s hs => htext s (mem_stringsEntries.2 ⟨e, he, Or.inr hs⟩))
        fun n hn => hwidth n (List.mem_cons_of_mem _ (mem_widthsEntries.2 ⟨e, he, hn⟩))
    refine ⟨head ++ body, ?_⟩
    rw [write, hhead, hbody]
    rfl

theorem mem_writeItems_ok {vs : List Tree} {bytes : List UInt8} (h : writeItems vs = .ok bytes) :
    ∀ v ∈ vs, ∃ item, write v = .ok item := by
  induction vs generalizing bytes with
  | nil => exact fun v hv => absurd hv List.not_mem_nil
  | cons v vs ih =>
    obtain ⟨item, hitem, h1⟩ := except_bind_ok h
    obtain ⟨rest, hrest, -⟩ := except_bind_ok h1
    exact List.forall_mem_cons.2 ⟨⟨item, hitem⟩, ih hrest⟩

theorem mem_writeEntries_ok {rs : List (Utf16 × Except CodecError (List UInt8))}
    {bytes : List UInt8} (h : writeEntries rs = .ok bytes) :
    ∀ r ∈ rs, (∃ key, writeText r.1 = .ok key) ∧ ∃ item, r.2 = .ok item := by
  induction rs generalizing bytes with
  | nil => exact fun r hr => absurd hr List.not_mem_nil
  | cons r rs ih =>
    obtain ⟨key, hkey, h1⟩ := except_bind_ok h
    obtain ⟨item, hitem, h2⟩ := except_bind_ok h1
    obtain ⟨rest, hrest, -⟩ := except_bind_ok h2
    exact List.forall_mem_cons.2 ⟨⟨⟨key, hkey⟩, item, hitem⟩, ih hrest⟩

/-- What is written has no text that is too long for one call. -/
theorem fits_of_encodeCbor {bytes : List UInt8} (h : encodeCbor v = .ok bytes) :
    ∀ s ∈ v.strings, (bufferFrom s).length ≤ Engine.maxSpread := by
  unfold encodeCbor at h
  induction v using Tree.induct generalizing bytes with
  | null | bool | num => exact fun s hs => absurd hs List.not_mem_nil
  | str t =>
    intro s hs
    obtain ⟨-, -, hfits, -⟩ := writeText_eq_ok h
    rw [List.mem_singleton.1 hs]
    exact hfits
  | arr items ih =>
    intro s hs
    obtain ⟨v, hv, hmem⟩ := mem_stringsItems.1 hs
    obtain ⟨head, -, h1⟩ := except_bind_ok h
    obtain ⟨body, hbody, -⟩ := except_bind_ok h1
    obtain ⟨item, hitem⟩ := mem_writeItems_ok hbody v hv
    exact ih v hv hitem s hmem
  | obj entries ih =>
    intro s hs
    obtain ⟨e, he, hmem⟩ := mem_stringsEntries.1 hs
    obtain ⟨head, -, h1⟩ := except_bind_ok h
    obtain ⟨body, hbody, -⟩ := except_bind_ok h1
    have hwritten : (e.1, write e.2) ∈ (writeValues entries).mergeSort keyLe := by
      rw [(List.mergeSort_perm _ _).mem_iff, writeValues_eq]
      exact List.mem_map_of_mem he
    obtain ⟨⟨key, hkey⟩, item, hitem⟩ := mem_writeEntries_ok hbody _ hwritten
    rcases hmem with rfl | hmem
    · obtain ⟨-, -, hfits, -⟩ := writeText_eq_ok hkey
      exact hfits
    · exact ih e he hitem s hmem

end Writer

/-! ## Marks in the bytes -/

/-- Two readers differ only in what they keep of texts. -/
def Follows {α : Type} (R : α → α → Prop) (p q : Reader α) : Prop :=
  ∀ s a rest, p.run s = .ok (a, rest) → ∃ a', q.run s = .ok (a', rest) ∧ R a a'

section Follows

variable {α β : Type} {R : α → α → Prop} {S : β → β → Prop}

theorem follows_refl {p : Reader α} (h : ∀ a, R a a) : Follows R p p :=
  fun _ a _ hrun => ⟨a, hrun, h a⟩

theorem follows_pure {a a' : α} (h : R a a') : Follows R (pure a : Reader α) (pure a') := by
  intro s b rest hrun
  obtain ⟨rfl, rfl⟩ := pure_ok hrun
  exact ⟨a', rfl, h⟩

theorem follows_throw (e : CodecError) (q : Reader α) : Follows R (throw e : Reader α) q := by
  intro s b rest hrun
  cases hrun

theorem Follows.bind {p q : Reader α} {f g : α → Reader β} (hp : Follows R p q)
    (hf : ∀ a a', R a a' → Follows S (f a) (g a')) : Follows S (p >>= f) (q >>= g) := by
  intro s b rest hrun
  obtain ⟨a, u, hpa, hfb⟩ := bind_ok hrun
  obtain ⟨a', hqa, hR⟩ := hp s a u hpa
  obtain ⟨b', hgb, hS⟩ := hf a a' hR u b rest hfb
  exact ⟨b', by rw [run_bind_ok hqa, hgb], hS⟩

end Follows

/-- The strings are those of the other value, as they are received. -/
structure Stripped (v kept : Tree) : Prop where
  strings : v.strings = kept.strings.map received
  text : ∀ s, v = .str s → ∃ t, kept = .str t ∧ s = received t

theorem stripped_scalar (hstrings : v.strings = []) (htext : ∀ s, v ≠ .str s) : Stripped v v := by
  refine ⟨?_, fun s hs => absurd hs (htext s)⟩
  rw [hstrings, List.map_nil]

theorem stripped_num (d : Binary64) : Stripped (.num d) (.num d) :=
  stripped_scalar rfl fun s hs => by cases hs

theorem follows_finite (d : Option Binary64) : Follows Stripped (finite d) (finite d) := by
  cases d with
  | none => exact follows_throw _ _
  | some d => exact follows_pure (stripped_num d)

theorem follows_readSimple (additional : Nat) :
    Follows Stripped (readSimple additional) (readSimple additional) := by
  unfold readSimple
  split
  · exact follows_pure (stripped_scalar rfl fun s hs => by cases hs)
  · exact follows_pure (stripped_scalar rfl fun s hs => by cases hs)
  · exact follows_pure (stripped_scalar rfl fun s hs => by cases hs)
  · exact (follows_refl (R := Eq) fun _ => rfl).bind fun a a' h => h ▸ follows_finite _
  · exact (follows_refl (R := Eq) fun _ => rfl).bind fun a a' h => h ▸ follows_finite _
  · exact (follows_refl (R := Eq) fun _ => rfl).bind fun a a' h => h ▸ follows_finite _
  · exact follows_throw _ _

theorem follows_readText (length : Nat) :
    Follows Stripped (readText false length) (readText true length) := by
  intro s v rest hrun
  obtain ⟨bytes, u, hread, htext⟩ := bind_ok hrun
  unfold textDecode at htext
  cases hchars : ofUtf8? bytes with
  | none =>
    rw [hchars] at htext
    cases htext
  | some cs =>
    rw [hchars] at htext
    obtain ⟨rfl, rfl⟩ := pure_ok htext
    have hreceived : received (Utf16.ofChars cs) = Utf16.ofChars (stripMark cs) := by
      unfold received
      rw [Utf16.scalars_ofChars]
    refine ⟨.str (Utf16.ofChars cs), ?_, ?_, fun s hs => ?_⟩
    · rw [readText, run_bind_ok hread]
      unfold textDecode
      rw [hchars]
      rfl
    · exact congrArg (fun s => [s]) hreceived.symm
    · cases hs
      exact ⟨_, rfl, hreceived.symm⟩

theorem follows_readItems {q : Reader Tree} (h : Follows Stripped p q) (n : Nat) :
    Follows (fun vs kept => vs.length = kept.length ∧
      Tree.stringsItems vs = (Tree.stringsItems kept).map received)
      (readItems p n) (readItems q n) := by
  induction n with
  | zero => exact follows_pure ⟨rfl, rfl⟩
  | succ n ih =>
    refine h.bind fun v w hvw => ih.bind fun vs ws hvs => follows_pure ⟨?_, ?_⟩
    · rw [List.length_cons, List.length_cons, hvs.1]
    · rw [Tree.stringsItems, Tree.stringsItems, List.map_append, hvw.strings, hvs.2]

theorem stringsEntries_append (es fs : List (Utf16 × Tree)) :
    Tree.stringsEntries (es ++ fs) = Tree.stringsEntries es ++ Tree.stringsEntries fs := by
  induction es with
  | nil => rfl
  | cons e es ih =>
    rw [List.cons_append, Tree.stringsEntries, Tree.stringsEntries, ih, List.cons_append,
      List.append_assoc]

theorem follows_readEntries {q : Reader Tree} (h : Follows Stripped p q) (n : Nat)
    (acc kept : List (Utf16 × Tree)) (hkeys : acc.map Prod.fst = (kept.map Prod.fst).map received)
    (hstrings : Tree.stringsEntries acc = (Tree.stringsEntries kept).map received) :
    Follows (fun es fs => Tree.stringsEntries es = (Tree.stringsEntries fs).map received)
      (readEntries p n acc) (readEntries q n kept) := by
  induction n generalizing acc kept with
  | zero => exact follows_pure hstrings
  | succ n ih =>
    refine h.bind fun key key' hkey => ?_
    cases key with
    | str s =>
      obtain ⟨t, rfl, rfl⟩ := hkey.text s rfl
      simp only
      by_cases hdouble : received t ∈ acc.map Prod.fst
      · rw [if_pos hdouble]
        exact follows_throw _ _
      · have hnew : t ∉ kept.map Prod.fst := by
          intro hmem
          rw [hkeys] at hdouble
          exact hdouble (List.mem_map_of_mem hmem)
        rw [if_neg hdouble, if_neg hnew]
        refine h.bind fun v w hvw => ih _ _ ?_ ?_
        · rw [List.map_append, List.map_append, List.map_append, hkeys]
          rfl
        · rw [stringsEntries_append, stringsEntries_append, List.map_append, hstrings]
          simp only [Tree.stringsEntries, List.append_nil, List.map_cons, hvw.strings]
    | null | bool | num | arr | obj => exact follows_throw _ _

theorem follows_readValue (levels : Nat) :
    Follows Stripped (readValue false levels) (readValue true levels) := by
  induction levels with
  | zero => exact follows_throw _ _
  | succ levels ih =>
    refine (follows_refl (R := Eq) fun _ => rfl).bind fun initial initial' hinitial => ?_
    subst hinitial
    simp only
    split
    · exact follows_readSimple _
    refine (follows_refl (R := Eq) fun _ => rfl).bind fun length length' hlength => ?_
    subst hlength
    unfold readContent
    split
    · exact follows_pure (stripped_num _)
    · exact follows_pure (stripped_num _)
    · exact follows_throw _ _
    · exact follows_readText length
    · refine (follows_refl (R := Eq) fun _ => rfl).bind fun _ _ _ => ?_
      refine (follows_readItems ih length).bind fun vs ws hvs => follows_pure ?_
      exact ⟨hvs.2, fun s hs => by cases hs⟩
    · refine (follows_refl (R := Eq) fun _ => rfl).bind fun _ _ _ => ?_
      refine (follows_readEntries ih length [] [] rfl rfl).bind fun es fs hes => follows_pure ?_
      exact ⟨hes, fun s hs => by cases hs⟩
    · exact follows_throw _ _
    · exact follows_throw _ _

/-! ## The codec -/

/-- Some text in the bytes starts with two byte order marks. -/
def DoubleMarked (bytes : List UInt8) : Prop :=
  ∃ kept, (readDocument true).run bytes = .ok (kept, []) ∧
    ∃ s ∈ kept.strings, ∃ rest, s = 0xFEFF :: 0xFEFF :: rest

/-- Some text in the bytes, without its mark, is too long to be written in one call. -/
def Overlong [Engine] (bytes : List UInt8) : Prop :=
  ∃ kept, (readDocument true).run bytes = .ok (kept, []) ∧
    ∃ s ∈ kept.strings, Engine.maxSpread < (bufferFrom (received s)).length

theorem marked_received_iff {s : Utf16} (hwell : s.wellFormed = true) :
    (received s).marked = true ↔ ∃ rest, s = 0xFEFF :: 0xFEFF :: rest := by
  unfold received
  rw [Utf16.marked_ofChars]
  constructor
  · intro hhead
    cases hscalars : s.scalars with
    | nil =>
      rw [hscalars] at hhead
      cases hhead
    | cons c cs =>
      rw [hscalars] at hhead
      have hmark : c = '\uFEFF' := by
        by_contra hother
        rw [stripMark, if_neg hother, List.head?_cons, Option.some.injEq] at hhead
        exact hother hhead
      rw [stripMark, if_pos hmark] at hhead
      cases cs with
      | nil => cases hhead
      | cons c' cs =>
        rw [List.head?_cons, Option.some.injEq] at hhead
        refine ⟨Utf16.ofChars cs, ?_⟩
        rw [← Utf16.ofChars_scalars hwell, hscalars, hmark, hhead]
        rfl
  · rintro ⟨rest, rfl⟩
    rw [Utf16.scalars_single rfl, Utf16.scalars_single rfl]
    rfl

/-- A decoded value fits when no text of the bytes starts with two marks. -/
theorem portable_iff_not_doubleMarked {bytes : List UInt8} (h : decodeCbor bytes = .ok v) :
    Portable v ↔ ¬ DoubleMarked bytes := by
  have hread := decodeCbor_ok_iff.1 h
  have hdecoded := yields_readValue false _ bytes v [] hread
  obtain ⟨kept, hkept, hstripped⟩ := follows_readValue _ bytes v [] hread
  have hwell := (yields_readValue true _ bytes kept [] hkept).text
  have hmarked : (∃ s ∈ v.strings, s.marked = true) ↔ DoubleMarked bytes := by
    constructor
    · rintro ⟨s, hs, hmark⟩
      rw [hstripped.strings, List.mem_map] at hs
      obtain ⟨t, ht, rfl⟩ := hs
      exact ⟨kept, run_readDocument_ok.2 ⟨hkept, rfl⟩, t, ht,
        (marked_received_iff (hwell t ht).1).1 hmark⟩
    · rintro ⟨kept', hkept', t, ht, hrest⟩
      have hsame := hkept.symm.trans (run_readDocument_ok.1 hkept').1
      cases hsame
      refine ⟨received t, ?_, (marked_received_iff (hwell t ht).1).2 hrest⟩
      rw [hstripped.strings]
      exact List.mem_map_of_mem ht
  rw [← hmarked]
  constructor
  · rintro hfits ⟨s, hs, hmark⟩
    rw [(hfits.text s hs).2] at hmark
    cases hmark
  · intro hclean
    refine ⟨fun s hs => ⟨(hdecoded.text s hs).1, ?_⟩, hdecoded.depth, hdecoded.width⟩
    rw [← Bool.not_eq_true]
    exact fun hmark => hclean ⟨s, hs, hmark⟩

/-- The texts of a decoded value fit into calls when those of the bytes do. -/
theorem fits_iff_not_overlong [Engine] {bytes : List UInt8} (h : decodeCbor bytes = .ok v) :
    (∀ s ∈ v.strings, (bufferFrom s).length ≤ Engine.maxSpread) ↔ ¬ Overlong bytes := by
  have hread := decodeCbor_ok_iff.1 h
  obtain ⟨kept, hkept, hstripped⟩ := follows_readValue _ bytes v [] hread
  rw [hstripped.strings]
  constructor
  · rintro hfits ⟨kept', hkept', t, ht, hlong⟩
    have hsame := hkept.symm.trans (run_readDocument_ok.1 hkept').1
    cases hsame
    exact absurd hlong (not_lt.2 (hfits _ (List.mem_map_of_mem ht)))
  · intro hshort s hs
    obtain ⟨t, ht, rfl⟩ := List.mem_map.1 hs
    by_contra hlong
    exact hshort ⟨kept, run_readDocument_ok.2 ⟨hkept, rfl⟩, t, ht, not_le.1 hlong⟩

/-- A value comes back from its encoding exactly when it is portable, and bytes that are read are
    read again from their re-encoding exactly when no text starts with two marks or is too long for
    one call.  The order of keys, prefixes and extensions need no condition. -/
theorem codec_laws [Engine] (v w : JsonValue) (bytes more : List UInt8) :
    (encodeCbor v.1 = .ok bytes →
      ((∃ u, decodeCbor bytes = .ok u ∧ Equal v.1 u) ↔ Portable v.1)) ∧
    (Reordered v.1 w.1 → encodeCbor v.1 = encodeCbor w.1) ∧
    (∀ t : Tree, decodeCbor bytes = .ok t → t.Distinct ∧
      ((∃ again u, encodeCbor t = .ok again ∧ decodeCbor again = .ok u ∧ Equal t u) ↔
        ¬ DoubleMarked bytes ∧ ¬ Overlong bytes)) ∧
    (encodeCbor v.1 = .ok bytes → more ≠ [] →
      (∀ u, decodeCbor (bytes ++ more) ≠ .ok u) ∧
        ∀ start, bytes = start ++ more → ∀ u, decodeCbor start ≠ .ok u) := by
  refine ⟨fun h => ?_, fun h => ?_, fun t h => ?_, fun h hmore => ?_⟩
  · have hsame : (∃ u, decodeCbor bytes = .ok u ∧ Equal v.1 u) ↔
        ComesBack (MAX_CBOR_DEPTH + 1) v.1 :=
      exists_congr fun u => and_congr_left' (decodeCbor_encodeCbor h u)
    exact hsame.trans (comesBack_iff v.2 _)
  · exact write_reordered h v.2 w.2
  · have hdecoded := yields_readValue false _ bytes t [] (decodeCbor_ok_iff.1 h)
    refine ⟨hdecoded.distinct, ?_⟩
    rw [← portable_iff_not_doubleMarked h, ← fits_iff_not_overlong h]
    refine Iff.trans ?_ (and_congr_left' (comesBack_iff hdecoded.distinct _))
    constructor
    · rintro ⟨again, u, hagain, hdecode, hequal⟩
      exact ⟨⟨u, (decodeCbor_encodeCbor hagain u).1 hdecode, hequal⟩, fits_of_encodeCbor hagain⟩
    · rintro ⟨⟨u, hu, hequal⟩, hfits⟩
      obtain ⟨again, hagain⟩ :=
        encodeCbor_ok (fun s hs => ⟨(hdecoded.text s hs).2, hfits s hs⟩) hdecoded.width
      exact ⟨again, u, hagain, (decodeCbor_encodeCbor hagain u).2 hu, hequal⟩
  · exact ⟨decodeCbor_extension h hmore, fun start hsplit => decodeCbor_prefix h hsplit hmore⟩

/-- Arrays in arrays. -/
def nested : Nat → Tree
  | 0 => .null
  | depth + 1 => .arr [nested depth]

theorem encodeCbor_nested [Engine] (depth : Nat) : ∃ bytes, encodeCbor (nested depth) = .ok bytes := by
  induction depth with
  | zero => exact ⟨_, rfl⟩
  | succ depth ih =>
    obtain ⟨bytes, hbytes⟩ := ih
    obtain ⟨head, hhead⟩ := writeHead_ok 4 (show 1 ≤ maxSafeInteger by decide)
    refine ⟨head ++ (bytes ++ []), ?_⟩
    show write (.arr [nested depth]) = _
    rw [write, List.length_singleton, hhead, writeItems,
      show write (nested depth) = .ok bytes from hbytes]
    rfl

theorem returned_nested {depth : Nat} (h : levels ≤ depth) :
    returned levels (nested depth) = .error depthExceeded := by
  induction levels generalizing depth with
  | zero => exact returned_zero _
  | succ levels ih =>
    obtain ⟨depth, rfl⟩ := Nat.exists_eq_add_of_le' (show 1 ≤ depth by omega)
    show returned (levels + 1) (.arr [nested depth]) = _
    have hnarrow : ¬ MAX_CBOR_COLLECTION_LENGTH < 1 := by decide
    rw [returned, List.length_singleton, if_neg hnarrow, returnedItems, ih (by omega)]
    rfl

/-- An engine that takes as many arguments as there are code units. -/
abbrev largeCalls : Engine := ⟨65536⟩

/-- A leading U+FEFF is dropped, a surrogate that stands alone is replaced, and 129 levels are too
    many for the reader alone. -/
theorem codec_loses :
    let _ := largeCalls
    (∃ bytes, encodeCbor (.str [0xFEFF]) = .ok bytes ∧ decodeCbor bytes = .ok (.str []) ∧
      ¬ Equal (.str [0xFEFF]) (.str [])) ∧
    (∃ bytes, encodeCbor (.str [0xD800]) = .ok bytes ∧
      decodeCbor bytes = .ok (.str [0xFFFD]) ∧ ¬ Equal (.str [0xD800]) (.str [0xFFFD])) ∧
    ∃ bytes, encodeCbor (nested 129) = .ok bytes ∧ ∀ w, decodeCbor bytes ≠ .ok w := by
  intro _
  refine ⟨?_, ?_, ?_⟩
  · obtain ⟨bytes, hbytes⟩ : ∃ bytes, encodeCbor (.str [0xFEFF]) = .ok bytes := ⟨_, rfl⟩
    exact ⟨bytes, hbytes, (decodeCbor_encodeCbor hbytes _).2 rfl, fun h => by cases h⟩
  · obtain ⟨bytes, hbytes⟩ : ∃ bytes, encodeCbor (.str [0xD800]) = .ok bytes := ⟨_, rfl⟩
    refine ⟨bytes, hbytes, (decodeCbor_encodeCbor hbytes _).2 rfl, fun h => ?_⟩
    have hunits : ([0xD800] : Utf16) = [0xFFFD] := h
    exact absurd hunits (by decide)
  · obtain ⟨bytes, hbytes⟩ := encodeCbor_nested 129
    refine ⟨bytes, hbytes, fun w hw => ?_⟩
    have hreturned := (decodeCbor_encodeCbor hbytes w).1 hw
    rw [returned_nested (by decide)] at hreturned
    cases hreturned

end XioFlow.Isa
