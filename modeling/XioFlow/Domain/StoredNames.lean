/-
  XioFlow.Domain.StoredNames

  The names under which the kernel stores what belongs to an opaque id: its
  artifacts, its manifest of ignored files, and the ref of a snapshot.

  An id that reads like an ordinary name stands as it is, any other one as the
  digest of its code units.  What reaches the file system and git are scalar
  values, and the classes of the expressions are ASCII, so the ids are tested
  on those.
-/

import Mathlib
import XioFlow.Domain.Artifacts
import XioFlow.Lib.DirTree
import XioFlow.Lib.Utf8Decoder

namespace XioFlow.StoredNames

open Lib

/-! ## Names -/

section

variable (sha256 : List UInt8 → List Char)

/-- `path.join(directory, name)` -/
def pathJoin (directory name : List Char) : Place :=
  Place.of (if directory = [] then name else directory ++ '/' :: name)

def artifactPath (directory : List Char) (id : Utf16) (suffix : String) : Place :=
  pathJoin directory (artifactStem sha256 id ++ suffix.toList)

/-- What the kernel puts behind a stem. -/
def suffixes : List String :=
  ["-stdout.log", "-stderr.log", ".stderr.log", "-reads.json.gz", "-ignored.manifest"]

/-- `ignoredManifestPath`, from `path.join(domainPath, 'artifacts')` -/
def ignoredManifestPath (artifacts : List Char) (snapshotId : Utf16) : Place :=
  artifactPath sha256 artifacts snapshotId "-ignored.manifest"

/-- The files `resolveIgnoredManifest` looks into. -/
def manifestCandidates (artifacts : List Char) (snapshotId : Utf16) : List Place :=
  let legacyName := snapshotId.scalars ++ "-ignored.manifest".toList
  ignoredManifestPath sha256 artifacts snapshotId ::
    if !(snapshotId.scalars.any fun c => c = '\\' || c = '/' || c = '\x00') &&
        !"~xio-id-".toList.isPrefixOf snapshotId.scalars &&
        decide ((utf8 legacyName).length ≤ 255) then
      [pathJoin artifacts legacyName]
    else []

/-- `/[A-Za-z0-9._-]/` -/
def refChar (c : Char) : Bool := c.isAlphanum || ['.', '_', '-'].contains c

/-- An id that git takes as a component of a ref. -/
def ordinaryRef (id : List Char) : Bool :=
  matchesName Char.isAlphanum refChar 180 (String.ofList id) && !infixAt ['.', '.'] id &&
    id.getLast? != some '.' && !".lock".toList.isSuffixOf id

def snapshotRefName (id : Utf16) : List Char :=
  if ordinaryRef id.scalars then "refs/xioflow/snapshots/".toList ++ id.scalars
  else "refs/xioflow/encoded-snapshots/".toList ++ sha256 (utf16le id)

end

/-! ## What git takes as a ref -/

/-- A component as `git check-ref-format` wants it. -/
def refComponent (c : List Char) : Bool :=
  !c.isEmpty && c.head? != some '.' && !infixAt ['.', '.'] c && !infixAt ['@', '\x7b'] c &&
    !".lock".toList.isSuffixOf c &&
    c.all fun x => decide (0x20 < x.toNat) && decide (x.toNat ≠ 0x7F) &&
      ! ['~', '^', ':', '?', '*', '[', '\\'].contains x

def checkRefFormat (ref : List Char) : Bool :=
  (splitAtChar '/' ref).all refComponent && decide (1 < (splitAtChar '/' ref).length) &&
    ref.getLast? != some '.'

/-- One ref is a directory on the way to the other. -/
def Inside (inner outer : List Char) : Prop := outer ++ ['/'] <+: inner

/-! ## Ids and their text -/

variable {s : Utf16} {cs : List Char} {c : Char} {sha256 : List UInt8 → List Char}

/-- A text without the replacement character determines the string. -/
theorem wellFormed_of_scalars (h : '\uFFFD' ∉ s.scalars) : s.wellFormed = true := by
  have hsingle : ∀ {u : CodeUnit}, '\uFFFD' ≠ u.scalar → u.isSurrogate = false := by
    intro u hne
    by_contra hsurrogate
    rw [Bool.not_eq_false] at hsurrogate
    rw [CodeUnit.scalar, if_pos hsurrogate] at hne
    exact hne rfl
  induction s using Utf16.scalars.induct with
  | case1 => rfl
  | case2 =>
    rw [Utf16.scalars, List.mem_singleton] at h
    rw [Utf16.wellFormed, hsingle h]
    rfl
  | case3 u v rest hpair ih =>
    rw [Utf16.scalars, if_pos hpair, List.mem_cons, not_or] at h
    rw [Utf16.wellFormed, if_pos hpair]
    exact ih h.2
  | case4 u v rest hpair ih =>
    rw [Utf16.scalars, if_neg hpair, List.mem_cons, not_or] at h
    rw [Utf16.wellFormed, if_neg hpair, hsingle h.1, ih h.2]
    rfl

theorem scalars_injective {t : Utf16} (hs : '\uFFFD' ∉ s.scalars) (h : s.scalars = t.scalars) :
    s = t := by
  rw [← Utf16.ofChars_scalars (wellFormed_of_scalars hs), h,
    Utf16.ofChars_scalars (wellFormed_of_scalars (h ▸ hs))]

theorem utf16le_injective {t : Utf16} (h : utf16le s = utf16le t) : s = t := by
  induction s generalizing t with
  | nil =>
    cases t with
    | nil => rfl
    | cons => cases h
  | cons u s ih =>
    cases t with
    | nil => cases h
    | cons v =>
      obtain ⟨hlow, hrest⟩ := List.cons.inj h
      obtain ⟨hhigh, htail⟩ := List.cons.inj hrest
      have hlow' := congrArg UInt8.toNat hlow
      have hhigh' := congrArg UInt8.toNat hhigh
      rw [UInt8.toNat_ofNat', UInt8.toNat_ofNat'] at hlow' hhigh'
      have hu := u.isLt
      have hv := v.isLt
      rw [ih htail, Fin.ext (by omega : u.val = v.val)]

/-- A character of a stored name: ASCII, no separator and nothing git refuses in a ref. -/
def Safe (c : Char) : Prop := 0x20 < c.toNat ∧ c.toNat < 0x7F ∧ c.toNat ≠ 0x2F ∧ c.toNat ≠ 0x7E

theorem matchesName_chars {first rest : Char → Bool} {n : Nat}
    (h : matchesName first rest n (String.ofList cs) = true) :
    cs ≠ [] ∧ cs.length ≤ n ∧ (∀ c ∈ cs.head?, first c = true) ∧
      ∀ c ∈ cs, first c = true ∨ rest c = true := by
  rw [matchesName, String.toList_ofList] at h
  cases cs with
  | nil => cases h
  | cons =>
    simp only [Bool.and_eq_true, decide_eq_true_eq, List.all_eq_true] at h
    refine ⟨List.cons_ne_nil _ _, h.2, fun c' hc' => ?_, fun c' hc' => ?_⟩
    · cases hc'
      exact h.1.1
    · rcases List.mem_cons.1 hc' with rfl | hc'
      · exact .inl h.1.1
      · exact .inr (h.1.2 c' hc')

theorem safe_alphanum (h : c.isAlphanum = true) : Safe c ∧ c.toNat ≠ 0x2E := by
  simp only [Char.isAlphanum, Char.isAlpha, Char.isUpper, Char.isLower, Char.isDigit,
    Bool.or_eq_true, Bool.and_eq_true, decide_eq_true_eq, ge_iff_le, UInt32.le_iff_toNat_le] at h
  have hval : c.toNat = c.val.toNat := rfl
  unfold Safe
  simp only [hval]
  simp at h
  omega

theorem safe_stemChar (h : stemChar c = true) : Safe c := by
  rw [stemChar, Bool.or_eq_true, List.contains_iff_mem] at h
  rcases h with h | h
  · exact (safe_alphanum h).1
  · simp only [List.mem_cons, List.not_mem_nil, or_false] at h
    rcases h with rfl | rfl | rfl | rfl | rfl | rfl | rfl <;>
      exact ⟨by decide, by decide, by decide, by decide⟩

/-- What a digest in hexadecimal digits looks like. -/
def IsHex (digest : List Char) : Prop :=
  digest.length = 64 ∧ ∀ c ∈ digest, c ∈ "0123456789abcdef".toList

theorem isHex_of_all {digest : List Char} (hlength : digest.length = 64)
    (h : digest.all "0123456789abcdef".toList.contains = true) : IsHex digest :=
  ⟨hlength, fun c hc => List.contains_iff_mem.1 (List.all_eq_true.1 h c hc)⟩

theorem alphanum_hex : ∀ c ∈ "0123456789abcdef".toList, c.isAlphanum = true :=
  List.all_eq_true.1 (by decide)

theorem safe_hex (h : c ∈ "0123456789abcdef".toList) : Safe c ∧ c.toNat ≠ 0x2E :=
  safe_alphanum (alphanum_hex c h)

theorem not_mem_of_safe (h : ∀ c ∈ cs, Safe c) : '\uFFFD' ∉ cs ∧ '~' ∉ cs ∧ '/' ∉ cs :=
  ⟨fun hmem => absurd (h _ hmem).2.1 (by decide), fun hmem => (h _ hmem).2.2.2 rfl,
    fun hmem => (h _ hmem).2.2.1 rfl⟩

/-! ## Stems -/

/-- The end of a name tells its suffix. -/
theorem suffix_of_end {a b : List Char} {s t : String} (hs : s ∈ suffixes) (ht : t ∈ suffixes)
    (h : a ++ s.toList = b ++ t.toList) : s = t ∧ a = b := by
  have hlong : ∀ s ∈ suffixes, 11 ≤ s.toList.length := by decide
  have htell : ∀ s ∈ suffixes, ∀ t ∈ suffixes,
      s.toList.reverse.take 11 = t.toList.reverse.take 11 → s = t := by decide
  have hend : ∀ (a : List Char) (s : String), s ∈ suffixes →
      (a ++ s.toList).reverse.take 11 = s.toList.reverse.take 11 := by
    intro a s hs
    rw [List.reverse_append, List.take_append_of_le_length]
    rw [List.length_reverse]
    exact hlong s hs
  obtain rfl := htell s hs t ht (by rw [← hend a s hs, h, hend b t ht])
  exact ⟨rfl, List.append_cancel_right h⟩

section Stems

variable {sha256 : List UInt8 → List Char}

/-- A stem is the id, or the reserved prefix and a digest. -/
theorem artifactStem_cases (id : Utf16) :
    (artifactStem sha256 id = id.scalars ∧ id.scalars.length ≤ 180 ∧ ∀ c ∈ id.scalars, Safe c) ∨
      artifactStem sha256 id = "~xio-id-".toList ++ sha256 (utf16le id) := by
  unfold artifactStem
  split
  · rename_i hname
    obtain ⟨-, hlength, -, hchars⟩ := matchesName_chars hname
    exact .inl ⟨rfl, hlength, fun c hc => safe_stemChar (or_self_iff.1 (hchars c hc))⟩
  · exact .inr rfl

theorem artifactStem_injective {id₁ id₂ : Utf16}
    (hapart : sha256 (utf16le id₁) = sha256 (utf16le id₂) → utf16le id₁ = utf16le id₂)
    (h : artifactStem sha256 id₁ = artifactStem sha256 id₂) : id₁ = id₂ := by
  have htilde : ∀ digest : List Char, '~' ∈ "~xio-id-".toList ++ digest :=
    fun _ => List.mem_append_left _ (by decide)
  rcases artifactStem_cases id₁ with ⟨h₁, -, hs₁⟩ | h₁
  · rcases artifactStem_cases id₂ with ⟨h₂, -, -⟩ | h₂
    · rw [h₁, h₂] at h
      exact scalars_injective (not_mem_of_safe hs₁).1 h
    · rw [h₁, h₂] at h
      exact absurd (h ▸ htilde _) (not_mem_of_safe hs₁).2.1
  · rcases artifactStem_cases id₂ with ⟨h₂, -, hs₂⟩ | h₂
    · rw [h₁, h₂] at h
      exact absurd (h ▸ htilde _) (not_mem_of_safe hs₂).2.1
    · rw [h₁, h₂] at h
      exact utf16le_injective (hapart (List.append_cancel_left h))

variable (hhex : ∀ bytes, IsHex (sha256 bytes))
include hhex

/-- The name behind a stem: ASCII without a separator, at most 197 characters. -/
theorem name_chars (id : Utf16) {s : String} (hs : s ∈ suffixes) :
    11 ≤ (artifactStem sha256 id ++ s.toList).length ∧
      (artifactStem sha256 id ++ s.toList).length ≤ 197 ∧
      ∀ c ∈ artifactStem sha256 id ++ s.toList, c.toNat < 0x80 ∧ c ≠ '/' := by
  have hall : ∀ {cs : List Char}, cs.all (fun c => decide (c.toNat < 0x80 ∧ c ≠ '/')) = true →
      ∀ c ∈ cs, c.toNat < 0x80 ∧ c ≠ '/' :=
    fun h c hc => of_decide_eq_true (List.all_eq_true.1 h c hc)
  have hsuffix : ∀ s ∈ suffixes, 11 ≤ s.toList.length ∧ s.toList.length ≤ 17 ∧
      s.toList.all (fun c => decide (c.toNat < 0x80 ∧ c ≠ '/')) = true := by decide
  have hprefix : ∀ c ∈ "~xio-id-".toList, c.toNat < 0x80 ∧ c ≠ '/' := hall (by decide)
  have hsafe : ∀ {c : Char}, Safe c → c.toNat < 0x80 ∧ c ≠ '/' :=
    fun h => ⟨by have := h.2.1; omega, fun heq => h.2.2.1 (heq ▸ rfl)⟩
  obtain ⟨hlow, hhigh, hchars⟩ := hsuffix s hs
  have hstem : (artifactStem sha256 id).length ≤ 180 ∧
      ∀ c ∈ artifactStem sha256 id, c.toNat < 0x80 ∧ c ≠ '/' := by
    rcases artifactStem_cases id with ⟨h, hlength, hs⟩ | h
    · rw [h]
      exact ⟨hlength, fun c hc => hsafe (hs c hc)⟩
    · obtain ⟨hdigest, hdigits⟩ := hhex (utf16le id)
      rw [h, List.length_append, hdigest]
      refine ⟨by decide, fun c hc => ?_⟩
      rcases List.mem_append.1 hc with hc | hc
      · exact hprefix c hc
      · exact hsafe (safe_hex (hdigits c hc)).1
  rw [List.length_append]
  refine ⟨by omega, by omega, fun c hc => ?_⟩
  rcases List.mem_append.1 hc with hc | hc
  · exact hstem.2 c hc
  · exact hall hchars c hc

end Stems

/-! ## Paths -/

/-- A component of a path that is one file name. -/
def FileName (name : List Char) : Prop := Place.IsName name ∧ '/' ∉ name

theorem pathJoin_name {name : List Char} (h : FileName name) (directory : List Char) :
    pathJoin directory name =
      { Place.of directory with names := (Place.of directory).names ++ [name] } := by
  have hone : splitAtChar '/' name = [name] := splitAtChar_self h.2
  have henter : ∀ place : Place, [name].foldl Place.enter place =
      { place with names := place.names ++ [name] } :=
    Place.foldl_enter_names fun seg hseg => List.mem_singleton.1 hseg ▸ h.1
  unfold pathJoin
  split
  · rename_i hempty
    subst hempty
    have hhead : (name.head? == some '/') = false := by
      rw [beq_eq_false_iff_ne]
      exact fun hhead => h.2 (List.mem_of_head? hhead)
    rw [Place.of, hone, henter, hhead]
    rfl
  · rename_i hdir
    rw [Place.of_append hdir, hone, henter]

theorem pathJoin_injective {directory a b : List Char} (ha : FileName a) (hb : FileName b)
    (h : pathJoin directory a = pathJoin directory b) : a = b := by
  rw [pathJoin_name ha, pathJoin_name hb] at h
  have hnames := List.append_cancel_left (congrArg Place.names h)
  exact (List.cons.inj hnames).1

theorem fileName_of_long {name : List Char} (hlong : 3 ≤ name.length) (hslash : '/' ∉ name) :
    FileName name := by
  refine ⟨⟨?_, ?_, ?_⟩, hslash⟩ <;> rintro rfl <;> exact absurd hlong (by decide)

/-! ## Refs -/

theorem mem_of_infixAt {x y : Char} (h : infixAt [x, y] cs = true) : x ∈ cs := by
  induction cs with
  | nil => cases h
  | cons c cs ih =>
    rw [infixAt, Bool.or_eq_true] at h
    rcases h with h | h
    · rw [List.isPrefixOf, Bool.and_eq_true, beq_iff_eq] at h
      exact h.1 ▸ List.mem_cons_self
    · exact List.mem_cons_of_mem _ (ih h)

theorem ordinaryRef_hex {digest : List Char} (h : IsHex digest) : ordinaryRef digest = true := by
  obtain ⟨hlength, hdigits⟩ := h
  have hdot : '.' ∉ digest := fun hmem => (safe_hex (hdigits _ hmem)).2 rfl
  have halphanum : ∀ c ∈ digest, c.isAlphanum = true := fun c hc => alphanum_hex c (hdigits c hc)
  have hname : matchesName Char.isAlphanum refChar 180 (String.ofList digest) = true := by
    rw [matchesName, String.toList_ofList]
    cases digest with
    | nil => cases hlength
    | cons c =>
      rw [List.length_cons] at hlength
      simp only [Bool.and_eq_true, decide_eq_true_eq, List.all_eq_true]
      refine ⟨⟨halphanum c List.mem_cons_self, fun x hx => ?_⟩, by omega⟩
      rw [refChar, halphanum x (List.mem_cons_of_mem _ hx), Bool.true_or]
  have hdots : infixAt ['.', '.'] digest = false := by
    rw [← Bool.not_eq_true]
    exact fun hinfix => hdot (mem_of_infixAt hinfix)
  have hlast : (digest.getLast? != some '.') = true := by
    rw [bne_iff_ne]
    exact fun hlast => hdot (List.mem_of_getLast? hlast)
  have hlock : ".lock".toList.isSuffixOf digest = false := by
    rw [← Bool.not_eq_true, List.isSuffixOf_iff_suffix]
    exact fun hsuffix => hdot (hsuffix.subset (by decide))
  rw [ordinaryRef, hname, hdots, hlast, hlock]
  rfl

theorem refComponent_of_ordinary {c : List Char} (h : ordinaryRef c = true) :
    refComponent c = true ∧ (∀ x ∈ c, Safe x) ∧ c.getLast? ≠ some '.' := by
  simp only [ordinaryRef, Bool.and_eq_true] at h
  obtain ⟨⟨⟨hname, hdots⟩, hlast⟩, hlock⟩ := h
  obtain ⟨hne, -, hfirst, hchars⟩ := matchesName_chars hname
  have href : ∀ x ∈ c, refChar x = true := fun x hx => by
    rcases hchars x hx with h | h
    · rw [refChar, h, Bool.true_or]
    · exact h
  have hsafe : ∀ x ∈ c, Safe x := fun x hx => by
    have h := href x hx
    rw [refChar, Bool.or_eq_true, List.contains_iff_mem] at h
    rcases h with h | h
    · exact (safe_alphanum h).1
    · have hthree : ∀ x ∈ ['.', '_', '-'], stemChar x = true :=
        List.all_eq_true.1 (by decide)
      exact safe_stemChar (hthree x h)
  have hout : ∀ x ∈ ['@', '~', '^', ':', '?', '*', '[', '\\'], refChar x = false := by
    simp [refChar]
  have hnot : ∀ x ∈ ['@', '~', '^', ':', '?', '*', '[', '\\'], x ∉ c := fun x hx hmem => by
    have h := href x hmem
    rw [hout x hx] at h
    cases h
  refine ⟨?_, hsafe, bne_iff_ne.1 hlast⟩
  have hhead : (c.head? != some '.') = true := by
    rw [bne_iff_ne]
    exact fun hhead => (safe_alphanum (hfirst '.' hhead)).2 rfl
  have hat : infixAt ['@', '\x7b'] c = false := by
    rw [← Bool.not_eq_true]
    exact fun hinfix => hnot '@' (by decide) (mem_of_infixAt hinfix)
  have hempty : c.isEmpty = false := List.isEmpty_eq_false_iff.2 hne
  rw [refComponent, hempty, hhead, hat, hlock, hdots]
  simp only [Bool.not_false, Bool.and_true, Bool.true_and, List.all_eq_true, Bool.and_eq_true,
    decide_eq_true_eq, Bool.not_eq_true']
  intro x hx
  refine ⟨⟨(hsafe x hx).1, by have := (hsafe x hx).2.1; omega⟩, ?_⟩
  rw [← Bool.not_eq_true, List.contains_iff_mem]
  exact fun hmem => hnot x (List.mem_cons_of_mem _ hmem) hx

def refRoots : List String := ["refs/xioflow/snapshots", "refs/xioflow/encoded-snapshots"]

theorem snapshotRefName_eq (hhex : ∀ bytes, IsHex (sha256 bytes)) (id : Utf16) :
    ∃ root ∈ refRoots, ∃ last, snapshotRefName sha256 id = root.toList ++ '/' :: last ∧
      ordinaryRef last = true ∧ (last = id.scalars ∧ root = "refs/xioflow/snapshots" ∨
        last = sha256 (utf16le id) ∧ root = "refs/xioflow/encoded-snapshots") := by
  have hplain : "refs/xioflow/snapshots/".toList = "refs/xioflow/snapshots".toList ++ ['/'] := by decide
  have hencoded : "refs/xioflow/encoded-snapshots/".toList =
      "refs/xioflow/encoded-snapshots".toList ++ ['/'] := by decide
  unfold snapshotRefName
  split
  · rename_i hordinary
    refine ⟨_, List.mem_cons_self, id.scalars, ?_, hordinary, .inl ⟨rfl, rfl⟩⟩
    rw [hplain, List.append_assoc, List.singleton_append]
  · refine ⟨_, List.mem_cons_of_mem _ List.mem_cons_self, sha256 (utf16le id), ?_,
      ordinaryRef_hex (hhex _), .inr ⟨rfl, rfl⟩⟩
    rw [hencoded, List.append_assoc, List.singleton_append]

theorem checkRefFormat_snapshotRefName (hhex : ∀ bytes, IsHex (sha256 bytes)) (id : Utf16) :
    checkRefFormat (snapshotRefName sha256 id) = true := by
  obtain ⟨root, hroot, last, heq, hordinary, -⟩ := snapshotRefName_eq hhex id
  obtain ⟨hcomponent, hsafe, hdot⟩ := refComponent_of_ordinary hordinary
  have hslash := (not_mem_of_safe hsafe).2.2
  have hroots : ∀ root ∈ refRoots, (splitAtChar '/' root.toList).all refComponent = true ∧
      1 < (splitAtChar '/' root.toList).length := by decide
  obtain ⟨hall, hlength⟩ := hroots root hroot
  have hne : last ≠ [] := by
    rintro rfl
    cases hordinary
  have hlast : ((root.toList ++ '/' :: last).getLast? != some '.') = true := by
    rw [bne_iff_ne, List.getLast?_append_of_ne_nil _ (List.cons_ne_nil _ _),
      List.getLast?_cons, List.getLast?_eq_some_getLast hne] at *
    exact hdot
  rw [checkRefFormat, heq, splitAtChar_sep, splitAtChar_self hslash, List.all_append, hall, hlast]
  simp only [List.all_cons, hcomponent, List.all_nil, List.length_append, List.length_singleton]
  simp only [Bool.and_true, Bool.true_and, decide_eq_true_eq]
  omega

/-- Both refs have three separators, so that neither is a directory on the way to the other. -/
theorem not_inside (hhex : ∀ bytes, IsHex (sha256 bytes)) (id₁ id₂ : Utf16) :
    ¬ Inside (snapshotRefName sha256 id₁) (snapshotRefName sha256 id₂) := by
  have hcount : ∀ id, (snapshotRefName sha256 id).count '/' = 3 := by
    intro id
    obtain ⟨root, hroot, last, heq, hordinary, -⟩ := snapshotRefName_eq hhex id
    have htwo : ∀ root ∈ refRoots, root.toList.count '/' = 2 := by decide
    rw [heq, List.count_append, htwo root hroot, List.count_cons_self,
      List.count_eq_zero.2 (not_mem_of_safe (refComponent_of_ordinary hordinary).2.1).2.2]
  intro hinside
  have hle := hinside.sublist.count_le '/'
  rw [List.count_append, hcount, hcount] at hle
  exact absurd hle (by decide)

theorem snapshotRefName_injective (hhex : ∀ bytes, IsHex (sha256 bytes)) {id₁ id₂ : Utf16}
    (hapart : sha256 (utf16le id₁) = sha256 (utf16le id₂) → utf16le id₁ = utf16le id₂)
    (h : snapshotRefName sha256 id₁ = snapshotRefName sha256 id₂) : id₁ = id₂ := by
  obtain ⟨root₁, -, last₁, heq₁, hordinary₁, hlast₁⟩ := snapshotRefName_eq hhex id₁
  obtain ⟨root₂, -, last₂, heq₂, hordinary₂, hlast₂⟩ := snapshotRefName_eq hhex id₂
  rw [heq₁, heq₂] at h
  obtain ⟨hreplaced, -, hslash₁⟩ := not_mem_of_safe (refComponent_of_ordinary hordinary₁).2.1
  obtain ⟨-, -, hslash₂⟩ := not_mem_of_safe (refComponent_of_ordinary hordinary₂).2.1
  obtain ⟨hroot, hlast⟩ := append_sep_inj hslash₁ hslash₂ h
  rcases hlast₁ with ⟨rfl, rfl⟩ | ⟨rfl, rfl⟩
  · rcases hlast₂ with ⟨rfl, rfl⟩ | ⟨rfl, rfl⟩
    · exact scalars_injective hreplaced hlast
    · exact absurd hroot (by decide)
  · rcases hlast₂ with ⟨rfl, rfl⟩ | ⟨rfl, rfl⟩
    · exact absurd hroot (by decide)
    · exact utf16le_injective (hapart hlast)

/-! ## Different ids -/

/-- What is stored for the first id is told apart from what is stored for the second. -/
structure StoredApart (sha256 : List UInt8 → List Char) (directory : List Char)
    (id₁ id₂ : Utf16) : Prop where
  paths : ∀ s₁ ∈ suffixes, ∀ s₂ ∈ suffixes,
    artifactPath sha256 directory id₁ s₁ ≠ artifactPath sha256 directory id₂ s₂
  endings : ∀ s₁ ∈ suffixes, ∀ s₂ ∈ suffixes, s₁ ≠ s₂ →
    artifactPath sha256 directory id₁ s₁ ≠ artifactPath sha256 directory id₁ s₂
  /-- Each path is one component, directly inside the directory. -/
  inside : ∀ s ∈ suffixes, ∃ name, FileName name ∧ (utf8 name).length ≤ 255 ∧
    artifactPath sha256 directory id₁ s =
      { Place.of directory with names := (Place.of directory).names ++ [name] }
  manifests : ignoredManifestPath sha256 directory id₂ ∉ manifestCandidates sha256 directory id₁
  refs : snapshotRefName sha256 id₁ ≠ snapshotRefName sha256 id₂ ∧
    ¬ Inside (snapshotRefName sha256 id₁) (snapshotRefName sha256 id₂) ∧
    checkRefFormat (snapshotRefName sha256 id₁) = true

section Different

variable {sha256 : List UInt8 → List Char} (hhex : ∀ bytes, IsHex (sha256 bytes))
include hhex

theorem fileName_stored (id : Utf16) {s : String} (hs : s ∈ suffixes) :
    FileName (artifactStem sha256 id ++ s.toList) := by
  obtain ⟨hlong, -, hchars⟩ := name_chars hhex id hs
  exact fileName_of_long (by omega) fun hmem => (hchars _ hmem).2 rfl

/-- Equal paths come of equal suffixes and equal ids. -/
theorem artifactPath_injective {directory : List Char} {id₁ id₂ : Utf16} {s₁ s₂ : String}
    (hs₁ : s₁ ∈ suffixes) (hs₂ : s₂ ∈ suffixes)
    (hapart : sha256 (utf16le id₁) = sha256 (utf16le id₂) → utf16le id₁ = utf16le id₂)
    (h : artifactPath sha256 directory id₁ s₁ = artifactPath sha256 directory id₂ s₂) :
    s₁ = s₂ ∧ id₁ = id₂ := by
  have hname := pathJoin_injective (fileName_stored hhex id₁ hs₁) (fileName_stored hhex id₂ hs₂) h
  obtain ⟨hsuffix, hstem⟩ := suffix_of_end hs₁ hs₂ hname
  exact ⟨hsuffix, artifactStem_injective hapart hstem⟩

/-- The old name of a manifest is no other snapshot's current one. -/
theorem not_candidate {directory : List Char} {id₁ id₂ : Utf16}
    (hapart : sha256 (utf16le id₁) = sha256 (utf16le id₂) → utf16le id₁ = utf16le id₂)
    (hne : id₁ ≠ id₂) :
    ignoredManifestPath sha256 directory id₂ ∉ manifestCandidates sha256 directory id₁ := by
  have hs : "-ignored.manifest" ∈ suffixes := by decide
  have hlong : 3 ≤ "-ignored.manifest".toList.length := by decide
  have hplain : '/' ∉ "-ignored.manifest".toList := by decide
  intro hmem
  rcases List.mem_cons.1 hmem with hcurrent | hlegacy
  · exact hne (artifactPath_injective hhex hs hs hapart hcurrent.symm).2
  · split at hlegacy
    · rename_i hguard
      simp only [Bool.and_eq_true, Bool.not_eq_true'] at hguard
      obtain ⟨⟨hseparators, hreserved⟩, -⟩ := hguard
      have hslash : '/' ∉ id₁.scalars ++ "-ignored.manifest".toList := by
        rw [List.mem_append, not_or]
        refine ⟨fun hmem => ?_, hplain⟩
        have hnone := List.any_eq_false.1 hseparators '/' hmem
        exact hnone (by decide)
      have hold : FileName (id₁.scalars ++ "-ignored.manifest".toList) :=
        fileName_of_long (by rw [List.length_append]; omega) hslash
      have hname := pathJoin_injective (fileName_stored hhex id₂ hs) hold (List.mem_singleton.1 hlegacy)
      have hstem := List.append_cancel_right hname
      rcases @artifactStem_cases sha256 id₂ with ⟨hid, -, hsafe⟩ | hdigest
      · rw [hid] at hstem
        exact hne (scalars_injective (not_mem_of_safe hsafe).1 hstem).symm
      · -- the reserved prefix is refused
        rw [← hstem, hdigest, ← Bool.not_eq_true, List.isPrefixOf_iff_prefix] at hreserved
        exact hreserved (List.prefix_append _ _)
    · cases hlegacy

/-- Different ids, whose digests do not collide, never share a stored name. -/
theorem storedApart_of_ne (directory : List Char) {id₁ id₂ : Utf16}
    (hapart : sha256 (utf16le id₁) = sha256 (utf16le id₂) → utf16le id₁ = utf16le id₂)
    (hne : id₁ ≠ id₂) : StoredApart sha256 directory id₁ id₂ where
  paths _ hs₁ _ hs₂ h := hne (artifactPath_injective hhex hs₁ hs₂ hapart h).2
  endings _ hs₁ _ hs₂ hsuffix h :=
    hsuffix (artifactPath_injective hhex hs₁ hs₂ (fun _ => rfl) h).1
  inside s hs := by
    obtain ⟨-, hshort, hchars⟩ := name_chars hhex id₁ hs
    refine ⟨_, fileName_stored hhex id₁ hs, ?_, pathJoin_name (fileName_stored hhex id₁ hs) _⟩
    rw [Utf8Decoder.length_utf8_of_ascii fun c hc => Char.utf8Size_eq_one_iff.2
      (UInt32.le_iff_toNat_le.2 (Nat.le_of_lt_succ (hchars c hc).1))]
    omega
  manifests := not_candidate hhex hapart hne
  refs := ⟨fun h => hne (snapshotRefName_injective hhex hapart h), not_inside hhex id₁ id₂,
    checkRefFormat_snapshotRefName hhex id₁⟩

end Different

/-- SHA-256 of no bytes, and of the two bytes of a blank. -/
def digestOf (bytes : List UInt8) : List Char :=
  if bytes = [0x20, 0] then
    "869f1dfb999a452f497a4cf7f44db2d6ee661f74a9e7e05251bc1420e50672d4".toList
  else "e3b0c44298fc1c149afbf4c8996fb92427ae41e4649b934ca495991b7852b855".toList

/-- Neither the empty id nor a blank is an ordinary name. -/
theorem storedApart_of_ne_blank : StoredApart digestOf "artifacts".toList [] [0x20] := by
  have hhex : ∀ bytes, IsHex (digestOf bytes) := by
    intro bytes
    unfold digestOf
    split
    · exact isHex_of_all (by decide) (by decide)
    · exact isHex_of_all (by decide) (by decide)
  exact storedApart_of_ne hhex "artifacts".toList (by decide) (by decide)

end XioFlow.StoredNames
