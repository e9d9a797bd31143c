/-
  XioFlow.Driver.SecretEnv

  The redaction of secret values in the output of a process
  (src/driver/secret-env.ts).

  The transform shows all bytes but the last `keepBytes` of what it has and
  carries these on.  The cut between the two is chosen by length alone: where it
  falls into a character or into an occurrence of a secret, the halves are
  decoded and redacted apart, and neither is recognized.  An output of at most
  `keepBytes` bytes is carried to its end and redacted as a whole.
-/

import XioFlow.Lib.Replacement
import XioFlow.Lib.Utf8Decoder

namespace XioFlow.Driver

open Lib Utf8Decoder

/-- A text, as the values of the environment and the output of a process are. -/
abbrev Text := List Char

def marker : Text := "[REDACTED]".toList

def redactText (value : Text) (secrets : List Text) : Text :=
  secrets.foldl
    (fun output secret =>
      if 0 < secret.length then replaceAll secret marker output else output) value

/-! ## SecretRedactionTransform -/

structure SecretRedactionTransform where
  secrets : List Text
  carry : List UInt8 := []

def keepBytes (secrets : List Text) : Nat :=
  (secrets.map fun secret => byteLength secret + 4).foldl max 0

namespace SecretRedactionTransform

/-- `_transform`: the text pushed, and the transform after it. -/
def transform (t : SecretRedactionTransform) (chunk : List UInt8) :
    Text × SecretRedactionTransform :=
  let input := t.carry ++ chunk
  let splitAt := input.length - keepBytes t.secrets
  let visible := decode (input.take splitAt)
  (redactText visible t.secrets, { t with carry := input.drop splitAt })

/-- `_flush` -/
def flush (t : SecretRedactionTransform) : Text := redactText (decode t.carry) t.secrets

/-- What is pushed for the chunks of a stream. -/
def pushed (t : SecretRedactionTransform) : List (List UInt8) → List Text
  | [] => [t.flush]
  | chunk :: chunks => (t.transform chunk).1 :: pushed (t.transform chunk).2 chunks

end SecretRedactionTransform

/-- The bytes that come out of the redacted stream. -/
def redactSecretStream (stream : List (List UInt8)) (secretValues : List Text) : List UInt8 :=
  if secretValues.length = 0 then stream.flatten
  else ((SecretRedactionTransform.mk secretValues []).pushed stream).flatMap utf8

/-! ## What redaction is for -/

/-- Every division of the text into chunks gives the same output, and that is
    the text with the secrets replaced. -/
def Faithful (secrets : List Text) (text : Text) : Prop :=
  ∃ out, (∀ stream : List (List UInt8), stream.flatten = utf8 text →
    redactSecretStream stream secrets = utf8 out) ∧ Redacts secrets marker text out

/-- No pass of `redactText` over the joined text replaces an occurrence that
    lies across the cut. -/
def Unbroken : List Text → Text → Text → Prop
  | [], _, _ => True
  | secret :: secrets, before, after =>
    NoneAcross secret before after ∧
      Unbroken secrets (replaceAll secret marker before) (replaceAll secret marker after)

/-- Wherever the transform may cut the text, it cuts between two characters and
    through no occurrence of a secret. -/
def CleanCuts (secrets : List Text) (text : Text) : Prop :=
  ∀ p, 0 < p → p ≤ byteLength text - keepBytes secrets →
    ∃ before after, text = before ++ after ∧ byteLength before = p ∧
      Unbroken secrets before after

/-! ## One text -/

theorem marker_ne_nil : marker ≠ [] := by decide

variable {secrets : List Text}

theorem redactText_eq (hsecrets : ∀ secret ∈ secrets, secret ≠ []) (value : Text) :
    redactText value secrets =
      secrets.foldl (fun output secret => replaceAll secret marker output) value := by
  induction secrets generalizing value with
  | nil => rfl
  | cons secret secrets ih =>
    have hpos : 0 < secret.length :=
      List.length_pos_of_ne_nil (hsecrets secret List.mem_cons_self)
    have hrest := ih (fun s hs => hsecrets s (List.mem_cons_of_mem _ hs))
      (replaceAll secret marker value)
    show redactText (if 0 < secret.length then _ else value) secrets = _
    rw [if_pos hpos, hrest, List.foldl_cons]

theorem redactText_cons {secret : Text} (hsecrets : ∀ s ∈ secret :: secrets, s ≠ [])
    (value : Text) :
    redactText value (secret :: secrets) =
      redactText (replaceAll secret marker value) secrets := by
  have htail : ∀ s ∈ secrets, s ≠ [] := fun s hs => hsecrets s (List.mem_cons_of_mem _ hs)
  rw [redactText_eq hsecrets, redactText_eq htail, List.foldl_cons]

theorem redactText_redacts (hsecrets : ∀ secret ∈ secrets, secret ≠ []) (text : Text) :
    Redacts secrets marker text (redactText text secrets) := by
  rw [redactText_eq hsecrets]
  exact replaceEach_redacts hsecrets marker_ne_nil text

theorem redactText_nil (hsecrets : ∀ secret ∈ secrets, secret ≠ []) :
    redactText [] secrets = [] := by
  induction secrets with
  | nil => rfl
  | cons secret secrets ih =>
    rw [redactText_cons hsecrets, replaceAll_nil]
    exact ih fun s hs => hsecrets s (List.mem_cons_of_mem _ hs)

variable {text : Text} {c : Char} {before after : Text}

theorem mem_redactText (h : c ∈ redactText text secrets) : c ∈ text ∨ c ∈ marker := by
  induction secrets generalizing text with
  | nil => exact Or.inl h
  | cons secret secrets ih =>
    have hstep : c ∈ (if 0 < secret.length then replaceAll secret marker text else text) ∨
        c ∈ marker := ih h
    rcases hstep with hc | hc
    · split at hc
      · exact mem_replaceAll hc
      · exact Or.inl hc
    · exact Or.inr hc

/-! ## Clean cuts -/

/-- Across a clean cut the halves are redacted apart. -/
theorem Unbroken.redactText_append (hsecrets : ∀ secret ∈ secrets, secret ≠ [])
    (h : Unbroken secrets before after) :
    redactText (before ++ after) secrets = redactText before secrets ++ redactText after secrets := by
  induction secrets generalizing before after with
  | nil => rfl
  | cons secret secrets ih =>
    have hne := hsecrets secret List.mem_cons_self
    have htail := ih (fun s hs => hsecrets s (List.mem_cons_of_mem _ hs)) h.2
    rw [redactText_cons hsecrets, redactText_cons hsecrets, redactText_cons hsecrets,
      replaceAll_append hne marker h.1, htail]

/-- A clean cut stays one when the text up to an earlier clean cut is gone. -/
theorem Unbroken.tail (hsecrets : ∀ secret ∈ secrets, secret ≠ []) {first : Text}
    (hfirst : Unbroken secrets first (before ++ after))
    (h : Unbroken secrets (first ++ before) after) : Unbroken secrets before after := by
  induction secrets generalizing first before after with
  | nil => trivial
  | cons secret secrets ih =>
    have hne := hsecrets secret List.mem_cons_self
    have hnone := NoneAcross.tail hne hfirst.1 h.1
    have hrest := hfirst.2
    have hrest' := h.2
    rw [replaceAll_append hne marker hnone] at hrest
    rw [replaceAll_append hne marker (NoneAcross.init hne hfirst.1 h.1)] at hrest'
    exact ⟨hnone, ih (fun s hs => hsecrets s (List.mem_cons_of_mem _ hs)) hrest hrest'⟩

theorem byteLength_cons (c : Char) (text : Text) :
    byteLength (c :: text) = c.utf8Size + byteLength text := length_utf8_cons c text

/-- Two ways to cut a text, the shorter first. -/
theorem eq_append_of_byteLength_lt {before' after' : Text}
    (h : before ++ after = before' ++ after') (hlt : byteLength before < byteLength before') :
    ∃ middle, before' = before ++ middle ∧ after = middle ++ after' := by
  rcases List.append_eq_append_iff.1 h with ⟨middle, hbefore, hafter⟩ | ⟨middle, hbefore, -⟩
  · exact ⟨middle, hbefore, hafter⟩
  · -- then the other cut would not be later
    rw [hbefore, byteLength_append] at hlt
    omega

theorem CleanCuts.tail (hsecrets : ∀ secret ∈ secrets, secret ≠ [])
    (hbroken : Unbroken secrets before after) (h : CleanCuts secrets (before ++ after)) :
    CleanCuts secrets after := by
  intro p hpos hp
  have hlength := byteLength_append before after
  obtain ⟨before', after', htext, hbytes, hunbroken⟩ :=
    h (byteLength before + p) (by omega) (by omega)
  obtain ⟨middle, rfl, rfl⟩ := eq_append_of_byteLength_lt htext (by omega)
  refine ⟨middle, after', rfl, ?_, Unbroken.tail hsecrets hbroken hunbroken⟩
  rw [byteLength_append] at hbytes
  omega

/-! ## The stream -/

/-- What is pushed for the rest of a text, from a clean cut on. -/
theorem pushed_of_cleanCuts (hsecrets : ∀ secret ∈ secrets, secret ≠ [])
    (chunks : List (List UInt8)) {carry : List UInt8}
    (hbytes : carry ++ chunks.flatten = utf8 text) (h : CleanCuts secrets text) :
    ((SecretRedactionTransform.mk secrets carry).pushed chunks).flatMap utf8 =
      utf8 (redactText text secrets) := by
  induction chunks generalizing carry text with
  | nil =>
    have hcarry : carry = utf8 text := by
      rw [← hbytes]
      exact (List.append_nil carry).symm
    show utf8 (redactText (decode carry) secrets) ++ [] = _
    rw [hcarry, decode_utf8, List.append_nil]
  | cons chunk chunks ih =>
    have hinput : carry ++ chunk ++ chunks.flatten = utf8 text := by
      rw [← hbytes, List.flatten_cons, ← List.append_assoc]
    show utf8 (redactText (decode ((carry ++ chunk).take
        ((carry ++ chunk).length - keepBytes secrets))) secrets) ++
      ((SecretRedactionTransform.mk secrets ((carry ++ chunk).drop
        ((carry ++ chunk).length - keepBytes secrets))).pushed chunks).flatMap utf8 = _
    generalize carry ++ chunk = input at hinput ⊢
    have hlength : input.length ≤ byteLength text := by
      unfold byteLength
      rw [← hinput, List.length_append]
      exact Nat.le_add_right _ _
    generalize hsplit : input.length - keepBytes secrets = splitAt
    by_cases hzero : splitAt = 0
    · -- nothing is shown yet
      rw [hzero, List.take_zero, List.drop_zero, ih hinput h]
      show utf8 (redactText [] secrets) ++ _ = _
      rw [redactText_nil hsecrets]
      rfl
    · have hshort : splitAt ≤ byteLength text - keepBytes secrets := by omega
      obtain ⟨before, after, rfl, hcut, hunbroken⟩ := h splitAt (by omega) hshort
      have hshown : input.take splitAt = utf8 before := by
        have htake : (utf8 (before ++ after)).take splitAt = utf8 before := by
          rw [utf8_append, ← hcut]
          exact List.take_left
        rw [← hinput, List.take_append_of_le_length (by omega)] at htake
        exact htake
      have hcarried : input.drop splitAt ++ chunks.flatten = utf8 after := by
        have hdrop : (utf8 (before ++ after)).drop splitAt = utf8 after := by
          rw [utf8_append, ← hcut]
          exact List.drop_left
        rw [← hinput, List.drop_append_of_le_length (by omega)] at hdrop
        exact hdrop
      rw [ih hcarried (h.tail hsecrets hunbroken), hshown, decode_utf8, ← utf8_append,
        hunbroken.redactText_append hsecrets]

theorem redactSecretStream_eq (hsome : secrets ≠ []) (stream : List (List UInt8)) :
    redactSecretStream stream secrets =
      ((SecretRedactionTransform.mk secrets []).pushed stream).flatMap utf8 := by
  have hlength : secrets.length ≠ 0 := fun h => hsome (List.eq_nil_of_length_eq_zero h)
  exact if_neg hlength

theorem faithful_of_cleanCuts (hsome : secrets ≠ []) (hsecrets : ∀ secret ∈ secrets, secret ≠ [])
    (h : CleanCuts secrets text) : Faithful secrets text := by
  refine ⟨redactText text secrets, fun stream hstream => ?_, redactText_redacts hsecrets text⟩
  rw [redactSecretStream_eq hsome]
  exact pushed_of_cleanCuts hsecrets stream hstream h

/-! ## A character in the cut -/

/-- Text with a character of two bytes, the first of which is the last byte
    shown. -/
def cutText (secrets : List Text) (n : Nat) (c : Char) : Text :=
  List.replicate (n - keepBytes secrets - 1) 'x' ++ c :: List.replicate (keepBytes secrets - 1) 'x'

theorem le_foldl_max (ns : List Nat) (a : Nat) : a ≤ ns.foldl max a := by
  induction ns generalizing a with
  | nil => exact Nat.le_refl a
  | cons n ns ih => exact Nat.le_trans (Nat.le_max_left a n) (ih (max a n))

/-- A secret needs more than four bytes to be kept. -/
theorem four_le_keepBytes (hsome : secrets ≠ []) : 4 ≤ keepBytes secrets := by
  unfold keepBytes
  cases secrets with
  | nil => exact absurd rfl hsome
  | cons secret secrets =>
    have hle := le_foldl_max (secrets.map fun s => byteLength s + 4)
      (max 0 (byteLength secret + 4))
    have hmax := Nat.le_max_right 0 (byteLength secret + 4)
    show 4 ≤ (secrets.map fun s => byteLength s + 4).foldl max (max 0 (byteLength secret + 4))
    omega

theorem byteLength_replicate (n : Nat) : byteLength (List.replicate n 'x') = n := by
  have hsize : 'x'.utf8Size = 1 := by decide
  unfold byteLength
  rw [length_utf8_replicate, hsize, Nat.mul_one]

theorem byteLength_cutText (hsome : secrets ≠ []) {n : Nat} (hn : keepBytes secrets < n)
    (hc : c.utf8Size = 2) : byteLength (cutText secrets n c) = n := by
  have hkeep := four_le_keepBytes hsome
  unfold cutText
  rw [byteLength_append, byteLength_cons, byteLength_replicate, byteLength_replicate, hc]
  omega

/-- The two bytes of a character, each decoded on its own side of a cut. -/
theorem feed_two_bytes (hc : c.utf8Size = 2) :
    ∃ first second, String.utf8EncodeChar c = [first, second] ∧
      (idle.feed [first]).1 = [] ∧ (idle.feed [first]).2.flush = [replacementCharacter] ∧
      idle.feed [second] = ([replacementCharacter], idle) := by
  obtain ⟨hlow, hhigh⟩ := Char.utf8Size_eq_two_iff.1 hc
  have hlow' : 127 < c.val.toNat := hlow
  have hhigh' : c.val.toNat ≤ 0x7ff := hhigh
  unfold String.utf8EncodeChar
  simp only
  rw [if_neg (by omega), if_pos hhigh']
  refine ⟨_, _, rfl, ?_, ?_, ?_⟩
  · rw [feed_cons, toNat_ofNat_byte (by omega), idle_next, start_two (by omega) (by omega)]
    rfl
  · rw [feed_cons, toNat_ofNat_byte (by omega), idle_next, start_two (by omega) (by omega)]
    rfl
  · rw [feed_cons, toNat_ofNat_byte (by omega), idle_next]
    have hstart : start (c.val.toNat % 0x40 + 0x80) = ([replacementCharacter], idle) := by
      unfold start
      rw [if_neg (by omega), if_pos (by omega)]
    rw [hstart]
    rfl

/-- No division into chunks is faithful to a text whose character lies in the
    cut, unless the character occurs in a secret. -/
theorem not_faithful_cutText (hsome : secrets ≠ []) {n : Nat} (hn : keepBytes secrets < n)
    (hc : c.utf8Size = 2) (hfree : ∀ secret ∈ secrets, c ∉ secret) :
    ¬ Faithful secrets (cutText secrets n c) := by
  rintro ⟨out, hstream, hredacts⟩
  have hkeep := four_le_keepBytes hsome
  obtain ⟨first, second, hbytes, hfed, hflush, hsecond⟩ := feed_two_bytes hc
  -- the text in one chunk
  have hout := hstream [utf8 (cutText secrets n c)] (List.append_nil _)
  rw [redactSecretStream_eq hsome] at hout
  have hbefore : utf8 (cutText secrets n c) =
      (utf8 (List.replicate (n - keepBytes secrets - 1) 'x') ++ [first]) ++
        (second :: utf8 (List.replicate (keepBytes secrets - 1) 'x')) := by
    unfold cutText
    rw [utf8_append, utf8_cons, hbytes, List.append_assoc]
    rfl
  have hshown : (utf8 (List.replicate (n - keepBytes secrets - 1) 'x') ++ [first]).length =
      (utf8 (cutText secrets n c)).length - keepBytes secrets := by
    have hwhole : (utf8 (cutText secrets n c)).length = n := byteLength_cutText hsome hn hc
    have hfront : (utf8 (List.replicate (n - keepBytes secrets - 1) 'x')).length =
        n - keepBytes secrets - 1 := byteLength_replicate _
    rw [hwhole, List.length_append, hfront, List.length_singleton]
    omega
  have hpushed : out =
      redactText (decode (utf8 (List.replicate (n - keepBytes secrets - 1) 'x') ++ [first]))
        secrets ++
      redactText (decode (second :: utf8 (List.replicate (keepBytes secrets - 1) 'x')))
        secrets := by
    apply utf8_injective
    rw [← hout, utf8_append]
    show utf8 (redactText (decode ((utf8 (cutText secrets n c)).take _)) secrets) ++
      (utf8 (redactText (decode ((utf8 (cutText secrets n c)).drop _)) secrets) ++ []) = _
    rw [List.nil_append, ← hshown, hbefore, List.take_left, List.drop_left, List.append_nil]
  -- the character is in neither half
  have hcx : c ≠ 'x' := by
    rintro rfl
    exact absurd hc (by decide)
  have hcr : c ≠ replacementCharacter := by
    rintro rfl
    exact absurd hc (by decide)
  have hcm : c ∉ marker := by
    intro hmem
    have hall : marker.all (fun d => d.utf8Size != 2) = true := by decide
    have hne := List.all_eq_true.1 hall c hmem
    exact absurd hc (by simpa using hne)
  have hfirst : decode (utf8 (List.replicate (n - keepBytes secrets - 1) 'x') ++ [first]) =
      List.replicate (n - keepBytes secrets - 1) 'x' ++ [replacementCharacter] := by
    unfold decode
    rw [feed_append, feed_utf8]
    show List.replicate _ 'x' ++ (idle.feed [first]).1 ++ (idle.feed [first]).2.flush = _
    rw [hfed, hflush, List.append_nil]
  have hrest : decode (second :: utf8 (List.replicate (keepBytes secrets - 1) 'x')) =
      replacementCharacter :: List.replicate (keepBytes secrets - 1) 'x' := by
    unfold decode
    rw [← List.singleton_append, feed_append, hsecond, feed_utf8]
    exact List.append_nil _
  have hmem : c ∈ out := hredacts.keeps hfree
    (List.mem_append_right _ List.mem_cons_self)
  rw [hpushed, hfirst, hrest] at hmem
  rcases List.mem_append.1 hmem with hmem | hmem
  · rcases mem_redactText hmem with hmem | hmem
    · rcases List.mem_append.1 hmem with hmem | hmem
      · exact hcx (List.eq_of_mem_replicate hmem)
      · exact hcr (List.mem_singleton.1 hmem)
    · exact hcm hmem
  · rcases mem_redactText hmem with hmem | hmem
    · rcases List.mem_cons.1 hmem with hmem | hmem
      · exact hcr hmem
      · exact hcx (List.eq_of_mem_replicate hmem)
    · exact hcm hmem

/-! ## Main results -/

theorem cleanCuts_of_le (h : byteLength text ≤ keepBytes secrets) : CleanCuts secrets text := by
  intro p hpos hp
  omega

/-- The stream is faithful to every text that it can only cut cleanly; and for
    texts of a given length this holds of all of them only where the length is
    at most `keepBytes` (as long as some character of two bytes is in no
    secret). -/
theorem redactSecretStream_faithful {secrets : List Text} (hsome : secrets ≠ [])
    (hsecrets : ∀ secret ∈ secrets, secret ≠ []) :
    (∀ text, CleanCuts secrets text → Faithful secrets text) ∧
    ∀ n, (∃ c : Char, c.utf8Size = 2 ∧ ∀ secret ∈ secrets, c ∉ secret) →
      ((∀ text, byteLength text = n → Faithful secrets text) ↔ n ≤ keepBytes secrets) := by
  refine ⟨fun text h => faithful_of_cleanCuts hsome hsecrets h, fun n hspare => ⟨?_, ?_⟩⟩
  · obtain ⟨c, hc, hfree⟩ := hspare
    intro hall
    by_contra hlong
    have hn : keepBytes secrets < n := by omega
    exact not_faithful_cutText hsome hn hc hfree (hall _ (byteLength_cutText hsome hn hc))
  · intro hn text htext
    exact faithful_of_cleanCuts hsome hsecrets (cleanCuts_of_le (by omega))

/-- The result at work: a text that is longer than what is kept for the next chunk, and whose cuts
    fall before the secret. -/
theorem cut_output_faithful : Faithful ["abcd".toList] "xxxabcdxxxx".toList := by
  refine (@redactSecretStream_faithful ["abcd".toList] (by decide) (by decide)).1 _ ?_
  intro p hpos hp
  have hthree : p ≤ 3 := hp.trans (by decide)
  have hcases : p = 1 ∨ p = 2 ∨ p = 3 := by omega
  rcases hcases with rfl | rfl | rfl
  · refine ⟨['x'], "xxabcdxxxx".toList, rfl, by decide, ?_, trivial⟩
    unfold NoneAcross
    decide
  · refine ⟨['x', 'x'], "xabcdxxxx".toList, rfl, by decide, ?_, trivial⟩
    unfold NoneAcross
    decide
  · refine ⟨['x', 'x', 'x'], "abcdxxxx".toList, rfl, by decide, ?_, trivial⟩
    unfold NoneAcross
    decide

/-- A secret of three letters at the start of eight: the transform shows its
    first letter and then the rest, in the clear. -/
theorem secret_shown_in_two :
    redactSecretStream [utf8 "abcxxxxx".toList] ["abc".toList] = utf8 "abcxxxxx".toList ∧
      ¬ Faithful ["abc".toList] "abcxxxxx".toList := by
  have hshown : redactSecretStream [utf8 "abcxxxxx".toList] ["abc".toList] =
      utf8 "abcxxxxx".toList := by decide
  refine ⟨hshown, fun ⟨out, hstream, hredacts⟩ => ?_⟩
  have hout : out = "abcxxxxx".toList := by
    apply utf8_injective
    rw [← hstream [utf8 "abcxxxxx".toList] (List.append_nil _), hshown]
  rw [hout] at hredacts
  have hmarked : '[' ∈ marker := List.mem_cons_self
  rcases hredacts.unchanged_or_marked hmarked (by decide) with ⟨-, hnone⟩ | hmem
  · exact hnone "abc".toList List.mem_cons_self ⟨[], "xxxxx".toList, rfl⟩
  · exact absurd hmem (by decide)

end XioFlow.Driver
