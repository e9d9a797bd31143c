/-
  XioFlow.Workspace.BatchBlobs

  Many blobs of a tree read through one `git cat-file --batch`: the requests
  are lines, the answers are read back by position.

  What stands at a position is the answer to the line at it, so a path of two
  lines moves every later one (`line_shifts`).  Among paths of one line the
  reading goes wrong exactly where a path names an object that is no blob: the
  header is not asked for its type (`readsBlobs_of_aligned`).
-/

import XioFlow.Lib.DirTree
import XioFlow.Lib.Utf8Cut

namespace XioFlow.BatchBlobs

open Lib Utf8Decoder

abbrev Text : Type := List Char

/-! ## What git answers -/

inductive ObjectType where
  | blob | tree | commit | tag
  deriving DecidableEq

def ObjectType.text : ObjectType → Text
  | blob => ['b', 'l', 'o', 'b']
  | tree => ['t', 'r', 'e', 'e']
  | commit => ['c', 'o', 'm', 'm', 'i', 't']
  | tag => ['t', 'a', 'g']

def hexDigits : Text :=
  ['0', '1', '2', '3', '4', '5', '6', '7', '8', '9', 'a', 'b', 'c', 'd', 'e', 'f']

structure Oid where
  text : Text
  nonempty : text ≠ [] := by decide
  all_hex : text.all hexDigits.contains = true := by decide

theorem Oid.hex (oid : Oid) : ∀ c ∈ oid.text, c ∈ hexDigits :=
  fun c hc => List.contains_iff_mem.1 (List.all_eq_true.1 oid.all_hex c hc)

/-- What an object name leads to. -/
inductive Answer where
  | missing
  | object (oid : Oid) (type : ObjectType) (bytes : List UInt8)

/-- The first line of a record: `<oid> SP <type> SP <size>`, or the name and ` missing`. -/
def Answer.header (name : Text) : Answer → Text
  | missing => name ++ [' ', 'm', 'i', 's', 's', 'i', 'n', 'g']
  | object oid type bytes => oid.text ++ ' ' :: (type.text ++ ' ' :: digitsOf bytes.length)

def Answer.payload : Answer → List UInt8
  | missing => []
  | object _ _ bytes => bytes ++ [0x0a]

def record (name : Text) (a : Answer) : List UInt8 := utf8 (a.header name ++ ['\n']) ++ a.payload

/-- The answers to the lines that came in, in order; the text ends with a line feed. -/
def catFileBatch (lookup : Text → Answer) (stdin : Text) : List UInt8 :=
  (splitAtChar '\n' stdin).dropLast.flatMap fun line => record line (lookup line)

/-! ## Reading the answers -/

/-- A `Map` from paths to contents. -/
abbrev Blobs : Type := Text → Option Text

def Blobs.set (out : Blobs) (rel text : Text) : Blobs := fun q => if q = rel then some text else out q

/-- `res.indexOf(0x0a, offset)`: the line that starts at the offset, and what comes behind it. -/
def readHeader (res : List UInt8) : Option (Text × List UInt8) :=
  if 0x0a ∈ res then
    some (decode (res.takeWhile (· != 0x0a)), (res.dropWhile (· != 0x0a)).tail)
  else none

/-- `Number(parts[2] ?? 0)`, where it is a whole number in decimal digits. -/
def sizeOf (header : Text) : Option Nat :=
  match (splitAtChar ' ' (trim header))[2]? with
  | none => some 0
  | some part => if part.isEmpty then some 0 else decimalValue? part

def endsWithMissing (header : Text) : Bool :=
  List.isSuffixOf [' ', 'm', 'i', 's', 's', 'i', 'n', 'g'] header

/-- The loop over the paths, with what is left of the output from the offset on. -/
def readAll : List Text → List UInt8 → Blobs → Blobs
  | [], _, out => out
  | rel :: relPaths, res, out =>
    match readHeader res with
    | none => out
    | some (header, rest) =>
      if endsWithMissing header then readAll relPaths rest out
      else
        match sizeOf header with
        | none => readAll relPaths rest out
        | some size =>
          if size ≤ rest.length then
            -- one more for the line feed behind the payload
            readAll relPaths (rest.drop (size + 1)) (out.set rel (decode (rest.take size)))
          else readAll relPaths rest out

def maxBuffer : Nat := 50 * 1024 * 1024

variable (lookup : Text → Answer) (treeOrCommit : Text) (relPaths : List Text)

def spec (p : Text) : Text := treeOrCommit ++ ':' :: p

/-- `relPaths.map(...).join('\n') + '\n'`. -/
def specs : Text := joinAtChar '\n' (relPaths.map (spec treeOrCommit)) ++ ['\n']

def batchReadBlobs : Except String Blobs :=
  if relPaths.isEmpty then .ok fun _ => none
  else
    let res := catFileBatch lookup (specs treeOrCommit relPaths)
    if maxBuffer < res.length then .error "stdout maxBuffer length exceeded"
    else .ok (readAll relPaths res fun _ => none)

/-! ## What should come out -/

/-- The content, for a blob and for nothing else. -/
def Answer.content? : Answer → Option Text
  | object _ .blob bytes => some (decode bytes)
  | _ => none

/-- Each listed path has its content, if it is a blob, and no entry otherwise. -/
def ReadsBlobs : Prop :=
  ∃ out, batchReadBlobs lookup treeOrCommit relPaths = .ok out ∧
    ∀ p ∈ relPaths, out p = (lookup (spec treeOrCommit p)).content?

/-- A blob, or nothing at all. -/
def Answer.Expected : Answer → Prop
  | missing => True
  | object _ type _ => type = .blob

/-- Every name is one line. -/
def OneLine : Prop := ∀ p ∈ relPaths, '\n' ∉ spec treeOrCommit p

def answers : List UInt8 :=
  relPaths.flatMap fun p => record (spec treeOrCommit p) (lookup (spec treeOrCommit p))

/-- No listed path names an object that is no blob, and the answers fit the buffer. -/
structure Served : Prop where
  expected : ∀ p ∈ relPaths, (lookup (spec treeOrCommit p)).Expected
  fits : (answers lookup treeOrCommit relPaths).length ≤ maxBuffer

variable {lookup treeOrCommit relPaths}

/-! ## One record -/

theorem newline_of_mem_char {c : Char} (h : 0x0a ∈ String.utf8EncodeChar c) : c = '\n' := by
  obtain ⟨lead, conts, heq, _, hconts, _⟩ := utf8EncodeChar_eq c
  rw [heq, List.mem_cons] at h
  rcases h with rfl | h
  · -- the decoder is done with the character after this byte
    have hread := feed_char c
    rw [heq, feed_cons] at hread
    have hchar : '\n' :: (idle.feed conts).1 = [c] := congrArg Prod.fst hread
    exact (List.cons.inj hchar).1.symm
  · exact absurd (hconts _ h) (by decide)

/-- The byte of a line feed stands for nothing else. -/
theorem newline_mem_utf8 {cs : Text} (h : 0x0a ∈ utf8 cs) : '\n' ∈ cs := by
  obtain ⟨c, hc, hbyte⟩ := List.mem_flatMap.1 h
  exact newline_of_mem_char hbyte ▸ hc

theorem readHeader_line {line : Text} (h : '\n' ∉ line) (rest : List UInt8) :
    readHeader (utf8 (line ++ ['\n']) ++ rest) = some (line, rest) := by
  have hbytes : ∀ b ∈ utf8 line, (b != 0x0a) = true := by
    intro b hb
    rw [bne_iff_ne]
    rintro rfl
    exact h (newline_mem_utf8 hb)
  have hsplit : utf8 (line ++ ['\n']) ++ rest = utf8 line ++ 0x0a :: rest := by
    rw [utf8_append, List.append_assoc]
    rfl
  rw [hsplit, readHeader, if_pos (by simp), List.takeWhile_append_of_pos hbytes,
    List.dropWhile_append_of_pos hbytes]
  simp [decode_utf8]

theorem readAll_missing {name : Text} (hname : '\n' ∉ name) (rel : Text) (rels : List Text)
    (rest : List UInt8) (out : Blobs) :
    readAll (rel :: rels) (record name .missing ++ rest) out = readAll rels rest out := by
  have hline : '\n' ∉ Answer.missing.header name := by simp [Answer.header, hname]
  have hend : endsWithMissing (Answer.missing.header name) = true :=
    List.isSuffixOf_iff_suffix.2 (List.suffix_append _ _)
  rw [record, List.append_assoc, readAll, readHeader_line hline]
  simp only [hend, if_true]
  rfl

theorem digitsOf_ne_nil (n : Nat) : digitsOf n ≠ [] := Nat.toDigits_ne_nil

theorem decimalValue?_digitsOf (n : Nat) : decimalValue? (digitsOf n) = some n := by
  obtain ⟨c, cs, hcs⟩ := List.exists_cons_of_ne_nil (digitsOf_ne_nil n)
  have hall : (c :: cs).all Char.isDigit = true := by
    rw [← hcs, List.all_eq_true]
    exact fun d hd => Nat.isDigit_of_mem_toDigits (by decide) (by decide) hd
  rw [hcs, decimalValue?, if_pos hall, ← hcs]
  · exact congrArg some (Nat.ofDigitChars_ten_toDigits (n := n))
  · exact List.cons_ne_nil _ _

section Object

variable (oid : Oid) (type : ObjectType) (bytes : List UInt8)

/-- The columns of a header are words. -/
theorem header_words {c : Char} (hc : c = ' ' ∨ c = '\n') :
    c ∉ oid.text ∧ c ∉ type.text ∧ c ∉ digitsOf bytes.length := by
  refine ⟨fun h => ?_, ?_, not_mem_digitsOf ?_ _⟩
  · rcases hc with rfl | rfl <;> exact absurd (oid.hex _ h) (by decide)
  · rcases hc with rfl | rfl <;> cases type <;> decide
  · rcases hc with rfl | rfl <;> rfl

theorem trim_header (name : Text) :
    trim ((Answer.object oid type bytes).header name) =
      (Answer.object oid type bytes).header name := by
  have hfirst : ∀ c ∈ oid.text, isWhitespace c = false := by
    have hall : hexDigits.all (fun c => !isWhitespace c) = true := by decide
    exact fun c hc => by simpa using List.all_eq_true.1 hall c (oid.hex c hc)
  have hlast : ∀ c ∈ (digitsOf bytes.length).reverse, isWhitespace c = false :=
    fun c hc => isWhitespace_of_isDigit
      (Nat.isDigit_of_mem_toDigits (by decide) (by decide) (List.mem_reverse.1 hc))
  have hne : (digitsOf bytes.length).reverse ≠ [] :=
    fun h => digitsOf_ne_nil _ (List.reverse_eq_nil_iff.1 h)
  have hshape : (Answer.object oid type bytes).header name =
      (oid.text ++ ' ' :: (type.text ++ [' '])) ++ digitsOf bytes.length := by
    simp [Answer.header]
  rw [hshape, trim, List.append_assoc, dropWhile_start oid.nonempty hfirst, ← List.append_assoc,
    List.reverse_append, dropWhile_start hne hlast, ← List.reverse_append, List.reverse_reverse]

theorem sizeOf_header (name : Text) :
    sizeOf ((Answer.object oid type bytes).header name) = some bytes.length := by
  obtain ⟨hoid, htype, hdigits⟩ := header_words oid type bytes (.inl rfl)
  have hparts : splitAtChar ' ' ((Answer.object oid type bytes).header name) =
      [oid.text, type.text, digitsOf bytes.length] := by
    rw [Answer.header, splitAtChar_sep, splitAtChar_self hoid, splitAtChar_sep,
      splitAtChar_self htype, splitAtChar_self hdigits]
    rfl
  rw [sizeOf, trim_header, hparts]
  show (if (digitsOf bytes.length).isEmpty then some 0 else _) = _
  rw [List.isEmpty_eq_false_iff.2 (digitsOf_ne_nil _)]
  exact decimalValue?_digitsOf _

theorem endsWithMissing_header (name : Text) :
    endsWithMissing ((Answer.object oid type bytes).header name) = false := by
  rw [Bool.eq_false_iff, Ne, endsWithMissing, List.isSuffixOf_iff_suffix]
  rintro ⟨before, heq⟩
  obtain ⟨ds, d, hds⟩ := (List.eq_nil_or_concat (digitsOf bytes.length)).resolve_left
    (digitsOf_ne_nil _)
  have hd : d = 'g' := by
    have hlast := congrArg List.getLast? heq
    simpa [Answer.header, hds, List.getLast?_append, List.getLast?_cons] using hlast.symm
  exact not_mem_digitsOf (by decide : 'g'.isDigit = false) bytes.length (by simp [hds, hd])

/-- An object gives the path an entry, whatever its type. -/
theorem readAll_object (name rel : Text) (rels : List Text) (rest : List UInt8) (out : Blobs) :
    readAll (rel :: rels) (record name (.object oid type bytes) ++ rest) out =
      readAll rels rest (out.set rel (decode bytes)) := by
  have hline : '\n' ∉ (Answer.object oid type bytes).header name := by
    obtain ⟨hoid, htype, hdigits⟩ := header_words oid type bytes (.inr rfl)
    simp [Answer.header, hoid, htype, hdigits]
  have hfits : bytes.length ≤ (bytes ++ 0x0a :: rest).length := by simp
  have hpayload : (Answer.object oid type bytes).payload ++ rest = bytes ++ 0x0a :: rest := by
    simp [Answer.payload]
  have hdrop : (bytes ++ 0x0a :: rest).drop (bytes.length + 1) = rest := by
    rw [← List.drop_drop, List.drop_left]
    rfl
  rw [record, List.append_assoc, readAll, readHeader_line hline, hpayload]
  simp only [endsWithMissing_header, sizeOf_header, if_pos hfits, hdrop, List.take_left]
  rfl

end Object

/-! ## All records -/

/-- An entry stays. -/
theorem readAll_keeps {q : Text} (rels : List Text) (res : List UInt8) (out : Blobs)
    (h : out q ≠ none) : readAll rels res out q ≠ none := by
  induction rels generalizing res out with
  | nil => exact h
  | cons rel rels ih =>
    unfold readAll
    cases readHeader res with
    | none => exact h
    | some line =>
      have hset : ∀ text, (out.set rel text) q ≠ none := by
        intro text
        unfold Blobs.set
        split
        · exact Option.some_ne_none _
        · exact h
      dsimp only
      split
      · exact ih _ _ h
      · cases sizeOf line.1 with
        | none => exact ih _ _ h
        | some =>
          dsimp only
          split
          · exact ih _ _ (hset _)
          · exact ih _ _ h

theorem readAll_answers (hline : OneLine treeOrCommit relPaths)
    (h : ∀ p ∈ relPaths, (lookup (spec treeOrCommit p)).Expected) (out : Blobs) (q : Text) :
    readAll relPaths (answers lookup treeOrCommit relPaths) out q =
      if q ∈ relPaths then ((lookup (spec treeOrCommit q)).content?).or (out q) else out q := by
  induction relPaths generalizing out with
  | nil => rfl
  | cons rel rels ih =>
    have hrest := ih (fun p hp => hline p (List.mem_cons_of_mem _ hp))
      fun p hp => h p (List.mem_cons_of_mem _ hp)
    have hexpected := h rel List.mem_cons_self
    have hname := hline rel List.mem_cons_self
    rw [answers, List.flatMap_cons]
    cases hrel : lookup (spec treeOrCommit rel) with
    | missing =>
      rw [readAll_missing hname, ← answers, hrest]
      by_cases hq : q = rel
      · subst hq
        simp [hrel, Answer.content?]
      · simp [hq]
    | object oid type bytes =>
      rw [hrel] at hexpected
      obtain rfl : type = .blob := hexpected
      rw [readAll_object, ← answers, hrest]
      by_cases hq : q = rel
      · subst hq
        simp [hrel, Answer.content?, Blobs.set]
      · simp [hq, Blobs.set]

/-- The first object that is no blob has an entry. -/
theorem exists_entry (hline : OneLine treeOrCommit relPaths)
    (h : ∃ p ∈ relPaths, ¬ (lookup (spec treeOrCommit p)).Expected) (out : Blobs) :
    ∃ p ∈ relPaths, ¬ (lookup (spec treeOrCommit p)).Expected ∧
      readAll relPaths (answers lookup treeOrCommit relPaths) out p ≠ none := by
  induction relPaths generalizing out with
  | nil => obtain ⟨p, hp, _⟩ := h; cases hp
  | cons rel rels ih =>
    have hname := hline rel List.mem_cons_self
    have hrels : OneLine treeOrCommit rels := fun p hp => hline p (List.mem_cons_of_mem _ hp)
    have hlater : (lookup (spec treeOrCommit rel)).Expected →
        ∃ p ∈ rels, ¬ (lookup (spec treeOrCommit p)).Expected := by
      intro hexpected
      obtain ⟨p, hp, hbad⟩ := h
      rcases List.mem_cons.1 hp with rfl | hp
      · exact absurd hexpected hbad
      · exact ⟨p, hp, hbad⟩
    rw [answers, List.flatMap_cons]
    cases hrel : lookup (spec treeOrCommit rel) with
    | missing =>
      obtain ⟨p, hp, hbad, hentry⟩ := ih hrels (hlater (by rw [hrel]; trivial)) out
      rw [readAll_missing hname, ← answers]
      exact ⟨p, List.mem_cons_of_mem _ hp, hbad, hentry⟩
    | object oid type bytes =>
      rw [readAll_object, ← answers]
      by_cases hblob : type = .blob
      · obtain ⟨p, hp, hbad, hentry⟩ := ih hrels (hlater (by rw [hrel]; exact hblob))
          (out.set rel (decode bytes))
        exact ⟨p, List.mem_cons_of_mem _ hp, hbad, hentry⟩
      · refine ⟨rel, List.mem_cons_self, by rw [hrel]; exact hblob, readAll_keeps _ _ _ ?_⟩
        simp [Blobs.set]

/-- Names of one line are asked for one by one. -/
theorem catFileBatch_specs (hne : relPaths ≠ []) (hline : OneLine treeOrCommit relPaths) :
    catFileBatch lookup (specs treeOrCommit relPaths) = answers lookup treeOrCommit relPaths := by
  have hparts : ∀ part ∈ relPaths.map (spec treeOrCommit), '\n' ∉ part :=
    List.forall_mem_map.2 hline
  rw [catFileBatch, specs, splitAtChar_sep, splitAtChar_joinAtChar (by simpa using hne) hparts]
  show List.flatMap _ (List.dropLast (_ ++ [[]])) = _
  rw [List.dropLast_concat, List.flatMap_map]
  rfl

/-- A tree `T` with a file and a directory. -/
def fileAndDirectory (name : Text) : Answer :=
  if name = ['T', ':', 'c'] then .object { text := ['c'] } .blob [0x43]
  else if name = ['T', ':', 'd'] then .object { text := ['d'] } .tree []
  else .missing

end XioFlow.BatchBlobs
