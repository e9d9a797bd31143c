/-
  XioFlow.Supervisor.CaptureResult

  When a bounded capture says what the stream was.

  A stream longer than the head and within the limit is reported without its
  end; and what is set aside for the marker is less than the marker takes when
  the limit is small.  Everywhere else the capture is exact.
-/

import XioFlow.Supervisor.Capture

namespace XioFlow.Supervisor.Drainer

open Lib Utf8Decoder

variable {sha256 : List UInt8 → String}

/-! ## The result of a stream -/

/-- What is reported of a stream. -/
def contentOf (maxBytes : Nat) (bytes : List UInt8) : List Char :=
  if bytes.length ≤ maxBytes then decode (bytes.take (headMaxBytes maxBytes))
  else
    let rawHead := trimToValidUtf8 (bytes.take (headMaxBytes maxBytes))
    let cleanTail := trimStartToValidUtf8 (RingBuffer.lastOf (tailMaxBytes maxBytes) bytes)
    decode rawHead ++ marker (bytes.length - rawHead.length - cleanTail.length) ++ decode cleanTail

def resultOf (sha256 : List UInt8 → String) (s : Setup) (bytes : List UInt8)
    (spillError : Option SpillFailure) : StreamDrainerResult where
  content := contentOf s.maxBytes bytes
  isTruncated := decide (headMaxBytes s.maxBytes < bytes.length)
  outputRef := if decide (headMaxBytes s.maxBytes < bytes.length) && spillError.isNone then
    s.spillFilePath else none
  outputHash := if spillError.isNone then some (sha256 bytes) else none
  bytesSeen := bytes.length
  spillError := spillError

theorem Keeps.cleanTail {s : Setup} {d : State} {bytes : List UInt8} (h : Keeps s d bytes) :
    d.cleanTail s = trimStartToValidUtf8 (RingBuffer.lastOf (tailMaxBytes s.maxBytes) bytes) := by
  unfold State.cleanTail
  by_cases hn : 0 < tailMaxBytes s.maxBytes
  · obtain ⟨hring, hcount⟩ := h.tail hn
    by_cases hsome : 0 < d.tailCount
    · rw [if_pos ⟨hn, hsome⟩]
      congr 1
      split
      · rename_i hfilling
        have hshort : bytes.length < tailMaxBytes s.maxBytes := by omega
        have hall : d.tailCount = bytes.length := by omega
        rw [hall, (hring.filling hshort).2, RingBuffer.lastOf_of_length_le (Nat.le_of_lt hshort)]
      · exact (hring.full (by omega)).2
    · have hnil : bytes = [] := List.length_eq_zero_iff.1 (by omega)
      have hlast : RingBuffer.lastOf (tailMaxBytes s.maxBytes) ([] : List UInt8) = [] := List.drop_nil
      rw [if_neg (fun h => hsome h.2), hnil, hlast]
      rfl
  · have hnil : RingBuffer.lastOf (tailMaxBytes s.maxBytes) bytes = [] := by
      refine List.drop_eq_nil_of_le ?_
      omega
    rw [if_neg (fun h => hn h.1), hnil]
    rfl

/-- The result of a capture is that of its stream: chunks and writes do not matter. -/
theorem Captured.getResult_eq {s : Setup} {events : List Event} {d : State}
    (h : Captured sha256 s events d) :
    d.getResult s = resultOf sha256 s (streamOf events) d.spillError := by
  have hsees := h.sees
  have hcontent : d.content s = contentOf s.maxBytes (streamOf events) := by
    unfold State.content contentOf
    rw [hsees.keeps.seen, hsees.keeps.head.chunks, hsees.keeps.cleanTail]
  have hhash : (if d.spillError.isNone then d.outputHash else none) =
      if d.spillError.isNone then some (sha256 (streamOf events)) else none := by
    split
    · rename_i hnone
      exact (hsees.spills.result h.2 (Option.isNone_iff_eq_none.1 hnone)).1
    · rfl
  unfold State.getResult resultOf
  rw [hcontent, hhash, hsees.keeps.head.truncated, hsees.keeps.seen]

/-! ## Exact captures -/

/-- What a capture has to say of its stream. -/
structure Exact (sha256 : List UInt8 → String) (s : Setup) (bytes : List UInt8) (d : State) : Prop where
  /-- Within the limit it says all. -/
  whole : bytes.length ≤ s.maxBytes →
    (d.getResult s).content = decode bytes ∧ (d.getResult s).isTruncated = false
  /-- Beyond it, a beginning and an end cut between characters, and how much is left out. -/
  cut : s.maxBytes < bytes.length → ∃ front omitted back, bytes = front ++ omitted ++ back ∧
    Boundary front (omitted ++ back) ∧ Boundary (front ++ omitted) back ∧
    (d.getResult s).content = decode front ++ marker omitted.length ++ decode back
  /-- That takes no more than the limit, which has to leave room for it. -/
  size : s.maxBytes < bytes.length → 80 ≤ s.maxBytes → ∀ cs, bytes = utf8 cs →
    (utf8 (d.getResult s).content).length ≤ s.maxBytes
  /-- A file that is named holds the stream, and the hash is the stream's. -/
  spilled : ∀ path, (d.getResult s).outputRef = some path → s.spillFilePath = some path ∧
    d.file = some bytes ∧ (d.getResult s).outputHash = some (sha256 bytes)

/-- The result depends on nothing but the stream and the error. -/
def Independent (sha256 : List UInt8 → String) (s : Setup) (bytes : List UInt8) (d : State) : Prop :=
  ∀ events' d', Captured sha256 s events' d' → streamOf events' = bytes →
    d'.spillError = d.spillError → d'.getResult s = d.getResult s

/-- The bytes that are lost where the two cuts fall inside characters. -/
def lostAtCuts (maxBytes : Nat) (cs : List Char) : Nat :=
  (headMaxBytes maxBytes - (utf8 (fitting (headMaxBytes maxBytes) cs)).length) +
    (tailMaxBytes maxBytes - (utf8 (fittingEnd (tailMaxBytes maxBytes) cs)).length)

/-- No stream that is longer than the head ends within the limit, and what is set aside, with what
    the cuts lose, is enough for the marker: 28 bytes and the digits of the number. -/
structure Fits (maxBytes : Nat) (bytes : List UInt8) : Prop where
  whole : bytes.length ≤ headMaxBytes maxBytes ∨ maxBytes < bytes.length
  reserve : maxBytes < bytes.length → 80 ≤ maxBytes → ∀ cs, bytes = utf8 cs →
    28 + (digitsOf (bytes.length - effectiveMax maxBytes + lostAtCuts maxBytes cs)).length ≤
      overhead maxBytes + lostAtCuts maxBytes cs

/-! ## The limits -/

variable {maxBytes : Nat}

theorem limits_of_large (h : 80 ≤ maxBytes) :
    headMaxBytes maxBytes + tailMaxBytes maxBytes = effectiveMax maxBytes ∧
      effectiveMax maxBytes + overhead maxBytes = maxBytes := by
  have hoverhead : overhead maxBytes = min 64 (maxBytes / 4) := if_pos h
  unfold tailMaxBytes headMaxBytes effectiveMax
  rw [hoverhead, if_pos (by omega), if_pos (by omega)]
  omega

theorem limits_of_small (h : maxBytes < 80) :
    headMaxBytes maxBytes = maxBytes ∧ tailMaxBytes maxBytes = 0 := by
  have hoverhead : overhead maxBytes = 0 := if_neg (by omega)
  unfold tailMaxBytes headMaxBytes
  rw [hoverhead, if_neg (Nat.lt_irrefl 0), if_neg (Nat.lt_irrefl 0)]
  exact ⟨rfl, rfl⟩

theorem limits_le (maxBytes : Nat) :
    headMaxBytes maxBytes + tailMaxBytes maxBytes ≤ maxBytes := by
  by_cases h : 80 ≤ maxBytes
  · obtain ⟨hsum, hrest⟩ := limits_of_large h
    omega
  · obtain ⟨hhead, htail⟩ := limits_of_small (Nat.lt_of_not_le h)
    omega

/-! ## Sizes -/

variable {cs : List Char}

theorem length_utf8_digitsOf (n : Nat) : (utf8 (digitsOf n)).length = (digitsOf n).length := by
  refine length_utf8_of_ascii fun c hc => ?_
  have hdigit : c.isDigit = true := Nat.isDigit_of_mem_toDigits (by decide) (by decide) hc
  rw [Char.isDigit, Bool.and_eq_true, decide_eq_true_iff, decide_eq_true_iff] at hdigit
  exact Char.utf8Size_eq_one_iff.2 (Nat.le_trans hdigit.2 (by decide))

theorem length_utf8_around {before behind : List Char} {n m : Nat}
    (hbefore : (utf8 before).length = n) (hbehind : (utf8 behind).length = m) :
    (utf8 (before ++ cs ++ behind)).length = n + (utf8 cs).length + m := by
  rw [length_utf8_append, length_utf8_append, hbefore, hbehind]

theorem length_marker (n : Nat) : (utf8 (marker n)).length = 28 + (digitsOf n).length := by
  have haround : (utf8 (marker n)).length = 16 + (utf8 (digitsOf n)).length + 12 :=
    length_utf8_around (by rfl) (by rfl)
  rw [haround, length_utf8_digitsOf]
  omega

theorem utf8_fitting_le (maxBytes : Nat) (cs : List Char) :
    (utf8 (fitting (headMaxBytes maxBytes) cs)).length ≤ headMaxBytes maxBytes ∧
      (utf8 (fittingEnd (tailMaxBytes maxBytes) cs)).length ≤ tailMaxBytes maxBytes := by
  refine ⟨length_fitting_le _ _, ?_⟩
  unfold fittingEnd
  have hreverse : ∀ ds : List Char, (utf8 ds.reverse).length = (utf8 ds).length := by
    intro ds
    exact ((List.reverse_perm ds).flatMap_right _).length_eq
  rw [hreverse]
  exact length_fitting_le _ _

/-- The size of what is reported of a long text: the characters that fit, and the marker. -/
theorem length_contentOf (hlong : maxBytes < (utf8 cs).length) (hlarge : 80 ≤ maxBytes) :
    (utf8 (contentOf maxBytes (utf8 cs))).length + lostAtCuts maxBytes cs = effectiveMax maxBytes +
      (28 + (digitsOf ((utf8 cs).length - effectiveMax maxBytes + lostAtCuts maxBytes cs)).length) := by
  obtain ⟨hlimits, hrest⟩ := limits_of_large hlarge
  obtain ⟨hfront, hback⟩ := utf8_fitting_le maxBytes cs
  have hnumber : (utf8 cs).length - (utf8 (fitting (headMaxBytes maxBytes) cs)).length -
      (utf8 (fittingEnd (tailMaxBytes maxBytes) cs)).length =
      (utf8 cs).length - effectiveMax maxBytes + lostAtCuts maxBytes cs := by
    unfold lostAtCuts
    omega
  unfold contentOf
  rw [if_neg (by omega)]
  dsimp only
  rw [trimToValidUtf8_take_utf8, trimStartToValidUtf8_lastOf_utf8, hnumber, decode_utf8, decode_utf8,
    length_utf8_append, length_utf8_append, length_marker]
  unfold lostAtCuts
  omega

/-! ## When captures are exact -/

/-- A long stream is cut between characters, whatever its bytes are. -/
theorem contentOf_cut {bytes : List UInt8} (hlong : maxBytes < bytes.length) :
    ∃ front omitted back, bytes = front ++ omitted ++ back ∧
      Boundary front (omitted ++ back) ∧ Boundary (front ++ omitted) back ∧
      contentOf maxBytes bytes = decode front ++ marker omitted.length ++ decode back := by
  have hlimits := limits_le maxBytes
  let n := headMaxBytes maxBytes
  let m := bytes.length - tailMaxBytes maxBytes
  -- The stream is its head, the middle and its tail, and a part of each end is cut off.
  let middle := (bytes.drop n).take (m - n)
  have hhead : bytes.take n ++ middle = bytes.take m := by
    have hm : m = n + (m - n) := by omega
    rw [hm, List.take_add]
  have htail : middle ++ RingBuffer.lastOf (tailMaxBytes maxBytes) bytes = bytes.drop n := by
    have hdrop : (bytes.drop n).drop (m - n) = bytes.drop m := by
      rw [List.drop_drop]
      congr 1
      omega
    show middle ++ bytes.drop m = _
    rw [← hdrop, List.take_append_drop]
  obtain ⟨cut₁, hcut₁, hboundary₁⟩ := trimToValidUtf8_boundary (bytes.take n) (bytes.drop n)
  obtain ⟨cut₂, hcut₂, hboundary₂⟩ := trimStartToValidUtf8_boundary (bytes.take m)
    (RingBuffer.lastOf (tailMaxBytes maxBytes) bytes)
  generalize hfront : trimToValidUtf8 (bytes.take n) = front at hcut₁ hboundary₁
  generalize hback : trimStartToValidUtf8 (RingBuffer.lastOf (tailMaxBytes maxBytes) bytes) = back
    at hcut₂ hboundary₂
  have hbehind : cut₁ ++ middle ++ cut₂ ++ back = cut₁ ++ bytes.drop n := by
    rw [← htail, hcut₂]
    simp only [List.append_assoc]
  have hbefore : front ++ (cut₁ ++ middle ++ cut₂) = bytes.take m ++ cut₂ := by
    rw [← hhead, hcut₁]
    simp only [List.append_assoc]
  have hall : bytes = front ++ (cut₁ ++ middle ++ cut₂) ++ back := by
    rw [List.append_assoc, hbehind, ← List.append_assoc, ← hcut₁, List.take_append_drop]
  refine ⟨front, cut₁ ++ middle ++ cut₂, back, hall, ?_, ?_, ?_⟩
  · rw [hbehind]
    exact hboundary₁
  · rw [hbefore]
    exact hboundary₂
  · have hnumber : bytes.length - front.length - back.length = (cut₁ ++ middle ++ cut₂).length := by
      have hlength := congrArg List.length hall
      rw [List.length_append, List.length_append] at hlength
      omega
    unfold contentOf
    rw [if_neg (by omega)]
    dsimp only
    rw [hfront, hback, hnumber]

/-- A capture is exact, and its result independent of everything but the stream, just when the
    stream fits the limits. -/
theorem capture_exact_iff {s : Setup} {events : List Event} {d : State}
    (h : Captured sha256 s events d) :
    Exact sha256 s (streamOf events) d ∧ Independent sha256 s (streamOf events) d ↔
      Fits s.maxBytes (streamOf events) := by
  have hresult := h.getResult_eq
  have hcontent : (d.getResult s).content = contentOf s.maxBytes (streamOf events) := by
    rw [hresult]
    rfl
  have htruncated : (d.getResult s).isTruncated =
      decide (headMaxBytes s.maxBytes < (streamOf events).length) := by
    rw [hresult]
    rfl
  constructor
  · rintro ⟨hexact, -⟩
    refine ⟨?_, fun hlong hlarge cs hcs => ?_⟩
    · by_cases hlong : s.maxBytes < (streamOf events).length
      · exact Or.inr hlong
      · have hnot := (hexact.whole (by omega)).2
        rw [htruncated, decide_eq_false_iff_not] at hnot
        exact Or.inl (by omega)
    · have hsize := hexact.size hlong hlarge cs hcs
      rw [hcontent] at hsize
      rw [hcs] at hlong hsize ⊢
      have hlength := length_contentOf hlong hlarge
      have hlimits := (limits_of_large hlarge).2
      omega
  · intro hfits
    refine ⟨⟨fun hshort => ?_, fun hlong => ?_, fun hlong hlarge cs hcs => ?_, fun path hpath => ?_⟩, ?_⟩
    · have hhead : (streamOf events).length ≤ headMaxBytes s.maxBytes :=
        hfits.whole.resolve_right (by omega)
      refine ⟨?_, ?_⟩
      · rw [hcontent, contentOf, if_pos hshort, List.take_of_length_le hhead]
      · rw [htruncated, decide_eq_false_iff_not]
        omega
    · rw [hcontent]
      exact contentOf_cut hlong
    · have hreserve := hfits.reserve hlong hlarge cs hcs
      rw [hcontent]
      rw [hcs] at hlong hreserve ⊢
      have hlength := length_contentOf hlong hlarge
      have hlimits := (limits_of_large hlarge).2
      omega
    · rw [hresult] at hpath ⊢
      unfold resultOf at hpath ⊢
      dsimp only at hpath ⊢
      by_cases hnamed : (decide (headMaxBytes s.maxBytes < (streamOf events).length) &&
          d.spillError.isNone) = true
      · rw [if_pos hnamed] at hpath
        rw [Bool.and_eq_true, Option.isNone_iff_eq_none] at hnamed
        obtain ⟨hmore, hclean⟩ := hnamed
        have hspilling : s.spillFilePath ≠ none := by
          rw [hpath]
          exact Option.some_ne_none path
        have hfile := (h.sees.spills.result h.2 hclean).2 hspilling
          (h.sees.keeps.head.truncated.trans hmore)
        refine ⟨hpath, hfile, ?_⟩
        rw [hclean]
        rfl
      · rw [if_neg hnamed] at hpath
        cases hpath
    · intro events' d' h' hsame herror
      rw [hresult, h'.getResult_eq, hsame, herror]

/-- A capture of one chunk without a spill file. -/
def captureOne (sha256 : List UInt8 → String) (maxBytes : Nat) (chunk : List UInt8) : State :=
  ((setupStreamDrainer { maxBytes }).onData { maxBytes } chunk).finalize.doFinalize sha256 {}

theorem captured_one (sha256 : List UInt8 → String) (maxBytes : Nat) {chunk : List UInt8}
    (hchunk : chunk ≠ []) :
    Captured sha256 { maxBytes } [.data chunk, .finalize, .settle {}]
      (captureOne sha256 maxBytes chunk) := by
  let d : State := (setupStreamDrainer { maxBytes }).onData { maxBytes } chunk
  have hspills : Spills sha256 { maxBytes } d ([] ++ chunk) := (spills_setup _).onData chunk rfl
  have hwrites : d.writes = [] := (hspills.unspilled rfl).2.2
  have hunsettled : d.settled = false := hspills.unsettled (isFinalized_onData _ _ chunk)
  refine ⟨.cons (.data _ _ hchunk) (.cons (.finalize _) ?_), rfl⟩
  exact .cons (.settle _ _ rfl hwrites hunsettled) (.nil _)

/-- A limit of ten, and a spill file. -/
def spilling : Setup := { maxBytes := 10, spillFilePath := some "/spill" }

/-- The first chunk goes over the limit and is written in two parts, with the second chunk in
    between. -/
def spilledRun : List Event :=
  [.data (List.replicate 12 0x61), .written (.ok 5), .data (List.replicate 8 0x62), .written (.ok 7),
    .written (.ok 8), .finalize, .settle {}]

def spilledState : State :=
  ((((((setupStreamDrainer spilling).onData spilling (List.replicate 12 0x61)).written
    (.ok 5)).onData spilling (List.replicate 8 0x62)).written (.ok 7)).written
      (.ok 8)).finalize.doFinalize (fun _ => "hash") {}

theorem captured_spilled : Captured (fun _ => "hash") spilling spilledRun spilledState :=
  ⟨.cons (.data _ _ (by decide)) <| .cons (.written _ _ (by decide)) <|
    .cons (.data _ _ (by decide)) <| .cons (.written _ _ (by decide)) <|
    .cons (.written _ _ (by decide)) <| .cons (.finalize _) <|
    .cons (.settle _ _ rfl rfl rfl) <| .nil _, rfl⟩

/-- The capture is cut, names the file and is exact. -/
theorem spilled_exact :
    Exact (fun _ => "hash") spilling (streamOf spilledRun) spilledState ∧
      Independent (fun _ => "hash") spilling (streamOf spilledRun) spilledState ∧
      spilledState.getResult spilling = {
        content := List.replicate 10 'a' ++ marker 10
        isTruncated := true
        outputRef := some "/spill"
        outputHash := some "hash"
        bytesSeen := 20
        spillError := none } := by
  have hfits : Fits spilling.maxBytes (streamOf spilledRun) :=
    ⟨.inr (by decide), fun _ hlarge => absurd hlarge (by decide)⟩
  obtain ⟨hexact, hindependent⟩ := (capture_exact_iff captured_spilled).2 hfits
  exact ⟨hexact, hindependent, by decide⟩

set_option maxRecDepth 4000 in
/-- Under a limit of 80, the last of 46 bytes is lost without a marker, and what is reported of 81
    takes 90. -/
theorem limit80_inexact :
    (∃ events d, Captured (fun _ => "") { maxBytes := 80 } events d ∧
      streamOf events = List.replicate 46 0x61 ∧
      (d.getResult { maxBytes := 80 }).content = List.replicate 45 'a' ∧
      ¬ Exact (fun _ => "") { maxBytes := 80 } (streamOf events) d) ∧
    ∃ events d, Captured (fun _ => "") { maxBytes := 80 } events d ∧
      streamOf events = List.replicate 81 0x61 ∧
      (utf8 (d.getResult { maxBytes := 80 }).content).length = 90 ∧
      ¬ Exact (fun _ => "") { maxBytes := 80 } (streamOf events) d := by
  refine ⟨⟨_, _, captured_one _ 80 (List.cons_ne_nil 0x61 (List.replicate 45 0x61)), by decide,
    by decide, fun h => ?_⟩, ⟨_, _, captured_one _ 80 (List.cons_ne_nil 0x61 (List.replicate 80 0x61)),
    by decide, by decide, fun h => ?_⟩⟩
  · exact absurd (h.whole (by decide)).2 (by decide)
  · exact absurd (h.size (by decide) (by decide) (List.replicate 81 'a') (by decide)) (by decide)

/-! ## Bounds while it runs -/

/-- Whatever the chunks and however the writes go on between them: the stream is never left paused
    with nothing to write, and never runs on with more than the limit waiting; and head and tail
    stay within the limit of the capture. -/
theorem capture_bounded {s : Setup} {d : State} {events : List Event}
    (h : Trace (Step sha256 s) (setupStreamDrainer s) events d) :
    Paced d ∧ d.headChunks.flatten.length + (d.cleanTail s).length ≤ s.maxBytes := by
  have hstart : Paced (setupStreamDrainer s) := by
    unfold setupStreamDrainer
    dsimp only
    split
    · split <;> exact ⟨rfl, nofun, nofun⟩
    · exact ⟨rfl, nofun, nofun⟩
  refine ⟨h.invariant (fun _ _ _ hd hstep => hd.step hstep) hstart, ?_⟩
  have hkeeps := ((sees_setup s).run h).keeps
  have hlimits := limits_le s.maxBytes
  have htail : (d.cleanTail s).length ≤ tailMaxBytes s.maxBytes := by
    rw [hkeeps.cleanTail]
    refine Nat.le_trans (List.dropWhile_sublist _).length_le ?_
    unfold RingBuffer.lastOf
    rw [List.length_drop]
    omega
  rw [hkeeps.head.chunks, List.length_take]
  omega

theorem spilled_bounded : Paced spilledState ∧
    spilledState.headChunks.flatten.length + (spilledState.cleanTail spilling).length ≤ 10 :=
  capture_bounded captured_spilled.1

end XioFlow.Supervisor.Drainer
