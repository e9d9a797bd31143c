/-
  XioFlow.Supervisor.Capture

  What a bounded capture holds, whatever the chunks and however the writes of
  the spill file fall between them.

  `Sees` is the invariant of a run; at its end the result is a function of the
  limits, the bytes of the stream and the first error.
-/

import XioFlow.Supervisor.Drainer

namespace XioFlow.Supervisor.Drainer

open Lib Utf8Decoder
open State

/-! ## Cuts -/

set_option maxRecDepth 8000 in
/-- The masks of the source, as ranges. -/
theorem byteTests (n : Nat) (h : n < 256) :
    (n &&& 0xC0 = 0xC0 ↔ 0xC0 ≤ n) ∧ (n &&& 0x80 = 0 ↔ n < 0x80) ∧
      (n &&& 0xC0 = 0x80 ↔ 0x80 ≤ n ∧ n < 0xC0) ∧
      (n &&& 0xE0 = 0xC0 ↔ 0xC0 ≤ n ∧ n < 0xE0) ∧ (n &&& 0xF0 = 0xE0 ↔ 0xE0 ≤ n ∧ n < 0xF0) ∧
      (n &&& 0xF8 = 0xF0 ↔ 0xF0 ≤ n ∧ n < 0xF8) := by
  revert n
  decide

variable {b : UInt8} {s : Setup} {bytes chunk : List UInt8}

theorem and_eq_iff {mask value : UInt8} :
    b &&& mask = value ↔ b.toNat &&& mask.toNat = value.toNat := by
  rw [← UInt8.toNat_inj, UInt8.toNat_and]

theorem isLead_iff : b &&& 0xC0 = 0xC0 ↔ 0xC0 ≤ b.toNat :=
  and_eq_iff.trans (byteTests b.toNat b.toNat_lt).1

theorem isAscii_iff : b &&& 0x80 = 0 ↔ b.toNat < 0x80 :=
  and_eq_iff.trans (byteTests b.toNat b.toNat_lt).2.1

theorem neededBytes_eq (h : 0xC0 ≤ b.toNat) : neededBytes b = charSpan b := by
  obtain ⟨-, -, -, htwo, hthree, hfour⟩ := byteTests b.toNat b.toNat_lt
  have htwo' : b &&& 0xE0 = 0xC0 ↔ _ := and_eq_iff.trans htwo
  have hthree' : b &&& 0xF0 = 0xE0 ↔ _ := and_eq_iff.trans hthree
  have hfour' : b &&& 0xF8 = 0xF0 ↔ _ := and_eq_iff.trans hfour
  unfold neededBytes charSpan
  simp only [htwo', hthree', hfour']
  split_ifs <;> omega

theorem trimStartToValidUtf8_eq (buf : List UInt8) :
    trimStartToValidUtf8 buf = buf.dropWhile isContinuation := by
  unfold trimStartToValidUtf8
  congr 1
  funext b
  rw [Bool.eq_iff_iff, beq_iff_eq, isContinuation_iff]
  exact and_eq_iff.trans (byteTests b.toNat b.toNat_lt).2.2.1

/-- Looking back over continuation bytes finds nothing. -/
theorem trimBack_continuations (buf : List UInt8) {i : Nat} {conts : List UInt8}
    (h : ∀ b ∈ conts, isContinuation b = true) (before : List UInt8) :
    trimBack buf i (conts ++ before) = trimBack buf (i + conts.length) before ∨
      3 < i + conts.length ∧ trimBack buf i (conts ++ before) = buf := by
  induction conts generalizing i with
  | nil => exact Or.inl rfl
  | cons b conts ih =>
    obtain ⟨hb, hconts⟩ := List.forall_mem_cons.1 h
    have hrange := isContinuation_iff.1 hb
    rw [List.cons_append, trimBack, List.length_cons]
    split
    · exact Or.inr ⟨by omega, rfl⟩
    · rw [if_neg (by rw [isLead_iff]; omega), if_neg (by rw [isAscii_iff]; omega)]
      have hi : i + 1 + conts.length = i + (conts.length + 1) := by omega
      rw [← hi]
      exact ih hconts

theorem trimToValidUtf8_of_continuations {buf : List UInt8}
    (h : ∀ b ∈ buf, isContinuation b = true) : trimToValidUtf8 buf = buf := by
  have hback : ∀ b ∈ buf.reverse, isContinuation b = true := fun b hb => h b (List.mem_reverse.1 hb)
  have hscan := trimBack_continuations buf (i := 1) hback []
  rw [List.append_nil] at hscan
  rcases hscan with heq | ⟨-, heq⟩
  · exact heq
  · exact heq

/-- The last byte that begins something goes, with what follows it, when something is missing. -/
theorem trimToValidUtf8_of_lead {pre conts : List UInt8} {lead : UInt8}
    (hlead : isContinuation lead = false) (hconts : ∀ b ∈ conts, isContinuation b = true) :
    trimToValidUtf8 (pre ++ lead :: conts) =
      if conts.length + 1 < charSpan lead then pre else pre ++ lead :: conts := by
  have hback : ∀ b ∈ conts.reverse, isContinuation b = true :=
    fun b hb => hconts b (List.mem_reverse.1 hb)
  have hreverse : (pre ++ lead :: conts).reverse = conts.reverse ++ (lead :: pre.reverse) := by simp
  have hfour : charSpan lead ≤ 4 := by
    unfold charSpan
    split_ifs <;> omega
  have hrange : ¬ (0x80 ≤ lead.toNat ∧ lead.toNat < 0xC0) := by
    rw [← isContinuation_iff, hlead]
    exact Bool.false_ne_true
  have htake : (pre ++ lead :: conts).take ((pre ++ lead :: conts).length - (1 + conts.length)) =
      pre := by
    have hlength : (pre ++ lead :: conts).length - (1 + conts.length) = pre.length := by
      rw [List.length_append, List.length_cons]
      omega
    rw [hlength, List.take_left]
  unfold trimToValidUtf8
  rw [hreverse]
  rcases trimBack_continuations (pre ++ lead :: conts) (i := 1) hback (lead :: pre.reverse) with
    heq | ⟨hfar, heq⟩
  · rw [heq, List.length_reverse, trimBack]
    split
    · rw [if_neg (by omega)]
    · by_cases hascii : lead.toNat < 0x80
      · have hspan : charSpan lead = 1 := if_pos (by omega)
        rw [if_neg (by rw [isLead_iff]; omega), if_pos (isAscii_iff.2 hascii), if_neg (by omega)]
      · have hhigh : 0xC0 ≤ lead.toNat := by omega
        rw [if_pos (isLead_iff.2 hhigh), neededBytes_eq hhigh, htake]
        simp only [Nat.add_comm 1]
  · rw [List.length_reverse] at hfar
    rw [heq, if_neg (by omega)]

/-- Behind the trimmed bytes there is a boundary, whatever comes next. -/
theorem trimToValidUtf8_boundary (buf after : List UInt8) :
    ∃ cut, buf = trimToValidUtf8 buf ++ cut ∧ Boundary (trimToValidUtf8 buf) (cut ++ after) := by
  rcases continuations_or_lead buf with hall | ⟨pre, lead, conts, rfl, hlead, hconts⟩
  · refine ⟨[], ?_, ?_⟩
    · rw [trimToValidUtf8_of_continuations hall, List.append_nil]
    · rw [trimToValidUtf8_of_continuations hall]
      have hneeded := needed_of_continuations idle hall
      have hidle : idle.needed = 0 := rfl
      exact boundary_of_needed_eq_zero (by omega) _
  · rw [trimToValidUtf8_of_lead hlead hconts]
    split
    · exact ⟨lead :: conts, rfl, boundary_lead hlead pre _⟩
    · rename_i hwhole
      refine ⟨[], (List.append_nil _).symm, ?_⟩
      exact boundary_of_needed_eq_zero (needed_eq_zero_of_whole hlead hconts (by omega) pre) _

/-- Before the trimmed bytes there is one. -/
theorem trimStartToValidUtf8_boundary (before buf : List UInt8) :
    ∃ cut, buf = cut ++ trimStartToValidUtf8 buf ∧
      Boundary (before ++ cut) (trimStartToValidUtf8 buf) := by
  rw [trimStartToValidUtf8_eq]
  refine ⟨buf.takeWhile isContinuation, List.takeWhile_append_dropWhile.symm, ?_⟩
  cases hrest : buf.dropWhile isContinuation with
  | nil => exact boundary_nil _
  | cons b =>
    have hb : isContinuation b = false := by
      have hne : buf.dropWhile isContinuation ≠ [] := by
        rw [hrest]
        exact List.cons_ne_nil _ _
      have hhead := List.head_dropWhile_not isContinuation hne
      simpa [hrest] using hhead
    exact boundary_lead hb _ _

/-- Of UTF-8 the characters that fit are kept, at the front -/
theorem trimToValidUtf8_take_utf8 (n : Nat) (cs : List Char) :
    trimToValidUtf8 ((utf8 cs).take n) = utf8 (fitting n cs) := by
  rcases take_utf8 n cs with heq | ⟨lead, conts, heq, hlead, hconts, hshort, -⟩
  · rw [heq]
    rcases List.eq_nil_or_concat (fitting n cs) with hnil | ⟨init, c, hconcat⟩
    · rw [hnil]
      rfl
    · obtain ⟨lead, conts, hchar, hlead, hconts, hspan, -⟩ := utf8EncodeChar_eq c
      have hbytes : utf8 (fitting n cs) = utf8 init ++ lead :: conts := by
        rw [hconcat, List.concat_eq_append, utf8_append, ← hchar]
        simp [utf8]
      rw [hbytes, trimToValidUtf8_of_lead hlead hconts, if_neg (by omega)]
  · rw [heq, trimToValidUtf8_of_lead hlead hconts, if_pos hshort]

/-- and at the end. -/
theorem trimStartToValidUtf8_lastOf_utf8 (n : Nat) (cs : List Char) :
    trimStartToValidUtf8 (RingBuffer.lastOf n (utf8 cs)) = utf8 (fittingEnd n cs) := by
  obtain ⟨conts, heq, hconts⟩ := drop_utf8 n cs
  rw [trimStartToValidUtf8_eq, RingBuffer.lastOf, heq, dropWhile_utf8 hconts]

/-! ## What is kept in memory -/

theorem headMaxBytes_le (maxBytes : Nat) : headMaxBytes maxBytes ≤ maxBytes := by
  unfold headMaxBytes effectiveMax
  split
  · omega
  · exact Nat.le_refl _

/-- The part of the state that the result is read from. -/
def State.memory (d : State) : List (List UInt8) × Nat × Nat × Bool × RingBuffer UInt8 × Nat :=
  (d.headChunks, d.headBytes, d.bytesSeen, d.isTruncated, d.tailRing, d.tailCount)

/-- The head of what went through, and whether there was more. -/
structure KeepsHead (n : Nat) (d : State) (bytes : List UInt8) : Prop where
  chunks : d.headChunks.flatten = bytes.take n
  count : d.headBytes = min n bytes.length
  truncated : d.isTruncated = decide (n < bytes.length)

/-- The tail of what went through. -/
def KeepsTail (n : Nat) (d : State) (bytes : List UInt8) : Prop :=
  0 < n → d.tailRing.Keeps n bytes ∧ d.tailCount = min n bytes.length

/-- Head and tail, and how much went through. -/
structure Keeps (s : Setup) (d : State) (bytes : List UInt8) : Prop where
  head : KeepsHead (headMaxBytes s.maxBytes) d bytes
  tail : KeepsTail (tailMaxBytes s.maxBytes) d bytes
  seen : d.bytesSeen = bytes.length

variable {d d' : State}

theorem Keeps.congr (h : Keeps s d bytes) (hmemory : d'.memory = d.memory) : Keeps s d' bytes := by
  unfold memory at hmemory
  simp only [Prod.mk.injEq] at hmemory
  obtain ⟨hchunks, hbytes, hseen, htruncated, hring, hcount⟩ := hmemory
  refine ⟨⟨hchunks ▸ h.head.chunks, hbytes ▸ h.head.count, htruncated ▸ h.head.truncated⟩, ?_,
    hseen ▸ h.seen⟩
  unfold KeepsTail
  rw [hring, hcount]
  exact h.tail

theorem KeepsHead.keepHead {n : Nat} (h : KeepsHead n d bytes) (hchunk : chunk ≠ []) :
    KeepsHead n (d.keepHead n chunk) (bytes ++ chunk) := by
  have hlength : 0 < chunk.length := List.length_pos_iff.2 hchunk
  have htake : (bytes ++ chunk).take n = bytes.take n ++ chunk.take (n - bytes.length) :=
    List.take_append
  have hcount := h.count
  unfold State.keepHead
  split
  · rename_i hroom
    -- There is room, so all that came before is in the head.
    have hbytes : d.headBytes = bytes.length := by omega
    split
    · rename_i hfits
      refine ⟨?_, ?_, ?_⟩
      · show (d.headChunks ++ [chunk]).flatten = _
        rw [List.flatten_concat, h.chunks, htake,
          List.take_of_length_le (by omega : chunk.length ≤ n - bytes.length)]
      · show d.headBytes + chunk.length = _
        rw [List.length_append]
        omega
      · show d.isTruncated = _
        rw [h.truncated, decide_eq_decide, List.length_append]
        omega
    · refine ⟨?_, ?_, ?_⟩
      · show (d.headChunks ++ [chunk.take _]).flatten = _
        rw [List.flatten_concat, h.chunks, htake, hbytes]
      · show d.headBytes + (n - d.headBytes) = _
        rw [List.length_append]
        omega
      · refine (decide_eq_true ?_).symm
        rw [List.length_append]
        omega
  · have hnone : n - bytes.length = 0 := by omega
    refine ⟨?_, ?_, ?_⟩
    · show d.headChunks.flatten = _
      rw [h.chunks, htake, hnone, List.take_zero, List.append_nil]
    · show d.headBytes = _
      rw [List.length_append]
      omega
    · refine (decide_eq_true ?_).symm
      rw [List.length_append]
      omega

theorem KeepsTail.keepTail {n : Nat} (h : KeepsTail n d bytes) :
    KeepsTail n (d.keepTail n chunk) (bytes ++ chunk) := by
  intro hn
  obtain ⟨hring, hcount⟩ := h hn
  unfold State.keepTail
  rw [if_pos hn, List.length_append]
  split
  · rename_i hfills
    refine ⟨RingBuffer.keeps_refill hfills hn, ?_⟩
    show n = _
    omega
  · refine ⟨hring.pushAll hn chunk, ?_⟩
    show min n (d.tailCount + chunk.length) = _
    omega

/-! ## What leaves it alone -/

theorem memory_resumeAfterWrite (d : State) : d.resumeAfterWrite.memory = d.memory := by
  unfold resumeAfterWrite
  split <;> rfl

theorem memory_writeDone (d : State) (buf : List UInt8) (rest : List (List UInt8)) :
    (d.writeDone buf rest).memory = d.memory := memory_resumeAfterWrite _

theorem memory_spill (d : State) (s : Setup) (buf : List UInt8) :
    (d.spill s buf).memory = d.memory := by
  unfold spill enqueueWrite
  split
  · split <;> rfl
  · split <;> rfl

theorem memory_setSpillErrorOf (d : State) (error : Option SpillFailure) :
    (d.setSpillErrorOf error).memory = d.memory := by
  cases error <;> rfl

theorem memory_written (d : State) (outcome : Except SpillFailure Nat) :
    (d.written outcome).memory = d.memory := by
  unfold written
  split
  · rfl
  · split
    · exact memory_writeDone _ _ _
    · split
      · exact memory_writeDone _ _ _
      · exact memory_writeDone _ _ _
      · dsimp only
        split
        · rfl
        · exact memory_writeDone _ _ _

theorem memory_close (d : State) (c : State.Closing) : (d.close c).memory = d.memory := by
  unfold close
  split
  · exact (memory_setSpillErrorOf _ _).trans (memory_setSpillErrorOf _ _)
  · rfl

theorem memory_record (d : State) (c : State.Closing) : (d.record c).memory = d.memory := by
  unfold record
  split
  · exact memory_setSpillErrorOf _ _
  · rfl

theorem memory_cleanUp (d : State) (c : State.Closing) : (d.cleanUp c).memory = d.memory := by
  unfold cleanUp
  split
  · split
    · rfl
    · exact memory_setSpillErrorOf _ _
  · rfl

theorem memory_doFinalize (sha256 : List UInt8 → String) (d : State) (c : State.Closing) :
    (d.doFinalize sha256 c).memory = d.memory := by
  show ((((d.close c).digest sha256).record c).cleanUp c).memory = d.memory
  rw [memory_cleanUp, memory_record]
  exact memory_close d c

/-- What the head does not touch. -/
theorem keepHead_frame (d : State) (n : Nat) (buf : List UInt8) :
    (d.keepHead n buf).bytesSeen = d.bytesSeen ∧ (d.keepHead n buf).tailRing = d.tailRing ∧
      (d.keepHead n buf).tailCount = d.tailCount := by
  unfold keepHead
  split_ifs <;> exact ⟨rfl, rfl, rfl⟩

/-- What the ring does not touch. -/
theorem keepTail_frame (d : State) (n : Nat) (buf : List UInt8) :
    (d.keepTail n buf).headChunks = d.headChunks ∧ (d.keepTail n buf).headBytes = d.headBytes ∧
      (d.keepTail n buf).isTruncated = d.isTruncated ∧
      (d.keepTail n buf).bytesSeen = d.bytesSeen := by
  unfold keepTail
  split_ifs <;> exact ⟨rfl, rfl, rfl, rfl⟩

/-! ## A run keeps the ends -/

theorem Keeps.onData (h : Keeps s d bytes) (hchunk : chunk ≠ []) (hopen : d.isFinalized = false) :
    Keeps s (d.onData s chunk) (bytes ++ chunk) := by
  -- Spilling touches none of this: the head goes on from what was kept.
  have hspilled : ((d.see chunk).spill s chunk).memory = (d.see chunk).memory :=
    memory_spill _ s chunk
  unfold memory at hspilled
  simp only [Prod.mk.injEq] at hspilled
  obtain ⟨hchunks, hcount, hseen, htruncated, hring, htailCount⟩ := hspilled
  have hbefore : KeepsHead (headMaxBytes s.maxBytes) ((d.see chunk).spill s chunk) bytes :=
    ⟨(congrArg List.flatten hchunks).trans h.head.chunks, hcount.trans h.head.count,
      htruncated.trans h.head.truncated⟩
  have hhead := hbefore.keepHead hchunk
  obtain ⟨hseen', hring', htailCount'⟩ := keepHead_frame ((d.see chunk).spill s chunk)
    (headMaxBytes s.maxBytes) chunk
  have hlength : d.bytesSeen + chunk.length = (bytes ++ chunk).length := by
    rw [h.seen, List.length_append]
  have hsame := (hseen'.trans hseen).trans hlength
  -- More than the limit is more than the head holds, which already says so.
  have hexceeds : KeepsHead (headMaxBytes s.maxBytes)
      ((((d.see chunk).spill s chunk).keepHead (headMaxBytes s.maxBytes) chunk).exceed s.maxBytes)
      (bytes ++ chunk) := by
    refine ⟨hhead.chunks, hhead.count, ?_⟩
    unfold exceed
    have hle := headMaxBytes_le s.maxBytes
    simp only [hhead.truncated, hsame]
    rw [Bool.eq_iff_iff, Bool.or_eq_true, decide_eq_true_iff, decide_eq_true_iff]
    omega
  have htail : KeepsTail (tailMaxBytes s.maxBytes)
      ((((d.see chunk).spill s chunk).keepHead (headMaxBytes s.maxBytes) chunk).exceed s.maxBytes)
      bytes := by
    intro hn
    obtain ⟨hkeeps, hcount⟩ := h.tail hn
    exact ⟨(hring'.trans hring).symm ▸ hkeeps, (htailCount'.trans htailCount).trans hcount⟩
  obtain ⟨hchunks₁, hcount₁, htruncated₁, hseen₁⟩ := keepTail_frame
    ((((d.see chunk).spill s chunk).keepHead (headMaxBytes s.maxBytes) chunk).exceed s.maxBytes)
    (tailMaxBytes s.maxBytes) chunk
  unfold State.onData
  rw [if_neg (by rw [hopen]; exact Bool.false_ne_true)]
  exact ⟨⟨(congrArg List.flatten hchunks₁).trans hexceeds.chunks, hcount₁.trans hexceeds.count,
    htruncated₁.trans hexceeds.truncated⟩, htail.keepTail, hseen₁.trans hsame⟩

/-! ## The spill file -/

variable {sha256 : List UInt8 → String}

/-- As long as nothing failed: the bytes are hashed, or hashed up to the writes that are still to
    do; the file is ahead by the part of the first write that is done. -/
structure Spills (sha256 : List UInt8 → String) (s : Setup) (d : State) (bytes : List UInt8) : Prop where
  unspilled : s.spillFilePath = none → d.spillFd = false ∧ d.ownedSpill = false ∧ d.writes = []
  hashing : s.spillFilePath = none → d.spillError = none → d.hashed = bytes
  writing : s.spillFilePath ≠ none → d.spillError = none → d.settled = false →
    d.spillFd = true ∧ d.ownedSpill = true ∧ d.hashed ++ d.writes.flatten = bytes ∧
      d.file = some (d.hashed ++ (d.writes.headD []).take d.offset) ∧
      (d.writes = [] → d.offset = 0)
  ended : d.settled = true → d.isFinalized = true ∧ d.writes = []
  result : d.settled = true → d.spillError = none → d.outputHash = some (sha256 bytes) ∧
    (s.spillFilePath ≠ none → d.isTruncated = true → d.file = some bytes)

theorem setSpillErrorOf_eq_none {error : Option SpillFailure}
    (h : (d.setSpillErrorOf error).spillError = none) : d.spillError = none ∧ error = none := by
  cases error with
  | none => exact ⟨h, rfl⟩
  | some => cases h

theorem spills_setup (s : Setup) : Spills sha256 s (setupStreamDrainer s) [] := by
  unfold setupStreamDrainer
  cases hpath : s.spillFilePath with
  | none => exact ⟨fun _ => ⟨rfl, rfl, rfl⟩, fun _ _ => rfl, fun h => absurd hpath h, nofun, nofun⟩
  | some path =>
    have hsome : s.spillFilePath ≠ none := by
      rw [hpath]
      exact Option.some_ne_none path
    cases hinit : s.spillInitError with
    | some =>
      exact ⟨fun h => absurd h hsome, fun h => absurd h hsome, fun _ => nofun, nofun, nofun⟩
    | none =>
      cases s.created with
      | error =>
        exact ⟨fun h => absurd h hsome, fun h => absurd h hsome, fun _ => nofun, nofun, nofun⟩
      | ok _ =>
        exact ⟨fun h => absurd h hsome, fun h => absurd h hsome,
          fun _ _ _ => ⟨rfl, rfl, rfl, rfl, fun _ => rfl⟩, nofun, nofun⟩

/-- The part of the state that the spill file is about. -/
def State.spilled (d : State) : Bool × Bool × Option SpillFailure × List UInt8 × Bool ×
    List (List UInt8) × Nat × Option (List UInt8) × Bool :=
  (d.spillFd, d.ownedSpill, d.spillError, d.hashed, d.isFinalized, d.writes, d.offset, d.file,
    d.settled)

theorem spilled_keepHead (d : State) (n : Nat) (buf : List UInt8) :
    (d.keepHead n buf).spilled = d.spilled := by
  unfold keepHead
  split
  · split <;> rfl
  · rfl

theorem spilled_keepTail (d : State) (n : Nat) (buf : List UInt8) :
    (d.keepTail n buf).spilled = d.spilled := by
  unfold keepTail
  split
  · split <;> rfl
  · rfl

theorem spilled_onData (s : Setup) (d : State) (chunk : List UInt8) (hopen : d.isFinalized = false) :
    (d.onData s chunk).spilled = ((d.see chunk).spill s chunk).spilled := by
  unfold onData
  rw [if_neg (by rw [hopen]; exact Bool.false_ne_true), spilled_keepTail]
  exact spilled_keepHead _ _ _

theorem spilled_resumeAfterWrite (d : State) : d.resumeAfterWrite.spilled = d.spilled := by
  unfold resumeAfterWrite
  split <;> rfl

theorem Spills.congr (h : Spills sha256 s d bytes) (hspilled : d'.spilled = d.spilled)
    (hunsettled : d.settled = false) : Spills sha256 s d' bytes := by
  unfold spilled at hspilled
  simp only [Prod.mk.injEq] at hspilled
  obtain ⟨hfd, howned, herror, hhashed, hfinalized, hwrites, hoffset, hfile, hsettled⟩ := hspilled
  have hnot : d'.settled ≠ true := by
    rw [hsettled, hunsettled]
    exact Bool.false_ne_true
  refine ⟨?_, ?_, ?_, fun h => absurd h hnot, fun h => absurd h hnot⟩
  · rw [hfd, howned, hwrites]
    exact h.unspilled
  · rw [herror, hhashed]
    exact h.hashing
  · rw [hfd, howned, herror, hhashed, hwrites, hoffset, hfile, hsettled]
    exact h.writing

/-- Nothing is settled before the end of the stream. -/
theorem Spills.unsettled (h : Spills sha256 s d bytes) (hopen : d.isFinalized = false) :
    d.settled = false := by
  rw [Bool.eq_false_iff]
  intro hsettled
  rw [(h.ended hsettled).1] at hopen
  cases hopen

/-- Behind an error nothing is promised of the bytes. -/
theorem Spills.of_failed (h : Spills sha256 s d bytes) (hfailed : d.spillError ≠ none)
    (bytes' : List UInt8) : Spills sha256 s d bytes' :=
  ⟨h.unspilled, fun _ hnone => absurd hnone hfailed, fun _ hnone => absurd hnone hfailed, h.ended,
    fun _ hnone => absurd hnone hfailed⟩

theorem spill_of_failed (hfailed : d.spillError ≠ none) (chunk : List UInt8) :
    d.spill s chunk = d := by
  have hsome : d.spillError.isSome = true := Option.isSome_iff_ne_none.2 hfailed
  have hnone : d.spillError.isNone = false := by
    rw [← Option.not_isSome, hsome]
    rfl
  unfold spill enqueueWrite
  rw [hsome, hnone]
  simp

theorem spill_of_unspilled (hpath : s.spillFilePath = none) (hfd : d.spillFd = false)
    (herror : d.spillError = none) (chunk : List UInt8) :
    d.spill s chunk = { d with hashed := d.hashed ++ chunk } := by
  unfold spill
  rw [hfd, hpath, herror]
  simp

theorem spill_of_open (hfd : d.spillFd = true) (herror : d.spillError = none) (chunk : List UInt8) :
    (d.spill s chunk).spilled =
      { d with writes := d.writes ++ [chunk] : State }.spilled := by
  unfold spill enqueueWrite
  rw [if_pos hfd, if_neg (by simp [hfd, herror])]
  rfl

theorem Spills.spill (h : Spills sha256 s d bytes) (chunk : List UInt8)
    (hunsettled : d.settled = false) : Spills sha256 s (d.spill s chunk) (bytes ++ chunk) := by
  have hnot : d.settled ≠ true := Bool.eq_false_iff.1 hunsettled
  by_cases hfailed : d.spillError = none
  · by_cases hpath : s.spillFilePath = none
    · obtain ⟨hfd, howned, hwrites⟩ := h.unspilled hpath
      rw [spill_of_unspilled hpath hfd hfailed]
      refine ⟨h.unspilled, fun _ _ => ?_, fun hsome => absurd hpath hsome, fun hs => absurd hs hnot,
        fun hs => absurd hs hnot⟩
      exact congrArg (· ++ chunk) (h.hashing hpath hfailed)
    · obtain ⟨hfd, howned, hbytes, hfile, hoffset⟩ := h.writing hpath hfailed hunsettled
      have hqueued : Spills sha256 s { d with writes := d.writes ++ [chunk] } (bytes ++ chunk) := by
        refine ⟨fun hnone => absurd hnone hpath, fun hnone => absurd hnone hpath,
          fun _ _ _ => ⟨hfd, howned, ?_, ?_, fun hnil => ?_⟩, fun hs => absurd hs hnot,
          fun hs => absurd hs hnot⟩
        · show d.hashed ++ (d.writes ++ [chunk]).flatten = _
          rw [List.flatten_concat, ← List.append_assoc, hbytes]
        · show d.file = some (d.hashed ++ ((d.writes ++ [chunk]).headD []).take d.offset)
          rw [hfile]
          cases hwrites : d.writes with
          | nil =>
            rw [hoffset hwrites]
            rfl
          | cons => rfl
        · exact absurd hnil (List.append_ne_nil_of_right_ne_nil _ (List.cons_ne_nil _ _))
      exact hqueued.congr (spill_of_open hfd hfailed chunk) hunsettled
  · rw [spill_of_failed hfailed]
    exact h.of_failed hfailed _

theorem Spills.onData (h : Spills sha256 s d bytes) (chunk : List UInt8)
    (hopen : d.isFinalized = false) : Spills sha256 s (d.onData s chunk) (bytes ++ chunk) := by
  have hseen : Spills sha256 s (d.see chunk) bytes := h.congr rfl (h.unsettled hopen)
  have hunsettled : (d.see chunk).settled = false := h.unsettled hopen
  have hspill := hseen.spill chunk hunsettled
  have hstill : ((d.see chunk).spill s chunk).settled = false := by
    unfold State.spill State.enqueueWrite
    split_ifs <;> exact hunsettled
  exact hspill.congr (spilled_onData s d chunk hopen) hstill

/-- A write that is over leaves the writes behind it. -/
theorem spilled_writeDone (d : State) (buf : List UInt8) (rest : List (List UInt8)) :
    (d.writeDone buf rest).spilled = { d with writes := rest, offset := 0 : State }.spilled :=
  spilled_resumeAfterWrite _

theorem spills_writeDone_of_failed (hfailed : d.spillError ≠ none)
    (hpath : s.spillFilePath ≠ none) (hunsettled : d.settled = false) (buf : List UInt8)
    (rest : List (List UInt8)) : Spills sha256 s (d.writeDone buf rest) bytes := by
  have hrest : Spills sha256 s { d with writes := rest, offset := 0 } bytes :=
    ⟨fun hnone => absurd hnone hpath, fun hnone => absurd hnone hpath,
      fun _ hnone => absurd hnone hfailed,
      fun hs => absurd hs (Bool.eq_false_iff.1 hunsettled),
      fun hs => absurd hs (Bool.eq_false_iff.1 hunsettled)⟩
  exact hrest.congr (spilled_writeDone d buf rest) hunsettled

theorem Spills.written (h : Spills sha256 s d bytes) (outcome : Except SpillFailure Nat)
    (hwrites : d.writes ≠ []) : Spills sha256 s (d.written outcome) bytes := by
  have hpath : s.spillFilePath ≠ none := fun hnone => hwrites (h.unspilled hnone).2.2
  have hunsettled : d.settled = false := by
    rw [Bool.eq_false_iff]
    exact fun hsettled => hwrites (h.ended hsettled).2
  have hnot : d.settled ≠ true := Bool.eq_false_iff.1 hunsettled
  unfold State.written
  cases hfirst : d.writes with
  | nil => exact absurd hfirst hwrites
  | cons buf rest =>
    simp only
    by_cases hfailed : d.spillError = none
    · rw [if_neg (by simp [hfailed])]
      obtain ⟨hfd, howned, hbytes, hfile, -⟩ := h.writing hpath hfailed hunsettled
      rw [hfirst] at hbytes hfile
      rw [List.headD_cons] at hfile
      match outcome with
      | .error error =>
        exact spills_writeDone_of_failed (d := d.setSpillError error) (Option.some_ne_none _)
          hpath hunsettled buf rest
      | .ok 0 =>
        exact spills_writeDone_of_failed (d := d.setSpillError noProgress) (Option.some_ne_none _)
          hpath hunsettled buf rest
      | .ok (n + 1) =>
        -- The file goes on by what was taken, from where it was in the chunk.
        have hfile' : (d.file.map fun bytes => bytes ++ (buf.drop d.offset).take (n + 1)) =
            some (d.hashed ++ buf.take (d.offset + (n + 1))) := by
          rw [hfile, Option.map_some]
          rw [List.append_assoc, ← List.take_add]
        simp only [hfile']
        split
        · refine ⟨fun hnone => absurd hnone hpath, fun hnone => absurd hnone hpath,
            fun _ _ _ => ⟨hfd, howned, ?_, ?_, nofun⟩,
            fun hs => absurd hs hnot, fun hs => absurd hs hnot⟩
          · exact hbytes
          · rfl
        · rename_i hwhole
          have hall : buf.take (d.offset + (n + 1)) = buf := List.take_of_length_le (by omega)
          let done : State := { d with
            file := some (d.hashed ++ buf.take (d.offset + (n + 1)))
            offset := 0
            hashed := d.hashed ++ buf
            writes := rest }
          have hdone : Spills sha256 s done bytes := by
            refine ⟨fun hnone => absurd hnone hpath, fun hnone => absurd hnone hpath,
              fun _ _ _ => ⟨hfd, howned, ?_, ?_, fun _ => rfl⟩,
              fun hs => absurd hs hnot, fun hs => absurd hs hnot⟩
            · show (d.hashed ++ buf) ++ rest.flatten = bytes
              rw [List.append_assoc, ← hbytes, List.flatten_cons]
            · show some (d.hashed ++ buf.take _) = some ((d.hashed ++ buf) ++ (rest.headD []).take 0)
              rw [hall, List.take_zero, List.append_nil]
          exact hdone.congr (spilled_writeDone _ buf rest) hunsettled
    · rw [if_pos (Option.isSome_iff_ne_none.2 hfailed)]
      exact spills_writeDone_of_failed hfailed hpath hunsettled buf rest

theorem Spills.finalize (h : Spills sha256 s d bytes) : Spills sha256 s d.finalize bytes :=
  ⟨h.unspilled, h.hashing, h.writing, fun hs => ⟨rfl, (h.ended hs).2⟩, h.result⟩

/-! ## The end -/

theorem close_spec (d : State) (c : State.Closing) :
    (d.close c).hashed = d.hashed ∧ (d.close c).file = d.file ∧
      (d.close c).isFinalized = d.isFinalized ∧ (d.close c).writes = d.writes ∧
      (d.close c).ownedSpill = d.ownedSpill ∧ (d.close c).spillFd = false ∧
      ((d.close c).spillError = none → d.spillError = none) := by
  unfold close
  split
  · refine ⟨?_, ?_, ?_, ?_, ?_, rfl, fun h =>
      (setSpillErrorOf_eq_none (setSpillErrorOf_eq_none h).1).1⟩
    all_goals cases c.syncErr <;> cases c.closeErr <;> rfl
  · rename_i hfd
    exact ⟨rfl, rfl, rfl, rfl, rfl, Bool.eq_false_iff.2 hfd, id⟩

theorem record_spec (d : State) (c : State.Closing) :
    (d.record c).file = d.file ∧ (d.record c).isFinalized = d.isFinalized ∧
      (d.record c).writes = d.writes ∧ (d.record c).outputHash = d.outputHash ∧
      (d.record c).ownedSpill = d.ownedSpill ∧ (d.record c).spillFd = d.spillFd ∧
      (d.record c).hashed = d.hashed ∧
      ((d.record c).spillError = none → d.spillError = none) := by
  unfold record
  split
  · refine ⟨?_, ?_, ?_, ?_, ?_, ?_, ?_, fun h => (setSpillErrorOf_eq_none h).1⟩
    all_goals cases c.finalizeErr <;> rfl
  · exact ⟨rfl, rfl, rfl, rfl, rfl, rfl, rfl, id⟩

theorem cleanUp_spec (d : State) (c : State.Closing) :
    (d.cleanUp c).isFinalized = d.isFinalized ∧ (d.cleanUp c).writes = d.writes ∧
      (d.cleanUp c).outputHash = d.outputHash ∧ (d.cleanUp c).ownedSpill = d.ownedSpill ∧
      (d.cleanUp c).spillFd = d.spillFd ∧ (d.cleanUp c).hashed = d.hashed ∧
      ((d.cleanUp c).spillError = none → d.spillError = none ∧
        (d.isTruncated = true → (d.cleanUp c).file = d.file)) := by
  unfold cleanUp
  split
  · rename_i hremove
    -- A truncated stream has its file removed only behind an error, and that one stays.
    have hfailed : d.isTruncated = true → d.spillError ≠ none := by
      intro htruncated hnone
      rw [htruncated, hnone] at hremove
      simp at hremove
    split
    · exact ⟨rfl, rfl, rfl, rfl, rfl, rfl, nofun⟩
    · refine ⟨?_, ?_, ?_, ?_, ?_, ?_, fun h => ⟨(setSpillErrorOf_eq_none h).1, fun htruncated =>
        absurd (setSpillErrorOf_eq_none h).1 (hfailed htruncated)⟩⟩
      all_goals cases c.deletedErr <;> rfl
  · exact ⟨rfl, rfl, rfl, rfl, rfl, rfl, fun h => ⟨h, fun _ => rfl⟩⟩

theorem Spills.doFinalize (h : Spills sha256 s d bytes) (c : State.Closing)
    (hfinalized : d.isFinalized = true) (hwrites : d.writes = []) (hunsettled : d.settled = false) :
    Spills sha256 s (d.doFinalize sha256 c) bytes := by
  obtain ⟨hhashed₁, hfile₁, hfin₁, hwrites₁, howned₁, hfd₁, herror₁⟩ := close_spec d c
  let d₂ : State := (d.close c).digest sha256
  obtain ⟨hfile₃, hfin₃, hwrites₃, hhash₃, howned₃, hfd₃, hhashed₃, herror₃⟩ := record_spec d₂ c
  obtain ⟨hfin₄, hwrites₄, hhash₄, howned₄, hfd₄, hhashed₄, herror₄⟩ := cleanUp_spec (d₂.record c) c
  have htruncated : (d₂.record c).isTruncated = d.isTruncated := by
    have hmemory : (d₂.record c).memory = d.memory := (memory_record d₂ c).trans (memory_close d c)
    exact congrArg (fun m => m.2.2.2.1) hmemory
  -- With no error at the end there was none on the way.
  have hclean : ((d₂.record c).cleanUp c).spillError = none →
      (d.close c).spillError = none ∧ d.spillError = none := by
    intro hnone
    have hclosed : (d.close c).spillError = none := herror₃ (herror₄ hnone).1
    exact ⟨hclosed, herror₁ hclosed⟩
  have hhashed : ((d₂.record c).cleanUp c).hashed = d.hashed :=
    hhashed₄.trans (hhashed₃.trans hhashed₁)
  have hbytes : d.spillError = none → d.hashed = bytes := by
    intro hnone
    by_cases hpath : s.spillFilePath = none
    · exact h.hashing hpath hnone
    · have hall := (h.writing hpath hnone hunsettled).2.2.1
      rw [hwrites, List.flatten_nil, List.append_nil] at hall
      exact hall
  refine ⟨fun hpath => ⟨?_, ?_, ?_⟩, fun _ hnone => ?_, fun _ _ (hs : true = false) => absurd hs (by decide),
    fun _ => ⟨?_, ?_⟩,
    fun _ hnone => ⟨?_, fun hpath htrunc => ?_⟩⟩
  · exact hfd₄.trans (hfd₃.trans hfd₁)
  · exact howned₄.trans (howned₃.trans (howned₁.trans (h.unspilled hpath).2.1))
  · exact hwrites₄.trans (hwrites₃.trans (hwrites₁.trans hwrites))
  · exact hhashed.trans (hbytes (hclean hnone).2)
  · exact hfin₄.trans (hfin₃.trans (hfin₁.trans hfinalized))
  · exact hwrites₄.trans (hwrites₃.trans (hwrites₁.trans hwrites))
  · obtain ⟨hclosed, hnone'⟩ := hclean hnone
    have hdigest : d₂.outputHash = some (sha256 (d.close c).hashed) := by
      show (if (d.close c).spillError.isNone = true then _ else none) = _
      rw [hclosed]
      rfl
    refine hhash₄.trans (hhash₃.trans (hdigest.trans ?_))
    rw [hhashed₁, hbytes hnone']
  · obtain ⟨-, hnone'⟩ := hclean hnone
    have hcut : (d₂.record c).isTruncated = true := by
      have hsame : ((d₂.record c).cleanUp c).isTruncated = (d₂.record c).isTruncated :=
        congrArg (fun m => m.2.2.2.1) (memory_cleanUp (d₂.record c) c)
      exact hsame.symm.trans htrunc
    have hfile := (h.writing hpath hnone' hunsettled).2.2.2.1
    rw [hwrites, List.headD_nil, List.take_nil, List.append_nil, hbytes hnone'] at hfile
    exact ((herror₄ hnone).2 hcut).trans (hfile₃.trans (hfile₁.trans hfile))

/-! ## Whole runs -/

/-- What a run has seen, in memory and in the file. -/
structure Sees (sha256 : List UInt8 → String) (s : Setup) (d : State) (bytes : List UInt8) : Prop where
  keeps : Keeps s d bytes
  spills : Spills sha256 s d bytes

theorem sees_setup (s : Setup) : Sees sha256 s (setupStreamDrainer s) [] := by
  refine ⟨?_, spills_setup s⟩
  have hfresh : Keeps s { tailRing := ⟨List.replicate (tailMaxBytes s.maxBytes) 0, 0⟩ } [] := by
    refine ⟨⟨List.take_nil.symm, (Nat.min_zero _).symm, rfl⟩, fun hn => ?_, rfl⟩
    exact ⟨RingBuffer.keeps_start 0 hn, (Nat.min_zero _).symm⟩
  refine hfresh.congr ?_
  unfold setupStreamDrainer
  dsimp only
  split
  · split <;> rfl
  · rfl

/-- The bytes that come in while the state is this one. -/
def comesIn (d : State) (events : List Event) : List UInt8 :=
  if d.isFinalized then [] else streamOf events

theorem isFinalized_written (d : State) (outcome : Except SpillFailure Nat) :
    (d.written outcome).isFinalized = d.isFinalized := by
  have hdone : ∀ (d : State) buf rest, (d.writeDone buf rest).isFinalized = d.isFinalized := by
    intro d buf rest
    exact congrArg (fun m => m.2.2.2.2.1) (spilled_writeDone d buf rest)
  unfold written
  split
  · rfl
  · split
    · exact hdone _ _ _
    · split
      · exact hdone _ _ _
      · exact hdone _ _ _
      · dsimp only
        split
        · rfl
        · exact hdone _ _ _

theorem isFinalized_onData (s : Setup) (d : State) (chunk : List UInt8) :
    (d.onData s chunk).isFinalized = d.isFinalized := by
  by_cases hfinalized : d.isFinalized = true
  · have hsame : d.onData s chunk = d := if_pos hfinalized
    rw [hsame]
  · rw [Bool.not_eq_true] at hfinalized
    have hspilled := congrArg (fun m => m.2.2.2.2.1) (spilled_onData s d chunk hfinalized)
    refine hspilled.trans ?_
    show ((d.see chunk).spill s chunk).isFinalized = d.isFinalized
    unfold spill enqueueWrite
    split_ifs <;> rfl

/-- One step sees what comes in with it. -/
theorem Sees.step {event : Event} (h : Sees sha256 s d bytes) (hstep : Step sha256 s d event d')
    (events : List Event) :
    ∃ bytes', Sees sha256 s d' bytes' ∧
      bytes ++ comesIn d (event :: events) = bytes' ++ comesIn d' events := by
  cases hstep with
  | data chunk hchunk =>
    by_cases hfinalized : d.isFinalized = true
    · have hsame : d.onData s chunk = d := if_pos hfinalized
      rw [hsame]
      refine ⟨bytes, h, ?_⟩
      unfold comesIn
      rw [if_pos hfinalized, if_pos hfinalized]
    · rw [Bool.not_eq_true] at hfinalized
      refine ⟨bytes ++ chunk, ⟨h.keeps.onData hchunk hfinalized, h.spills.onData chunk hfinalized⟩, ?_⟩
      have hopen : (d.onData s chunk).isFinalized = false :=
        (isFinalized_onData s d chunk).trans hfinalized
      unfold comesIn
      rw [hfinalized, hopen, List.append_assoc]
      rfl
  | written outcome hwrites =>
    refine ⟨bytes, ⟨h.keeps.congr (memory_written d outcome), h.spills.written outcome hwrites⟩, ?_⟩
    unfold comesIn
    rw [isFinalized_written]
    rfl
  | finalize =>
    refine ⟨bytes, ⟨h.keeps.congr rfl, h.spills.finalize⟩, ?_⟩
    unfold comesIn
    have hended : d.finalize.isFinalized = true := rfl
    rw [if_pos hended]
    split <;> rfl
  | settle c hfinalized hwrites hunsettled =>
    have hspills := h.spills.doFinalize c hfinalized hwrites hunsettled
    refine ⟨bytes, ⟨h.keeps.congr (memory_doFinalize sha256 d c), hspills⟩, ?_⟩
    unfold comesIn
    rw [if_pos hfinalized, if_pos (hspills.ended rfl).1]

theorem Sees.run {events : List Event} (h : Sees sha256 s d bytes)
    (hrun : Trace (Step sha256 s) d events d') : Sees sha256 s d' (bytes ++ comesIn d events) := by
  induction hrun generalizing bytes with
  | nil d =>
    have hnone : comesIn d [] = [] := by
      unfold comesIn
      split <;> rfl
    rw [hnone, List.append_nil]
    exact h
  | @cons d d₁ d' event events hstep _ ih =>
    obtain ⟨bytes', hsees, heq⟩ := h.step hstep events
    rw [heq]
    exact ih hsees

/-- At the end of a capture all of the stream was seen. -/
theorem Captured.sees {events : List Event} (h : Captured sha256 s events d) :
    Sees sha256 s d (streamOf events) := by
  have hrun := (sees_setup s).run h.1
  have hopen : (setupStreamDrainer s).isFinalized = false := by
    unfold setupStreamDrainer
    dsimp only
    split
    · split <;> rfl
    · rfl
  unfold comesIn at hrun
  rw [hopen, if_neg Bool.false_ne_true, List.nil_append] at hrun
  exact hrun

/-! ## Flow control -/

/-- What is enqueued is counted.  The stream stands still while more than the limit waits to be
    written, and only while more than half of that does. -/
structure Paced (d : State) : Prop where
  counted : d.pendingWriteBytes = d.writes.flatten.length
  stops : d.isFinalized = false → maxPendingWriteBytes < d.pendingWriteBytes →
    d.streamPausedForWriter = true
  waits : d.streamPausedForWriter = true →
    d.isFinalized = false ∧ maxPendingWriteBytes / 2 < d.pendingWriteBytes

/-- The part of the state that this is about. -/
def State.pace (d : State) : Nat × List (List UInt8) × Bool × Bool :=
  (d.pendingWriteBytes, d.writes, d.isFinalized, d.streamPausedForWriter)

theorem Paced.congr (h : Paced d) (hpace : d'.pace = d.pace) : Paced d' := by
  unfold pace at hpace
  simp only [Prod.mk.injEq] at hpace
  obtain ⟨hpending, hwrites, hfinalized, hpaused⟩ := hpace
  refine ⟨?_, ?_, ?_⟩
  · rw [hpending, hwrites]
    exact h.counted
  · rw [hpending, hfinalized, hpaused]
    exact h.stops
  · rw [hpending, hfinalized, hpaused]
    exact h.waits

theorem Paced.spill (h : Paced d) (chunk : List UInt8) (hopen : d.isFinalized = false) :
    Paced (d.spill s chunk) := by
  unfold State.spill enqueueWrite
  split
  · split
    · exact h
    · refine ⟨?_, fun _ hmore => ?_, fun hpaused => ⟨hopen, ?_⟩⟩
      · simp [h.counted]
      · simp only at hmore ⊢
        rw [decide_eq_true hmore, Bool.true_or]
      · simp only [Bool.or_eq_true, decide_eq_true_eq] at hpaused ⊢
        rcases hpaused with hmore | hbefore
        · omega
        · have hwaits := (h.waits hbefore).2
          omega
  · split
    · exact h.congr rfl
    · exact h

/-- A write that is over lets the stream go on where no more than half is left. -/
theorem Paced.writeDone {buf : List UInt8} {rest : List (List UInt8)} (h : Paced d)
    (hwrites : d.writes = buf :: rest) : Paced (d.writeDone buf rest) := by
  have hcounted := h.counted
  rw [hwrites, List.flatten_cons, List.length_append] at hcounted
  have hleft : d.pendingWriteBytes - buf.length = rest.flatten.length := by omega
  unfold State.writeDone resumeAfterWrite
  simp only [hleft]
  split
  · rename_i hresume
    simp only [Bool.and_eq_true, decide_eq_true_eq] at hresume
    exact ⟨rfl, fun _ hmore => absurd (show _ < rest.flatten.length from hmore) (by omega), nofun⟩
  · rename_i hstays
    simp only [Bool.and_eq_true, decide_eq_true_eq, Bool.not_eq_true'] at hstays
    refine ⟨rfl, fun hopen hmore => h.stops hopen ?_, fun hpaused => ?_⟩
    · have hmore' : maxPendingWriteBytes < rest.flatten.length := hmore
      omega
    · have hopen := (h.waits hpaused).1
      refine ⟨hopen, ?_⟩
      by_contra hfew
      exact hstays ⟨⟨hpaused, Nat.le_of_not_lt hfew⟩, hopen⟩

theorem pace_doFinalize (d : State) (c : State.Closing) :
    (d.doFinalize sha256 c).pace = d.pace := by
  have hset : ∀ (d : State) error, (d.setSpillErrorOf error).pace = d.pace := by
    rintro d (_ | _) <;> rfl
  have hclose : (d.close c).pace = d.pace := by
    unfold close
    split
    · exact (hset _ _).trans (hset _ _)
    · rfl
  have hrecord : ∀ d : State, (d.record c).pace = d.pace := by
    intro d
    unfold record
    split
    · exact hset _ _
    · rfl
  have hclean : ∀ d : State, (d.cleanUp c).pace = d.pace := by
    intro d
    unfold cleanUp
    split
    · split
      · rfl
      · exact hset _ _
    · rfl
  exact (hclean _).trans ((hrecord _).trans hclose)

theorem Paced.step {event : Event} (h : Paced d) (hstep : Step sha256 s d event d') : Paced d' := by
  cases hstep with
  | data chunk =>
    by_cases hfinalized : d.isFinalized = true
    · rw [show d.onData s chunk = d from if_pos hfinalized]
      exact h
    · have hseen : Paced (d.see chunk) := h.congr rfl
      refine (hseen.spill (s := s) chunk (Bool.eq_false_iff.2 hfinalized)).congr ?_
      unfold State.onData State.keepTail State.exceed State.keepHead
      rw [if_neg hfinalized]
      split_ifs <;> rfl
  | written outcome =>
    unfold State.written
    split
    · exact h
    · rename_i hfirst
      split
      · exact h.writeDone hfirst
      · split
        · exact Paced.writeDone (h.congr rfl) hfirst
        · exact Paced.writeDone (h.congr rfl) hfirst
        · dsimp only
          split
          · exact h.congr rfl
          · exact Paced.writeDone (h.congr rfl) hfirst
  | finalize => exact ⟨h.counted, nofun, nofun⟩
  | settle c => exact h.congr (pace_doFinalize d c)

end XioFlow.Supervisor.Drainer
