/-
  XioFlow.Supervisor.Drainer

  Bounded capture of an output stream.

  The first bytes are kept in chunks and the last ones in a ring; all bytes are
  spilled to a file, where one is asked for, one write behind the other.  Writes
  go on while data comes in, so a run is any interleaving of the two, and the end
  of the stream waits for the writes.
-/

import XioFlow.Lib.RingBuffer
import XioFlow.Lib.Text
import XioFlow.Lib.Transition
import XioFlow.Lib.Utf8Cut

namespace XioFlow.Supervisor.Drainer

open Lib

/-! ## Cuts at characters -/

/-- How many bytes a first byte asks for. -/
def neededBytes (b : UInt8) : Nat :=
  if b &&& 0xE0 = 0xC0 then 2
  else if b &&& 0xF0 = 0xE0 then 3
  else if b &&& 0xF8 = 0xF0 then 4
  else 1

/-- Look at the bytes from the last one back; `i` counts them. -/
def trimBack (buf : List UInt8) : Nat → List UInt8 → List UInt8
  | _, [] => buf
  | i, b :: before =>
    if 3 < i then buf
    else if b &&& 0xC0 = 0xC0 then
      if i < neededBytes b then buf.take (buf.length - i) else buf
    else if b &&& 0x80 = 0 then buf
    else trimBack buf (i + 1) before

def trimToValidUtf8 (buf : List UInt8) : List UInt8 := trimBack buf 1 buf.reverse

def trimStartToValidUtf8 (buf : List UInt8) : List UInt8 :=
  buf.dropWhile fun b => b &&& 0xC0 == 0x80

/-! ## The drainer -/

/-- What the file system or a callback throws, by its message. -/
structure SpillFailure where
  message : String
  named : message ≠ ""
  deriving DecidableEq

def noProgress : SpillFailure := ⟨"Artifact writer made no progress", by decide⟩

def maxPendingWriteBytes : Nat := 1024 * 1024

/-- What the marker between head and tail may take. -/
def overhead (maxBytes : Nat) : Nat := if 80 ≤ maxBytes then min 64 (maxBytes / 4) else 0

def effectiveMax (maxBytes : Nat) : Nat := maxBytes - overhead maxBytes

def headMaxBytes (maxBytes : Nat) : Nat :=
  if 0 < overhead maxBytes then effectiveMax maxBytes * 3 / 4 else maxBytes

def tailMaxBytes (maxBytes : Nat) : Nat :=
  if 0 < overhead maxBytes then effectiveMax maxBytes - headMaxBytes maxBytes else 0

/-- What a drainer is set up with; `created` is how creating the spill file went. -/
structure Setup where
  maxBytes : Nat
  spillFilePath : Option String := none
  spillInitError : Option SpillFailure := none
  created : Except SpillFailure Unit := .ok ()

/-- The variables of a drainer, and the file it writes.  `writes` are those enqueued and not done;
    of the first of them `offset` bytes are in the file. -/
structure State where
  headChunks : List (List UInt8) := []
  headBytes : Nat := 0
  bytesSeen : Nat := 0
  isTruncated : Bool := false
  tailRing : RingBuffer UInt8
  tailCount : Nat := 0
  spillFd : Bool := false
  ownedSpill : Bool := false
  spillError : Option SpillFailure := none
  hashed : List UInt8 := []
  isFinalized : Bool := false
  outputHash : Option String := none
  pendingWriteBytes : Nat := 0
  writes : List (List UInt8) := []
  offset : Nat := 0
  streamPausedForWriter : Bool := false
  file : Option (List UInt8) := none
  settled : Bool := false

def setupStreamDrainer (s : Setup) : State :=
  let d : State :=
    { tailRing := ⟨List.replicate (tailMaxBytes s.maxBytes) 0, 0⟩, spillError := s.spillInitError }
  if s.spillFilePath.isSome && s.spillInitError.isNone then
    match s.created with
    | .ok () => { d with spillFd := true, ownedSpill := true, file := some [] }
    | .error openErr => { d with spillError := some openErr }
  else d

namespace State

variable (d : State)

/-- The first error stays. -/
def setSpillError (error : SpillFailure) : State :=
  { d with spillError := some (d.spillError.getD error) }

def setSpillErrorOf (error : Option SpillFailure) : State :=
  match error with
  | none => d
  | some error => d.setSpillError error

def resumeAfterWrite : State :=
  if d.streamPausedForWriter && decide (d.pendingWriteBytes ≤ maxPendingWriteBytes / 2) &&
      !d.isFinalized then
    { d with streamPausedForWriter := false }
  else d

def enqueueWrite (buf : List UInt8) : State :=
  if !d.spillFd || d.spillError.isSome then d
  else
    let pendingWriteBytes := d.pendingWriteBytes + buf.length
    { d with
      pendingWriteBytes
      streamPausedForWriter :=
        decide (maxPendingWriteBytes < pendingWriteBytes) || d.streamPausedForWriter
      writes := d.writes ++ [buf] }

/-- The head takes what it has room for. -/
def keepHead (headMaxBytes : Nat) (buf : List UInt8) : State :=
  if d.headBytes < headMaxBytes then
    if d.headBytes + buf.length ≤ headMaxBytes then
      { d with headChunks := d.headChunks ++ [buf], headBytes := d.headBytes + buf.length }
    else
      let remaining := headMaxBytes - d.headBytes
      { d with
        headChunks := d.headChunks ++ [buf.take remaining]
        headBytes := d.headBytes + remaining
        isTruncated := true }
  else { d with isTruncated := true }

/-- The ring takes the bytes one by one, or the end of a chunk that fills it. -/
def keepTail (tailMaxBytes : Nat) (buf : List UInt8) : State :=
  if 0 < tailMaxBytes then
    if tailMaxBytes ≤ buf.length then
      { d with tailRing := ⟨RingBuffer.lastOf tailMaxBytes buf, 0⟩, tailCount := tailMaxBytes }
    else
      { d with
        tailRing := buf.foldl RingBuffer.push d.tailRing
        tailCount := min tailMaxBytes (d.tailCount + buf.length) }
  else d

/-- Spill the chunk; without a spill file it is only hashed. -/
def spill (s : Setup) (buf : List UInt8) : State :=
  if d.spillFd then d.enqueueWrite buf
  else if s.spillFilePath.isNone && d.spillError.isNone then { d with hashed := d.hashed ++ buf }
  else d

def see (buf : List UInt8) : State := { d with bytesSeen := d.bytesSeen + buf.length }

def exceed (maxBytes : Nat) : State :=
  { d with isTruncated := d.isTruncated || decide (maxBytes < d.bytesSeen) }

/-- The handler of `data`; what comes behind the end is read away. -/
def onData (s : Setup) (buf : List UInt8) : State :=
  if d.isFinalized then d
  else
    ((((d.see buf).spill s buf).keepHead (headMaxBytes s.maxBytes) buf).exceed
      s.maxBytes).keepTail (tailMaxBytes s.maxBytes) buf

/-- The first write is over, whatever came of it. -/
def writeDone (buf : List UInt8) (rest : List (List UInt8)) : State :=
  { d with pendingWriteBytes := d.pendingWriteBytes - buf.length, writes := rest, offset := 0
    : State }.resumeAfterWrite

/-- The first write goes on: the system took some bytes, or none, or failed.  Behind an error the
    writes are passed over. -/
def written (outcome : Except SpillFailure Nat) : State :=
  match d.writes with
  | [] => d
  | buf :: rest =>
    if d.spillError.isSome then d.writeDone buf rest
    else
      match outcome with
      | .error error => (d.setSpillError error).writeDone buf rest
      | .ok 0 => (d.setSpillError noProgress).writeDone buf rest
      | .ok (n + 1) =>
        let d := { d with
          file := d.file.map fun bytes => bytes ++ (buf.drop d.offset).take (n + 1)
          offset := d.offset + (n + 1) }
        if d.offset < buf.length then d
        else { d with hashed := d.hashed ++ buf : State }.writeDone buf rest

/-- The stream ends, fails or is given up. -/
def finalize : State := { d with isFinalized := true, streamPausedForWriter := false }

/-- What the calls at the end throw. -/
structure Closing where
  syncErr : Option SpillFailure := none
  closeErr : Option SpillFailure := none
  finalizeErr : Option SpillFailure := none
  removeErr : Option SpillFailure := none
  deletedErr : Option SpillFailure := none

/-- Close the file. -/
def close (c : Closing) : State :=
  if d.spillFd then
    { (d.setSpillErrorOf c.syncErr).setSpillErrorOf c.closeErr with spillFd := false }
  else d

/-- The hash of what was spilled, unless that failed. -/
def digest (sha256 : List UInt8 → String) : State :=
  { d with outputHash := if d.spillError.isNone then some (sha256 d.hashed) else none }

/-- Report the artifact. -/
def record (c : Closing) : State :=
  if d.ownedSpill && d.outputHash.isSome then d.setSpillErrorOf c.finalizeErr else d

/-- A spill file that is not needed, or that cannot be relied on, is removed. -/
def cleanUp (c : Closing) : State :=
  if d.ownedSpill && (!d.isTruncated || d.spillError.isSome) then
    match c.removeErr with
    | some cleanupErr => d.setSpillError cleanupErr
    | none => { d with file := none : State }.setSpillErrorOf c.deletedErr
  else d

/-- What is left to do once the writes are done. -/
def doFinalize (sha256 : List UInt8 → String) (c : Closing) : State :=
  { (((d.close c).digest sha256).record c).cleanUp c with settled := true }

end State

/-! ## The result -/

structure StreamDrainerResult where
  content : List Char
  isTruncated : Bool
  outputRef : Option String
  outputHash : Option String
  bytesSeen : Nat
  spillError : Option SpillFailure
  deriving DecidableEq

def marker (truncatedBytes : Nat) : List Char :=
  "\n[... truncated ".toList ++ digitsOf truncatedBytes ++ " bytes ...]\n".toList

/-- The bytes of the ring in the order they came in, from the first whole character on. -/
def State.cleanTail (s : Setup) (d : State) : List UInt8 :=
  if 0 < tailMaxBytes s.maxBytes ∧ 0 < d.tailCount then
    trimStartToValidUtf8 (if d.tailCount < tailMaxBytes s.maxBytes then
      d.tailRing.slots.take d.tailCount
    else d.tailRing.unrolled)
  else []

def State.content (s : Setup) (d : State) : List Char :=
  if d.bytesSeen ≤ s.maxBytes then Utf8Decoder.decode d.headChunks.flatten
  else
    let rawHead := trimToValidUtf8 d.headChunks.flatten
    let cleanTail := d.cleanTail s
    let truncatedBytes := d.bytesSeen - rawHead.length - cleanTail.length
    Utf8Decoder.decode rawHead ++ marker truncatedBytes ++ Utf8Decoder.decode cleanTail

def State.getResult (s : Setup) (d : State) : StreamDrainerResult where
  content := d.content s
  isTruncated := d.isTruncated
  outputRef := if d.isTruncated && d.spillError.isNone then s.spillFilePath else none
  outputHash := if d.spillError.isNone then d.outputHash else none
  bytesSeen := d.bytesSeen
  spillError := d.spillError

/-! ## Runs -/

inductive Event where
  | data (chunk : List UInt8)
  | written (outcome : Except SpillFailure Nat)
  | finalize
  | settle (closing : State.Closing)

/-- What can happen: data, a turn of the first write, the end, and once the writes are done the
    rest. -/
inductive Step (sha256 : List UInt8 → String) (s : Setup) : State → Event → State → Prop where
  | data (d : State) (chunk : List UInt8) (h : chunk ≠ []) :
      Step sha256 s d (.data chunk) (d.onData s chunk)
  | written (d : State) (outcome : Except SpillFailure Nat) (h : d.writes ≠ []) :
      Step sha256 s d (.written outcome) (d.written outcome)
  | finalize (d : State) : Step sha256 s d .finalize d.finalize
  | settle (d : State) (closing : State.Closing) (hfinalized : d.isFinalized = true)
      (hwrites : d.writes = []) (hsettled : d.settled = false) :
      Step sha256 s d (.settle closing) (d.doFinalize sha256 closing)

/-- The bytes of the stream: the chunks up to its end. -/
def streamOf : List Event → List UInt8
  | [] => []
  | .data chunk :: events => chunk ++ streamOf events
  | .written _ :: events => streamOf events
  | .finalize :: _ => []
  | .settle _ :: events => streamOf events

/-- A whole capture: from the setup until all is settled. -/
def Captured (sha256 : List UInt8 → String) (s : Setup) (events : List Event) (d : State) : Prop :=
  Trace (Step sha256 s) (setupStreamDrainer s) events d ∧ d.settled = true

end XioFlow.Supervisor.Drainer
