/-
  XioFlow.Trace.Shim

  The preloaded library that writes a line for every file that a process
  opens, removes or renames (xioflow-ld-shim.c).

  C strings are bytes without the NUL that ends them; a buffer of n bytes
  holds n - 1 of them.  Tracing is on: a trace path is set, the bypass is not,
  and the trace file can be opened.
-/

import XioFlow.Lib.Utf8Decoder

namespace XioFlow.Trace

open Lib Utf8Decoder

abbrev Bytes := List UInt8

abbrev Text := List Char

/-- The bytes of a literal. -/
def ascii (s : String) : Bytes := utf8 s.toList

/-- `strncmp(s, prefix, strlen(prefix)) == 0` -/
def starts (pre : String) (s : Bytes) : Bool := (ascii pre).isPrefixOf s

def isNoisePath (abs tracePath : Bytes) : Bool :=
  abs = [] || abs = tracePath ||
  starts "/proc/" abs || abs = ascii "/proc" ||
  starts "/sys/" abs || abs = ascii "/sys" ||
  starts "/dev/" abs || abs = ascii "/dev" ||
  starts "/etc/ld.so" abs ||
  starts "/lib/" abs || starts "/lib64/" abs ||
  starts "/usr/lib/" abs || starts "/usr/lib64/" abs

/-! ## Names -/

/-- `AT_FDCWD`, or a descriptor with what `readlink` gives for it under `/proc/self/fd`. -/
inductive DirFd where
  | cwd
  | fd (link : Option Bytes)

/-- The name of a file as a call has it, with the working directory of the process, as far as
    `getcwd` can tell.  `file` is where the file really is, from the root. -/
structure PathArg where
  dirfd : DirFd := .cwd
  cwd : Option Bytes
  path : Bytes
  file : List Text

def slash : UInt8 := 0x2F

/-- The directory that a relative name starts in; the buffer has 2048 bytes. -/
def PathArg.base (a : PathArg) : Option Bytes :=
  let link := match a.dirfd with
    | .fd (some link) => link.take 2047
    | _ => []
  if link ≠ [] then some link else a.cwd.filter fun cwd => cwd.length < 2048

/-- `./` in front of a relative name is left out. -/
def dropDotSlash (path : Bytes) : Bytes :=
  if starts "./" path then path.drop 2 else path

def resolveAtPath (a : PathArg) : Bytes :=
  if a.path = [] then []
  else if a.path.head? = some slash then a.path.take 4095
  else
    match a.base with
    | none => a.path.take 4095
    | some base => (base ++ slash :: dropDotSlash a.path).take 4095

/-! ## Lines -/

/-- The kinds of lines for files. -/
inductive Op where
  | read | write | delete | denied
  deriving DecidableEq

def Op.char : Op → Char
  | read => 'R'
  | write => 'W'
  | delete => 'D'
  | denied => 'E'

def traceVfsEvent (tracePath : Bytes) (op : Op) (a : PathArg) : Bytes :=
  if a.path = [] then []
  else
    let abs := resolveAtPath a
    if isNoisePath abs tracePath then []
    else
      let line := utf8 [op.char, '\t'] ++ (abs ++ utf8 ['\n'])
      if line.length < 4200 then line else []

/-! ## Calls -/

def O_WRONLY : Nat := 0o1
def O_RDWR : Nat := 0o2
def O_CREAT : Nat := 0o100
def O_TRUNC : Nat := 0o1000
def O_APPEND : Nat := 0o2000

/-- The call succeeds, fails with `EACCES`, `EPERM` or `EROFS`, or fails otherwise. -/
inductive Outcome where
  | done | refused | failed
  deriving DecidableEq

/-- `open` and `creat` are `openat` in the working directory; `unlink` and `rename` likewise. -/
inductive Call where
  | openat (arg : PathArg) (flags : Nat)
  | fopen (arg : PathArg) (mode : List Char)
  | unlinkat (arg : PathArg)
  | renameat (old new : PathArg)

structure Event where
  call : Call
  outcome : Outcome

/-- The flags of an open that is traced as a write. -/
def isWrite (flags : Nat) : Bool :=
  flags &&& (O_WRONLY ||| O_RDWR ||| O_CREAT ||| O_TRUNC ||| O_APPEND) ≠ 0

/-- The modes of `fopen` that are traced as a write. -/
def isWriteMode (mode : List Char) : Bool :=
  mode.contains 'w' || mode.contains 'a' || mode.contains '+'

/-- The lines of an open. -/
def openRecords (write : Bool) (outcome : Outcome) (arg : PathArg) : List (Op × PathArg) :=
  match outcome with
  | .done => [(if write then .write else .read, arg)]
  | .refused => if write then [(.denied, arg)] else []
  | .failed => []

/-- What a call has traced, in order. -/
def Event.records (e : Event) : List (Op × PathArg) :=
  match e.call, e.outcome with
  | .openat arg flags, outcome => openRecords (isWrite flags) outcome arg
  | .fopen arg mode, outcome => openRecords (isWriteMode mode) outcome arg
  | .unlinkat arg, .done => [(.delete, arg)]
  | .unlinkat arg, .refused => [(.denied, arg)]
  | .renameat old new, .done => [(.delete, old), (.write, new)]
  | .renameat _ new, .refused => [(.denied, new)]
  | _, .failed => []

/-- The trace file after the calls of all processes, in the order of their lines. -/
def trace (tracePath : Bytes) (events : List Event) : Bytes :=
  (events.flatMap Event.records).flatMap fun r => traceVfsEvent tracePath r.1 r.2

/-! ## What the calls do -/

/-- The open can read: its access mode is not write-only. -/
def readsFlags (flags : Nat) : Bool := flags &&& 3 ≠ O_WRONLY

def readsMode (mode : List Char) : Bool := mode.contains 'r' || mode.contains '+'

/-- Files that were read, written or deleted, in order. -/
def Event.touches (e : Event) : List (Op × List Text) :=
  match e.call, e.outcome with
  | .openat arg flags, .done =>
    (if readsFlags flags then [(.read, arg.file)] else []) ++
      (if isWrite flags then [(.write, arg.file)] else [])
  | .fopen arg mode, .done =>
    (if readsMode mode then [(.read, arg.file)] else []) ++
      (if isWriteMode mode then [(.write, arg.file)] else [])
  | .unlinkat arg, .done => [(.delete, arg.file)]
  | .renameat old new, .done => [(.delete, old.file), (.write, new.file)]
  | _, _ => []

/-! ## Names that are written in full -/

/-- The directory that a relative name starts in. -/
def PathArg.dir (a : PathArg) : Option Bytes :=
  match a.dirfd with
  | .cwd => a.cwd
  | .fd link => link

/-- The name from the root, where nothing is cut off it. -/
def PathArg.Names (a : PathArg) (full : Bytes) : Prop :=
  full.length < 4096 ∧
    ((a.path.head? = some slash ∧ full = a.path) ∨
      (a.path ≠ [] ∧ a.path.head? ≠ some slash ∧ ∃ dir, a.dir = some dir ∧ dir ≠ [] ∧
        dir.length < 2048 ∧ full = dir ++ slash :: dropDotSlash a.path))

variable {a : PathArg}

theorem PathArg.Names.path_ne_nil {full : Bytes} (h : a.Names full) : a.path ≠ [] := by
  obtain ⟨-, ⟨hhead, -⟩ | ⟨hne, -⟩⟩ := h
  · intro hnil
    rw [hnil] at hhead
    cases hhead
  · exact hne

theorem resolveAtPath_eq {full : Bytes} (h : a.Names full) : resolveAtPath a = full := by
  have hne := h.path_ne_nil
  obtain ⟨hlen, ⟨hhead, rfl⟩ | ⟨-, hhead, dir, hdir, hdirne, hshort, rfl⟩⟩ := h
  · rw [resolveAtPath, if_neg hne, if_pos hhead, List.take_of_length_le (by omega)]
  · have hbase : a.base = some dir := by
      unfold PathArg.base
      unfold PathArg.dir at hdir
      cases hfd : a.dirfd with
      | cwd =>
        rw [hfd] at hdir
        simp only at hdir
        simp [hdir, hshort]
      | fd link =>
        rw [hfd] at hdir
        simp only at hdir
        subst hdir
        have htake : dir.take 2047 = dir := List.take_of_length_le (by omega)
        simp only [htake]
        exact if_pos hdirne
    rw [resolveAtPath, if_neg hne, if_neg hhead, hbase]
    exact List.take_of_length_le (by omega)

/-- A line is written for every name that is no noise. -/
theorem traceVfsEvent_eq (tracePath : Bytes) (op : Op) {text : Text} (h : a.Names (utf8 text)) :
    traceVfsEvent tracePath op a =
      if isNoisePath (utf8 text) tracePath then [] else utf8 (op.char :: '\t' :: (text ++ ['\n'])) := by
  have hlen := h.1
  have hline : utf8 [op.char, '\t'] ++ (utf8 text ++ utf8 ['\n']) =
      utf8 (op.char :: '\t' :: (text ++ ['\n'])) := by
    rw [← utf8_append, ← utf8_append]
    rfl
  have hhead : (utf8 [op.char, '\t']).length = 2 := by cases op <;> decide
  have hend : (utf8 ['\n']).length = 1 := by decide
  have hfits : (utf8 [op.char, '\t'] ++ (utf8 text ++ utf8 ['\n'])).length < 4200 := by
    simp only [List.length_append]
    omega
  unfold traceVfsEvent
  rw [if_neg h.path_ne_nil, resolveAtPath_eq h]
  simp only
  rw [if_pos hfits, hline]

end XioFlow.Trace
