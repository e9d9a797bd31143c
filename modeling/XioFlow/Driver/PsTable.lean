/-
  XioFlow.Driver.PsTable

  The table that `ps` prints, and what the sampler sums up from it.

  `parseRow` is the row pattern.  The columns are runs of digits or of visible
  characters, so there is one way to match it; the line is trimmed first and
  `.` takes no line terminator, which costs some commands their row
  (`parseRow_text`).  The time column is exact in two of its shapes; with days
  in it the days are read as hours (`parseCpuTimeToMs_text`).
-/

import XioFlow.Driver.Sampler
import XioFlow.Lib.DirTree
import Mathlib.Data.List.DropRight
import Mathlib.Data.Rat.Floor

namespace XioFlow.PsTable

open Lib Driver

abbrev Text : Type := List Char

/-! ## Reading a row -/

structure ProcessSnapshotEntry where
  pid : Nat
  ppid : Nat
  pgid : Nat
  state : Option Char
  rssKb : Nat
  timeStr : Text
  command : Text
  deriving DecidableEq

abbrev ProcessSnapshotMap : Type := Table ProcessSnapshotEntry ProcessSnapshotEntry.pid

/-- `\S`. -/
def visible (c : Char) : Bool := !isWhitespace c

/-- What `.` does not match. -/
def lineTerminator (c : Char) : Bool :=
  c = '\n' || c = '\r' || c.toNat = 0x2028 || c.toNat = 0x2029

/-- `parseInt(s, 10)` of text without a sign; what is no number counts as 0. -/
def parseInt (s : Text) : Nat := Nat.ofDigitChars 10 (s.takeWhile Char.isDigit) 0

/-- One group of the pattern and the white space behind it. -/
def column (p : Char → Bool) (s : Text) : Option (Text × Text) :=
  let rest := s.dropWhile p
  if (s.takeWhile p).isEmpty || (rest.takeWhile isWhitespace).isEmpty then none
  else some (s.takeWhile p, rest.dropWhile isWhitespace)

/-- The last two groups: the time and, in one line, the command. -/
def lastColumns (s : Text) : Option (Text × Text) :=
  (column visible s).filter fun (_, command) => !command.any lineTerminator

/-- `^(\d+)\s+(\d+)\s+(\d+)\s+(\S+)\s+(\d+)\s+(\S+)\s+(.*)$`. -/
def matchRow (s : Text) : Option ProcessSnapshotEntry := do
  let (pid, s) ← column Char.isDigit s
  let (ppid, s) ← column Char.isDigit s
  let (pgid, s) ← column Char.isDigit s
  let (state, s) ← column visible s
  let (rss, s) ← column Char.isDigit s
  let (timeStr, command) ← lastColumns s
  return {
    pid := parseInt pid, ppid := parseInt ppid, pgid := parseInt pgid
    state := state.head?, rssKb := parseInt rss, timeStr, command }

def parseRow (line : Text) : Option ProcessSnapshotEntry := matchRow (trim line)

def recordLine (map : ProcessSnapshotMap) (line : Text) : ProcessSnapshotMap :=
  match parseRow line with
  | none => map
  | some entry => map.replace entry

/-- One reading of the table, neither cached nor in flight. -/
def getSnapshot (stdout : Text) : Except Failure ProcessSnapshotMap :=
  let map := (splitAtChar '\n' stdout).foldl recordLine .empty
  if map.rows.isEmpty then .error (.observation "Process table observation failed") else .ok map

/-! ## The sums -/

/-- `parseFloat` of digits, with or without a point and digits behind it. -/
def parseFloat (s : Text) : ℚ :=
  match s.dropWhile Char.isDigit with
  | '.' :: rest =>
    let fraction := rest.takeWhile Char.isDigit
    parseInt s + Nat.ofDigitChars 10 fraction 0 / 10 ^ fraction.length
  | _ => parseInt s

/-- `Math.round`. -/
def round (x : ℚ) : Int := ⌊x + 1 / 2⌋

def parseCpuTimeToMs (timeStr : Text) : Int :=
  match splitAtChar ':' timeStr with
  | [min, sec] => round ((parseInt min * 60 + parseFloat sec) * 1000)
  | [hr, min, sec] => round ((parseInt hr * 3600 + parseInt min * 60 + parseFloat sec) * 1000)
  | _ => 0

structure Metrics where
  rssBytes : Nat := 0
  pidsCount : Nat := 0
  cpuTimeMs : Int := 0
  deriving DecidableEq

/-- One pass of the loop over the targets, for an entry that is not a zombie. -/
def Metrics.add (m : Metrics) (rssKb : Nat) (cpuMs : Int) : Metrics where
  rssBytes := m.rssBytes + rssKb * 1024
  pidsCount := m.pidsCount + 1
  cpuTimeMs := m.cpuTimeMs + cpuMs

def sampleMetrics (targetPids : List Nat) (snapshot : ProcessSnapshotMap) : Metrics :=
  targetPids.foldl
    (fun m pid =>
      match snapshot.get? pid with
      | none => m
      | some entry =>
        if entry.state = some 'Z' then m else m.add entry.rssKb (parseCpuTimeToMs entry.timeStr))
    {}

/-! ## What `ps` prints -/

/-- A number as it is printed, leading zeros included. -/
structure Digits where
  text : Text
  nonempty : text ≠ [] := by decide
  all_digits : text.all Char.isDigit = true := by decide

theorem Digits.digits (d : Digits) : ∀ c ∈ d.text, c.isDigit = true := List.all_eq_true.1 d.all_digits

def Digits.value (d : Digits) : Nat := Nat.ofDigitChars 10 d.text 0

/-- The shapes of the time column: `mm:ss` and `mmm:ss.cc`, `hh:mm:ss`, `dd-hh:mm:ss`. -/
inductive PsTime where
  | minutes (mm ss : Digits)
  | centis (mm ss cc : Digits) (two : cc.text.length = 2)
  | hours (hh mm ss : Digits)
  | days (dd hh mm ss : Digits)

namespace PsTime

def parts : PsTime → List Text
  | minutes mm ss => [mm.text, ss.text]
  | centis mm ss cc _ => [mm.text, ss.text ++ '.' :: cc.text]
  | hours hh mm ss => [hh.text, mm.text, ss.text]
  | days dd hh mm ss => [dd.text ++ '-' :: hh.text, mm.text, ss.text]

def text (t : PsTime) : Text := joinAtChar ':' t.parts

/-- The CPU time that was printed, in milliseconds. -/
def cpuMs : PsTime → Nat
  | minutes mm ss => (mm.value * 60 + ss.value) * 1000
  | centis mm ss cc _ => (mm.value * 60 + ss.value) * 1000 + cc.value * 10
  | hours hh mm ss => (hh.value * 3600 + mm.value * 60 + ss.value) * 1000
  | days dd hh mm ss => ((dd.value * 24 + hh.value) * 3600 + mm.value * 60 + ss.value) * 1000

/-- No day and no hour is printed together with a number of days. -/
def Undayed : PsTime → Prop
  | days dd hh _ _ => dd.value = 0 ∧ hh.value = 0
  | _ => True

end PsTime

/-- One line: the columns stand apart by blanks, `pad` many more than one. -/
structure PsRow where
  pid : Digits
  ppid : Digits
  pgid : Digits
  state : Text
  rssKb : Digits
  time : PsTime
  command : Text
  pad : Nat → Nat
  state_ne : state ≠ [] := by decide
  state_visible : state.all visible = true := by decide
  one_line : '\n' ∉ command := by decide

namespace PsRow

def gap (r : PsRow) (i : Nat) : Text := List.replicate (r.pad i + 1) ' '

/-- The columns up to the memory, and `tail` behind them. -/
def front (r : PsRow) (tail : Text) : Text :=
  r.pid.text ++ (r.gap 1 ++ (r.ppid.text ++ (r.gap 2 ++ (r.pgid.text ++ (r.gap 3 ++
    (r.state ++ (r.gap 4 ++ (r.rssKb.text ++ (r.gap 5 ++ tail)))))))))

def text (r : PsRow) : Text :=
  List.replicate (r.pad 0) ' ' ++ r.front (r.time.text ++ (r.gap 6 ++ r.command))

def entry (r : PsRow) : ProcessSnapshotEntry where
  pid := r.pid.value
  ppid := r.ppid.value
  pgid := r.pgid.value
  state := r.state.head?
  rssKb := r.rssKb.value
  timeStr := r.time.text
  command := r.command

def zombie (r : PsRow) : Prop := r.state.head? = some 'Z'

instance (r : PsRow) : Decidable r.zombie := inferInstanceAs (Decidable (_ = _))

/-- There is a command, it keeps its ends under `trim`, and it is one line. -/
def Plain (r : PsRow) : Prop :=
  trim r.command = r.command ∧ r.command ≠ [] ∧ r.command.any lineTerminator = false

end PsRow

/-- `ps` lists each process once, and itself. -/
structure Printed where
  rows : List PsRow
  nonempty : rows ≠ []
  nodup : (rows.map (·.pid.value)).Nodup

namespace Printed

def text (t : Printed) : Text := t.rows.flatMap fun r => r.text ++ ['\n']

def row? (t : Printed) (pid : Nat) : Option PsRow := t.rows.find? fun r => r.pid.value = pid

def addTarget (t : Printed) (m : Metrics) (pid : Nat) : Metrics :=
  match t.row? pid with
  | none => m
  | some r => if r.zombie then m else m.add r.rssKb.value r.time.cpuMs

/-- The sums over the targets that are listed and no zombies. -/
def metrics (t : Printed) (targetPids : List Nat) : Metrics := targetPids.foldl t.addTarget {}

/-- The row of a pid that is listed and no zombie. -/
def Live (t : Printed) (pid : Nat) (r : PsRow) : Prop := t.row? pid = some r ∧ ¬ r.zombie

end Printed

/-! ## Columns -/

section Columns

variable {p : Char → Bool} {v : Text}

/-- `trimEnd`. -/
abbrev trimEnd (s : Text) : Text := s.rdropWhile isWhitespace

theorem rdropWhile_append (xs ys : Text) :
    (xs ++ ys).rdropWhile p = if ys.rdropWhile p = [] then xs.rdropWhile p else xs ++ ys.rdropWhile p := by
  unfold List.rdropWhile
  rw [List.reverse_append, List.dropWhile_append]
  by_cases hys : ys.reverse.dropWhile p = []
  · simp [hys]
  · simp [hys]

/-- Text that starts with a character to keep is kept from there on. -/
theorem trimEnd_cons {c : Char} (hc : visible c = true) (s : Text) :
    trimEnd (c :: s) = c :: trimEnd s := by
  have hone : [c].rdropWhile isWhitespace = [c] := by
    rw [List.rdropWhile_singleton, if_neg]
    simpa [visible] using hc
  rw [← List.singleton_append, trimEnd, rdropWhile_append, hone]
  split
  · rename_i hs
    rw [trimEnd, hs]
  · rfl

theorem trimEnd_self (hvis : ∀ c ∈ v, visible c = true) : trimEnd v = v := by
  refine List.rdropWhile_eq_self_iff.2 fun hne => ?_
  simpa [visible] using hvis _ (List.getLast_mem hne)

/-- White space goes off at either end first. -/
theorem dropWhile_trimEnd (s : Text) :
    (trimEnd s).dropWhile isWhitespace = trim s := by
  show _ = trimEnd (s.dropWhile isWhitespace)
  induction s with
  | nil => rfl
  | cons c s ih =>
    by_cases hc : isWhitespace c = true
    · rw [List.dropWhile_cons_of_pos hc, ← ih, ← List.singleton_append, trimEnd, rdropWhile_append]
      split
      · rename_i hs
        rw [trimEnd, hs, List.rdropWhile_singleton, if_pos hc]
      · rw [List.singleton_append, List.dropWhile_cons_of_pos hc]
    · have hvis : visible c = true := by simpa [visible] using hc
      rw [List.dropWhile_cons_of_neg hc, trimEnd_cons hvis, List.dropWhile_cons_of_neg hc]

theorem trim_eq_nil {s : Text} : trim s = [] ↔ trimEnd s = [] := by
  rw [← dropWhile_trimEnd]
  constructor
  · intro h
    by_contra hne
    have hlast := List.rdropWhile_last_not isWhitespace s hne
    exact hlast (List.dropWhile_eq_nil_iff.1 h _ (List.getLast_mem hne))
  · intro h
    rw [h]
    rfl

/-- Visible text keeps a place at the front. -/
theorem dropWhile_visible (hv : v ≠ []) (hvis : ∀ c ∈ v, visible c = true) (s : Text) :
    (v ++ s).dropWhile isWhitespace = v ++ s :=
  dropWhile_start hv (fun c hc => by simpa [visible] using hvis c hc) s

theorem isWhitespace_of_mem_blanks {c : Char} {n : Nat} (h : c ∈ List.replicate n ' ') :
    isWhitespace c = true := by
  rw [List.eq_of_mem_replicate h]
  decide

/-- A column of the right characters, with blanks behind it, is taken whole. -/
theorem column_append (hv : v ≠ []) (hall : ∀ c ∈ v, p c = true) (hp : p ' ' = false) (n : Nat)
    (s : Text) :
    column p (v ++ (List.replicate (n + 1) ' ' ++ s)) = some (v, s.dropWhile isWhitespace) := by
  have htake : (v ++ (List.replicate (n + 1) ' ' ++ s)).takeWhile p = v := by
    rw [List.takeWhile_append_of_pos hall, List.replicate_succ, List.cons_append,
      List.takeWhile_cons_of_neg (by rw [hp]; decide), List.append_nil]
  have hdrop : (v ++ (List.replicate (n + 1) ' ' ++ s)).dropWhile p =
      List.replicate (n + 1) ' ' ++ s := by
    rw [List.dropWhile_append_of_pos hall, List.replicate_succ, List.cons_append,
      List.dropWhile_cons_of_neg (by rw [hp]; decide)]
  have hblank : ((List.replicate (n + 1) ' ' ++ s).takeWhile isWhitespace).isEmpty = false := by
    rw [List.replicate_succ, List.cons_append, List.takeWhile_cons_of_pos (by decide)]
    rfl
  simp only [column, htake, hdrop, hblank, List.isEmpty_eq_false_iff.2 hv,
    List.dropWhile_append_of_pos fun _ => isWhitespace_of_mem_blanks]
  rfl

/-- Without white space behind it no column ends. -/
theorem column_visible_self (hvis : ∀ c ∈ v, visible c = true) : column visible v = none := by
  unfold column
  rw [List.dropWhile_eq_nil_iff.2 hvis]
  simp

end Columns

theorem visible_of_isDigit {c : Char} (h : c.isDigit = true) : visible c = true := by
  rw [visible, isWhitespace_of_isDigit h]
  rfl

namespace Digits

variable (d : Digits)

theorem visible_text : ∀ c ∈ d.text, visible c = true := fun c hc => visible_of_isDigit (d.digits c hc)

/-- A character that is no digit ends the number. -/
theorem parseInt_append {c : Char} (hc : c.isDigit = false) (s : Text) :
    parseInt (d.text ++ c :: s) = d.value := by
  rw [parseInt, List.takeWhile_append_of_pos d.digits,
    List.takeWhile_cons_of_neg (by rw [hc]; decide), List.append_nil]
  rfl

@[simp] theorem parseInt_text : parseInt d.text = d.value := by
  have htake : d.text.takeWhile Char.isDigit = d.text := List.takeWhile_eq_self_iff.2 d.digits
  rw [parseInt, htake]
  rfl

end Digits

namespace PsTime

variable (t : PsTime)

/-- What a part is written with. -/
def timeChar (c : Char) : Bool := c.isDigit || c = '.' || c = '-'

theorem timeChar_of_mem_part : ∀ part ∈ t.parts, ∀ c ∈ part, timeChar c = true := by
  have hdigits : ∀ d : Digits, ∀ c ∈ d.text, timeChar c = true := fun d c hc => by
    rw [timeChar, d.digits c hc]
    rfl
  have hmarks : timeChar '.' = true ∧ timeChar '-' = true := by decide
  cases t <;> simp [parts, or_imp, forall_and, hmarks] <;> grind

theorem splitAtChar_text : splitAtChar ':' t.text = t.parts := by
  have hne : t.parts ≠ [] := by cases t <;> exact List.cons_ne_nil _ _
  refine splitAtChar_joinAtChar hne fun part hpart hmem => ?_
  exact absurd (t.timeChar_of_mem_part part hpart ':' hmem) (by decide)

theorem text_ne : t.text ≠ [] := by
  cases t <;> simp [text, parts, joinAtChar]

theorem text_visible : ∀ c ∈ t.text, visible c = true := by
  intro c hc
  have hsep : c = ':' ∨ ∃ part ∈ t.parts, c ∈ part := by
    cases t <;> simp [text, parts, joinAtChar] at hc ⊢ <;> tauto
  rcases hsep with rfl | ⟨part, hpart, hc⟩
  · decide
  · have htime := t.timeChar_of_mem_part part hpart c hc
    simp only [timeChar, Bool.or_eq_true, decide_eq_true_eq] at htime
    rcases htime with (h | rfl) | rfl
    · exact visible_of_isDigit h
    · decide
    · decide

/-! ## The time column -/

theorem round_natCast (n : Nat) : round n = n := by
  have hfloor : ⌊(n : ℚ) + 1 / 2⌋ = n := by
    rw [Int.floor_eq_iff]
    constructor
    · norm_num
    · norm_num
  exact hfloor

@[simp] theorem parseFloat_text (d : Digits) : parseFloat d.text = d.value := by
  have hdrop : d.text.dropWhile Char.isDigit = [] := List.dropWhile_eq_nil_iff.2 d.digits
  simp [parseFloat, hdrop]

theorem parseFloat_centis (ss cc : Digits) (two : cc.text.length = 2) :
    parseFloat (ss.text ++ '.' :: cc.text) = ss.value + cc.value / 100 := by
  have hdrop : (ss.text ++ '.' :: cc.text).dropWhile Char.isDigit = '.' :: cc.text := by
    rw [List.dropWhile_append_of_pos ss.digits, List.dropWhile_cons_of_neg (by decide)]
  have htake : cc.text.takeWhile Char.isDigit = cc.text := List.takeWhile_eq_self_iff.2 cc.digits
  have hss : parseInt (ss.text ++ '.' :: cc.text) = ss.value := ss.parseInt_append rfl cc.text
  simp only [parseFloat, hdrop, htake, two, hss]
  norm_num
  rfl

/-- What the sampler makes of the time: days are hours to it, and the hours beside them nothing. -/
def readMs : PsTime → Nat
  | days dd _ mm ss => (dd.value * 3600 + mm.value * 60 + ss.value) * 1000
  | t => t.cpuMs

theorem parseCpuTimeToMs_text : parseCpuTimeToMs t.text = t.readMs := by
  rw [parseCpuTimeToMs, t.splitAtChar_text]
  cases t with
  | minutes | hours =>
    simp only [parts, Digits.parseInt_text, parseFloat_text, readMs, cpuMs]
    rw [← round_natCast]
    push_cast
    rfl
  | centis mm ss cc two =>
    simp only [parts, Digits.parseInt_text, parseFloat_centis ss cc two, readMs, cpuMs]
    rw [← round_natCast]
    push_cast
    congr 1
    ring
  | days dd =>
    simp only [parts, dd.parseInt_append (by decide : '-'.isDigit = false), Digits.parseInt_text,
      parseFloat_text, readMs]
    rw [← round_natCast]
    push_cast
    rfl

theorem readMs_eq_iff : t.readMs = t.cpuMs ↔ t.Undayed := by
  cases t with
  | days dd hh mm ss =>
    simp only [readMs, cpuMs, Undayed]
    omega
  | _ => exact ⟨fun _ => trivial, fun _ => rfl⟩

end PsTime

namespace PsRow

variable (r : PsRow)

/-! ## One row -/

/-- The row comes out with the trimmed command, when there is one and it is one line. -/
def reading : Option ProcessSnapshotEntry :=
  if trim r.command = [] ∨ (trim r.command).any lineTerminator = true then none
  else some { r.entry with command := trim r.command }

/-- The pattern goes through the front of a row in one way. -/
theorem matchRow_front {tail : Text} (htail : tail.dropWhile isWhitespace = tail) :
    matchRow (r.front tail) = (lastColumns tail).map fun (timeStr, command) =>
      { r.entry with timeStr, command } := by
  have hcolumn : ∀ (d : Digits) (i : Nat) (s : Text),
      column Char.isDigit (d.text ++ (r.gap i ++ s)) = some (d.text, s.dropWhile isWhitespace) :=
    fun d i s => column_append d.nonempty d.digits rfl (r.pad i) s
  have hstate : ∀ s : Text,
      column visible (r.state ++ (r.gap 4 ++ s)) = some (r.state, s.dropWhile isWhitespace) :=
    column_append r.state_ne (List.all_eq_true.1 r.state_visible) (by decide) (r.pad 4)
  have hdigits : ∀ (d : Digits) (s : Text), (d.text ++ s).dropWhile isWhitespace = d.text ++ s :=
    fun d => dropWhile_visible d.nonempty d.visible_text
  have hvisible : ∀ s : Text, (r.state ++ s).dropWhile isWhitespace = r.state ++ s :=
    dropWhile_visible r.state_ne (List.all_eq_true.1 r.state_visible)
  simp only [matchRow, front, hcolumn, hstate, hdigits, hvisible, htail, Option.bind_eq_bind,
    Option.bind_some, Digits.parseInt_text, Option.pure_def]
  cases lastColumns tail with
  | none => rfl
  | some last => rfl

theorem front_eq (tail : Text) : r.front tail = r.front [] ++ tail := by simp [front]

/-- Trimming stops at the front from either side. -/
theorem trim_front (n : Nat) {tail : Text} (htail : trimEnd tail ≠ []) :
    trim (List.replicate n ' ' ++ r.front tail) = r.front (trimEnd tail) := by
  have hstart : (r.front tail).dropWhile isWhitespace = r.front tail :=
    dropWhile_visible r.pid.nonempty r.pid.visible_text _
  show trimEnd _ = _
  rw [List.dropWhile_append_of_pos fun _ => isWhitespace_of_mem_blanks, hstart, front_eq, trimEnd,
    rdropWhile_append, if_neg htail, ← front_eq]

theorem trimEnd_blanks (n : Nat) : trimEnd (List.replicate n ' ') = [] :=
  List.rdropWhile_eq_nil_iff.2 fun _ => isWhitespace_of_mem_blanks

theorem parseRow_text : parseRow r.text = r.reading := by
  have hvis := r.time.text_visible
  have htime : trimEnd r.time.text = r.time.text := trimEnd_self hvis
  have hline : trimEnd (r.time.text ++ (r.gap 6 ++ r.command)) =
      if trimEnd r.command = [] then r.time.text
      else r.time.text ++ (r.gap 6 ++ trimEnd r.command) := by
    by_cases hc : trimEnd r.command = []
    · have hgap : trimEnd (r.gap 6 ++ r.command) = [] := by
        rw [trimEnd, rdropWhile_append, if_pos hc]
        exact trimEnd_blanks _
      rw [if_pos hc, trimEnd, rdropWhile_append, if_pos hgap]
      exact htime
    · have hgap : trimEnd (r.gap 6 ++ r.command) = r.gap 6 ++ trimEnd r.command := by
        rw [trimEnd, rdropWhile_append, if_neg hc]
      have hne : trimEnd (r.gap 6 ++ r.command) ≠ [] := by
        rw [hgap]
        simp [hc]
      rw [if_neg hc, trimEnd, rdropWhile_append, if_neg hne]
      exact congrArg _ hgap
  have hne : trimEnd (r.time.text ++ (r.gap 6 ++ r.command)) ≠ [] := by
    rw [hline]
    split
    · exact r.time.text_ne
    · simp [r.time.text_ne]
  rw [parseRow, text, r.trim_front _ hne, hline, reading]
  by_cases hc : trimEnd r.command = []
  · -- the blanks behind the time went with the command, and the pattern wants them
    have hself : r.time.text.dropWhile isWhitespace = r.time.text := by
      simpa using dropWhile_visible r.time.text_ne hvis []
    rw [if_pos hc, if_pos (.inl (trim_eq_nil.2 hc)), r.matchRow_front hself, lastColumns,
      column_visible_self hvis]
    rfl
  · rw [if_neg hc, r.matchRow_front (dropWhile_visible r.time.text_ne hvis _), lastColumns,
      show r.gap 6 = List.replicate (r.pad 6 + 1) ' ' from rfl,
      column_append r.time.text_ne hvis (by decide), dropWhile_trimEnd]
    have hsome : trim r.command ≠ [] := fun h => hc (trim_eq_nil.1 h)
    by_cases hany : (trim r.command).any lineTerminator = true
    · rw [if_pos (.inr hany)]
      simp only [Option.filter_some, hany]
      rfl
    · rw [if_neg (by tauto)]
      rw [Bool.not_eq_true] at hany
      simp only [Option.filter_some, hany]
      rfl

/-- The row comes out with exactly its values when its command is plain, and only then. -/
theorem parseRow_eq_iff : parseRow r.text = some r.entry ↔ r.Plain := by
  rw [parseRow_text, reading]
  constructor
  · intro h
    split at h
    · cases h
    · rename_i hkept
      rw [not_or, Bool.not_eq_true] at hkept
      have htrim : trim r.command = r.command :=
        congrArg ProcessSnapshotEntry.command (Option.some.inj h)
      rw [htrim] at hkept
      exact ⟨htrim, hkept⟩
  · rintro ⟨htrim, hne, hone⟩
    rw [htrim, if_neg (by simp [hne, hone])]
    rfl

theorem pid_of_parseRow {e : ProcessSnapshotEntry} (h : parseRow r.text = some e) :
    e.pid = r.pid.value := by
  rw [parseRow_text, reading] at h
  split at h
  · cases h
  · rw [← Option.some.inj h]
    rfl

end PsRow

/-! ## The whole table -/

theorem not_mem_text (r : PsRow) : '\n' ∉ r.text := by
  have hvisible : ∀ {v : Text}, (∀ c ∈ v, visible c = true) → '\n' ∉ v :=
    fun hv hmem => absurd (hv _ hmem) (by decide)
  have hdigits : ∀ d : Digits, '\n' ∉ d.text := fun d => hvisible d.visible_text
  have hstate : '\n' ∉ r.state := hvisible (List.all_eq_true.1 r.state_visible)
  have htime : '\n' ∉ r.time.text := hvisible r.time.text_visible
  simp [PsRow.text, PsRow.front, PsRow.gap, List.mem_append, hdigits, hstate, htime, r.one_line]

/-- The lines are the rows, and nothing behind the last one. -/
theorem splitAtChar_text (rows : List PsRow) :
    splitAtChar '\n' (rows.flatMap fun r => r.text ++ ['\n']) = rows.map PsRow.text ++ [[]] := by
  induction rows with
  | nil => rfl
  | cons r rows ih =>
    rw [List.flatMap_cons, List.append_assoc, List.singleton_append, splitAtChar_sep,
      splitAtChar_self (not_mem_text r), ih]
    rfl

theorem get?_recordLine (map : ProcessSnapshotMap) (r : PsRow) (k : Nat) :
    (recordLine map r.text).get? k =
      if r.pid.value = k then (parseRow r.text).or (map.get? k) else map.get? k := by
  unfold recordLine
  cases hparse : parseRow r.text with
  | none =>
    show map.get? k = if r.pid.value = k then map.get? k else map.get? k
    rw [ite_self]
  | some e =>
    show (map.replace e).get? k = _
    rw [Table.get?_replace, r.pid_of_parseRow hparse, Option.some_or]

/-- A pid that the table lists once has what its row reads as, every other what it had. -/
theorem get?_foldl {rows : List PsRow} (hnodup : (rows.map (·.pid.value)).Nodup)
    (map : ProcessSnapshotMap) (k : Nat) :
    ((rows.map PsRow.text).foldl recordLine map).get? k =
      ((rows.find? fun r => r.pid.value = k).bind fun r => parseRow r.text).or (map.get? k) := by
  induction rows generalizing map with
  | nil => rfl
  | cons r rows ih =>
    rw [List.map_cons, List.nodup_cons] at hnodup
    rw [List.map_cons, List.foldl_cons, ih hnodup.2, List.find?_cons, get?_recordLine]
    by_cases hk : r.pid.value = k
    · have hnone : rows.find? (fun r => r.pid.value = k) = none := by
        refine List.find?_eq_none.2 fun other hother => ?_
        have hne : other.pid.value ≠ r.pid.value := fun h =>
          hnodup.1 (h ▸ List.mem_map_of_mem hother)
        simpa [← hk] using hne
      rw [hnone, if_pos hk, decide_eq_true hk]
      rfl
    · rw [if_neg hk, decide_eq_false hk]

namespace Printed

variable {t : Printed}

/-- What was printed is what was read, and the sums over any targets are the sums that were
    printed. -/
structure SampledExactly (t : Printed) (snapshot : ProcessSnapshotMap) : Prop where
  read : getSnapshot t.text = .ok snapshot
  rows : ∀ pid, snapshot.get? pid = (t.row? pid).map PsRow.entry
  sums : ∀ targetPids, sampleMetrics targetPids snapshot = t.metrics targetPids

/-- Every command is plain, and no live process has a time with days in it. -/
structure Young (t : Printed) : Prop where
  plain : ∀ r ∈ t.rows, r.Plain
  undayed : ∀ r ∈ t.rows, ¬ r.zombie → r.time.Undayed

theorem row?_of_mem {r : PsRow} (hr : r ∈ t.rows) : t.row? r.pid.value = some r := by
  have hfind : ∃ other, t.row? r.pid.value = some other := by
    refine Option.isSome_iff_exists.1 (List.find?_isSome.2 ⟨r, hr, ?_⟩)
    simp
  obtain ⟨other, hother⟩ := hfind
  have hpid : other.pid.value = r.pid.value := by simpa using List.find?_some hother
  rw [hother, List.inj_on_of_nodup_map t.nodup (List.mem_of_find?_eq_some hother) hr hpid]

theorem get?_lines (k : Nat) :
    ((splitAtChar '\n' t.text).foldl recordLine .empty).get? k =
      (t.row? k).bind fun r => parseRow r.text := by
  have hlast : ∀ map, recordLine map [] = map := fun _ => rfl
  rw [text, splitAtChar_text, List.foldl_append, List.foldl_cons, List.foldl_nil, hlast,
    get?_foldl t.nodup]
  exact Option.or_none

theorem get?_of_getSnapshot {snapshot : ProcessSnapshotMap}
    (h : getSnapshot t.text = .ok snapshot) (k : Nat) :
    snapshot.get? k = (t.row? k).bind fun r => parseRow r.text := by
  have hlines := get?_lines (t := t) k
  unfold getSnapshot at h
  dsimp only at h
  split at h
  · cases h
  · cases h
    exact hlines

/-- A young table is sampled exactly. -/
theorem Young.sampledExactly (h : t.Young) : ∃ snapshot, t.SampledExactly snapshot := by
  have hget : ∀ k, ((splitAtChar '\n' t.text).foldl recordLine .empty).get? k =
      (t.row? k).map PsRow.entry := by
    intro k
    rw [get?_lines]
    cases hrow : t.row? k with
    | none => rfl
    | some r => exact r.parseRow_eq_iff.2 (h.plain r (List.mem_of_find?_eq_some hrow))
  have hread : getSnapshot t.text = .ok ((splitAtChar '\n' t.text).foldl recordLine .empty) := by
    have hrows : ((splitAtChar '\n' t.text).foldl recordLine .empty).rows ≠ [] := by
      obtain ⟨r, hr⟩ := List.exists_mem_of_ne_nil t.rows t.nonempty
      have hentry := hget r.pid.value
      rw [row?_of_mem hr] at hentry
      exact List.ne_nil_of_mem (Table.mem_of_get? hentry)
    rw [getSnapshot, List.isEmpty_eq_false_iff.2 hrows]
    rfl
  refine ⟨_, hread, hget, fun targetPids => ?_⟩
  unfold sampleMetrics metrics
  congr 1
  funext m pid
  rw [hget, addTarget]
  cases hrow : t.row? pid with
  | none => rfl
  | some r =>
    have hmem : r ∈ t.rows := List.mem_of_find?_eq_some hrow
    by_cases hz : r.zombie
    · simp [PsRow.entry, if_pos hz, show r.state.head? = some 'Z' from hz]
    · have hms := r.time.parseCpuTimeToMs_text
      rw [r.time.readMs_eq_iff.2 (h.undayed r hmem hz)] at hms
      simp [PsRow.entry, if_neg hz, show ¬ r.state.head? = some 'Z' from hz, hms]

theorem SampledExactly.young {snapshot : ProcessSnapshotMap} (h : t.SampledExactly snapshot) :
    t.Young := by
  have hparse : ∀ r ∈ t.rows, parseRow r.text = some r.entry := by
    intro r hr
    have hget := h.rows r.pid.value
    rw [get?_of_getSnapshot h.read, row?_of_mem hr] at hget
    exact hget
  refine ⟨fun r hr => r.parseRow_eq_iff.1 (hparse r hr), fun r hr hz => ?_⟩
  have hsum := h.sums [r.pid.value]
  have hrow := h.rows r.pid.value
  rw [row?_of_mem hr] at hrow
  have hcpu := congrArg Metrics.cpuTimeMs hsum
  simp [sampleMetrics, metrics, addTarget, hrow, row?_of_mem hr, PsRow.entry, if_neg hz,
    show ¬ r.state.head? = some 'Z' from hz, Metrics.add, PsTime.parseCpuTimeToMs_text] at hcpu
  exact r.time.readMs_eq_iff.1 hcpu

/-- Live processes whose times do not decrease have a sum that does not decrease. -/
theorem metrics_mono {before after : Printed} {targetPids : List Nat}
    (h : ∀ pid ∈ targetPids, ∃ r r', before.Live pid r ∧ after.Live pid r' ∧
      r.time.cpuMs ≤ r'.time.cpuMs) :
    (before.metrics targetPids).cpuTimeMs ≤ (after.metrics targetPids).cpuTimeMs := by
  have hrun : ∀ m m' : Metrics, m.cpuTimeMs ≤ m'.cpuTimeMs →
      (targetPids.foldl before.addTarget m).cpuTimeMs ≤
        (targetPids.foldl after.addTarget m').cpuTimeMs := by
    induction targetPids with
    | nil => exact fun m m' hm => hm
    | cons pid pids ih =>
      intro m m' hm
      obtain ⟨r, r', ⟨hr, hz⟩, ⟨hr', hz'⟩, hle⟩ := h pid List.mem_cons_self
      refine ih (fun p hp => h p (List.mem_cons_of_mem _ hp)) _ _ ?_
      simp only [addTarget, hr, hr', if_neg hz, if_neg hz', Metrics.add]
      omega
  exact hrun {} {} le_rfl

/-- Two readings of the same processes, one after the other: each is exact, and the CPU time of
    live targets whose own times do not decrease does not decrease either. -/
def Sampled (before after : Printed) : Prop :=
  ∃ s s', before.SampledExactly s ∧ after.SampledExactly s' ∧
    ∀ targetPids,
      (∀ pid ∈ targetPids, ∃ r r', before.Live pid r ∧ after.Live pid r' ∧
        r.time.cpuMs ≤ r'.time.cpuMs) →
      (sampleMetrics targetPids s).cpuTimeMs ≤ (sampleMetrics targetPids s').cpuTimeMs

/-- A process of one row. -/
def single (time : PsTime) : Printed where
  rows := [{
    pid := { text := ['7'] }, ppid := { text := ['1'] }, pgid := { text := ['7'] }
    state := ['S', 's'], rssKb := { text := ['2', '4'] }, time
    command := ['n', 'o', 'd', 'e', ' ', 'a'], pad := fun i => i }]
  nonempty := by simp
  nodup := by simp

def lastSecond : PsTime :=
  .hours { text := ['2', '3'] } { text := ['5', '9'] } { text := ['5', '9'] }

def firstDay : PsTime :=
  .days { text := ['1'] } { text := ['0', '0'] } { text := ['0', '0'] } { text := ['0', '0'] }

end Printed

end XioFlow.PsTable
