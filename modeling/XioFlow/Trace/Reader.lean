/-
  XioFlow.Trace.Reader

  `parseSyscallTraceFile`: which files of a workspace a trace says were read,
  written and deleted.

  The reader takes the lines of the trace apart again, and follows the names in
  them as they are written.  It knows the workspace by two names: as it was
  given, and its real path.
-/

import Mathlib
import XioFlow.Lib.DirTree
import XioFlow.Trace.Shim

namespace XioFlow.Trace

open Lib Utf8Decoder

/-! ## The reader -/

/-- What the reader sees of the file system. -/
structure Host where
  cwd : List Text
  absRoot : List Text
  realRoot : List Text
  /-- `fs.statSync(path.join(absRoot, rel)).isDirectory()`; false where it throws -/
  isDirectory : Text → Bool

/-- `path.resolve` -/
def resolve (cwd : List Text) (p : Text) : List Text :=
  ((splitAtChar '/' p).foldl Place.enter
    ⟨true, 0, if p.head? = some '/' then [] else cwd⟩).names

/-- The names of `path.relative` -/
def relative : List Text → List Text → List Text
  | a :: src, b :: dst =>
    if a = b then relative src dst else (a :: src).map (fun _ => ['.', '.']) ++ b :: dst
  | src, dst => src.map (fun _ => ['.', '.']) ++ dst

def joined (names : List Text) : Text := joinAtChar '/' names

/-- `rel.startsWith('..')` -/
def startsUp (rel : Text) : Bool := ['.', '.'].isPrefixOf rel

def isIgnoredSegment (rel : Text) : Bool :=
  let first := rel.takeWhile (· ≠ '/')
  rel = [] || rel = ['.'] || first = ".git".toList || first = ".xioflow-kernel".toList ||
    first = ".xioflow".toList || first = "node_modules".toList || first = ".venv".toList ||
      first = "venv".toList

/-- The path of a name, from the workspace or up out of it. -/
def Host.rel (host : Host) (resolved : List Text) : Text :=
  let rel := joined (relative host.absRoot resolved)
  if startsUp rel && host.realRoot ≠ host.absRoot then
    let relReal := joined (relative host.realRoot resolved)
    if startsUp relReal then rel else relReal
  else rel

structure Sets where
  reads : List Text := []
  writes : List Text := []
  deletes : List Text := []
  denied : List Text := []

/-- `set.add(x)` -/
def add (x : Text) (set : List Text) : List Text := if x ∈ set then set else set ++ [x]

/-- `set.delete(x)` -/
def drop (x : Text) (set : List Text) : List Text := set.filter (· ≠ x)

/-- A line about a file of the workspace. -/
def Sets.note (host : Host) (op rel : Text) (sets : Sets) : Sets :=
  if isIgnoredSegment rel then sets
  else if op = ['R'] then
    if host.isDirectory rel then sets else { sets with reads := add rel sets.reads }
  else if op = ['W'] then
    { sets with writes := add rel sets.writes, deletes := drop rel sets.deletes }
  else if op = ['D'] then
    { sets with deletes := add rel sets.deletes, writes := drop rel sets.writes }
  else if op = ['E'] then { sets with denied := add rel sets.denied }
  else sets

def Sets.line (host : Host) (sets : Sets) (line : Text) : Sets :=
  let op := line.takeWhile (· ≠ '\t')
  if '\t' ∉ line || op = [] then sets
  else
    let rawPath := trim (line.drop (op.length + 1))
    if rawPath = [] then sets
    else
      let resolved := resolve host.cwd rawPath
      let rel := host.rel resolved
      if !startsUp rel && rel.head? ≠ some '/' then sets.note host op rel
      else if op = ['E'] then { sets with denied := add ('/' :: joined resolved) sets.denied }
      else sets

/-- `[...set].sort()`, by code units -/
def sorted (set : List Text) : List Text :=
  set.mergeSort fun a b => decide (Utf16.ofChars a ≤ Utf16.ofChars b)

/-- The sets for a trace file, if there is one that can be read. -/
def parseSyscallTraceFile (host : Host) (raw : Option Bytes) : Sets :=
  match raw with
  | none => {}
  | some raw =>
    let sets := (splitAtChar '\n' (decode raw)).foldl (Sets.line host) {}
    { reads := sorted sets.reads, writes := sorted sets.writes,
      deletes := sorted sets.deletes, denied := sorted sets.denied }

/-! ## What is promised -/

/-- The place of a name under the first of two roots that holds it. -/
def below (root root' names : List Text) : Option (List Text) :=
  if root <+: names then some (names.drop root.length)
  else if root' <+: names then some (names.drop root'.length)
  else none

/-- The place of a file in the workspace. -/
def Host.inside (host : Host) (file : List Text) : Option (List Text) :=
  below host.realRoot host.realRoot file

/-- The last write or deletion of a file. -/
def lastChange (file : List Text) (touches : List (Op × List Text)) : Option Op :=
  ((touches.filter fun t => t.2 = file && (t.1 = .write || t.1 = .delete)).getLast?).map Prod.fst

/-- A name that a file can have. -/
def FileName (name : Text) : Prop := Place.IsName name ∧ '/' ∉ name

/-- A path in the workspace, outside the ignored directories. -/
def Watched (names : List Text) : Prop :=
  (∀ name ∈ names, FileName name) ∧ isIgnoredSegment (joined names) = false

/-- What the sets say of the files of the workspace is what was last done to them. -/
structure Faithful (host : Host) (touches : List (Op × List Text)) (sets : Sets) : Prop where
  disjoint : ∀ rel ∈ sets.writes, rel ∉ sets.deletes
  writes : ∀ names, Watched names →
    (joined names ∈ sets.writes ↔ lastChange (host.realRoot ++ names) touches = some .write)
  deletes : ∀ names, Watched names →
    (joined names ∈ sets.deletes ↔ lastChange (host.realRoot ++ names) touches = some .delete)
  reads : ∀ names, Watched names → host.isDirectory (joined names) = false →
    (.read, host.realRoot ++ names) ∈ touches → joined names ∈ sets.reads

/-! ## Names that are found again -/

/-- The line of a name is one line. -/
def Legible (a : PathArg) (text : Text) : Prop := a.Names (utf8 text) ∧ '\n' ∉ text

/-- The name in the line leads to where the file is, and the file's own name is not taken for one
    that leads up.  No file of the workspace is noise. -/
def Found (host : Host) (tracePath : Bytes) (a : PathArg) : Prop :=
  ∃ text, Legible a text ∧
    if isNoisePath (utf8 text) tracePath then host.inside a.file = none
    else text.head? = some '/' ∧
      below host.absRoot host.realRoot (Place.of (trim text)).names = host.inside a.file ∧
      ∀ names, host.inside a.file = some names → ∀ name ∈ names.head?, ¬ ['.', '.'] <+: name

/-- An open reads or writes, and not both. -/
def Call.OneWay : Call → Prop
  | .openat _ flags => readsFlags flags = !isWrite flags
  | .fopen _ mode => readsMode mode = !isWriteMode mode
  | _ => True

/-- A call whose trace says what it did. -/
def Event.Traced (host : Host) (tracePath : Bytes) (e : Event) : Prop :=
  e.call.OneWay ∧ ∀ r ∈ e.records,
    if r.1 = .denied then ∃ text, Legible r.2 text else Found host tracePath r.2

/-! ## Names and places -/

variable {text : Text} {touches : List (Op × List Text)} {sets : Sets}

theorem fileName_of : ∀ name ∈ (Place.of text).names, FileName name := by
  have hfold : ∀ (segs : List Text) (place : Place), (∀ seg ∈ segs, '/' ∉ seg) →
      (∀ name ∈ place.names, FileName name) →
        ∀ name ∈ (segs.foldl Place.enter place).names, FileName name := by
    intro segs
    induction segs with
    | nil => exact fun _ _ h => h
    | cons seg segs ih =>
      intro place hsegs hplace
      refine ih _ (fun s hs => hsegs s (.tail seg hs)) ?_
      have hseg := hsegs seg List.mem_cons_self
      unfold Place.enter
      split
      · exact hplace
      · rename_i hplain
        rw [not_or] at hplain
        split
        · split
          · exact fun name hname => hplace name (List.dropLast_subset _ hname)
          · split <;> exact hplace
        · rename_i hup
          intro name hname
          rcases List.mem_append.1 hname with hname | hname
          · exact hplace name hname
          · rw [List.mem_singleton.1 hname]
            exact ⟨⟨hplain.1, hplain.2, hup⟩, hseg⟩
  exact hfold _ _ (fun seg hseg => not_mem_of_splitAtChar hseg) nofun

variable {names : List Text} {host : Host}

theorem joined_injective {names' : List Text} (h : ∀ name ∈ names, FileName name)
    (h' : ∀ name ∈ names', FileName name) (heq : joined names = joined names') : names = names' :=
  joinAtChar_injective (fun n hn => ⟨(h n hn).1.1, (h n hn).2⟩)
    (fun n hn => ⟨(h' n hn).1.1, (h' n hn).2⟩) heq

theorem relative_below {root : List Text} (h : root <+: names) :
    relative root names = names.drop root.length := by
  obtain ⟨rest, rfl⟩ := h
  induction root with
  | nil => cases rest <;> rfl
  | cons name root ih =>
    rw [List.cons_append, relative, if_pos rfl, ih]
    rfl

theorem relative_of_not_prefix {root : List Text} (h : ¬ root <+: names) :
    ∃ rest, relative root names = ['.', '.'] :: rest := by
  induction root generalizing names with
  | nil => exact absurd (List.nil_prefix) h
  | cons name root ih =>
    cases names with
    | nil => exact ⟨_, rfl⟩
    | cons name' =>
      rw [relative]
      split
      · rename_i heq
        exact ih fun hpre => h (by rw [heq]; exact (List.prefix_cons_inj name').2 hpre)
      · exact ⟨_, rfl⟩

theorem startsUp_joined (name : Text) (names : List Text) (h : ['.', '.'] <+: name) :
    startsUp (joined (name :: names)) = true := by
  unfold startsUp joined
  rw [List.isPrefixOf_iff_prefix]
  cases names with
  | nil => exact h
  | cons => exact h.trans (List.prefix_append _ _)

/-- A path does not look as if it led up, unless its first name does. -/
theorem not_startsUp (hnames : ∀ name ∈ names, FileName name)
    (h : ∀ name ∈ names.head?, ¬ ['.', '.'] <+: name) :
    startsUp (joined names) = false ∧ (joined names).head? ≠ some '/' := by
  cases names with
  | nil => exact ⟨rfl, nofun⟩
  | cons name names =>
    have hup := h name rfl
    obtain ⟨⟨hne, hdot, -⟩, hslash⟩ := hnames name List.mem_cons_self
    obtain ⟨c, name, rfl⟩ := List.exists_cons_of_ne_nil hne
    have htail : ∃ tail, joined ((c :: name) :: names) = c :: (name ++ tail) ∧
        ∀ d ∈ tail.head?, d = '/' := by
      cases names with
      | nil => exact ⟨[], by simp [joined, joinAtChar], nofun⟩
      | cons next names =>
        exact ⟨'/' :: joined (next :: names), rfl, fun d hd => (Option.some.inj hd).symm⟩
    obtain ⟨tail, htail, hfirst⟩ := htail
    rw [htail]
    constructor
    · rw [startsUp, Bool.eq_false_iff, ne_eq, List.isPrefixOf_iff_prefix]
      intro hpre
      obtain rfl : '.' = c := (List.cons_prefix_cons.1 hpre).1
      cases name with
      | nil =>
        -- a name of one dot, or a dot behind a separator
        exact hdot rfl
      | cons d name =>
        have hd := (List.cons_prefix_cons.1 (List.cons_prefix_cons.1 hpre).2).1
        exact hup ⟨name, by rw [hd]; rfl⟩
    · rintro hhead
      exact hslash (by simp [Option.some.inj hhead])

/-- The path of a name is its place in the workspace. -/
theorem rel_eq {rel : List Text} (hnames : ∀ name ∈ names, FileName name)
    (hbelow : below host.absRoot host.realRoot names = some rel)
    (hdots : ∀ name ∈ rel.head?, ¬ ['.', '.'] <+: name) :
    host.rel names = joined rel ∧ ∀ name ∈ rel, FileName name := by
  unfold below at hbelow
  split at hbelow
  · rename_i habs
    cases hbelow
    have hdrop : ∀ name ∈ names.drop host.absRoot.length, FileName name :=
      fun name hname => hnames name (List.mem_of_mem_drop hname)
    unfold Host.rel
    rw [relative_below habs]
    simp only [(not_startsUp hdrop hdots).1]
    exact ⟨rfl, hdrop⟩
  · rename_i habs
    split at hbelow
    · rename_i hreal
      cases hbelow
      have hdrop : ∀ name ∈ names.drop host.realRoot.length, FileName name :=
        fun name hname => hnames name (List.mem_of_mem_drop hname)
      obtain ⟨rest, hrest⟩ := relative_of_not_prefix habs
      have hroots : host.realRoot ≠ host.absRoot := fun heq => habs (heq ▸ hreal)
      unfold Host.rel
      rw [relative_below hreal, hrest]
      simp only [(not_startsUp hdrop hdots).1, startsUp_joined _ rest List.prefix_rfl]
      exact ⟨by simp [hroots], hdrop⟩
    · cases hbelow

theorem startsUp_rel (h : below host.absRoot host.realRoot names = none) :
    startsUp (host.rel names) = true := by
  unfold below at h
  split at h
  · cases h
  · rename_i habs
    split at h
    · cases h
    · rename_i hreal
      obtain ⟨rest, hrest⟩ := relative_of_not_prefix habs
      obtain ⟨rest', hrest'⟩ := relative_of_not_prefix hreal
      have hup : startsUp (joined (relative host.absRoot names)) = true := by
        rw [hrest]
        exact startsUp_joined _ _ List.prefix_rfl
      have hup' : startsUp (joined (relative host.realRoot names)) = true := by
        rw [hrest']
        exact startsUp_joined _ _ List.prefix_rfl
      unfold Host.rel
      simp only [hup, hup', Bool.true_and, if_true]
      split <;> exact hup

/-! ## One line -/

@[simp] theorem mem_add {x y : Text} {set : List Text} : y ∈ add x set ↔ y = x ∨ y ∈ set := by
  unfold add
  split
  · rename_i hmem
    exact ⟨.inr, fun h => h.elim (fun h => h ▸ hmem) id⟩
  · simp [or_comm]

@[simp] theorem mem_drop {x y : Text} {set : List Text} : y ∈ drop x set ↔ y ≠ x ∧ y ∈ set := by
  simp [drop, and_comm]

theorem lastChange_append (file : List Text) (touches : List (Op × List Text)) (op : Op)
    (file' : List Text) :
    lastChange file (touches ++ [(op, file')]) =
      if file' = file ∧ (op = .write ∨ op = .delete) then some op else lastChange file touches := by
  unfold lastChange
  rw [List.filter_append]
  split
  · rename_i h
    simp [h]
  · rename_i h
    have hother : (decide (file' = file) && (decide (op = .write) || decide (op = .delete))) = false := by
      simpa using h
    simp [hother]

/-- What is done to other files changes nothing for the workspace. -/
theorem Faithful.outside (h : Faithful host touches sets) (op : Op) {file : List Text}
    (hfile : ∀ names, Watched names → file ≠ host.realRoot ++ names) :
    Faithful host (touches ++ [(op, file)]) sets := by
  refine ⟨h.disjoint, fun names hw => ?_, fun names hw => ?_, fun names hw hdir hread => ?_⟩
  · rw [lastChange_append, if_neg fun hc => hfile names hw hc.1]
    exact h.writes names hw
  · rw [lastChange_append, if_neg fun hc => hfile names hw hc.1]
    exact h.deletes names hw
  · rcases List.mem_append.1 hread with hread | hread
    · exact h.reads names hw hdir hread
    · exact absurd (Prod.mk.inj (List.mem_singleton.1 hread)).2.symm (hfile names hw)

theorem Faithful.denied (h : Faithful host touches sets) (denied : List Text) :
    Faithful host touches { sets with denied } := ⟨h.disjoint, h.writes, h.deletes, h.reads⟩

/-- A line about a file of the workspace says what was done to it. -/
theorem Faithful.note (h : Faithful host touches sets) {op : Op} (hop : op ≠ .denied)
    {rel : List Text} (hrel : ∀ name ∈ rel, FileName name) :
    Faithful host (touches ++ [(op, host.realRoot ++ rel)]) (sets.note host [op.char] (joined rel)) := by
  unfold Sets.note
  split
  · rename_i hignored
    refine h.outside op fun names hw heq => ?_
    rw [List.append_cancel_left_eq] at heq
    rw [heq, hw.2] at hignored
    cases hignored
  · have hsame : ∀ names, Watched names → (joined names = joined rel ↔ rel = names) := fun names hw =>
      ⟨fun heq => (joined_injective hw.1 hrel heq).symm, fun heq => by rw [heq]⟩
    have hread : ∀ other, Op.read ≠ other → ∀ names, (.read, host.realRoot ++ names) ∈
        touches ++ [(other, host.realRoot ++ rel)] → (.read, host.realRoot ++ names) ∈ touches := by
      intro other hother names hmem
      simpa [hother] using hmem
    have hdisjoint := h.disjoint
    cases op with
    | denied => exact absurd rfl hop
    | read =>
      have hkept : ∀ names, lastChange (host.realRoot ++ names)
          (touches ++ [(.read, host.realRoot ++ rel)]) = lastChange (host.realRoot ++ names) touches := by
        intro names
        rw [lastChange_append, if_neg (by simp)]
      simp only [Op.char, if_true]
      split
      · rename_i hdir
        refine ⟨hdisjoint, fun names hw => ?_, fun names hw => ?_, fun names hw hdir' hread => ?_⟩
        · rw [hkept, h.writes names hw]
        · rw [hkept, h.deletes names hw]
        · rcases List.mem_append.1 hread with hread | hread
          · exact h.reads names hw hdir' hread
          · have heq := (Prod.mk.inj (List.mem_singleton.1 hread)).2
            rw [List.append_cancel_left_eq] at heq
            rw [heq, hdir] at hdir'
            cases hdir'
      · refine ⟨hdisjoint, fun names hw => ?_, fun names hw => ?_, fun names hw hdir' hread => ?_⟩
        · rw [hkept, h.writes names hw]
        · rw [hkept, h.deletes names hw]
        · rw [mem_add]
          rcases List.mem_append.1 hread with hread | hread
          · exact .inr (h.reads names hw hdir' hread)
          · have heq := (Prod.mk.inj (List.mem_singleton.1 hread)).2
            rw [List.append_cancel_left_eq] at heq
            exact .inl (by rw [heq])
    | write =>
      simp only [Op.char, List.cons.injEq, and_true, if_false, if_true, Char.reduceEq]
      refine ⟨fun x hx hx' => ?_, fun names hw => ?_, fun names hw => ?_,
        fun names hw hdir hmem => h.reads names hw hdir (hread .write nofun names hmem)⟩
      · rw [mem_drop] at hx'
        rcases mem_add.1 hx with rfl | hx
        · exact hx'.1 rfl
        · exact hdisjoint x hx hx'.2
      · rw [mem_add, hsame names hw, lastChange_append, h.writes names hw]
        by_cases heq : rel = names <;> simp [heq]
      · rw [mem_drop, ne_eq, hsame names hw, lastChange_append, h.deletes names hw]
        by_cases heq : rel = names <;> simp [heq]
    | delete =>
      simp only [Op.char, List.cons.injEq, and_true, if_false, if_true, Char.reduceEq]
      refine ⟨fun x hx hx' => ?_, fun names hw => ?_, fun names hw => ?_,
        fun names hw hdir hmem => h.reads names hw hdir (hread .delete nofun names hmem)⟩
      · rw [mem_drop] at hx
        rcases mem_add.1 hx' with rfl | hx'
        · exact hx.1 rfl
        · exact hdisjoint x hx.2 hx'
      · rw [mem_drop, ne_eq, hsame names hw, lastChange_append, h.writes names hw]
        by_cases heq : rel = names <;> simp [heq]
      · rw [mem_add, hsame names hw, lastChange_append, h.deletes names hw]
        by_cases heq : rel = names <;> simp [heq]

theorem head_trim (h : text.head? = some '/') : (trim text).head? = some '/' := by
  obtain ⟨tail, rfl⟩ : ∃ tail, text = '/' :: tail := by
    cases text with
    | nil => cases h
    | cons c tail => exact ⟨tail, by rw [Option.some.inj h]⟩
  have hslash : isWhitespace '/' = false := by decide
  unfold trim
  rw [List.dropWhile_cons_of_neg (by rw [hslash]; exact Bool.false_ne_true), List.reverse_cons,
    List.dropWhile_append]
  split
  · rw [List.dropWhile_cons_of_neg (by rw [hslash]; exact Bool.false_ne_true)]
    rfl
  · simp

/-- The line of a name is taken apart as it was written. -/
theorem line_eq (host : Host) (sets : Sets) (op : Op) (text : Text) :
    sets.line host (op.char :: '\t' :: text) =
      if trim text = [] then sets
      else if !startsUp (host.rel (resolve host.cwd (trim text))) &&
          (host.rel (resolve host.cwd (trim text))).head? ≠ some '/' then
        sets.note host [op.char] (host.rel (resolve host.cwd (trim text)))
      else if op = .denied then
        { sets with denied := add ('/' :: joined (resolve host.cwd (trim text))) sets.denied }
      else sets := by
  have hop : (op.char :: '\t' :: text).takeWhile (· ≠ '\t') = [op.char] := by cases op <;> rfl
  have hdenied : [op.char] = ['E'] ↔ op = .denied := by cases op <;> decide
  unfold Sets.line
  simp only [hop, hdenied, List.length_singleton, List.drop_succ_cons, List.drop_zero]
  rw [if_neg (by simp)]

/-- A line of a name that is found says what was done to its file. -/
theorem Faithful.line (h : Faithful host touches sets) {op : Op} (hop : op ≠ .denied)
    {a : PathArg} (hhead : text.head? = some '/')
    (hplace : below host.absRoot host.realRoot (Place.of (trim text)).names = host.inside a.file)
    (hdots : ∀ names, host.inside a.file = some names → ∀ name ∈ names.head?, ¬ ['.', '.'] <+: name) :
    Faithful host (touches ++ [(op, a.file)]) (sets.line host (op.char :: '\t' :: text)) := by
  have htrim := head_trim hhead
  have hne : trim text ≠ [] := by
    intro hnil
    rw [hnil] at htrim
    cases htrim
  have hresolve : resolve host.cwd (trim text) = (Place.of (trim text)).names := by
    unfold resolve Place.of
    rw [htrim]
    rfl
  rw [line_eq, if_neg hne, hresolve]
  cases hinside : host.inside a.file with
  | none =>
    rw [startsUp_rel (hplace.trans hinside), if_neg (by simp), if_neg hop]
    refine h.outside op fun names hw heq => ?_
    unfold Host.inside below at hinside
    rw [heq, if_pos (List.prefix_append _ _)] at hinside
    cases hinside
  | some rel =>
    obtain ⟨hrel, hnames⟩ := rel_eq fileName_of (hplace.trans hinside) (hdots rel hinside)
    obtain ⟨hup, habs⟩ := not_startsUp hnames (hdots rel hinside)
    rw [hrel, hup, if_pos (by simpa using habs)]
    have hfile : a.file = host.realRoot ++ rel := by
      unfold Host.inside below at hinside
      split at hinside
      · rename_i hpre
        cases hinside
        obtain ⟨rest, hrest⟩ := hpre
        rw [← hrest, List.drop_left]
      · cases hinside
    rw [hfile]
    exact h.note hop hnames

theorem Faithful.deniedLine (h : Faithful host touches sets) (text : Text) :
    Faithful host touches (sets.line host (Op.denied.char :: '\t' :: text)) := by
  rw [line_eq]
  split
  · exact h
  · split
    · unfold Sets.note
      split
      · exact h
      · exact h.denied _
    · exact h.denied _

/-! ## The whole trace -/

/-- What a line stands for. -/
def touched (r : Op × PathArg) : List (Op × List Text) :=
  if r.1 = .denied then [] else [(r.1, r.2.file)]

theorem openRecords_touched (write : Bool) (outcome : Outcome) (arg : PathArg) :
    (openRecords write outcome arg).flatMap touched =
      if outcome = .done then [(if write then .write else .read, arg.file)] else [] := by
  cases outcome <;> cases write <;> rfl

theorem touches_eq {e : Event} (h : e.call.OneWay) : e.touches = e.records.flatMap touched := by
  obtain ⟨call, outcome⟩ := e
  cases call with
  | openat arg flags =>
    have hreads : readsFlags flags = !isWrite flags := h
    unfold Event.records Event.touches
    rw [openRecords_touched]
    cases outcome <;> cases hwrite : isWrite flags <;> simp [hreads, hwrite]
  | fopen arg mode =>
    have hreads : readsMode mode = !isWriteMode mode := h
    unfold Event.records Event.touches
    rw [openRecords_touched]
    cases outcome <;> cases hwrite : isWriteMode mode <;> simp [hreads, hwrite]
  | unlinkat | renameat => cases outcome <;> rfl

/-- The record is no denial and its file is found, or its line is legible. -/
def RecordTraced (host : Host) (tracePath : Bytes) (r : Op × PathArg) : Prop :=
  if r.1 = .denied then ∃ text, Legible r.2 text else Found host tracePath r.2

/-- The text of a record: a line, or nothing for noise. -/
theorem record_line {tracePath : Bytes} {r : Op × PathArg} (hr : RecordTraced host tracePath r)
    (h : Faithful host touches sets) :
    (traceVfsEvent tracePath r.1 r.2 = [] ∧ Faithful host (touches ++ touched r) sets) ∨
      ∃ line, '\n' ∉ line ∧ traceVfsEvent tracePath r.1 r.2 = utf8 (line ++ ['\n']) ∧
        Faithful host (touches ++ touched r) (sets.line host line) := by
  obtain ⟨op, a⟩ := r
  have hone : ∀ {text : Text}, '\n' ∉ text → '\n' ∉ op.char :: '\t' :: text := by
    intro text htext
    simp only [List.mem_cons, not_or]
    exact ⟨by cases op <;> decide, by decide, htext⟩
  unfold RecordTraced at hr
  by_cases hop : op = .denied
  · subst hop
    obtain ⟨text, hnames, hline⟩ := hr
    rw [traceVfsEvent_eq tracePath _ hnames]
    have hnothing : touches ++ touched (.denied, a) = touches := List.append_nil _
    rw [hnothing]
    split
    · exact .inl ⟨rfl, h⟩
    · exact .inr ⟨_, hone hline, rfl, h.deniedLine text⟩
  · rw [if_neg hop] at hr
    obtain ⟨text, ⟨hnames, hline⟩, hfound⟩ := hr
    have htouched : touched (op, a) = [(op, a.file)] := if_neg hop
    rw [traceVfsEvent_eq tracePath _ hnames, htouched]
    split
    · rename_i hnoise
      rw [if_pos hnoise] at hfound
      refine .inl ⟨rfl, h.outside op fun names hw heq => ?_⟩
      unfold Host.inside below at hfound
      rw [heq, if_pos (List.prefix_append _ _)] at hfound
      cases hfound
    · rename_i hnoise
      rw [if_neg hnoise] at hfound
      exact .inr ⟨_, hone hline, rfl, h.line hop hfound.1 hfound.2.1 hfound.2.2⟩

/-- The lines of a trace are those of its records, one after the other. -/
theorem Faithful.records {tracePath : Bytes} {records : List (Op × PathArg)}
    (hrecords : ∀ r ∈ records, RecordTraced host tracePath r) (h : Faithful host touches sets) :
    ∃ text, records.flatMap (fun r => traceVfsEvent tracePath r.1 r.2) = utf8 text ∧
      Faithful host (touches ++ records.flatMap touched)
        ((splitAtChar '\n' text).foldl (Sets.line host) sets) := by
  induction records generalizing touches sets with
  | nil =>
    refine ⟨[], rfl, ?_⟩
    have hempty : sets.line host [] = sets := rfl
    simpa [splitAtChar, hempty] using h
  | cons r records ih =>
    have hrest := fun r hr => hrecords r (.tail _ hr)
    simp only [List.flatMap_cons]
    rw [← List.append_assoc]
    obtain ⟨hnone, hnext⟩ | ⟨line, hone, hline, hnext⟩ :=
      record_line (hrecords r List.mem_cons_self) h
    · obtain ⟨text, htext, hfaithful⟩ := ih hrest hnext
      exact ⟨text, by rw [hnone, List.nil_append, htext], hfaithful⟩
    · obtain ⟨text, htext, hfaithful⟩ := ih hrest hnext
      refine ⟨line ++ '\n' :: text, ?_, ?_⟩
      · rw [hline, htext, ← utf8_append, List.append_assoc]
        rfl
      · rw [splitAtChar_sep, splitAtChar_self hone]
        exact hfaithful

theorem Faithful.sorted (h : Faithful host touches sets) :
    Faithful host touches { reads := Trace.sorted sets.reads, writes := Trace.sorted sets.writes,
                            deletes := Trace.sorted sets.deletes, denied := Trace.sorted sets.denied } := by
  have hmem : ∀ {x : Text} {set : List Text}, x ∈ Trace.sorted set ↔ x ∈ set := List.mem_mergeSort
  refine ⟨fun rel hw hd => ?_, fun names hw => ?_, fun names hw => ?_, fun names hw hdir hread => ?_⟩
  · exact h.disjoint rel (hmem.1 hw) (hmem.1 hd)
  · exact hmem.trans (h.writes names hw)
  · exact hmem.trans (h.deletes names hw)
  · exact hmem.2 (h.reads names hw hdir hread)

/-- Where every call is traced, the sets say what was last done to every file of the workspace. -/
theorem parse_trace (host : Host) (tracePath : Bytes) (events : List Event)
    (h : ∀ e ∈ events, e.Traced host tracePath) :
    Faithful host (events.flatMap Event.touches)
      (parseSyscallTraceFile host (some (trace tracePath events))) := by
  have hempty : Faithful host [] {} := ⟨nofun, fun _ _ => ⟨nofun, nofun⟩, fun _ _ => ⟨nofun, nofun⟩, nofun⟩
  have htouches : events.flatMap Event.touches = (events.flatMap Event.records).flatMap touched := by
    rw [List.flatMap_assoc]
    exact List.flatMap_congr fun e he => touches_eq (h e he).1
  have hrecords : ∀ r ∈ events.flatMap Event.records, RecordTraced host tracePath r := by
    intro r hr
    obtain ⟨e, he, hr⟩ := List.mem_flatMap.1 hr
    exact (h e he).2 r hr
  obtain ⟨text, htext, hfaithful⟩ := Faithful.records hrecords hempty
  unfold parseSyscallTraceFile trace
  rw [htouches, htext]
  simp only [decode_utf8]
  exact hfaithful.sorted

/-- The full name of a file of the workspace `/w`. -/
def fullName (name : String) : PathArg :=
  ⟨.cwd, none, ascii "/w/" ++ ascii name, [['w'], name.toList]⟩

def opened (name : String) (flags : Nat) : Event := ⟨.openat (fullName name) flags, .done⟩

def sampleHost : Host := ⟨[], [['w']], [['w']], fun _ => false⟩

theorem opened_traced {name : String} {flags : Nat} (hways : readsFlags flags = !isWrite flags)
    (htext : text = '/' :: 'w' :: '/' :: name.toList) (hshort : (utf8 text).length < 4096)
    (hline : '\n' ∉ text) (hnoise : isNoisePath (utf8 text) (ascii "/t") = false)
    (hplace : (Place.of (trim text)).names = [['w'], name.toList])
    (hdots : ¬ ['.', '.'] <+: name.toList) :
    (opened name flags).Traced sampleHost (ascii "/t") := by
  refine ⟨hways, fun r hr => ?_⟩
  obtain ⟨op, hop, rfl⟩ : ∃ op, op ≠ .denied ∧ r = (op, fullName name) := by
    rw [List.mem_singleton.1 hr]
    cases isWrite flags
    · exact ⟨.read, by decide, rfl⟩
    · exact ⟨.write, by decide, rfl⟩
  have hpath : ascii "/w/" ++ ascii name = utf8 text := by
    rw [htext]
    exact (utf8_append "/w/".toList name.toList).symm
  rw [if_neg hop]
  refine ⟨text, ⟨⟨hshort, .inl ⟨rfl, hpath.symm⟩⟩, hline⟩, ?_⟩
  rw [hnoise, if_neg Bool.false_ne_true, hplace, htext]
  refine ⟨rfl, rfl, fun names hnames name' hname' => ?_⟩
  cases hnames
  cases hname'
  exact hdots

theorem parse_trace_opened :
    Faithful sampleHost ([opened "a" O_WRONLY, opened "a" 0].flatMap Event.touches)
      (parseSyscallTraceFile sampleHost
        (some (trace (ascii "/t") [opened "a" O_WRONLY, opened "a" 0]))) := by
  refine parse_trace sampleHost (ascii "/t") [opened "a" O_WRONLY, opened "a" 0] fun e he => ?_
  simp only [List.mem_cons, List.not_mem_nil, or_false] at he
  obtain rfl | rfl := he
  · exact opened_traced  rfl rfl (by decide) (by decide) (by decide)
      (by decide) (by decide)
  · exact opened_traced  rfl rfl (by decide) (by decide) (by decide)
      (by decide) (by decide)

/-- A name that begins with two dots is taken for one that leads out of the workspace. -/
theorem dots_unseen :
    ¬ Faithful sampleHost ([opened "..env" O_WRONLY].flatMap Event.touches)
        (parseSyscallTraceFile sampleHost (some (trace (ascii "/t") [opened "..env" O_WRONLY]))) := by
  intro h
  have hwatched : Watched ["..env".toList] := by
    refine ⟨fun name hname => ?_, by decide⟩
    rw [List.mem_singleton.1 hname]
    exact ⟨by decide, by decide⟩
  have hmem := List.mem_mergeSort.1 ((h.writes _ hwatched).2 (by decide))
  revert hmem
  decide

end XioFlow.Trace
